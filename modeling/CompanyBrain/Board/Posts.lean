import CompanyBrain.Board.Untrusted

namespace CompanyBrain.Board

open Foundations

inductive PostType where
  | task | claim | finding | handoff | decision
deriving DecidableEq

inductive WorkStatus where
  | opened | working | review | changes | done | closed
deriving DecidableEq

inductive UpdateKind where
  | progress | submitted | accepted | changes
deriving DecidableEq

inductive EventKind where
  | postCreated | claimReleased | postClosed
deriving DecidableEq

structure Actor where
  uid : Nat
  login : String
  client : String

structure Post where
  id : String
  repoId : Nat
  repoName : String
  type : PostType
  title : Text
  body : Text
  target : Option Text
  recipient : Option String
  authorLogin : String
  authorUid : Nat
  client : String
  createdAt : Nat
  expiresAt : Option Nat
  releasedAt : Option Nat
  closedAt : Option Nat
  closedBy : Option Nat
  resolution : Option Text
  status : Option WorkStatus

structure BoardEvent where
  repoId : Nat
  time : Nat
  kind : EventKind
  postId : String
  postType : PostType
  title : Text
  actor : Actor

structure WorkUpdate where
  id : String
  taskId : String
  kind : UpdateKind
  body : Text
  author : Actor
  time : Nat

structure BoardData where
  posts : Table Post.id
  events : List BoardEvent
  updates : Table WorkUpdate.id

def BoardData.empty : BoardData := ⟨Table.empty,[],Table.empty⟩

def MAX_CLAIM_MINUTES : Int := 480
def DEFAULT_CLAIM_MINUTES : Int := 60
def POSTS_PER_HOUR : Nat := 60
def POSTS_PER_USER_PER_HOUR : Nat := 200
def ACTIVE_CLAIMS_PER_USER : Nat := 10
def HANDOFFS_PER_PAIR_PER_HOUR : Nat := 8
def MAX_POST_BODY : Nat := 20000
def MAX_UPDATES_PER_TASK : Nat := 200
def HOUR_MS : Nat := 3600000

structure NewPost where
  repoId : Nat
  repoName : String
  type : PostType
  title : Text
  body : Text
  target : Option Text
  addressee : Option String
  authorLogin : String
  authorUid : Nat
  client : String
  ttlMinutes : Option Int
  system : Bool

section

variable (board : BoardData) (p : NewPost) (createdAt : Nat)

def NewPost.actor : Actor := ⟨p.authorUid,p.authorLogin,p.client⟩

def NewPost.cleaned (input : NewPost) : NewPost :=
  {input with title := cleanLine input.title 200, body := cleanText input.body MAX_POST_BODY}

inductive AddResult where
  | ok (post : Post) (renewed : Bool)
  | conflict (post : Post)
  | postQuota
  | claimQuota
  | handoffLoop

def splitSlashes : Text → List Text
  | [] => [[]]
  | c :: t =>
    if c = '/' then [] :: splitSlashes t
    else
      match splitSlashes t with
      | [] => [[c]]
      | segment :: rest => (c :: segment) :: rest

def resolveSegments (segments : List Text) : List Text :=
  segments.foldl (fun kept segment =>
    if segment = [] ∨ segment = ['.'] then kept
    else if segment = ['.','.'] then kept.dropLast
    else kept ++ [segment]) []

-- posix.normalize of an absolute path
def normalizeAbsolute (path : Text) : Text :=
  let inner := joinWith ['/'] (resolveSegments (splitSlashes path))
  if inner = [] then ['/']
  else if path.getLast? = some '/' then '/' :: inner ++ ['/']
  else '/' :: inner

def isSlash (c : Char) : Bool := c = '/'

def normaliseTarget (target : Text) : Text :=
  let cleaned := (trim target).map fun c => if c = '\\' then '/' else c
  if !cleaned.any isSlash then cleaned
  else (((normalizeAbsolute ('/' :: cleaned)).dropWhile isSlash).reverse.dropWhile isSlash).reverse

def claimMinutes (ttlMinutes : Option Int) : Nat :=
  (min (max (ttlMinutes.getD DEFAULT_CLAIM_MINUTES) 1) MAX_CLAIM_MINUTES).toNat

def recordEvent (repoId time : Nat) (kind : EventKind) (postId : String)
    (postType : PostType) (title : Text) (actor : Actor) : BoardData :=
  {board with events := board.events ++ [⟨repoId,time,kind,postId,postType,title,actor⟩]}

def countPosts (test : Post → Bool) : Nat := (board.posts.rows.filter test).length

def postedLately (q : Post) : Bool :=
  q.authorUid = p.authorUid && createdAt < q.createdAt + HOUR_MS

def quotaRefusal : Option AddResult :=
  if p.system then none
  else if POSTS_PER_HOUR ≤ countPosts board fun q => q.repoId = p.repoId && postedLately p createdAt q then
    some .postQuota
  else if POSTS_PER_USER_PER_HOUR ≤ countPosts board (postedLately p createdAt) then some .postQuota
  else if p.type = .handoff && p.addressee.any (· ≠ "") && HANDOFFS_PER_PAIR_PER_HOUR ≤ countPosts board (fun q =>
      q.repoId = p.repoId && q.type = .handoff && q.recipient = p.addressee && postedLately p createdAt q) then
    some .handoffLoop
  else none

def Post.isActive (p : Post) (time : Nat) : Bool :=
  p.type = .claim && p.releasedAt = none && p.expiresAt.any (time < ·)

def claimOn (repoId : Nat) (target : Text) (time : Nat) (p : Post) : Bool :=
  p.isActive time && p.repoId = repoId && p.target = some target

def existingClaim (repoId : Nat) (target : Text) (createdAt : Nat) : Option Post :=
  ((board.posts.rows.filter (claimOn repoId target createdAt)).mergeSort
    fun a b => b.createdAt ≤ a.createdAt).head?

def claimRefusal : Option AddResult :=
  if !p.system && ACTIVE_CLAIMS_PER_USER ≤ countPosts board (fun q =>
      q.isActive createdAt && q.repoId = p.repoId && q.authorUid = p.authorUid) then
    some .claimQuota
  else none

def newRow (id : String) (target : Option Text) (createdAt : Nat) (expiresAt : Option Nat) : Post :=
  ⟨id,p.repoId,p.repoName,p.type,p.title,p.body,target,p.addressee,p.authorLogin,p.authorUid,
    p.client,createdAt,expiresAt,none,none,none,none,none⟩

def insertPost (row : Post) : BoardData × Except String AddResult :=
  if (board.posts.find? row.id).isSome then (board,.error "posts_pkey")
  else
    (recordEvent {board with posts := board.posts.set row} p.repoId row.createdAt .postCreated row.id
      row.type row.title p.actor,.ok (.ok row false))

def renewed (expiresAt : Nat) (existing : Post) : Post :=
  {existing with expiresAt := some expiresAt, title := p.title, body := p.body}

def addPost (input : NewPost) (id : String) (createdAt : Nat) : BoardData × Except String AddResult :=
  let p := input.cleaned
  match quotaRefusal board p createdAt with
  | some refused => (board,.ok refused)
  | none =>
    if p.type = .claim then
      let target := normaliseTarget (p.target.getD [])
      let expiresAt := createdAt + claimMinutes p.ttlMinutes * 60000
      match existingClaim board p.repoId target createdAt with
      | some existing =>
        if existing.authorUid ≠ p.authorUid ∨ existing.client ≠ p.client then
          (board,.ok (.conflict existing))
        else
          ({board with posts := board.posts.set (renewed p expiresAt existing)},
            .ok (.ok (renewed p expiresAt existing) true))
      | none =>
        match claimRefusal board p createdAt with
        | some refused => (board,.ok refused)
        | none => insertPost board p (newRow p id (some target) createdAt (some expiresAt))
    else insertPost board p (newRow p id p.target createdAt none)

def releaseClaim (id : String) (repoId : Nat) (actor : Actor) (time : Nat) : BoardData × Bool :=
  match board.posts.find? id with
  | some row =>
    if row.repoId = repoId ∧ row.type = .claim ∧ row.releasedAt = none then
      (recordEvent {board with posts := board.posts.set {row with releasedAt := some time}} repoId
        time .claimReleased id .claim row.title actor,true)
    else (board,false)
  | none => (board,false)

def answers (resolution : Option Text) : Bool := (resolution.getD []).any (· ≠ ' ')

def closable (row : Post) (repoId : Nat) (resolution : Option Text) : Bool :=
  row.repoId = repoId && row.type ≠ .claim && row.closedAt = none &&
    (row.type ≠ .decision || answers resolution) &&
    (row.type ≠ .task || row.status.getD .opened ≠ .review)

def closed (row : Post) (uid : Nat) (resolution : Option Text) (time : Nat) : Post :=
  {row with
    closedAt := some time
    closedBy := some uid
    resolution := resolution
    status := if row.type = .task then some .closed else row.status}

def closePost (id : String) (repoId : Nat) (actor : Actor) (resolution : Option Text)
    (time : Nat) : BoardData × Bool :=
  let resolution := resolution.map (cleanText · MAX_POST_BODY)
  match board.posts.find? id with
  | some row =>
    if closable row repoId resolution then
      (recordEvent {board with posts := board.posts.set (closed row actor.uid resolution time)} repoId
        time .postClosed id row.type row.title actor,true)
    else (board,false)
  | none => (board,false)

end

end CompanyBrain.Board
