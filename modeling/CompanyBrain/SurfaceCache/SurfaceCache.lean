import CompanyBrain.Foundations.History
import CompanyBrain.Foundations.JsText
import CompanyBrain.Foundations.Table
import Mathlib.Algebra.Order.Field.Rat

namespace CompanyBrain.SurfaceCache

open Foundations

inductive ContainerKind where
  | channel | dm | group

structure EventFile where
  fileId : String
  name : Option String
  mimetype : Option String

structure IngestEvent where
  container : String
  ts : String
  sub : Option String := none
  authorId : Option String := none
  authorName : Option String := none
  text : Option String := none
  mentions : Option (List (String × String)) := none
  self : Bool := false
  bot : Bool := false
  mentionsSelf : Bool := false
  editedAt : Option Nat := none
  deleted : Bool := false
  handled : Bool := false
  createdAt : Option Nat := none
  files : List EventFile := []
  members : List String := []
  containerName : Option String := none
  kind : Option ContainerKind := none

structure CachedMessage where
  container : String
  ts : String
  sub : Option String
  authorId : Option String
  authorName : Option String
  text : String
  mentions : Option (List (String × String))
  self : Bool
  bot : Bool
  mentionsSelf : Bool
  editedAt : Option Nat
  deleted : Bool
  handled : Bool
  createdAt : Nat

def CachedMessage.key (m : CachedMessage) : String × String := (m.container,m.ts)

structure CachedFile where
  container : String
  ts : String
  fileId : String
  name : Option String
  mimetype : Option String
  createdAt : Nat

def CachedFile.key (f : CachedFile) : String × String × String := (f.container,f.ts,f.fileId)

structure ContainerState where
  container : String
  lastTs : Option String
  oldestTs : Option String
  name : Option String
  kind : Option ContainerKind
  members : List String
  updatedAt : Nat

-- The order of texts and their reading as numbers, which the runtime and the database each have
-- their own of; a text that is no number has none.
structure Texts where
  above : String → String → Bool
  number : String → Option ℚ

structure Cache where
  messages : Table CachedMessage.key
  files : Table CachedFile.key
  state : Table ContainerState.container

def Cache.empty : Cache := ⟨.empty,.empty,.empty⟩

inductive CacheCall where
  | ingest (events : List IngestEvent) (now : Nat)
  | markHandled (container ts : String) (now : Nat)

def IngestEvent.time (e : IngestEvent) : Nat := e.editedAt.getD 0

def CachedMessage.time (m : CachedMessage) : Nat := m.editedAt.getD 0

def IngestEvent.skipped (e : IngestEvent) : Bool := e.container = "" || e.ts = ""

namespace MemoryCache

def merged (existing : Option CachedMessage) (e : IngestEvent) (now : Nat) : CachedMessage where
  container := e.container
  ts := e.ts
  sub := truthy (e.sub.or (existing.bind CachedMessage.sub))
  authorId := truthy (e.authorId.or (existing.bind CachedMessage.authorId))
  authorName := truthy (e.authorName.or (existing.bind CachedMessage.authorName))
  text := if e.deleted then (existing.map CachedMessage.text).getD "" else e.text.getD ""
  mentions :=
    if e.deleted then existing.bind CachedMessage.mentions else e.mentions.or (existing.bind CachedMessage.mentions)
  self := e.self || existing.any CachedMessage.self
  bot := e.bot || existing.any CachedMessage.bot
  mentionsSelf := e.mentionsSelf || existing.any CachedMessage.mentionsSelf
  editedAt :=
    let editedAt := max e.time ((existing.map CachedMessage.time).getD 0)
    if editedAt > 0 then some editedAt else none
  deleted := existing.any CachedMessage.deleted || e.deleted
  handled := e.handled || existing.any CachedMessage.handled
  createdAt := (existing.map CachedMessage.createdAt).getD (e.createdAt.getD now)

def accepts (existing : Option CachedMessage) (e : IngestEvent) : Bool :=
  existing.all fun m => e.deleted || m.time ≤ e.time

def ingestFile (files : Table CachedFile.key) (e : IngestEvent) (now : Nat) (f : EventFile) : Table CachedFile.key :=
  if f.fileId = "" || (files.find? (e.container,e.ts,f.fileId)).isSome then files
  else files.set ⟨e.container,e.ts,f.fileId,truthy f.name,truthy f.mimetype,e.createdAt.getD now⟩

def nextState (texts : Texts) (state : Option ContainerState) (e : IngestEvent) (now : Nat) : ContainerState :=
  let st := state.getD ⟨e.container,none,none,none,none,[],now⟩
  {st with
    lastTs := if (truthy st.lastTs).all (texts.above e.ts) then some e.ts else st.lastTs
    oldestTs :=
      match truthy st.oldestTs with
      | none => some e.ts
      | some oldest =>
        match texts.number e.ts, texts.number oldest with
        | some n, some o => if n < o then some e.ts else some oldest
        | _, _ => some oldest
    name := (truthy e.containerName).or st.name
    kind := e.kind.or st.kind
    members := if e.members.isEmpty then st.members else e.members.eraseDups
    updatedAt := now}

def ingestEvent (texts : Texts) (now : Nat) (cache : Cache × Nat) (e : IngestEvent) : Cache × Nat :=
  let (c,upserted) := cache
  if e.skipped then cache
  else
    let existing := c.messages.find? (e.container,e.ts)
    let accepted := accepts existing e
    ({messages := if accepted then c.messages.set (merged existing e now) else c.messages
      files := e.files.foldl (fun files f => ingestFile files e now f) c.files
      state := c.state.set (nextState texts (c.state.find? e.container) e now)},
      if accepted then upserted+1 else upserted)

def ingest (texts : Texts) (c : Cache) (events : List IngestEvent) (now : Nat) : Cache × Nat :=
  events.foldl (ingestEvent texts now) (c,0)

def handledMessage (existing : Option CachedMessage) (container ts : String) (now : Nat) : CachedMessage :=
  match existing with
  | some m => {m with handled := true}
  | none => ⟨container,ts,none,none,none,"",none,false,false,false,none,false,true,now⟩

def markHandled (c : Cache) (container ts : String) (now : Nat) : Cache :=
  {c with messages := c.messages.set (handledMessage (c.messages.find? (container,ts)) container ts now)}

def exec (texts : Texts) (c : Cache) : CacheCall → Cache
  | .ingest events now => (ingest texts c events now).1
  | .markHandled container ts now => markHandled c container ts now

end MemoryCache

namespace PostgresCache

def inserted (e : IngestEvent) (now : Nat) : CachedMessage where
  container := e.container
  ts := e.ts
  sub := e.sub
  authorId := e.authorId
  authorName := e.authorName
  text := e.text.getD ""
  mentions := e.mentions
  self := e.self
  bot := e.bot
  mentionsSelf := e.mentionsSelf
  editedAt := e.editedAt
  deleted := e.deleted
  handled := e.handled
  createdAt := e.createdAt.getD now

def updated (m excluded : CachedMessage) : CachedMessage :=
  {m with
    sub := excluded.sub.or m.sub
    authorId := excluded.authorId.or m.authorId
    authorName := excluded.authorName.or m.authorName
    text := if excluded.deleted then m.text else excluded.text
    mentions := if excluded.deleted then m.mentions else excluded.mentions.or m.mentions
    self := m.self || excluded.self
    bot := m.bot || excluded.bot
    mentionsSelf := m.mentionsSelf || excluded.mentionsSelf
    editedAt := some (max excluded.time m.time)
    deleted := m.deleted || excluded.deleted
    handled := m.handled || excluded.handled}

def upsert (existing : Option CachedMessage) (excluded : CachedMessage) : CachedMessage × Bool :=
  match existing with
  | none => (excluded,true)
  | some m =>
    if excluded.deleted || m.time ≤ excluded.time || excluded.handled then (updated m excluded,true) else (m,false)

def ingestFile (files : Table CachedFile.key) (e : IngestEvent) (now : Nat) (f : EventFile) : Table CachedFile.key :=
  if f.fileId = "" then files
  else
    match files.find? (e.container,e.ts,f.fileId) with
    | none => files.set ⟨e.container,e.ts,f.fileId,f.name,f.mimetype,e.createdAt.getD now⟩
    | some stored => files.set {stored with name := f.name, mimetype := f.mimetype}

-- None where a text is no number: the cast, and with it the transaction, fails.
def oldestTs (texts : Texts) (stored : Option String) (ts : String) : Option String :=
  match stored with
  | none => some ts
  | some oldest => do
    let n ← texts.number ts
    let o ← texts.number oldest
    return if n < o then ts else oldest

def nextState (texts : Texts) (state : Option ContainerState) (e : IngestEvent) (now : Nat) : Option ContainerState :=
  match state with
  | none => some ⟨e.container,some e.ts,some e.ts,e.containerName,e.kind,e.members,now⟩
  | some st => (oldestTs texts st.oldestTs e.ts).map fun oldest => {st with
      lastTs := some (match st.lastTs with
        | none => e.ts
        | some last => if texts.above e.ts last then e.ts else last)
      oldestTs := some oldest
      name := e.containerName.or st.name
      kind := e.kind.or st.kind
      members := if e.members.isEmpty then st.members else e.members
      updatedAt := now}

def ingestEvent (texts : Texts) (now : Nat) (cache : Cache × Nat) (e : IngestEvent) : Option (Cache × Nat) :=
  let (c,upserted) := cache
  if e.skipped then some cache
  else
    let (row,wrote) := upsert (c.messages.find? (e.container,e.ts)) (inserted e now)
    (nextState texts (c.state.find? e.container) e now).map fun st =>
      ({messages := c.messages.set row
        files := e.files.foldl (fun files f => ingestFile files e now f) c.files
        state := c.state.set st},
        if wrote then upserted+1 else upserted)

def ingest (texts : Texts) (c : Cache) (events : List IngestEvent) (now : Nat) : Option (Cache × Nat) :=
  events.foldlM (ingestEvent texts now) (c,0)

def handledRow (existing : Option CachedMessage) (container ts : String) (now : Nat) : CachedMessage :=
  match existing with
  | none => ⟨container,ts,none,none,none,"",none,false,false,false,none,false,true,now⟩
  | some m => {m with handled := true}

def markHandled (c : Cache) (container ts : String) (now : Nat) : Cache :=
  {c with messages := c.messages.set (handledRow (c.messages.find? (container,ts)) container ts now)}

def exec (texts : Texts) (c : Cache) : CacheCall → Cache
  | .ingest events now => ((ingest texts c events now).map Prod.fst).getD c
  | .markHandled container ts now => markHandled c container ts now

end PostgresCache

end CompanyBrain.SurfaceCache
