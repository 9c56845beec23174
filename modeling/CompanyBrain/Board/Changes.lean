import CompanyBrain.Board.Work

namespace CompanyBrain.Board

open Foundations Table

def claimTarget (input : NewPost) : Text := normaliseTarget (input.target.getD [])

def claimExpiry (input : NewPost) (time : Nat) : Nat := time + claimMinutes input.ttlMinutes * 60000

def claimRow (input : NewPost) (id : String) (time : Nat) : Post :=
  newRow input.cleaned id (some (claimTarget input)) time (some (claimExpiry input time))

def postRow (input : NewPost) (id : String) (time : Nat) : Post :=
  newRow input.cleaned id input.target time none

def inserted (board : BoardData) (input : NewPost) (row : Post) (time : Nat) : BoardData :=
  recordEvent {board with posts := board.posts.set row} input.repoId time .postCreated row.id row.type
    row.title input.actor

inductive Change (board : BoardData) (time : Nat) : Call → BoardData → Prop
  | same (c : Call) : Change board time c board
  | claim (input : NewPost) (id : String) (type : input.type = .claim)
      (fresh : board.posts.find? id = none)
      (free : existingClaim board input.repoId (claimTarget input) time = none) :
      Change board time (.addPost input id) (inserted board input (claimRow input id time) time)
  | post (input : NewPost) (id : String) (type : input.type ≠ .claim)
      (fresh : board.posts.find? id = none) :
      Change board time (.addPost input id) (inserted board input (postRow input id time) time)
  | renew (input : NewPost) (id : String) (existing : Post) (type : input.type = .claim)
      (found : existingClaim board input.repoId (claimTarget input) time = some existing)
      (author : existing.authorUid = input.authorUid) (client : existing.client = input.client) :
      Change board time (.addPost input id)
        {board with posts := board.posts.set (renewed input.cleaned (claimExpiry input time) existing)}
  | release (id : String) (repoId : Nat) (actor : Actor) (row : Post)
      (found : board.posts.find? id = some row) (repo : row.repoId = repoId) (type : row.type = .claim)
      (unreleased : row.releasedAt = none) :
      Change board time (.releaseClaim id repoId actor)
        (recordEvent {board with posts := board.posts.set {row with releasedAt := some time}} repoId
          time .claimReleased id .claim row.title actor)
  | close (id : String) (repoId : Nat) (actor : Actor) (resolution : Option Text) (row : Post)
      (found : board.posts.find? id = some row)
      (closable : closable row repoId (resolution.map (cleanText · MAX_POST_BODY)) = true) :
      Change board time (.closePost id repoId actor resolution) (recordEvent {board with
            posts := board.posts.set (closed row actor.uid (resolution.map (cleanText · MAX_POST_BODY)) time)}
          repoId time .postClosed id row.type row.title actor)
  | advance (taskId : String) (kind : UpdateKind) (body : Text) (actor : Actor) (updateId : String)
      (task : Post) (found : board.posts.find? taskId = some task) (type : task.type = .task)
      (unclosed : task.closedAt = none) (source : task.status.getD .opened ∈ (NEXT kind).source)
      (fresh : board.updates.find? updateId = none) :
      Change board time (.advanceWork taskId kind body actor updateId) (moveTask {board with
            updates := board.updates.set ⟨updateId,taskId,kind,cleanText body MAX_POST_BODY,actor,time⟩}
          task kind body actor time)

section

variable {board : BoardData} {time : Nat}

theorem insertPost_cases (input : NewPost) (row : Post) : (insertPost board input.cleaned row).1 = board ∨
      (board.posts.find? row.id = none ∧
        (insertPost board input.cleaned row).1 = inserted board input row row.createdAt) := by
  unfold insertPost
  split
  · exact .inl rfl
  next fresh => exact .inr ⟨by simpa using fresh,rfl⟩

theorem addPost_change (input : NewPost) (id : String) :
    Change board time (.addPost input id) (addPost board input id time).1 := by
  simp only [addPost]
  split
  · exact .same _
  · split
    next type =>
      split
      next existing found =>
        split
        · exact .same _
        next mine =>
          rw [not_or,not_not,not_not] at mine
          exact .renew input id existing type found mine.1 mine.2
      next free =>
        split
        · exact .same _
        · rcases insertPost_cases input (claimRow input id time) with same | ⟨fresh,done⟩
          · exact same ▸ .same _
          · exact done ▸ .claim input id type fresh free
    next type =>
      rcases insertPost_cases input (postRow input id time) with same | ⟨fresh,done⟩
      · exact same ▸ .same _
      · exact done ▸ .post input id type fresh

theorem releaseClaim_change (id : String) (repoId : Nat) (actor : Actor) :
    Change board time (.releaseClaim id repoId actor) (releaseClaim board id repoId actor time).1 := by
  unfold releaseClaim
  split
  next row found =>
    split
    next ready => exact .release id repoId actor row found ready.1 ready.2.1 ready.2.2
    · exact .same _
  · exact .same _

theorem closePost_change (id : String) (repoId : Nat) (actor : Actor) (resolution : Option Text) :
    Change board time (.closePost id repoId actor resolution) (closePost board id repoId actor resolution time).1 := by
  simp only [closePost]
  split
  next row found =>
    split
    next ready => exact .close id repoId actor resolution row found ready
    · exact .same _
  · exact .same _

variable {taskId : String}

theorem lockTask_eq_some {task : Post} :
    lockTask board taskId = some task ↔ board.posts.find? taskId = some task ∧ task.type = .task := by
  simp [lockTask]

theorem advanceWork_change (taskId : String) (kind : UpdateKind) (body : Text) (actor : Actor) (updateId : String) :
    Change board time (.advanceWork taskId kind body actor updateId)
      (advanceWork board (lockTask board taskId) taskId kind body actor updateId time).1 := by
  unfold advanceWork
  split
  · exact .same _
  next task locked =>
    obtain ⟨found,type⟩ := lockTask_eq_some.mp locked
    split
    · exact .same _
    next unclosed =>
      split
      · exact .same _
      next source =>
        split
        · exact .same _
        · split
          · exact .same _
          next fresh =>
            exact .advance taskId kind body actor updateId task found type (not_not.mp unclosed)
              (not_not.mp source) (by simpa using fresh)

theorem serial_change (board : BoardData) (c : Call) (time : Nat) :
    Change board time c (boardCalls.serial board (c,time)) := by
  cases c with
  | addPost input id => exact addPost_change input id
  | releaseClaim id repoId actor => exact releaseClaim_change id repoId actor
  | closePost id repoId actor resolution => exact closePost_change id repoId actor resolution
  | advanceWork taskId kind body actor updateId => exact advanceWork_change taskId kind body actor updateId

theorem existingClaim_some {repoId : Nat} {target : Text} {existing : Post}
    (found : existingClaim board repoId target time = some existing) :
    existing ∈ board.posts ∧ claimOn repoId target time existing := by
  have mem := List.mem_of_head? found
  rw [List.mem_mergeSort,List.mem_filter] at mem
  exact mem

theorem existingClaim_none {repoId : Nat} {target : Text}
    (free : existingClaim board repoId target time = none) {p : Post} (hp : p ∈ board.posts) :
    claimOn repoId target time p = false := by
  rw [existingClaim,List.head?_eq_none_iff] at free
  by_contra taken
  have mem : p ∈ board.posts.rows.filter (claimOn repoId target time) :=
    List.mem_filter.mpr ⟨hp,by simpa using taken⟩
  rw [← List.mem_mergeSort,free] at mem
  cases mem

theorem lockTask_set {row : Post} (other : row.id ≠ taskId) :
    lockTask {board with posts := board.posts.set row} taskId = lockTask board taskId := by
  simp only [lockTask,find?_set,if_neg other.symm]

theorem lockTask_set_claim {taskId : String} {row claim : Post} (mem : claim ∈ board.posts)
    (same : row.id = claim.id) (was : claim.type = .claim) (now : row.type = .claim) :
    lockTask {board with posts := board.posts.set row} taskId = lockTask board taskId := by
  by_cases here : row.id = taskId
  · have found : board.posts.find? taskId = some claim := find?_eq_some.mpr ⟨mem,same ▸ here⟩
    simp [lockTask,find?_set,Option.filter,here,found,was,now]
  · exact lockTask_set here

theorem moveTask_posts (board : BoardData) (task : Post) (kind : UpdateKind) (body : Text) (actor : Actor)
    (time : Nat) :
    ∃ row, (moveTask board task kind body actor time).posts = board.posts.set row ∧ row.id = task.id := by
  unfold moveTask
  split
  · exact ⟨accepted task actor.uid body time,rfl,rfl⟩
  · exact ⟨{task with status := some (NEXT kind).target},rfl,rfl⟩

theorem lockTask_change {c : Call} {board' : BoardData} (change : Change board time c board')
    (held : Key.row taskId ∉ c.locks) (written : Key.row taskId ∉ c.rows) :
    lockTask board' taskId = lockTask board taskId := by
  cases change with
  | same => rfl
  | claim | post => exact lockTask_set fun same => written (same ▸ List.mem_singleton.mpr rfl)
  | renew _ _ existing type found =>
    obtain ⟨mem,on⟩ := existingClaim_some found
    have claim : existing.type = .claim := by
      simp only [claimOn,Post.isActive,Bool.and_eq_true,decide_eq_true_eq] at on
      exact on.1.1.1.1
    exact lockTask_set_claim mem rfl claim claim
  | release _ _ _ _ found _ type =>
    exact lockTask_set_claim (mem_of_find? found) rfl type type
  | close id _ _ _ row found =>
    have key : row.id = id := key_of_find? found
    exact lockTask_set fun same => written ((key.symm.trans same) ▸ List.mem_singleton.mpr rfl)
  | advance id kind body actor updateId task found =>
    have key : task.id = id := key_of_find? found
    obtain ⟨row,posts,rowId⟩ := moveTask_posts {board with
      updates := board.updates.set ⟨updateId,id,kind,cleanText body MAX_POST_BODY,actor,time⟩}
      task kind body actor time
    have other : row.id ≠ taskId := by
      rw [rowId,key]
      exact fun same => held (same ▸ List.mem_singleton.mpr rfl)
    simp only [lockTask,posts,find?_set,if_neg other.symm]

end

theorem boardCalls_isolated : boardCalls.Isolated := by
  rintro c ⟨c',time⟩ board locks rows
  cases c with
  | addPost | releaseClaim | closePost => rfl
  | advanceWork =>
    exact lockTask_change (serial_change board c' time) (locks _ (List.mem_singleton.mpr rfl))
      (rows _ (List.mem_singleton.mpr rfl))

end CompanyBrain.Board
