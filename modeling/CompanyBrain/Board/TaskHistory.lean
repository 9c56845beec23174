import CompanyBrain.Board.Claims

namespace CompanyBrain.Board

open Foundations Table

def Post.work (p : Post) : WorkStatus := p.status.getD .opened

def updatesOf (board : BoardData) (taskId : String) : List WorkUpdate :=
  board.updates.rows.filter fun u => u.taskId = taskId

def closings (board : BoardData) (postId : String) : Nat :=
  (board.events.filter fun e => e.kind = .postClosed && e.postId = postId).length

structure RowSound (updates : List WorkUpdate) (closings : Nat) (p : Post) : Prop where
  finished : p.type = .task → (p.closedAt.isSome ↔ p.work = .done ∨ p.work = .closed)
  submitted : p.type = .task → p.work = .review → ∃ u ∈ updates, u.kind = .submitted
  accepted : p.type = .task → p.work = .done → ∃ earlier u, updates = earlier ++ [u] ∧
    u.kind = .accepted ∧ ∃ v ∈ earlier, v.kind = .submitted
  events : closings = if p.closedAt.isSome then 1 else 0

structure TasksSound (board : BoardData) : Prop where
  rows : ∀ p ∈ board.posts, RowSound (updatesOf board p.id) (closings board p.id) p
  known : ∀ e ∈ board.events, ∃ p ∈ board.posts, p.id = e.postId

inductive Allowed (taskId : String) : Call → WorkStatus → WorkStatus → Prop
  | advance (kind : UpdateKind) (body : Text) (actor : Actor) (updateId : String) (source : WorkStatus)
      (allowed : source ∈ (NEXT kind).source) :
      Allowed taskId (.advanceWork taskId kind body actor updateId) source (NEXT kind).target
  | close (repoId : Nat) (actor : Actor) (resolution : Option Text) (source : WorkStatus)
      (allowed : source ∈ [WorkStatus.opened,.working,.changes]) :
      Allowed taskId (.closePost taskId repoId actor resolution) source .closed

structure TaskMoves (c : Call) (board board' : BoardData) : Prop where
  kept : ∀ p ∈ board.posts, ∃ p' ∈ board'.posts, p'.id = p.id
  allowed : ∀ p ∈ board.posts, ∀ p' ∈ board'.posts, p'.id = p.id → p.type = .task →
    p'.work ≠ p.work → Allowed p.id c p.work p'.work
  finished : ∀ p ∈ board.posts, ∀ p' ∈ board'.posts, p'.id = p.id → p.type = .task →
    (p.work = .done ∨ p.work = .closed) → p' = p
  review : ∀ p ∈ board.posts, ∀ p' ∈ board'.posts, p'.id = p.id → p.type = .task →
    p.work = .review → p'.work ≠ .review →
    ∃ kind body actor updateId, c = .advanceWork p.id kind body actor updateId ∧
      (kind = .accepted ∧ p'.work = .done ∨ kind = .changes ∧ p'.work = .changes)

section

variable {board board' : BoardData} {c : Call} {time : Nat}

theorem updatesOf_set {u : WorkUpdate} (fresh : board.updates.find? u.id = none) (taskId : String) :
    updatesOf {board with updates := board.updates.set u} taskId =
      updatesOf board taskId ++ if u.taskId = taskId then [u] else [] := by
  rw [updatesOf,set_rows_of_new fresh]
  by_cases here : u.taskId = taskId <;> simp [updatesOf,here]

theorem closings_recordEvent (repoId : Nat) (kind : EventKind) (postId : String) (type : PostType)
    (title : Text) (actor : Actor) (id : String) :
    closings (recordEvent board repoId time kind postId type title actor) id =
      closings board id + if kind = .postClosed ∧ postId = id then 1 else 0 := by
  rw [recordEvent]
  by_cases here : kind = .postClosed ∧ postId = id
  · simp [closings,here]
  · have other : (decide (kind = .postClosed) && decide (postId = id)) = false := by
      simpa [not_and] using here
    simp [closings,here]

variable {actor : Actor}

theorem closings_recordEvent_other {repoId : Nat} {kind : EventKind} {postId : String} {type : PostType} {title : Text}
    (other : kind ≠ .postClosed) (id : String) :
    closings (recordEvent board repoId time kind postId type title actor) id = closings board id := by
  rw [closings_recordEvent,if_neg fun here => other here.1,Nat.add_zero]

theorem mem_recordEvent {repoId : Nat} {kind : EventKind} {postId : String} {type : PostType} {title : Text} :
    ∀ e ∈ (recordEvent board repoId time kind postId type title actor).events, e ∈ board.events ∨ e.postId = postId :=
  forall_snoc (fun _ old => .inl old) (.inr rfl)

theorem closings_unknown {id : String} (sound : TasksSound board) (fresh : board.posts.find? id = none) :
    closings board id = 0 := by
  rw [closings,List.length_eq_zero_iff,List.filter_eq_nil_iff]
  intro e he here
  obtain ⟨p,hp,same⟩ := sound.known e he
  simp only [Bool.and_eq_true,decide_eq_true_eq] at here
  exact find?_eq_none.mp fresh p hp (same.trans here.2)

theorem TasksSound.write (sound : TasksSound board) (row : Post) (posts : board'.posts = board.posts.set row)
    (updates : ∀ id ≠ row.id, updatesOf board' id = updatesOf board id)
    (closed : ∀ id ≠ row.id, closings board' id = closings board id)
    (rowSound : RowSound (updatesOf board' row.id) (closings board' row.id) row)
    (events : ∀ e ∈ board'.events, e ∈ board.events ∨ e.postId = row.id) : TasksSound board' where
  rows := by
    intro p hp
    rw [posts] at hp
    rcases mem_set.mp hp with rfl | ⟨old,other⟩
    · exact rowSound
    · rw [updates p.id other,closed p.id other]
      exact sound.rows p old
  known := by
    intro e he
    rw [posts]
    rcases events e he with old | written
    · exact exists_set (sound.known e old) fun _ _ here same => here.symm.trans same
    · exact ⟨row,mem_set_self _ _,written.symm⟩

variable {updates : List WorkUpdate} {p : Post}

theorem RowSound.of_same {n : Nat} {q : Post} (sound : RowSound updates n p) (type : q.type = p.type)
    (closedAt : q.closedAt = p.closedAt) (status : q.status = p.status) : RowSound updates n q := by
  obtain ⟨finished,submitted,accepted,events⟩ := sound
  rw [← type,← closedAt] at finished
  rw [← type] at submitted accepted
  rw [← closedAt] at events
  have work : q.work = p.work := by rw [Post.work,Post.work,status]
  rw [← work] at finished submitted accepted
  exact ⟨finished,submitted,accepted,events⟩

theorem inserted_sound (sound : TasksSound board) (input : NewPost) {row : Post}
    (fresh : board.posts.find? row.id = none) (closedAt : row.closedAt = none) (status : row.status = none) :
    TasksSound (inserted board input row time) := by
  have work : row.work = .opened := by rw [Post.work,status]; rfl
  have count (id : String) : closings (inserted board input row time) id = closings board id :=
    closings_recordEvent_other (by decide) id
  refine sound.write row rfl (fun _ _ => rfl) (fun id _ => count id) ⟨?_,?_,?_,?_⟩ ?_
  · intro _
    simp [closedAt,work]
  · intro _ review
    rw [work] at review
    cases review
  · intro _ done
    rw [work] at done
    cases done
  · rw [count,closings_unknown sound fresh]
    simp [closedAt]
  · exact mem_recordEvent

theorem closed_work (row : Post) (task : row.type = .task) (uid : Nat) (resolution : Option Text) :
    (closed row uid resolution time).work = .closed := by
  simp [Post.work,closed,task]

theorem closed_sound (sound : TasksSound board) {row : Post} (mem : row ∈ board.posts) (actor : Actor)
    (repoId : Nat) (resolution : Option Text) (unclosed : row.closedAt = none) :
    TasksSound (recordEvent {board with posts := board.posts.set (closed row actor.uid resolution time)}
      repoId time .postClosed row.id row.type row.title actor) := by
  have was := (sound.rows row mem).events
  rw [unclosed] at was
  refine sound.write (closed row actor.uid resolution time) rfl (fun _ _ => rfl) ?_ ⟨?_,?_,?_,?_⟩ ?_
  · intro id other
    rw [closings_recordEvent,if_neg fun here => other here.2.symm]
    rfl
  · intro task
    rw [closed_work row task]
    simp [closed]
  · intro task review
    rw [closed_work row task] at review
    cases review
  · intro task done
    rw [closed_work row task] at done
    cases done
  · rw [closings_recordEvent,if_pos ⟨rfl,rfl⟩]
    change closings board row.id+1 = 1
    rw [was]
    rfl
  · exact mem_recordEvent

variable {kind : UpdateKind}

theorem NEXT_review (review : (NEXT kind).target = .review) : kind = .submitted := by
  cases kind with
  | submitted => rfl
  | progress | accepted | changes => cases review

theorem NEXT_done (done : (NEXT kind).target = .done) : kind = .accepted := by
  cases kind with
  | accepted => rfl
  | progress | submitted | changes => cases done

theorem NEXT_not_closed (kind : UpdateKind) : (NEXT kind).target ≠ .closed := by
  cases kind <;> decide

theorem moved_sound (sound : TasksSound board) {task : Post} (mem : task ∈ board.posts) (type : task.type = .task)
    (unclosed : task.closedAt = none) (source : task.work ∈ (NEXT kind).source) {u : WorkUpdate}
    (about : u.taskId = task.id) (uKind : u.kind = kind) (fresh : board.updates.find? u.id = none) (body : Text)
    (actor : Actor) :
    TasksSound (moveTask {board with updates := board.updates.set u} task kind body actor time) := by
  have was := (sound.rows task mem).events
  rw [unclosed] at was
  have others (id : String) (other : id ≠ task.id) :
      updatesOf {board with updates := board.updates.set u} id = updatesOf board id := by
    rw [updatesOf_set fresh,if_neg (about ▸ other.symm),List.append_nil]
  have added : updatesOf {board with updates := board.updates.set u} task.id =
      updatesOf board task.id ++ [u] := by
    rw [updatesOf_set fresh,if_pos about]
  unfold moveTask
  split
  next done =>
    refine sound.write (accepted task actor.uid body time) rfl others ?_ ⟨?_,?_,?_,?_⟩ ?_
    · intro id other
      rw [closings_recordEvent,if_neg fun here => other here.2.symm]
      rfl
    · intro _
      exact ⟨fun _ => .inl rfl,fun _ => rfl⟩
    · intro _ review
      cases review
    · intro _ _
      obtain rfl := NEXT_done done
      have review : task.work = .review := List.mem_singleton.mp source
      exact ⟨updatesOf board task.id,u,added,uKind,(sound.rows task mem).submitted type review⟩
    · rw [closings_recordEvent,if_pos ⟨rfl,rfl⟩]
      change closings board task.id+1 = 1
      rw [was]
      rfl
    · exact mem_recordEvent
  next going =>
    refine sound.write {task with status := some (NEXT kind).target} rfl others (fun _ _ => rfl)
      ⟨?_,?_,?_,?_⟩ (fun e he => .inl he)
    · intro _
      simp [Post.work,unclosed,going,NEXT_not_closed kind]
    · intro _ review
      change ∃ v ∈ updatesOf {board with updates := board.updates.set u} task.id, v.kind = .submitted
      rw [added]
      exact ⟨u,by simp,uKind.trans (NEXT_review review)⟩
    · intro _ done
      exact absurd done going
    · change closings board task.id = if task.closedAt.isSome then 1 else 0
      rw [was,unclosed]

section

variable (change : Change board time c board')
include change

theorem tasksSound_change (sound : TasksSound board) : TasksSound board' := by
  cases change with
  | same => exact sound
  | claim input _ _ fresh | post input _ _ fresh => exact inserted_sound sound input fresh rfl rfl
  | renew _ _ existing _ found =>
    have row := sound.rows existing (existingClaim_some found).1
    exact sound.write _ rfl (fun _ _ => rfl) (fun _ _ => rfl) (row.of_same rfl rfl rfl) (fun e he => .inl he)
  | release _ _ _ row found =>
    obtain ⟨mem,rfl⟩ := find?_eq_some.mp found
    refine sound.write {row with releasedAt := some time} rfl (fun _ _ => rfl) ?_ ?_ ?_
    · exact fun other _ => closings_recordEvent_other (by decide) other
    · rw [closings_recordEvent_other (by decide)]
      exact (sound.rows row mem).of_same rfl rfl rfl
    · exact mem_recordEvent
  | close _ repoId actor _ _ found ready =>
    obtain ⟨mem,rfl⟩ := find?_eq_some.mp found
    simp only [closable,Bool.and_eq_true,decide_eq_true_eq] at ready
    exact closed_sound sound mem actor repoId _ ready.1.1.2
  | advance _ _ body actor _ _ found type unclosed source fresh =>
    obtain ⟨mem,rfl⟩ := find?_eq_some.mp found
    exact moved_sound sound mem type unclosed source rfl rfl fresh body actor

theorem posts_change :
    board'.posts = board.posts ∨ ∃ row, board'.posts = board.posts.set row := by
  cases change with
  | same => exact .inl rfl
  | claim | post | renew | release | close => exact .inr ⟨_,rfl⟩
  | advance taskId kind body actor updateId task =>
    obtain ⟨row,posts,_⟩ := moveTask_posts {board with
      updates := board.updates.set ⟨updateId,taskId,kind,cleanText body MAX_POST_BODY,actor,time⟩}
      task kind body actor time
    exact .inr ⟨row,posts⟩

theorem task_change (hp : p ∈ board.posts) (task : p.type = .task) :
    ∀ p' ∈ board'.posts, p'.id = p.id → p' = p ∨
      (p.closedAt = none ∧ p.work ≠ .review ∧ p'.work = .closed ∧
        ∃ repoId actor resolution, c = .closePost p.id repoId actor resolution) ∨
      (p.closedAt = none ∧ ∃ kind, p.work ∈ (NEXT kind).source ∧ p'.work = (NEXT kind).target ∧
        ∃ body actor updateId, c = .advanceWork p.id kind body actor updateId) := by
  have kept {Q : Post → Prop} (p' : Post) (old : p' ∈ board.posts) (id_eq : p'.id = p.id) : p' = p ∨ Q p' :=
    .inl (eq_of_key old hp id_eq)
  have notClaim {claim : Post} (mem : claim ∈ board.posts) (key : claim.id = p.id)
      (type : claim.type = .claim) : False := by
    rw [eq_of_key mem hp key,task] at type
    cases type
  cases change with
  | same => exact kept
  | claim _ _ _ fresh | post _ _ _ fresh =>
    exact forall_set (fun id_eq => absurd id_eq.symm (find?_eq_none.mp fresh p hp)) kept
  | renew _ _ _ _ found =>
    refine forall_set (fun id_eq => ?_) kept
    obtain ⟨mem,on⟩ := existingClaim_some found
    exact (notClaim mem id_eq (isActive_iff.mp (claimOn_iff.mp on).1).1).elim
  | release _ _ _ _ found _ type =>
    exact forall_set (fun id_eq => (notClaim (mem_of_find? found) id_eq type).elim) kept
  | close _ repoId actor resolution row found ready =>
    refine forall_set (fun id_eq => ?_) kept
    obtain ⟨mem,rfl⟩ := find?_eq_some.mp found
    obtain rfl : row = p := eq_of_key mem hp id_eq
    simp only [closable,Bool.and_eq_true,decide_eq_true_eq] at ready
    have working : row.work ≠ .review := by simpa [task,Post.work] using ready.2
    exact .inr (.inl ⟨ready.1.1.2,working,closed_work row task _ _,repoId,actor,resolution,rfl⟩)
  | advance _ kind body actor updateId post found _ unclosed source =>
    intro p' hp' id_eq
    rcases moveTask_mem p' hp' with old | ⟨moved,_,_,status⟩
    · exact .inl (eq_of_key old hp id_eq)
    · obtain ⟨mem,rfl⟩ := find?_eq_some.mp found
      obtain rfl : post = p := eq_of_key mem hp (moved.symm.trans id_eq)
      exact .inr (.inr ⟨unclosed,kind,source,by rw [Post.work,status]; rfl,body,actor,updateId,rfl⟩)

omit change in
theorem RowSound.work_closable {n : Nat} (row : RowSound updates n p) (task : p.type = .task)
    (unclosed : p.closedAt = none) (working : p.work ≠ .review) : p.work ∈ [WorkStatus.opened,.working,.changes] := by
  have finished := (row.finished task).not
  rw [unclosed] at finished
  have unfinished := finished.mp (by simp)
  revert working unfinished
  cases p.work <;> simp

theorem taskMoves_change (sound : TasksSound board) :
    TaskMoves c board board' where
  kept := by
    intro p hp
    rcases posts_change change with same | ⟨row,written⟩
    · exact ⟨p,same ▸ hp,rfl⟩
    · rw [written]
      exact exists_set ⟨p,hp,rfl⟩ fun _ _ here same => here.symm.trans same
  allowed := by
    intro p hp p' hp' id_eq task moved
    rcases task_change change hp task p' hp' id_eq with rfl | ⟨unclosed,working,work,repoId,actor,res,rfl⟩ |
      ⟨unclosed,kind,source,work,body,actor,updateId,rfl⟩
    · exact absurd rfl moved
    · rw [work]
      exact .close repoId actor res p.work ((sound.rows p hp).work_closable task unclosed working)
    · rw [work]
      exact .advance kind body actor updateId p.work source
  finished := by
    intro p hp p' hp' id_eq task done
    have closedAt := ((sound.rows p hp).finished task).mpr done
    rcases task_change change hp task p' hp' id_eq with same | ⟨unclosed,_⟩ | ⟨unclosed,_⟩
    · exact same
    · rw [unclosed] at closedAt
      cases closedAt
    · rw [unclosed] at closedAt
      cases closedAt
  review := by
    intro p hp p' hp' id_eq task review moved
    rcases task_change change hp task p' hp' id_eq with rfl | ⟨_,working,_⟩ |
      ⟨_,kind,source,work,body,actor,updateId,rfl⟩
    · exact absurd review moved
    · exact absurd review working
    · refine ⟨kind,body,actor,updateId,rfl,?_⟩
      rw [review] at source
      cases kind with
      | accepted => exact .inl ⟨rfl,work⟩
      | changes => exact .inr ⟨rfl,work⟩
      | progress | submitted => simp [NEXT] at source

end

theorem tasksSound_run (log : List (Call × Nat)) : TasksSound (run boardCalls.serial BoardData.empty log) := by
  induction log using List.reverseRecOn with
  | nil => exact ⟨fun _ hp => (nomatch hp),fun _ he => nomatch he⟩
  | append_singleton _ e ih =>
    rw [run_append]
    exact tasksSound_change (serial_change _ e.1 e.2) ih

end

structure TaskStep (s : BoardState) (a : LockStep Call) : Prop where
  moves : ∀ h ∈ s.held, a = .commit h.id → TaskMoves h.call s.data (boardCalls.step s a).data
  others : (∀ h ∈ s.held, a ≠ .commit h.id) → (boardCalls.step s a).data = s.data

theorem taskStep_of_serialised {s : BoardState} (inv : boardCalls.Serialised BoardData.empty s)
    (sound : TasksSound s.data) (a : LockStep Call) : TaskStep s a where
  moves := by
    rintro h mem rfl
    rcases boardCalls.step_data s (.commit h.id) with same | ⟨h',time,commits,mem',_,data⟩
    · rw [same]
      have unchanged : Change s.data s.clock h.call s.data := .same h.call
      exact taskMoves_change unchanged sound
    · obtain rfl : h' = h := eq_of_key mem' mem (LockStep.commit.inj commits).symm
      rw [data,inv.seen h' mem]
      exact taskMoves_change (serial_change s.data h'.call time) sound
  others := by
    intro other
    rcases boardCalls.step_data s a with same | ⟨h,_,commits,mem,_⟩
    · exact same
    · exact absurd commits (other h mem)

theorem tasks_follow_table (clock : Nat) (actions : List (LockStep Call)) :
    TasksSound (run boardCalls.step (Transactions.opened BoardData.empty clock) actions).data ∧
      ∀ a, TaskStep (run boardCalls.step (Transactions.opened BoardData.empty clock) actions) a := by
  have inv := boardCalls.serialised boardCalls_isolated BoardData.empty clock actions
  have sound := tasksSound_run (run boardCalls.step (Transactions.opened BoardData.empty clock) actions).log
  rw [← inv.data_eq] at sound
  exact ⟨sound,taskStep_of_serialised inv sound⟩

end CompanyBrain.Board
