import CompanyBrain.Board.Posts
import CompanyBrain.Foundations.Locking

namespace CompanyBrain.Board

open Foundations

inductive WorkResult where
  | ok (status : WorkStatus)
  | notFound
  | wrongState
  | updateQuota

structure WorkStep where
  source : List WorkStatus
  target : WorkStatus

def NEXT : UpdateKind → WorkStep
  | .progress => ⟨[.opened,.working,.changes],.working⟩
  | .submitted => ⟨[.opened,.working,.changes],.review⟩
  | .accepted => ⟨[.review],.done⟩
  | .changes => ⟨[.review],.changes⟩

def lockTask (board : BoardData) (taskId : String) : Option Post :=
  (board.posts.find? taskId).filter fun row => row.type = .task

def countUpdates (board : BoardData) (taskId : String) : Nat :=
  (board.updates.rows.filter fun u => u.taskId = taskId).length

def orAccepted (resolution : Text) : Text := if resolution = [] then "Accepted".toList else resolution

def accepted (task : Post) (uid : Nat) (body : Text) (time : Nat) : Post :=
  {task with
    status := some .done
    closedAt := some time
    closedBy := some uid
    resolution := some (orAccepted (cleanText body MAX_POST_BODY))}

def moveTask (board : BoardData) (task : Post) (kind : UpdateKind) (body : Text) (actor : Actor) (time : Nat) :
    BoardData :=
  if (NEXT kind).target = .done then
    recordEvent {board with posts := board.posts.set (accepted task actor.uid body time)} task.repoId time
      .postClosed task.id .task task.title actor
  else {board with posts := board.posts.set {task with status := some (NEXT kind).target}}

-- `task` is the row that SELECT ... FOR UPDATE returned when the transaction started.
def advanceWork (board : BoardData) (task : Option Post) (taskId : String) (kind : UpdateKind) (body : Text)
    (actor : Actor) (updateId : String) (time : Nat) : BoardData × Except String WorkResult :=
  match task with
  | none => (board,.ok .notFound)
  | some task =>
    if task.closedAt ≠ none then (board,.ok .notFound)
    else if task.status.getD .opened ∉ (NEXT kind).source then (board,.ok .wrongState)
    else if (kind = .progress ∨ kind = .submitted) ∧ MAX_UPDATES_PER_TASK ≤ countUpdates board taskId then
      (board,.ok .updateQuota)
    else if (board.updates.find? updateId).isSome then (board,.error "work_updates_pkey")
    else
      let update : WorkUpdate := ⟨updateId,taskId,kind,cleanText body MAX_POST_BODY,actor,time⟩
      (moveTask {board with updates := board.updates.set update} task kind body actor time,
        .ok (.ok (NEXT kind).target))

inductive Key where
  | user (uid : Nat)
  | repo (repoId : Nat)
  | row (id : String)
deriving DecidableEq

inductive Call where
  | addPost (input : NewPost) (id : String)
  | releaseClaim (id : String) (repoId : Nat) (actor : Actor)
  | closePost (id : String) (repoId : Nat) (actor : Actor) (resolution : Option Text)
  | advanceWork (taskId : String) (kind : UpdateKind) (body : Text) (actor : Actor) (updateId : String)

def Call.locks : Call → List Key
  | .addPost input _ => [.user input.authorUid,.repo input.repoId]
  | .releaseClaim _ repoId _ => [.repo repoId]
  | .closePost _ repoId _ _ => [.repo repoId]
  | .advanceWork taskId _ _ _ _ => [.row taskId]

def Call.rows : Call → List Key
  | .addPost _ id => [.row id]
  | .releaseClaim id _ _ => [.row id]
  | .closePost id _ _ _ => [.row id]
  | .advanceWork _ _ _ _ _ => []

def Call.view : Call → BoardData → Option Post
  | .advanceWork taskId _ _ _ _, board => lockTask board taskId
  | _, _ => none

def Call.effect : Call → Option Post → Nat → BoardData → BoardData
  | .addPost input id, _, time, board => (Board.addPost board input id time).1
  | .releaseClaim id repoId actor, _, time, board => (Board.releaseClaim board id repoId actor time).1
  | .closePost id repoId actor resolution, _, time, board =>
    (Board.closePost board id repoId actor resolution time).1
  | .advanceWork taskId kind body actor updateId, task, time, board =>
    (Board.advanceWork board task taskId kind body actor updateId time).1

def boardCalls : Transactions BoardData Call Key (Option Post) := ⟨Call.locks,Call.rows,Call.view,Call.effect⟩

end CompanyBrain.Board
