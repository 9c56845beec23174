import CompanyBrain.Runs.MemoryRunStore

namespace CompanyBrain.Runs.Pg

open Foundations

structure Row where
  id : String
  sessionId : String
  status : RunStatus
  request : OrchestratorInput
  result : Option TurnResult
  idempotencyKey : Option String
  attempts : Nat
  errorAttempts : Nat
  maxAttempts : Int
  leaseToken : Option String
  leaseExpiresAt : Option Int
  workerId : Option String
  createdAt : Int
  startedAt : Option Int
  finishedAt : Option Int

structure ToolCall where
  runId : String
  attempt : Nat
  callIndex : Nat
  output : String
  createdAt : Int

def ToolCall.key (c : ToolCall) : String × Nat × Nat := (c.runId,c.attempt,c.callIndex)

structure Db where
  runs : Table Row.id
  toolCalls : Table ToolCall.key

structure Planner where
  order : List Row → List Row
  perm : ∀ rows, (order rows).Perm rows

def scanOrder : Planner := ⟨id,fun _ => .refl _⟩

def Db.empty : Db := ⟨.empty,.empty⟩

def rowToRun (r : Row) : Run where
  id := r.id
  sessionId := r.sessionId
  status := r.status
  request := r.request
  result := r.result
  dedupKey := r.idempotencyKey
  attempts := r.attempts
  errorAttempts := r.errorAttempts
  maxAttempts := r.maxAttempts
  leaseToken := r.leaseToken
  leaseExpiresAt := r.leaseExpiresAt
  workerId := r.workerId
  createdAt := r.createdAt
  startedAt := r.startedAt
  finishedAt := r.finishedAt

def sqlEq : Option String → Option String → Bool
  | some a, some b => a = b
  | _, _ => false

def sqlLe : Option Int → Option Int → Bool
  | some a, some b => decide (a ≤ b)
  | _, _ => false

section

variable (db : Db) (runId leaseToken : String) (result : TurnResult) (now : Int)

def Db.getRun (id : String) : Option Run := (db.runs.find? id).map rowToRun

def Db.update (id : String) (guard : Row → Bool) (f : Row → Row) : Db × Nat :=
  match db.runs.find? id with
  | none => (db,0)
  | some row => if guard row then ({db with runs := db.runs.set (f row)},1) else (db,0)

def insertedRow (input : EnqueueInput) (uuid : String) (now : Int) : Row where
  id := uuid
  sessionId := input.sessionId
  status := .pending
  request := input.request
  result := none
  idempotencyKey := input.dedupKey
  attempts := 0
  errorAttempts := 0
  maxAttempts := input.maxAttempts.getD 3
  leaseToken := none
  leaseExpiresAt := none
  workerId := none
  createdAt := now
  startedAt := none
  finishedAt := none

inductive Insertion where
  | inserted (row : Row)
  | nothing
  | uniqueViolation

def Db.insertRun (row : Row) : Db × Insertion :=
  if db.runs.rows.any (fun r => sqlEq r.idempotencyKey row.idempotencyKey) then (db,.nothing)
  else if (db.runs.find? row.id).isSome then (db,.uniqueViolation)
  else ({db with runs := db.runs.set row},.inserted row)

def Db.selectByKey (dedupKey : Option String) : Reply :=
  match db.runs.rows.find? (fun r => sqlEq r.idempotencyKey dedupKey) with
  | some row => .enqueued ⟨rowToRun row,true⟩
  | none => .threw

def Db.sessionRunning (sessionId : String) : Bool :=
  db.runs.rows.any (fun r => r.sessionId = sessionId && r.status = .running)

def Db.claimable (row : Row) : Bool :=
  row.status = .pending && !db.sessionRunning row.sessionId

def leasedRow (workerId : String) (ttlMs : Int) (token : String) (now : Int) (row : Row) : Row :=
  {row with
    status := .running
    leaseToken := some token
    leaseExpiresAt := some (now + ttlMs)
    workerId := some workerId
    attempts := row.attempts+1
    startedAt := some (row.startedAt.getD now)}

def Db.breaksRunningIndex (row : Row) : Bool :=
  db.runs.rows.any (fun r => r.id ≠ row.id && r.sessionId = row.sessionId && r.status = .running)

def Db.lease (candidate : Option Row) (workerId : String) (ttlMs : Int) (token : String)
    (now : Int) : Db × Option Run :=
  match candidate with
  | none => (db,none)
  | some row =>
    let row' := leasedRow workerId ttlMs token now row
    if db.breaksRunningIndex row' then (db,none)
    else ({db with runs := db.runs.set row'},some (rowToRun row'))

def Db.nextPending (plan : Planner) : Option Row :=
  ((plan.order (db.runs.rows.filter db.claimable)).insertionSort
    (fun a b => a.createdAt ≤ b.createdAt)).head?

def Db.pendingById (runId : String) : Option Row :=
  (db.runs.find? runId).filter db.claimable

def Db.claim (plan : Planner) (workerId : String) (ttlMs : Int) (token : String)
    (now : Int) : Db × Option Run :=
  db.lease (db.nextPending plan) workerId ttlMs token now

def Db.claimById (runId workerId : String) (ttlMs : Int) (token : String) (now : Int) : Db × Option Run :=
  db.lease (db.pendingById runId) workerId ttlMs token now

def heldRunning (leaseToken : String) (row : Row) : Bool :=
  sqlEq row.leaseToken (some leaseToken) && row.status = .running

def releasedRow (row : Row) : Row :=
  {row with status := .pending, leaseToken := none, leaseExpiresAt := none, workerId := none}

def completedRow (row : Row) : Row :=
  {row with
    status := .done
    result := some result
    leaseToken := none
    leaseExpiresAt := none
    finishedAt := some now}

def Db.heartbeat (ttlMs now : Int) : Db × Nat :=
  db.update runId (heldRunning leaseToken) (fun r => {r with leaseExpiresAt := some (now + ttlMs)})

def Db.releaseLease : Db × Nat :=
  db.update runId (heldRunning leaseToken) releasedRow

def Db.complete : Db × Nat :=
  db.update runId (fun r => sqlEq r.leaseToken (some leaseToken)) (completedRow result now)

def Db.failRead : Option Run :=
  (db.getRun runId).filter (fun run => run.leaseToken = some leaseToken)

section

variable (maxClaims : Option Int) (run : Run) (error : String) (retry countsAsError : Bool)

def errorAttemptsAfter (countsAsError : Bool) : Nat :=
  run.errorAttempts + if countsAsError then 1 else 0

def requeues : Bool :=
  retry && decide ((errorAttemptsAfter run countsAsError : Int) < run.maxAttempts) &&
    !overClaimed maxClaims run.attempts

def parkReason : String :=
  if !countsAsError && overClaimed maxClaims run.attempts && retry &&
      decide ((errorAttemptsAfter run countsAsError : Int) < run.maxAttempts)
  then crashLoopReason run.attempts else error

def retireGuard (ifExpiredAt : Option Int) (row : Row) : Bool :=
  sqlEq row.leaseToken run.leaseToken && row.status = .running &&
    (ifExpiredAt.isNone || sqlLe row.leaseExpiresAt ifExpiredAt)

def requeuedRow (countsAsError : Bool) (row : Row) : Row :=
  {releasedRow row with
    errorAttempts := row.errorAttempts + if countsAsError then 1 else 0}

def parkedRow (countsAsError : Bool) (row : Row) : Row :=
  {row with
    status := .failed
    result := some result
    leaseToken := none
    leaseExpiresAt := none
    workerId := none
    finishedAt := some now
    errorAttempts := row.errorAttempts + if countsAsError then 1 else 0}

structure Retired where
  db : Db
  requeued : Bool
  applied : Bool

def Db.retire (retry : Bool) (opts : RetireOptions) (now : Int) : Retired :=
  if requeues maxClaims run retry opts.countsAsError then
    let (db',rowCount) := db.update run.id (retireGuard run opts.ifExpiredAt) (requeuedRow opts.countsAsError)
    ⟨db',rowCount > 0,rowCount > 0⟩
  else
    let reason := parkReason maxClaims run error retry opts.countsAsError
    let (db',rowCount) := db.update run.id (retireGuard run opts.ifExpiredAt)
      (parkedRow (failedResult run.sessionId reason) now opts.countsAsError)
    ⟨db',false,rowCount > 0⟩

def Db.reapSelect (plan : Planner) (now : Int) : List Run :=
  (plan.order (db.runs.rows.filter (fun r =>
    r.status = .running && sqlLe r.leaseExpiresAt (some now)))).map rowToRun

structure Tally where
  requeued : Nat
  parked : Nat
  retiredSessionIds : List String
  events : List ReapEvent

def Tally.zero : Tally := ⟨0,0,[],[]⟩

def Tally.add (t : Tally) (run : Run) (requeued : Bool) : Tally where
  requeued := t.requeued + if requeued then 1 else 0
  parked := t.parked + if requeued then 0 else 1
  retiredSessionIds := t.retiredSessionIds ++ [run.sessionId]
  events := t.events ++ [⟨run.id,run.sessionId,run.workerId,run.attempts,run.errorAttempts,
    if requeued then .requeued else .parked⟩]

def Db.reapRetire (now : Int) (maxAgeMs : Option Int) (reading : Int) : Retired :=
  let old := tooOld run now maxAgeMs
  db.retire maxClaims run (reapReason old) (!old) ⟨some now,false⟩ reading

end

def Tally.count (t : Tally) (run : Run) (r : Retired) : Tally :=
  if r.applied then t.add run r.requeued else t

def Db.begin (runId : String) (attempt callIndex : Nat) : Option String :=
  (db.toolCalls.find? (runId,attempt,callIndex)).map ToolCall.output

def Db.record (runId : String) (attempt callIndex : Nat) (output : String) (now : Int) : Db :=
  if (db.toolCalls.find? (runId,attempt,callIndex)).isSome then db
  else {db with toolCalls := db.toolCalls.set ⟨runId,attempt,callIndex,output,now⟩}

end

end CompanyBrain.Runs.Pg
