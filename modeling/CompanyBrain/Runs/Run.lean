import CompanyBrain.Foundations.Table

namespace CompanyBrain.Runs

inductive RunStatus where
  | pending | running | done | failed
deriving DecidableEq

inductive TurnStatus where
  | ok | refused | failed | pendingApproval | queued | silent | react
deriving DecidableEq

structure TurnResult where
  status : TurnStatus
  sessionId : Option String
  reply : Option String
  reason : Option String
deriving DecidableEq

inductive TurnOrigin where
  | human (messageTs entryTs : Option String)
  | ambient (entryTs : Option String) (live : Bool)
  | automation (screenData : Option String) (useOwnerKeychain : Bool)
  | direct
deriving DecidableEq

structure OrchestratorInput where
  text : String
  origin : TurnOrigin
deriving DecidableEq

structure Run where
  id : String
  sessionId : String
  status : RunStatus
  request : OrchestratorInput
  result : Option TurnResult
  dedupKey : Option String
  attempts : Nat
  errorAttempts : Nat
  maxAttempts : Int
  leaseToken : Option String
  leaseExpiresAt : Option Int
  workerId : Option String
  createdAt : Int
  startedAt : Option Int
  finishedAt : Option Int
deriving DecidableEq

structure EnqueueInput where
  sessionId : String
  request : OrchestratorInput
  dedupKey : Option String
  maxAttempts : Option Int

structure EnqueueResult where
  run : Run
  deduped : Bool
deriving DecidableEq

inductive ReapOutcome where
  | requeued | parked

structure ReapEvent where
  runId : String
  sessionId : String
  workerId : Option String
  attempts : Nat
  errorAttempts : Nat
  outcome : ReapOutcome

def isTerminal : RunStatus → Bool
  | .done => true
  | .failed => true
  | _ => false

def overClaimed (maxClaims : Option Int) (attempts : Nat) : Bool :=
  match maxClaims with
  | none => false
  | some m => decide (m ≤ attempts)

def errorParks (run : Run) (maxClaims : Option Int) : Bool :=
  decide (run.maxAttempts ≤ run.errorAttempts+1) || overClaimed maxClaims run.attempts

def leaseLapsed (run : Run) (asOf : Int) : Bool :=
  run.status = .running && match run.leaseExpiresAt with
    | none => false
    | some e => decide (e ≤ asOf)

def tooOld (run : Run) (now : Int) (maxAgeMs : Option Int) : Bool :=
  match maxAgeMs, run.startedAt with
  | some age, some started => decide (age < now - started)
  | _, _ => false

def reapReason (old : Bool) : String :=
  if old then "run exceeded max age (reaped)" else "lease expired (reaped)"

def crashLoopReason (attempts : Nat) : String :=
  "run parked after " ++ toString attempts ++ " claims without completing (suspected crash loop)"

def failedResult (sessionId reason : String) : TurnResult :=
  ⟨.failed,some sessionId,none,some reason⟩

end CompanyBrain.Runs
