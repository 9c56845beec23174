import CompanyBrain.Runs.Run
import CompanyBrain.Foundations.History
import CompanyBrain.Foundations.JsText
import Mathlib.Data.List.Sort

namespace CompanyBrain.Runs

open Foundations

abbrev Clock := Nat → Int

abbrev Listener := Nat

inductive Op where
  | enqueue (input : EnqueueInput) (uuid : String)
  | claim (workerId : String) (ttlMs : Int) (uuid : String)
  | claimById (runId workerId : String) (ttlMs : Int) (uuid : String)
  | heartbeat (runId leaseToken : String) (ttlMs : Int)
  | releaseLease (runId leaseToken : String)
  | complete (runId leaseToken : String) (result : TurnResult)
  | fail (runId leaseToken error : String) (retry : Bool)
  | reapExpired (maxAgeMs : Option Int)
  | begin (runId : String) (attempt callIndex : Nat)
  | record (runId : String) (attempt callIndex : Nat) (output : String)

structure Call where
  op : Op
  clock : Clock

inductive Reply where
  | enqueued (result : EnqueueResult)
  | claimed (run : Option Run)
  | flag (ok : Bool)
  | requeued (ok : Bool)
  | reaped (requeued parked : Nat)
  | began (output : Option String)
  | recorded
  | threw
  deriving DecidableEq

def Op.drawn : Op → List String
  | .enqueue _ uuid => [uuid]
  | .claim _ _ uuid => [uuid]
  | .claimById _ _ _ uuid => [uuid]
  | _ => []

def Op.presents : Op → Option (String × String)
  | .heartbeat runId leaseToken _ => some (runId,leaseToken)
  | .releaseLease runId leaseToken => some (runId,leaseToken)
  | .complete runId leaseToken _ => some (runId,leaseToken)
  | .fail runId leaseToken _ _ => some (runId,leaseToken)
  | _ => none

def Op.refusal : Op → Reply
  | .fail _ _ _ _ => .requeued false
  | _ => .flag false

def drawn (calls : List Call) : List String := calls.flatMap (fun c => c.op.drawn)

def FreshIds (calls : List Call) : Prop := (drawn calls).Nodup

structure RetireOptions where
  ifExpiredAt : Option Int
  countsAsError : Bool

namespace Memory

structure Store where
  maxClaims : Option Int
  runs : Table Run.id
  byKey : Table (Prod.fst : String × String → String)
  ledger : Table (Prod.fst : String × String → String)
  terminalListeners : List Listener
  emitted : List (String × Run)
  called : List (Listener × Run)

def create (maxClaims : Option Int) (listeners : List Listener) : Store :=
  ⟨maxClaims,.empty,.empty,.empty,listeners,[],[]⟩

section

variable (s : Store) (run : Run) (workerId : String) (ttlMs : Int)

def Store.sessionHasRunning (sessionId : String) : Bool :=
  s.runs.rows.any (fun r => r.sessionId = sessionId && r.status = .running)

def Store.settle : Store :=
  if isTerminal run.status then
    {s with emitted := s.emitted ++ [(run.id,run)],
             called := s.called ++ s.terminalListeners.map (·,run)}
  else s

def Store.put : Store := {s with runs := s.runs.set run}

def Store.existing (dedupKey : Option String) : Option Run :=
  (truthy dedupKey).bind fun key =>
    (truthy ((s.byKey.find? key).map Prod.snd)).bind fun existingId => s.runs.find? existingId

section

variable (input : EnqueueInput) (uuid : String) (clock : Clock)

def newRun (now : Int) : Run where
  id := uuid
  sessionId := input.sessionId
  status := .pending
  request := input.request
  result := none
  dedupKey := input.dedupKey
  attempts := 0
  errorAttempts := 0
  maxAttempts := input.maxAttempts.getD 3
  leaseToken := none
  leaseExpiresAt := none
  workerId := none
  createdAt := now
  startedAt := none
  finishedAt := none

def Store.enqueue : Store × EnqueueResult :=
  match s.existing input.dedupKey with
  | some existing => (s,⟨existing,true⟩)
  | none =>
    let run := newRun input uuid (clock 0)
    let byKey := match truthy input.dedupKey with
      | some key => s.byKey.set (key,run.id)
      | none => s.byKey
    ({s.put run with byKey := byKey},⟨run,false⟩)

def leased : Run :=
  {run with
    status := .running
    leaseToken := some uuid
    leaseExpiresAt := some (clock 0 + ttlMs)
    workerId := some workerId
    attempts := run.attempts+1
    startedAt := some (run.startedAt.getD (clock 1))}

def Store.lease : Store × Option Run :=
  let run' := leased run workerId ttlMs uuid clock
  (s.put run',some run')

def Store.claimable : Bool :=
  run.status = .pending && !s.sessionHasRunning run.sessionId

def Store.claim : Store × Option Run :=
  let pending := (s.runs.rows.filter s.claimable).insertionSort
    (fun a b => a.createdAt ≤ b.createdAt)
  match pending.head? with
  | none => (s,none)
  | some run => s.lease run workerId ttlMs uuid clock

end

def Store.claimById (runId workerId : String) (ttlMs : Int) (uuid : String)
    (clock : Clock) : Store × Option Run :=
  match s.runs.find? runId with
  | none => (s,none)
  | some run => if s.claimable run then s.lease run workerId ttlMs uuid clock else (s,none)

def Store.heartbeat (runId leaseToken : String) (ttlMs : Int) (clock : Clock) : Store × Bool :=
  match s.runs.find? runId with
  | none => (s,false)
  | some run =>
    if run.status = .running ∧ run.leaseToken = some leaseToken then
      (s.put {run with leaseExpiresAt := some (clock 0 + ttlMs)},true)
    else (s,false)

def released : Run :=
  {run with status := .pending, leaseToken := none, leaseExpiresAt := none, workerId := none}

def Store.releaseLease (runId leaseToken : String) : Store × Bool :=
  match s.runs.find? runId with
  | none => (s,false)
  | some run =>
    if run.status = .running ∧ run.leaseToken = some leaseToken then (s.put (released run),true)
    else (s,false)

def completed (result : TurnResult) (now : Int) : Run :=
  {run with
    status := .done
    result := some result
    leaseToken := none
    leaseExpiresAt := none
    finishedAt := some now}

def Store.complete (runId leaseToken : String) (result : TurnResult) (clock : Clock) : Store × Bool :=
  match s.runs.find? runId with
  | none => (s,false)
  | some run =>
    if run.leaseToken = some leaseToken then
      let run' := completed run result (clock 0)
      ((s.put run').settle run',true)
    else (s,false)

def unleased (countsAsError : Bool) : Run :=
  {run with
    leaseToken := none
    leaseExpiresAt := none
    workerId := none
    errorAttempts := run.errorAttempts + if countsAsError then 1 else 0}

def retries (maxClaims : Option Int) (run : Run) (retry : Bool) : Bool :=
  retry && decide ((run.errorAttempts : Int) < run.maxAttempts) && !overClaimed maxClaims run.attempts

def parkReason (maxClaims : Option Int) (run : Run) (error : String) (retry countsAsError : Bool) : String :=
  if !countsAsError && overClaimed maxClaims run.attempts && retry &&
      decide ((run.errorAttempts : Int) < run.maxAttempts)
  then crashLoopReason run.attempts else error

def parked (reason : String) (now : Int) : Run :=
  {run with
    status := .failed
    result := some (failedResult run.sessionId reason)
    finishedAt := some now}

def retireBlocked (opts : RetireOptions) : Bool :=
  run.status ≠ .running || match opts.ifExpiredAt with
    | none => false
    | some t => match run.leaseExpiresAt with
      | none => true
      | some e => decide (t < e)

def Store.retire (error : String) (retry : Bool) (opts : RetireOptions) (now : Int) : Store × Bool × Bool :=
  if retireBlocked run opts then (s,false,false)
  else
    let freed := unleased run opts.countsAsError
    if retries s.maxClaims freed retry then
      (s.put {freed with status := .pending},true,true)
    else
      let run' := parked freed (parkReason s.maxClaims freed error retry opts.countsAsError) now
      ((s.put run').settle run',false,true)

def Store.fail (runId leaseToken error : String) (retry : Bool) (clock : Clock) : Store × Bool :=
  match s.runs.find? runId with
  | none => (s,false)
  | some run =>
    if run.leaseToken = some leaseToken then
      let (s',requeued,_) := s.retire run error retry ⟨none,true⟩ (clock 0)
      (s',requeued)
    else (s,false)

structure Sweep where
  store : Store
  requeued : Nat
  parked : Nat
  retiredSessionIds : List String
  events : List ReapEvent

def Sweep.reap (w : Sweep) (now : Int) (maxAgeMs : Option Int) (clock : Clock) (runId : String) : Sweep :=
  match w.store.runs.find? runId with
  | none => w
  | some run =>
    let old := tooOld run now maxAgeMs
    let (s',requeued,applied) :=
      w.store.retire run (reapReason old) (!old) ⟨some now,false⟩ (clock (w.events.length+1))
    if applied then
      {store := s'
       requeued := w.requeued + if requeued then 1 else 0
       parked := w.parked + if requeued then 0 else 1
       retiredSessionIds := w.retiredSessionIds ++ [run.sessionId]
       events := w.events ++ [⟨run.id,run.sessionId,run.workerId,run.attempts,
         run.errorAttempts,if requeued then .requeued else .parked⟩]}
    else w

def Store.expired (now : Int) : List String :=
  (s.runs.rows.filter (leaseLapsed · now)).map Run.id

def Store.reapExpired (maxAgeMs : Option Int) (clock : Clock) : Sweep :=
  let now := clock 0
  (s.expired now).foldl (fun w id => w.reap now maxAgeMs clock id) ⟨s,0,0,[],[]⟩

def ledgerKey (runId : String) (attempt callIndex : Nat) : String :=
  runId ++ ":" ++ toString attempt ++ ":" ++ toString callIndex

def Store.begin (runId : String) (attempt callIndex : Nat) : Option String :=
  (s.ledger.find? (ledgerKey runId attempt callIndex)).map Prod.snd

def Store.record (runId : String) (attempt callIndex : Nat) (output : String) : Store :=
  {s with ledger := s.ledger.set (ledgerKey runId attempt callIndex,output)}

def Store.exec (c : Call) : Store × Reply :=
  match c.op with
  | .enqueue input uuid => (s.enqueue input uuid c.clock).map id .enqueued
  | .claim workerId ttlMs uuid => (s.claim workerId ttlMs uuid c.clock).map id .claimed
  | .claimById runId workerId ttlMs uuid =>
    (s.claimById runId workerId ttlMs uuid c.clock).map id .claimed
  | .heartbeat runId leaseToken ttlMs => (s.heartbeat runId leaseToken ttlMs c.clock).map id .flag
  | .releaseLease runId leaseToken => (s.releaseLease runId leaseToken).map id .flag
  | .complete runId leaseToken result => (s.complete runId leaseToken result c.clock).map id .flag
  | .fail runId leaseToken error retry =>
    (s.fail runId leaseToken error retry c.clock).map id .requeued
  | .reapExpired maxAgeMs =>
    let w := s.reapExpired maxAgeMs c.clock
    (w.store,.reaped w.requeued w.parked)
  | .begin runId attempt callIndex => (s,.began (s.begin runId attempt callIndex))
  | .record runId attempt callIndex output => (s.record runId attempt callIndex output,.recorded)

def Store.step (c : Call) : Store := (s.exec c).1

end

end Memory

end CompanyBrain.Runs
