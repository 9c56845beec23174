import CompanyBrain.Runs.PostgresRunStore

namespace CompanyBrain.Runs.Pg

open Foundations

inductive Flow where
  | answered (reply : Reply)
  | lookup (dedupKey : Option String)
  | failing (maxClaims : Option Int) (run : Run) (error : String) (retry : Bool)
  | sweeping (maxClaims : Option Int) (now : Int) (maxAgeMs : Option Int) (left : List Run)
      (tally : Tally)
  | settling (runId : String) (next : Flow)

structure Outcome where
  db : Db
  flow : Flow
  ended : Option String

def Outcome.plain (db : Db) (reply : Reply) : Outcome := ⟨db,.answered reply,none⟩

def Db.start (db : Db) (maxClaims : Option Int) (plan : Planner) (c : Call) : Outcome :=
  let now := c.clock 0
  match c.op with
  | .enqueue input uuid =>
    match db.insertRun (insertedRow input uuid now) with
    | (db',.inserted row) => .plain db' (.enqueued ⟨rowToRun row,false⟩)
    | (db',.nothing) => ⟨db',.lookup input.dedupKey,none⟩
    | (db',.uniqueViolation) => .plain db' .threw
  | .claim workerId ttlMs uuid =>
    let (db',run) := db.claim plan workerId ttlMs uuid now
    .plain db' (.claimed run)
  | .claimById runId workerId ttlMs uuid =>
    let (db',run) := db.claimById runId workerId ttlMs uuid now
    .plain db' (.claimed run)
  | .heartbeat runId leaseToken ttlMs =>
    let (db',rowCount) := db.heartbeat runId leaseToken ttlMs now
    .plain db' (.flag (rowCount > 0))
  | .releaseLease runId leaseToken =>
    let (db',rowCount) := db.releaseLease runId leaseToken
    .plain db' (.flag (rowCount > 0))
  | .complete runId leaseToken result =>
    let (db',rowCount) := db.complete runId leaseToken result now
    if rowCount > 0 then ⟨db',.settling runId (.answered (.flag true)),some runId⟩
    else .plain db' (.flag false)
  | .fail runId leaseToken error retry =>
    match db.failRead runId leaseToken with
    | none => .plain db (.requeued false)
    | some run => ⟨db,.failing maxClaims run error retry,none⟩
  | .reapExpired maxAgeMs =>
    ⟨db,.sweeping maxClaims now maxAgeMs (db.reapSelect plan now) .zero,none⟩
  | .begin runId attempt callIndex => .plain db (.began (db.begin runId attempt callIndex))
  | .record runId attempt callIndex output =>
    .plain (db.record runId attempt callIndex output now) .recorded

def Retired.then (r : Retired) (runId : String) (next : Flow) : Outcome :=
  if r.applied && !r.requeued then ⟨r.db,.settling runId next,some runId⟩
  else ⟨r.db,next,none⟩

def Flow.resume (db : Db) (reading : Int) : Flow → Outcome
  | .answered reply => .plain db reply
  | .lookup dedupKey => .plain db (db.selectByKey dedupKey)
  | .failing maxClaims run error retry =>
    let r := db.retire maxClaims run error retry ⟨none,true⟩ reading
    r.then run.id (.answered (.requeued r.requeued))
  | .sweeping _ _ _ [] tally => .plain db (.reaped tally.requeued tally.parked)
  | .sweeping maxClaims now maxAgeMs (run :: left) tally =>
    let r := db.reapRetire maxClaims run now maxAgeMs reading
    r.then run.id (.sweeping maxClaims now maxAgeMs left (tally.count run r))
  | .settling _ next => ⟨db,next,none⟩

def Flow.announces (db : Db) : Flow → Option Run
  | .settling runId _ => (db.getRun runId).filter (fun run => isTerminal run.status)
  | _ => none

structure System where
  db : Db
  calls : List Flow
  ended : List (Nat × String)
  announced : List Run

def System.init : System := ⟨.empty,[],[],[]⟩

inductive Act where
  | call (maxClaims : Option Int) (plan : Planner) (c : Call)
  | resume (n : Nat) (reading : Int)

def Act.drawn : Act → List String
  | .call _ _ c => c.op.drawn
  | .resume _ _ => []

def System.apply (s : System) (n : Nat) (o : Outcome) (calls : List Flow) (news : Option Run) : System where
  db := o.db
  calls := calls
  ended := s.ended ++ (o.ended.map (n,·)).toList
  announced := s.announced ++ news.toList

def System.step (s : System) : Act → System
  | .call maxClaims plan c =>
    let o := s.db.start maxClaims plan c
    s.apply s.calls.length o (s.calls ++ [o.flow]) none
  | .resume n reading =>
    match s.calls[n]? with
    | none => s
    | some flow =>
      let o := flow.resume s.db reading
      s.apply n o (s.calls.set n o.flow) (flow.announces s.db)

def System.endedCalls (s : System) (id : String) : List (Nat × String) :=
  s.ended.filter (fun e => e.2 = id)

def Db.holds (db : Db) (id token : String) : Bool :=
  (db.runs.find? id).any (fun row => row.leaseToken = some token)

def drawnTokens (acts : List Act) : List String := acts.flatMap Act.drawn

def FreshTokens (acts : List Act) : Prop := (drawnTokens acts).Nodup

end CompanyBrain.Runs.Pg
