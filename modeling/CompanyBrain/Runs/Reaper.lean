import CompanyBrain.Runs.ClaimBudget
import CompanyBrain.Sessions.MemorySessionStore

namespace CompanyBrain.Runs

open Foundations

structure Claim where
  runId : String
  leaseToken : String
deriving DecidableEq

structure ReleaseJob where
  retired : List Claim
  left : List String
  target : Option String

structure ForcedRelease where
  retired : List Claim
  lease : Sessions.HeldLease
  onBehalf : Option Claim

structure World where
  runs : Memory.Store
  sessions : Sessions.Store
  owners : Table (Prod.fst : String × Option Claim → String)
  jobs : List ReleaseJob
  released : List ForcedRelease

inductive WorldAct where
  | call (c : Call)
  | openSession (req : Sessions.OpenRequest) (uuid : String) (clock : Clock)
  | acquire (sessionId : String) (holder : Option Sessions.LeaseHolder) (onBehalf : Option Claim)
      (uuid : String) (clock : Clock)
  | release (lease : Sessions.Lease)
  | append (lease : Sessions.Lease) (entry : Sessions.NewEntry) (clock : Clock)
  | advance (n : Nat)

def World.start (maxClaims : Option Int) (listeners : List Listener) (leaseTtlMs : Option Int) : World :=
  ⟨Memory.create maxClaims listeners,Sessions.create leaseTtlMs,.empty,[],[]⟩

def Memory.Store.lapsedClaims (s : Memory.Store) (now : Int) : List Claim :=
  (s.runs.rows.filter (leaseLapsed · now)).filterMap fun r =>
    r.leaseToken.map (Claim.mk r.id ·)

def Memory.Store.releaseJobs (s : Memory.Store) (c : Call) : List ReleaseJob :=
  match c.op with
  | .reapExpired maxAgeMs =>
    let w := s.reapExpired maxAgeMs c.clock
    if w.retiredSessionIds = [] then []
    else [⟨s.lapsedClaims (c.clock 0),w.retiredSessionIds.eraseDups,none⟩]
  | _ => []

def World.ownerOf (w : World) (sessionId : String) : Option Claim :=
  (w.owners.find? sessionId).bind Prod.snd

def World.advance (w : World) (n : Nat) (job : ReleaseJob) : World :=
  match job.target with
  | some sessionId =>
    {w with
      sessions := w.sessions.forceReleaseLease sessionId
      jobs := w.jobs.set n {job with left := job.left.tail, target := none}
      released := w.released ++ ((w.sessions.leases.find? sessionId).map
        (⟨job.retired,·,w.ownerOf sessionId⟩)).toList}
  | none =>
    match job.left with
    | [] => w
    | threadRef :: rest =>
      match w.sessions.getByThread threadRef with
      | some session => {w with jobs := w.jobs.set n {job with target := some session.id}}
      | none => {w with jobs := w.jobs.set n {job with left := rest}}

def World.step (w : World) : WorldAct → World
  | .call c =>
    {w with runs := w.runs.step c, jobs := w.jobs ++ w.runs.releaseJobs c}
  | .openSession req uuid clock =>
    {w with sessions := (w.sessions.getOrCreateByThread req uuid clock).1}
  | .acquire sessionId holder onBehalf uuid clock =>
    let (sessions,attempt) := w.sessions.acquireLease sessionId holder uuid clock
    {w with
      sessions := sessions
      owners := if attempt.lease.isSome then w.owners.set (sessionId,onBehalf) else w.owners}
  | .release lease => {w with sessions := w.sessions.releaseLease lease}
  | .append lease entry clock => {w with sessions := (w.sessions.append lease entry clock).1}
  | .advance n =>
    match w.jobs[n]? with
    | none => w
    | some job => w.advance n job

def WorldAct.calls : WorldAct → List Call
  | .call c => [c]
  | _ => []

def WorldAct.opens : WorldAct → List String
  | .openSession _ uuid _ => [uuid]
  | _ => []

structure FreshWorld (acts : List WorldAct) : Prop where
  runs : FreshIds (acts.flatMap WorldAct.calls)
  sessions : (acts.flatMap WorldAct.opens).Nodup
  real : "" ∉ acts.flatMap WorldAct.opens

def World.pending (w : World) (threadRef : String) : Prop :=
  ∃ job ∈ w.jobs, threadRef ∈ job.left

def Memory.Store.live (s : Memory.Store) (k : Claim) (threadRef : String) : Prop :=
  ∃ r ∈ s.runs, r.id = k.runId ∧ r.leaseToken = some k.leaseToken ∧ r.sessionId = threadRef

def World.Orderly (w : World) : WorldAct → Prop
  | .call c =>
    (∀ maxAgeMs, c.op = .reapExpired maxAgeMs →
      ∀ r ∈ w.runs.runs, leaseLapsed r (c.clock 0) = true → ¬ w.pending r.sessionId) ∧
    (∀ id token, c.op.presents = some (id,token) → (∀ ttl, c.op ≠ .heartbeat id token ttl) →
      ∀ held ∈ w.sessions.leases, w.ownerOf held.sessionId ≠ some ⟨id,token⟩)
  | .acquire sessionId _ onBehalf _ _ =>
    ∃ k threadRef, onBehalf = some k ∧ w.runs.live k threadRef ∧
      (w.sessions.byThread.find? threadRef).map Prod.snd = some sessionId ∧ ¬ w.pending threadRef
  | _ => True

end CompanyBrain.Runs
