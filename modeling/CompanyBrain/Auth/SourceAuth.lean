import Mathlib.Algebra.Order.Field.Rat
import Mathlib.Algebra.Order.Group.Unbundled.Abs
import CompanyBrain.Foundations.JsText
import CompanyBrain.Foundations.Table

namespace CompanyBrain.Auth

open Foundations

structure Signer where
  signRequest : Text → ℚ → Text → Text
  timestamp_eq : ∀ {secret timestamp body secret' timestamp' body'},
    signRequest secret timestamp body = signRequest secret' timestamp' body' → timestamp = timestamp'

structure SourceAuthRequest where
  signature : Text
  timestamp : Option ℚ
  body : Text
  eventId : Text

inductive SourceAuthResult where
  | ok
  | rejected (reason : Text)
deriving DecidableEq

structure SourceAuth where
  signingSecret : Text
  replayWindowMs : ℚ
  dedupe : Nat

def defaultReplayWindowMs : ℚ := 5 * 60000

def pruneIntervalMs : ℚ := 60000

def verifySignature (signer : Signer) (secret : Text) (req : SourceAuthRequest)
    (now replayWindowMs : ℚ) : SourceAuthResult :=
  if req.signature = [] then .rejected "missing signature (unsigned request)".toList
  else
    match req.timestamp with
    | none => .rejected "invalid timestamp".toList
    | some timestamp =>
      if replayWindowMs < |now - timestamp * 1000| then
        .rejected "stale timestamp (replay protection)".toList
      else if signer.signRequest secret timestamp req.body ≠ req.signature then
        .rejected "signature mismatch".toList
      else .ok

def signedRequest (signature : Text) (timestamp : Option ℚ) (payload : Text) : SourceAuthRequest :=
  ⟨signature,timestamp,payload,signature⟩

structure Call where
  signature : Text
  timestamp : ℚ
  eventId : Text
  expiresAtMs : ℚ

def checkRequest (signer : Signer) (auth : SourceAuth) (now : ℚ) (req : SourceAuthRequest) : Except Text Call :=
  match verifySignature signer auth.signingSecret req now auth.replayWindowMs with
  | .rejected reason => .error reason
  | .ok =>
    let timestamp := req.timestamp.getD 0
    .ok ⟨req.signature,timestamp,req.eventId,timestamp * 1000 + auth.replayWindowMs⟩

def claimResult (claimed : Bool) : SourceAuthResult :=
  if claimed then .ok else .rejected "duplicate event (already processed)".toList

abbrev ReplayEntries := Table (Prod.fst : Text × ℚ → Text)

structure MemoryReplayDedupe where
  seen : ReplayEntries
  nextPruneAt : Option ℚ

namespace MemoryReplayDedupe

def create : MemoryReplayDedupe := ⟨.empty,none⟩

def prune (d : MemoryReplayDedupe) (t : ℚ) : MemoryReplayDedupe :=
  if d.nextPruneAt.all (· ≤ t) then
    ⟨d.seen.filter fun entry => !(entry.2 < t),some (t + pruneIntervalMs)⟩
  else d

def claim (d : MemoryReplayDedupe) (t : ℚ) (eventId : Text) (expiresAtMs : ℚ) : Bool × MemoryReplayDedupe :=
  let d := d.prune t
  if (d.seen.find? eventId).any fun existing => t ≤ existing.2 then (false,d)
  else (true,{d with seen := d.seen.set (eventId,expiresAtMs)})

end MemoryReplayDedupe

structure MemoryWorld where
  clock : ℚ
  dedupe : MemoryReplayDedupe
  calls : List Call
  results : List (Call × SourceAuthResult)

inductive MemoryAction where
  | advance (reading : ℚ)
  | verify (auth : Nat) (signature : Text) (timestamp : Option ℚ) (payload : Text)
  | claim (call : Nat)

namespace MemoryWorld

def start : MemoryWorld := ⟨0,.create,[],[]⟩

variable (signer : Signer) (auths : Nat → SourceAuth)

-- The check and the claim read the clock at different moments.
def step (w : MemoryWorld) : MemoryAction → MemoryWorld
  | .advance reading => {w with clock := max w.clock reading}
  | .verify auth signature timestamp payload =>
    match checkRequest signer (auths auth) w.clock (signedRequest signature timestamp payload) with
    | .error _ => w
    | .ok call => {w with calls := w.calls ++ [call]}
  | .claim k =>
    match w.calls[k]? with
    | none => w
    | some call =>
      let claimed := w.dedupe.claim w.clock call.eventId call.expiresAtMs
      {w with
        dedupe := claimed.2
        calls := w.calls.eraseIdx k
        results := w.results ++ [(call,claimResult claimed.1)]}

end MemoryWorld

-- What the database makes of a time in milliseconds: a timestamp of bounded precision.
structure Timestamptz where
  ofMillis : ℚ → ℚ
  monotone : Monotone ofMillis

inductive ClaimPhase where
  | reading
  | pruning (t : ℚ)
  | inserting

structure PostgresCall where
  call : Call
  dedupe : Nat
  phase : ClaimPhase

structure PostgresWorld where
  clock : ℚ
  table : ReplayEntries
  nextPruneAt : Nat → Option ℚ
  calls : List PostgresCall
  results : List (Call × SourceAuthResult)

inductive PostgresAction where
  | advance (reading : ℚ)
  | verify (auth : Nat) (signature : Text) (timestamp : Option ℚ) (payload : Text)
  | read (call : Nat)
  | prune (call : Nat)
  | insert (call : Nat)
  | fail (call : Nat) (committed : Bool)

namespace PostgresWorld

def start : PostgresWorld := ⟨0,.empty,fun _ => none,[],[]⟩

def deleteExpired (tz : Timestamptz) (t : ℚ) (table : ReplayEntries) : ReplayEntries :=
  table.filter fun row => !(row.2 < tz.ofMillis t)

-- INSERT ... ON CONFLICT (event_id) DO NOTHING, with the number of rows written.
def insertRow (tz : Timestamptz) (call : Call) (table : ReplayEntries) : Nat × ReplayEntries :=
  match table.find? call.eventId with
  | some _ => (0,table)
  | none => (1,table.set (call.eventId,tz.ofMillis call.expiresAtMs))

variable (signer : Signer) (tz : Timestamptz) (auths : Nat → SourceAuth)

def readClock (w : PostgresWorld) (k : Nat) (c : PostgresCall) : PostgresWorld :=
  if (w.nextPruneAt c.dedupe).all (· ≤ w.clock) then
    {w with
      nextPruneAt := Function.update w.nextPruneAt c.dedupe (some (w.clock + pruneIntervalMs))
      calls := w.calls.set k {c with phase := .pruning w.clock}}
  else {w with calls := w.calls.set k {c with phase := .inserting}}

def step (w : PostgresWorld) : PostgresAction → PostgresWorld
  | .advance reading => {w with clock := max w.clock reading}
  | .verify auth signature timestamp payload =>
    match checkRequest signer (auths auth) w.clock (signedRequest signature timestamp payload) with
    | .error _ => w
    | .ok call => {w with calls := w.calls ++ [⟨call,(auths auth).dedupe,.reading⟩]}
  | .read k =>
    match w.calls[k]? with
    | some ⟨call,dedupe,.reading⟩ => w.readClock k ⟨call,dedupe,.reading⟩
    | _ => w
  | .prune k =>
    match w.calls[k]? with
    | some ⟨call,dedupe,.pruning t⟩ =>
      {w with
        table := deleteExpired tz t w.table
        calls := w.calls.set k ⟨call,dedupe,.inserting⟩}
    | _ => w
  | .insert k =>
    match w.calls[k]? with
    | some ⟨call,_,.inserting⟩ =>
      let inserted := insertRow tz call w.table
      {w with
        table := inserted.2
        calls := w.calls.eraseIdx k
        results := w.results ++ [(call,claimResult (inserted.1 = 1))]}
    | _ => w
  -- A query that throws ends the call; its statement may have been committed all the same.
  | .fail k committed =>
    match w.calls[k]? with
    | some ⟨call,_,.inserting⟩ =>
      {w with
        table := if committed then (insertRow tz call w.table).2 else w.table
        calls := w.calls.eraseIdx k}
    | some ⟨_,_,.pruning t⟩ =>
      {w with
        table := if committed then deleteExpired tz t w.table else w.table
        calls := w.calls.eraseIdx k}
    | _ => w

end PostgresWorld

end CompanyBrain.Auth
