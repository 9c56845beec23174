import CompanyBrain.Foundations.Json
import CompanyBrain.Foundations.JsText
import CompanyBrain.Foundations.Table

namespace CompanyBrain.Sessions

open Foundations

inductive SessionType where
  | dm | channel | group

inductive LeaseHolder where
  | turn | compaction | fork | backfill

inductive EntryType where
  | user | assistant | thinking | text | toolCall | toolResult | soul | system | delivery
  | approvalRequest | approvalResolved
deriving DecidableEq

structure Session where
  id : String
  type : SessionType
  scopeId : String
  threadRef : String
  createdAt : Int
  channelName : Option String
  surface : Option String

structure Lease where
  sessionId : String
  token : String

structure HeldLease where
  sessionId : String
  token : String
  expiresAt : Int
  acquiredAt : Int
  holder : Option LeaseHolder

structure LeaseAttempt where
  lease : Option Lease
  heldBy : Option LeaseHolder
  heldSince : Option Int
  heldUntil : Option Int

structure NewEntry where
  type : EntryType
  payload : Json
  scopeLabel : String

structure SessionEntry where
  sessionId : String
  seq : Nat
  parentSeq : Option Nat
  type : EntryType
  payload : Json
  scopeLabel : String
  createdAt : Int
deriving DecidableEq

abbrev Clock := Nat → Int

structure OpenRequest where
  threadRef : String
  type : SessionType
  scopeId : String
  channelName : Option String
  surface : Option String

structure Store where
  leaseTtlMs : Int
  sessions : Table Session.id
  byThread : Table (Prod.fst : String × String → String)
  entries : Table (Prod.fst : String × List SessionEntry → String)
  leases : Table HeldLease.sessionId

def create (leaseTtlMs : Option Int) : Store :=
  ⟨leaseTtlMs.getD (5 * 60000),.empty,.empty,.empty,.empty⟩

def refreshed (s : Session) (channelName surface : Option String) : Session :=
  let named := match truthy channelName with
    | some name => if s.channelName = some name then s else {s with channelName := some name}
    | none => s
  match truthy surface with
  | some surf => if (truthy named.surface).isSome then named else {named with surface := some surf}
  | none => named

def Store.getByThread (st : Store) (threadRef : String) : Option Session :=
  (truthy ((st.byThread.find? threadRef).map Prod.snd)).bind st.sessions.find?

def newSession (req : OpenRequest) (uuid : String) (clock : Clock) : Session where
  id := uuid
  type := req.type
  scopeId := req.scopeId
  threadRef := req.threadRef
  createdAt := clock 0
  channelName := truthy req.channelName
  surface := truthy req.surface

def Store.getOrCreateByThread (st : Store) (req : OpenRequest) (uuid : String) (clock : Clock) : Store × Session :=
  match st.getByThread req.threadRef with
  | some s =>
    let s' := refreshed s req.channelName req.surface
    ({st with sessions := st.sessions.set s'},s')
  | none =>
    let session := newSession req uuid clock
    ({st with
        sessions := st.sessions.set session
        entries := st.entries.set (session.id,[])
        byThread := st.byThread.set (req.threadRef,session.id)},session)

def Store.acquireLease (st : Store) (sessionId : String) (holder : Option LeaseHolder)
    (uuid : String) (clock : Clock) : Store × LeaseAttempt :=
  let fresh : HeldLease := ⟨sessionId,uuid,clock 1 + st.leaseTtlMs,clock 2,holder⟩
  let granted := {st with leases := st.leases.set fresh}
  match st.leases.find? sessionId with
  | some held =>
    if clock 0 < held.expiresAt then
      (st,⟨none,held.holder,some held.acquiredAt,some held.expiresAt⟩)
    else (granted,⟨some ⟨sessionId,uuid⟩,none,none,none⟩)
  | none => (granted,⟨some ⟨sessionId,uuid⟩,none,none,none⟩)

def Store.releaseLease (st : Store) (lease : Lease) : Store :=
  match st.leases.find? lease.sessionId with
  | some held =>
    if held.token = lease.token then {st with leases := st.leases.erase lease.sessionId} else st
  | none => st

def Store.deleteSession (st : Store) (sessionId : String) : Store :=
  let byThread := match st.sessions.find? sessionId with
    | some s => st.byThread.erase s.threadRef
    | none => st.byThread
  {st with
    byThread := byThread
    sessions := st.sessions.erase sessionId
    entries := st.entries.erase sessionId
    leases := st.leases.erase sessionId}

def Store.forceReleaseLease (st : Store) (sessionId : String) : Store :=
  {st with leases := st.leases.erase sessionId}

def Store.append (st : Store) (lease : Lease) (entry : NewEntry) (clock : Clock) : Store × Except String SessionEntry :=
  match st.leases.find? lease.sessionId with
  | none => (st,.error "append without a valid session lease")
  | some held =>
    if held.token ≠ lease.token then (st,.error "append without a valid session lease")
    else
      let renewal := {held with expiresAt := clock 0 + st.leaseTtlMs}
      let renewed := {st with leases := st.leases.set renewal}
      match st.entries.find? lease.sessionId with
      | none => (renewed,.error ("unknown session: " ++ lease.sessionId))
      | some (_,log) =>
        let seq := log.length
        let full : SessionEntry := ⟨lease.sessionId,seq,if seq = 0 then none else some (seq - 1),
          entry.type,entry.payload,entry.scopeLabel,clock 1⟩
        ({renewed with entries := st.entries.set (lease.sessionId,log ++ [full])},.ok full)

end CompanyBrain.Sessions
