import CompanyBrain.Sessions.Participants
import Mathlib.Data.List.Sort

namespace CompanyBrain.Sessions.Pg

open Foundations

structure LeaseRow where
  sessionId : String
  token : String
  expiresAt : Int
  holder : Option LeaseHolder
  acquiredAt : Option Int

structure ParticipantRow where
  sessionId : String
  principalId : String
  validFrom : Int
  validTo : Option Int
  validFromSeq : Option Nat
  validToSeq : Option Nat
  title : Option String
  archived : Bool
  pinned : Bool
  color : Option String

def ParticipantRow.key (p : ParticipantRow) : String × String := (p.sessionId,p.principalId)

def entryKey (e : SessionEntry) : String × Nat := (e.sessionId,e.seq)

structure Db where
  leases : Table LeaseRow.sessionId
  entries : Table entryKey
  participants : Table ParticipantRow.key

def Db.empty : Db := ⟨.empty,.empty,.empty⟩

section

variable (db : Db) (sessionId principalId : String) (title : Option String) (includeHistory : Bool)

def Db.rowsOf (sessionId : String) : List SessionEntry :=
  db.entries.rows.filter (·.sessionId = sessionId)

def orderBySeq (rows : List SessionEntry) : List SessionEntry :=
  rows.insertionSort (fun a b => a.seq ≤ b.seq)

def Db.nextSeq (sessionId : String) : Nat :=
  (db.rowsOf sessionId).foldl (fun n e => max n (e.seq+1)) 0

def Db.upsertLease (sessionId : String) (holder : Option LeaseHolder) (token : String)
    (t ttl : Int) : Db × Option Lease :=
  let row : LeaseRow := ⟨sessionId,token,t + ttl,holder,some t⟩
  let written := {db with leases := db.leases.set row}
  match db.leases.find? sessionId with
  | none => (written,some ⟨sessionId,token⟩)
  | some held => if held.expiresAt ≤ t then (written,some ⟨sessionId,token⟩) else (db,none)

def Db.deleteLease (sessionId : String) : Db :=
  {db with leases := db.leases.erase sessionId}

def insertedParticipant (now : Int) (seq : Nat) : ParticipantRow where
  sessionId := sessionId
  principalId := principalId
  validFrom := if includeHistory then 0 else now
  validTo := none
  validFromSeq := some (if includeHistory then 0 else seq)
  validToSeq := none
  title := title
  archived := false
  pinned := false
  color := none

def updatedParticipant (row excluded : ParticipantRow) (includeHistory : Bool) : ParticipantRow :=
  {row with
    validFrom := if includeHistory then 0
      else if row.validTo.isNone then row.validFrom else excluded.validFrom
    validTo := none
    validFromSeq := if includeHistory then some 0
      else if row.validTo.isNone then row.validFromSeq else excluded.validFromSeq
    validToSeq := none
    title := excluded.title.or row.title}

def Db.addParticipant (now : Int) : Db :=
  let excluded := insertedParticipant sessionId principalId title includeHistory now (db.nextSeq sessionId)
  match db.participants.find? (sessionId,principalId) with
  | none => {db with participants := db.participants.set excluded}
  | some row =>
    if row.validTo.isSome || excluded.title.isSome ||
        (includeHistory && (decide (row.validFromSeq ≠ some 0) || decide (row.validFrom ≠ 0))) then
      let updated := updatedParticipant row excluded includeHistory
      {db with participants := db.participants.set updated}
    else db

def Db.removeParticipant (now : Int) : Db :=
  match db.participants.find? (sessionId,principalId) with
  | none => db
  | some row =>
    if row.validTo.isSome then db
    else
      let closed := {row with validTo := some now, validToSeq := some (db.nextSeq sessionId)}
      {db with participants := db.participants.set closed}

def withinParticipantWindow (e : SessionEntry) (p : ParticipantRow) : Bool :=
  (match p.validFromSeq with
    | some start => decide (start ≤ e.seq)
    | none => decide (p.validFrom ≤ e.createdAt)) &&
  (match p.validToSeq with
    | some stop => decide (e.seq < stop)
    | none => p.validTo.all (e.createdAt < ·))

def Db.visibleEntries : List SessionEntry :=
  match db.participants.find? (sessionId,principalId) with
  | none => []
  | some p => orderBySeq ((db.rowsOf sessionId).filter (withinParticipantWindow · p))

def Db.getEntries (sessionId : String) : List SessionEntry :=
  orderBySeq (db.rowsOf sessionId)

inductive Phase where
  | selecting
  | locked
  | renewed (expiresAt : Int)
  | numbered (expiresAt : Int) (full : SessionEntry)
  | inserted (expiresAt : Int) (full : SessionEntry)
  | ended (result : Except String SessionEntry)

def Phase.locks : Phase → Bool
  | selecting => false
  | ended _ => false
  | _ => true

structure Append where
  lease : Lease
  entry : NewEntry
  phase : Phase

structure System where
  db : Db
  appends : List Append

def System.start : System := ⟨.empty,[]⟩

def System.lockedRow (s : System) (sessionId : String) : Bool :=
  s.appends.any fun a => a.phase.locks && decide (a.lease.sessionId = sessionId)

inductive Act where
  | acquireLease (sessionId : String) (holder : Option LeaseHolder) (uuid : String) (t : Int)
  | releaseLease (lease : Lease)
  | forceReleaseLease (sessionId : String)
  | append (lease : Lease) (entry : NewEntry)
  | select (k : Nat)
  | renew (k : Nat) (now : Int)
  | number (k : Nat) (now : Int)
  | insert (k : Nat)
  | commit (k : Nat)
  | rollback (k : Nat) (error : String)
  | addParticipant (sessionId principalId : String) (title : Option String)
      (includeHistory : Bool) (now : Int)
  | removeParticipant (sessionId principalId : String) (now : Int)

structure Config where
  leaseTtlMs : Int
  stored : Json → Json

def System.advance (s : System) (k : Nat) (a : Append) (phase : Phase) : System :=
  {s with appends := s.appends.set k {a with phase := phase}}

def invalidLease : String := "append without a valid session lease"

def numberedEntry (cfg : Config) (lease : Lease) (entry : NewEntry) (seq : Nat) (now : Int) : SessionEntry :=
  ⟨lease.sessionId,seq,if seq = 0 then none else some (seq - 1),entry.type,
    cfg.stored entry.payload,entry.scopeLabel,now⟩

def Db.commitAppend (lease : Lease) (expiresAt : Int) (full : SessionEntry) : Db :=
  let leases := match db.leases.find? lease.sessionId with
    | some row => db.leases.set {row with expiresAt := expiresAt}
    | none => db.leases
  {db with leases := leases, entries := db.entries.set full}

end

-- A statement that meets a locked lease row waits: the step leaves the state as it is.
def System.exec (cfg : Config) (s : System) : Act → System × List Seen
  | .acquireLease sessionId holder uuid t =>
    if s.lockedRow sessionId then (s,[])
    else
      let result := s.db.upsertLease sessionId holder uuid t cfg.leaseTtlMs
      ({s with db := result.1},result.2.toList.map .granted)
  | .releaseLease lease =>
    match s.db.leases.find? lease.sessionId with
    | none => (s,[.released lease])
    | some row =>
      if row.token = lease.token then
        if s.lockedRow lease.sessionId then (s,[])
        else ({s with db := s.db.deleteLease lease.sessionId},[.released lease])
      else (s,[.released lease])
  | .forceReleaseLease sessionId =>
    if s.lockedRow sessionId then (s,[])
    else ({s with db := s.db.deleteLease sessionId},[.forced sessionId])
  | .append lease entry => ({s with appends := s.appends ++ [⟨lease,entry,.selecting⟩]},[])
  | .select k =>
    match s.appends[k]? with
    | some ⟨lease,entry,.selecting⟩ =>
      if s.lockedRow lease.sessionId then (s,[])
      else if (s.db.leases.find? lease.sessionId).map LeaseRow.token = some lease.token then
        (s.advance k ⟨lease,entry,.selecting⟩ .locked,[])
      else (s.advance k ⟨lease,entry,.selecting⟩ (.ended (.error invalidLease)),[])
    | _ => (s,[])
  | .renew k now =>
    match s.appends[k]? with
    | some ⟨lease,entry,.locked⟩ =>
      (s.advance k ⟨lease,entry,.locked⟩ (.renewed (now + cfg.leaseTtlMs)),[])
    | _ => (s,[])
  | .number k now =>
    match s.appends[k]? with
    | some ⟨lease,entry,.renewed expiresAt⟩ =>
      let full := numberedEntry cfg lease entry (s.db.nextSeq lease.sessionId) now
      (s.advance k ⟨lease,entry,.renewed expiresAt⟩ (.numbered expiresAt full),[])
    | _ => (s,[])
  | .insert k =>
    match s.appends[k]? with
    | some ⟨lease,entry,.numbered expiresAt full⟩ =>
      match s.db.entries.find? (entryKey full) with
      | none => (s.advance k ⟨lease,entry,.numbered expiresAt full⟩ (.inserted expiresAt full),[])
      | some _ => (s.advance k ⟨lease,entry,.numbered expiresAt full⟩
          (.ended (.error "duplicate key value violates unique constraint")),[])
    | _ => (s,[])
  | .commit k =>
    match s.appends[k]? with
    | some ⟨lease,entry,.inserted expiresAt full⟩ =>
      let db := s.db.commitAppend lease expiresAt full
      ({s with db := db}.advance k ⟨lease,entry,.inserted expiresAt full⟩ (.ended (.ok full)),
        [.appended lease full])
    | _ => (s,[])
  | .rollback k error =>
    match s.appends[k]? with
    | some ⟨_,_,.ended _⟩ => (s,[])
    | some a => (s.advance k a (.ended (.error error)),[])
    | none => (s,[])
  | .addParticipant sessionId principalId title includeHistory now =>
    ({s with db := s.db.addParticipant sessionId principalId title includeHistory now},
      [.joined sessionId principalId includeHistory])
  | .removeParticipant sessionId principalId now =>
    ({s with db := s.db.removeParticipant sessionId principalId now},[.left sessionId principalId])

def Act.draws : Act → List String
  | acquireLease _ _ uuid _ => [uuid]
  | _ => []

def seen (cfg : Config) (acts : List Act) : List Seen :=
  (outputs (System.exec cfg) .start acts).flatten

def reached (cfg : Config) (acts : List Act) : System := after (System.exec cfg) .start acts

end CompanyBrain.Sessions.Pg
