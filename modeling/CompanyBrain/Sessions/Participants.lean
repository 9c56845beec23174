import CompanyBrain.Foundations.FencedLog
import CompanyBrain.Foundations.History
import CompanyBrain.Foundations.Membership
import CompanyBrain.Sessions.MemorySessionStore

namespace CompanyBrain.Sessions

open Foundations

structure Window where
  sessionId : String
  principalId : String
  validFrom : Int
  validTo : Option Int
  validFromSeq : Nat
  validToSeq : Option Nat
  title : Option String
  archived : Bool
  pinned : Bool
  color : Option String

def Window.key (w : Window) : String × String := (w.sessionId,w.principalId)

structure Room where
  store : Store
  windows : Table Window.key

def Room.create (leaseTtlMs : Option Int) : Room := ⟨Sessions.create leaseTtlMs,.empty⟩

def Store.log (st : Store) (sessionId : String) : List SessionEntry :=
  ((st.entries.find? sessionId).map Prod.snd).getD []

section

variable (r : Room) (sessionId principalId : String) (title : Option String) (includeHistory : Bool)

def openedWindow (existing : Option Window)
    (title : Option String) (includeHistory : Bool) (now : Int) (seq : Nat) : Window where
  sessionId := sessionId
  principalId := principalId
  validFrom := if includeHistory then 0 else now
  validTo := none
  validFromSeq := if includeHistory then 0 else seq
  validToSeq := none
  title := title.or (existing.bind Window.title)
  archived := (existing.map Window.archived).getD false
  pinned := (existing.map Window.pinned).getD false
  color := existing.bind Window.color

def widenedWindow (w : Window) (title : Option String) (includeHistory : Bool) : Window :=
  {w with
    validFrom := if includeHistory then 0 else w.validFrom
    validFromSeq := if includeHistory then 0 else w.validFromSeq
    title := title.or w.title}

def Room.addParticipant (clock : Clock) : Room :=
  let opened (existing : Option Window) := openedWindow sessionId principalId existing title
    includeHistory (clock 0) (r.store.log sessionId).length
  match r.windows.find? (sessionId,principalId) with
  | none => {r with windows := r.windows.set (opened none)}
  | some existing =>
    if existing.validTo.isSome then {r with windows := r.windows.set (opened (some existing))}
    else {r with windows := r.windows.set (widenedWindow existing title includeHistory)}

def Room.removeParticipant (clock : Clock) : Room :=
  match r.windows.find? (sessionId,principalId) with
  | none => r
  | some win =>
    if win.validTo.isSome then r
    else
      let closed := {win with
        validTo := some (clock 0)
        validToSeq := some (r.store.log sessionId).length}
      {r with windows := r.windows.set closed}

def Room.visibleEntries : List SessionEntry :=
  match r.windows.find? (sessionId,principalId) with
  | none => []
  | some win =>
    (r.store.log sessionId).filter fun e =>
      decide (win.validFromSeq ≤ e.seq) && win.validToSeq.all (e.seq < ·)

inductive Seen where
  | granted (lease : Lease)
  | released (lease : Lease)
  | forced (sessionId : String)
  | appended (lease : Lease) (entry : SessionEntry)
  | joined (sessionId principalId : String) (history : Bool)
  | left (sessionId principalId : String)

def Seen.logEvent (sessionId : String) : Seen → Option (LogEvent String SessionEntry)
  | granted lease => if lease.sessionId = sessionId then some (.grant lease.token) else none
  | released lease => if lease.sessionId = sessionId then some (.release lease.token) else none
  | forced id => if id = sessionId then some .force else none
  | appended lease entry =>
    if lease.sessionId = sessionId then some (.write lease.token entry) else none
  | joined _ _ _ => none
  | left _ _ => none

def Seen.memberEvent : Seen → Option (MemberEvent SessionEntry)
  | appended lease entry => if lease.sessionId = sessionId then some (.append entry) else none
  | joined id p history =>
    if (id,p) = (sessionId,principalId) then some (.join history) else none
  | left id p => if (id,p) = (sessionId,principalId) then some .leave else none
  | granted _ => none
  | released _ => none
  | forced _ => none

def leaseHistory (sessionId : String) (seen : List Seen) : List (LogEvent String SessionEntry) :=
  seen.filterMap (Seen.logEvent sessionId)

def memberHistory (seen : List Seen) : List (MemberEvent SessionEntry) :=
  seen.filterMap (Seen.memberEvent sessionId principalId)

inductive RoomCall where
  | openSession (req : OpenRequest) (uuid : String) (clock : Clock)
  | acquireLease (sessionId : String) (holder : Option LeaseHolder) (uuid : String) (clock : Clock)
  | releaseLease (lease : Lease)
  | forceReleaseLease (sessionId : String)
  | append (lease : Lease) (entry : NewEntry) (clock : Clock)
  | addParticipant (sessionId principalId : String) (title : Option String)
      (includeHistory : Bool) (clock : Clock)
  | removeParticipant (sessionId principalId : String) (clock : Clock)

def Room.exec : RoomCall → Room × List Seen
  | .openSession req uuid clock => ({r with store := (r.store.getOrCreateByThread req uuid clock).1},[])
  | .acquireLease sessionId holder uuid clock =>
    let result := r.store.acquireLease sessionId holder uuid clock
    ({r with store := result.1},result.2.lease.toList.map .granted)
  | .releaseLease lease => ({r with store := r.store.releaseLease lease},[.released lease])
  | .forceReleaseLease sessionId =>
    ({r with store := r.store.forceReleaseLease sessionId},[.forced sessionId])
  | .append lease entry clock =>
    let result := r.store.append lease entry clock
    ({r with store := result.1},result.2.toOption.toList.map (.appended lease))
  | .addParticipant sessionId principalId title includeHistory clock =>
    (r.addParticipant sessionId principalId title includeHistory clock,
      [.joined sessionId principalId includeHistory])
  | .removeParticipant sessionId principalId clock =>
    (r.removeParticipant sessionId principalId clock,[.left sessionId principalId])

end

def RoomCall.opens : RoomCall → List String
  | openSession _ uuid _ => [uuid]
  | _ => []

def RoomCall.draws : RoomCall → List String
  | acquireLease _ _ uuid _ => [uuid]
  | _ => []

structure FreshRoom (calls : List RoomCall) : Prop where
  sessions : (calls.flatMap RoomCall.opens).Nodup
  tokens : (calls.flatMap RoomCall.draws).Nodup

def roomSeen (ttl : Option Int) (calls : List RoomCall) : List Seen :=
  (outputs Room.exec (Room.create ttl) calls).flatten

def roomAfter (ttl : Option Int) (calls : List RoomCall) : Room :=
  after Room.exec (Room.create ttl) calls

end CompanyBrain.Sessions
