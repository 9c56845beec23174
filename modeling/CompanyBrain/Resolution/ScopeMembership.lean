import CompanyBrain.Directory.DirectoryAgreement
import CompanyBrain.Projects.ProjectStore
import CompanyBrain.Resolution.ContextFilter

namespace CompanyBrain.Resolution

open Foundations
open Directory (Letters samePerson DirectoryStore PostgresDirectory DirectoryCall)
open Projects (ProjectStore ProjectTable isProjectGroupRef)

structure Classified where
  type : Option String
  teamIds : Option (List String)

abbrev Answer := Except String

def Answer.catch {α : Type} (answer : Answer α) (other : α) : α :=
  match answer with
  | .ok a => a
  | .error _ => other

structure ManagedGroups where
  recognizes : String → Bool
  membership : String → String → Answer (Option Bool)

structure ScopeDirectory where
  channelMember : String → String → Answer Bool
  groupMember : String → String → Answer Bool
  channelMembership : Option (String → String → Answer (Option Bool))
  groupMembership : Option (String → String → Answer (Option Bool))
  channelPrivacy : Option (String → Answer (Option Bool))

structure ScopeMembershipDeps where
  managedGroups : Option ManagedGroups
  directory : Option ScopeDirectory
  identity : Option (String → Classified)
  sessions : Option (String → Answer (List ScopeId))

inductive SharedKind where
  | channel | group
deriving DecidableEq

namespace ScopeMembershipDeps

variable (deps : ScopeMembershipDeps)

def typeOf (principalId : String) : Option String := deps.identity.bind fun classify => (classify principalId).type

def inTeam (principalId ref : String) : Bool :=
  deps.identity.any fun classify => (classify principalId).teamIds.any fun teamIds => teamIds.contains ref

def activePrincipal (principalId : String) : Bool := (deps.typeOf principalId).all fun type => type = "internal"

section

variable (kind : SharedKind) (ref principalId : String)

def managed (ref : String) : Bool :=
  kind = .group && deps.managedGroups.any fun groups => groups.recognizes ref

def managedMember : Bool :=
  deps.managedGroups.any fun groups => (groups.membership ref principalId).catch (some false) = some true

def directMember : Bool :=
  deps.directory.any fun directory =>
    match kind with
    | .channel => (directory.channelMember ref principalId).catch false
    | .group => (directory.groupMember ref principalId).catch false

def triState : Option (String → String → Answer (Option Bool)) :=
  deps.directory.bind fun directory =>
    match kind with
    | .channel => directory.channelMembership
    | .group => directory.groupMembership

def channelPrivacy (ref : String) : Option Bool :=
  deps.directory.bind fun directory => directory.channelPrivacy.bind fun privacy => (privacy ref).catch none

def inSession (principalId : String) (scope : ScopeId) : Bool :=
  deps.sessions.any fun listByParticipant => ((listByParticipant principalId).catch []).contains scope

def currentSharedScopeMember : Bool :=
  if !deps.activePrincipal principalId then false
  else if deps.managed kind ref then deps.managedMember ref principalId
  else deps.directMember kind ref principalId

def sharedScopeMembership : Option Bool :=
  if !deps.activePrincipal principalId then some false
  else if deps.managed kind ref then some (deps.managedMember ref principalId)
  else
    match deps.triState kind with
    | some membership => (membership ref principalId).catch none
    | none =>
      if deps.directMember kind ref principalId then some true
      else if kind = .channel && (deps.channelPrivacy ref).isSome then some false
      else none

def memberOfSharedScope (fullScope : ScopeId) : Bool :=
  match deps.sharedScopeMembership kind ref principalId with
  | some current => current
  | none => deps.inSession principalId fullScope

end

def canReadScope (letters : Letters) (principalId : String) (targetScope : ScopeId) : Bool :=
  if principalId = "" then false
  else
    match parseScopeId targetScope with
    | (some .org,_) => deps.typeOf principalId = some "internal"
    | (some .personal,ref) => samePerson letters ref principalId
    | (some .team,ref) => deps.inTeam principalId ref
    | (some .group,ref) => deps.memberOfSharedScope .group ref principalId targetScope
    | (some .channel,ref) =>
      if deps.memberOfSharedScope .channel ref principalId targetScope then true
      else if deps.channelPrivacy ref = some false then deps.activePrincipal principalId
      else false
    | (none,_) => false

def canWriteScope (letters : Letters) (principalId : String) (targetScope : ScopeId) : Bool :=
  if principalId = "" || !deps.activePrincipal principalId then false
  else
    match parseScopeId targetScope with
    | (some .org,_) => true
    | (some .personal,ref) => samePerson letters ref principalId
    | (some .team,ref) => deps.inTeam principalId ref
    | (some .channel,ref) => deps.currentSharedScopeMember .channel ref principalId
    | (some .group,ref) => deps.currentSharedScopeMember .group ref principalId
    | (none,_) => false

def canManageScope (letters : Letters) (principalId : String) (scope : ScopeId) : Bool :=
  if principalId = "" || !deps.activePrincipal principalId then false
  else
    match parseScopeId scope with
    | (some .personal,ref) => samePerson letters ref principalId
    | (some .group,ref) => deps.currentSharedScopeMember .group ref principalId
    | (some .channel,ref) =>
      if deps.channelPrivacy ref ≠ some true then false else deps.currentSharedScopeMember .channel ref principalId
    | _ => false

variable {deps} {letters : Letters} {principalId : String} {scope : ScopeId}

theorem canManage_canWrite (managed : deps.canManageScope letters principalId scope) :
    deps.canWriteScope letters principalId scope := by
  rw [canManageScope] at managed
  rw [canWriteScope]
  split at managed
  · cases managed
  next active =>
    rw [if_neg active]
    split at managed
    next parsed =>
      rw [parsed]
      exact managed
    next parsed =>
      rw [parsed]
      exact managed
    next parsed =>
      rw [parsed]
      split at managed
      · cases managed
      · exact managed
    · cases managed

end ScopeMembershipDeps

inductive StoreKind where
  | memory | postgres
deriving DecidableEq

def memoryDirectory (d : DirectoryStore) : ScopeDirectory where
  channelMember c p := .ok (d.channelMember c p)
  groupMember g p := .ok (d.groupMember g p)
  channelMembership := some fun c p => .ok (d.channelMembership c p)
  groupMembership := some fun g p => .ok (d.groupMembership g p)
  channelPrivacy := some fun c => .ok (d.channelPrivacy c)

def postgresDirectory {δ : Type} (d : PostgresDirectory δ) : ScopeDirectory where
  channelMember c p := .ok (d.channelMember c p)
  groupMember g p := .ok (d.groupMember g p)
  channelMembership := some fun c p => .ok (d.channelMembership c p)
  groupMembership := some fun g p => .ok (d.groupMembership g p)
  channelPrivacy := some fun c => .ok (d.channelPrivacy c)

structure OwnStores (δ : Type) where
  hash : Text → δ
  kind : StoreKind
  calls : List DirectoryCall
  store : ProjectStore
  projects : ProjectTable
  isActiveMember : String → Bool
  identity : Option (String → Classified)
  sessions : Option (String → Answer (List ScopeId))

namespace OwnStores

variable {δ : Type} [DecidableEq δ] (own : OwnStores δ)

def memory (own : OwnStores δ) : DirectoryStore := run DirectoryStore.exec .create own.calls

def postgres : PostgresDirectory δ := run (PostgresDirectory.exec own.hash) .create own.calls

def directory : ScopeDirectory :=
  match own.kind with
  | .memory => memoryDirectory own.memory
  | .postgres => postgresDirectory own.postgres

def deps : ScopeMembershipDeps where
  managedGroups := some {
    recognizes := isProjectGroupRef
    membership := fun ref p => .ok (own.store.membership own.projects own.isActiveMember ref p)}
  directory := some own.directory
  identity := own.identity
  sessions := own.sessions

inductive Unread (own : OwnStores δ) (principalId : String) (scope : ScopeId) : Prop
  | untyped (ref : String) (org : parseScopeId scope = (some .org,ref)) (noType : own.deps.typeOf principalId = none)
  | unlistedChannel (ref : String) (channel : parseScopeId scope = (some .channel,ref)) (memory : own.kind = .memory)
      (member : own.memory.channelMember ref principalId = true) (unlisted : own.memory.findChannel ref = none)
      (noSession : own.deps.inSession principalId scope = false)
  | unsyncedGroup (ref : String) (group : parseScopeId scope = (some .group,ref)) (memory : own.kind = .memory)
      (unmanaged : isProjectGroupRef ref = false) (member : own.memory.groupMember ref principalId = true)
      (unsynced : own.memory.groupsSynced = false) (noSession : own.deps.inSession principalId scope = false)

structure Gap (own : OwnStores δ) (principalId : String) (scope : ScopeId) : Prop where
  named : principalId ≠ ""
  active : own.deps.activePrincipal principalId = true
  unread : Unread own principalId scope

open ScopeMembershipDeps (canReadScope triState directMember memberOfSharedScope sharedScopeMembership
  currentSharedScopeMember canWriteScope channelPrivacy activePrincipal)

section

variable {own} {principalId ref : String} {scope : ScopeId} {d : DirectoryStore}

theorem channelMembership_member (member : d.channelMember ref principalId) :
    d.channelMembership ref principalId = if (d.findChannel ref).isSome then some true else none := by
  rw [DirectoryStore.channelMember] at member
  rw [DirectoryStore.channelMembership]
  cases members : d.channelMembers with
  | none => simp [members] at member
  | some =>
    rw [members,Option.any_some] at member
    cases d.findChannel ref <;> simp [member]

theorem groupMembership_member (member : d.groupMember ref principalId) :
    d.groupMembership ref principalId = if d.groupsSynced then some true else none := by
  rw [DirectoryStore.groupMember] at member
  rw [DirectoryStore.groupMembership]
  cases members : d.groupMembers with
  | none => simp [members] at member
  | some =>
    rw [members,Option.any_some] at member
    simp [member]

theorem postgres_channelMembership (member : own.postgres.channelMember ref principalId) :
    own.postgres.channelMembership ref principalId = some true := by
  simp [PostgresDirectory.channelMembership,member]

theorem postgres_groupMembership (member : own.postgres.groupMember ref principalId) :
    own.postgres.groupMembership ref principalId = some true := by
  have some : own.postgres.groupMembers ≠ [] := by
    intro empty
    simp [PostgresDirectory.groupMember,empty] at member
  have recorded := Directory.groups_recorded_run own.calls some
  have known : (own.postgres.sync.any fun row => row.groupsHash.isSome) = true := by
    rw [← recorded,postgres,PostgresDirectory.groupsHash]
    cases (run (PostgresDirectory.exec own.hash) .create own.calls).sync <;> rfl
  rw [PostgresDirectory.groupMembership,known,member,if_pos rfl]

variable {kind : SharedKind}

def known (own : OwnStores δ) (ref : String) : SharedKind → Bool
  | .channel => (own.memory.findChannel ref).isSome
  | .group => own.memory.groupsSynced

theorem directMember_memory (memory : own.kind = .memory) : own.deps.directMember kind ref principalId =
    match kind with
    | .channel => own.memory.channelMember ref principalId
    | .group => own.memory.groupMember ref principalId := by
  cases kind <;> simp [deps,directMember,directory,memory,memoryDirectory,Answer.catch]

theorem directMember_postgres (postgres : own.kind = .postgres) : own.deps.directMember kind ref principalId =
    match kind with
    | .channel => own.postgres.channelMember ref principalId
    | .group => own.postgres.groupMember ref principalId := by
  cases kind <;> simp [deps,directMember,directory,postgres,postgresDirectory,Answer.catch]

theorem shared_direct (active : own.deps.activePrincipal principalId) (unmanaged : own.deps.managed kind ref = false)
    (member : own.deps.directMember kind ref principalId) : own.deps.memberOfSharedScope kind ref principalId scope =
      (own.kind = .postgres || own.known ref kind || own.deps.inSession principalId scope) := by
  rw [memberOfSharedScope,sharedScopeMembership,active,unmanaged]
  cases stores : own.kind with
  | memory =>
    rw [directMember_memory stores] at member
    cases kind with
    | channel =>
      simp only [triState,deps,directory,stores,memoryDirectory,Answer.catch,known,
        Option.bind_some,channelMembership_member member]
      cases own.memory.findChannel ref <;> simp
    | group =>
      simp only [triState,deps,directory,stores,memoryDirectory,Answer.catch,known,
        Option.bind_some,groupMembership_member member]
      cases own.memory.groupsSynced <;> simp
  | postgres =>
    rw [directMember_postgres stores] at member
    cases kind with
    | channel =>
      simp [triState,deps,directory,stores,postgresDirectory,Answer.catch,
        postgres_channelMembership member]
    | group =>
      simp [triState,deps,directory,stores,postgresDirectory,Answer.catch,
        postgres_groupMembership member]

structure Unknown (own : OwnStores δ) (kind : SharedKind) (ref principalId : String) (scope : ScopeId) : Prop where
  memory : own.kind = .memory
  unmanaged : own.deps.managed kind ref = false
  member : own.deps.directMember kind ref principalId = true
  unknown : own.known ref kind = false
  noSession : own.deps.inSession principalId scope = false

theorem shared_or_unknown (scope : ScopeId) (active : own.deps.activePrincipal principalId)
    (current : own.deps.currentSharedScopeMember kind ref principalId) :
    own.deps.memberOfSharedScope kind ref principalId scope ∨ Unknown own kind ref principalId scope := by
  rw [currentSharedScopeMember,active] at current
  cases managed : own.deps.managed kind ref with
  | true =>
    simp only [managed] at current
    left
    simpa [memberOfSharedScope,sharedScopeMembership,active,managed]
  | false =>
    have member : own.deps.directMember kind ref principalId = true := by simpa [managed] using current
    rw [shared_direct active managed member]
    cases stores : own.kind with
    | memory =>
      cases known : own.known ref kind <;> cases session : own.deps.inSession principalId scope
      · exact .inr ⟨stores,managed,member,known,session⟩
      all_goals simp
    | postgres => simp

theorem Unknown.refused (active : own.deps.activePrincipal principalId)
    (unknown : Unknown own kind ref principalId scope) :
    own.deps.currentSharedScopeMember kind ref principalId ∧
      own.deps.memberOfSharedScope kind ref principalId scope = false := by
  obtain ⟨memory,unmanaged,member,unknown,noSession⟩ := unknown
  rw [shared_direct active unmanaged member,memory,unknown,noSession]
  simp [currentSharedScopeMember,active,unmanaged,member]

theorem channelPrivacy_memory (memory : own.kind = .memory) :
    own.deps.channelPrivacy ref = own.memory.channelPrivacy ref := by
  simp [deps,channelPrivacy,directory,memory,memoryDirectory,Answer.catch]

variable {letters : Letters}

theorem typeOf_internal (active : own.deps.activePrincipal principalId)
    (typed : own.deps.typeOf principalId ≠ none) : own.deps.typeOf principalId = some "internal" := by
  obtain ⟨type,found⟩ := Option.ne_none_iff_exists'.mp typed
  rw [activePrincipal,found] at active
  rw [found,of_decide_eq_true active]

theorem canWrite_canRead (write : own.deps.canWriteScope letters principalId scope)
    (covered : ¬ Gap own principalId scope) : own.deps.canReadScope letters principalId scope := by
  rw [canWriteScope] at write
  split at write
  · cases write
  next accepted =>
    simp only [Bool.or_eq_true,decide_eq_true_eq,not_or,Bool.not_eq_true',Bool.not_eq_false] at accepted
    obtain ⟨named,active⟩ := accepted
    have read : ¬ Unread own principalId scope := fun unread => covered ⟨named,active,unread⟩
    split at write
    next ref org =>
      have typed := typeOf_internal active fun noType => read (.untyped ref org noType)
      simp [canReadScope,named,org,typed]
    next ref personal => simp [canReadScope,named,personal,write]
    next ref team => simp [canReadScope,named,team,write]
    next ref channel =>
      rcases shared_or_unknown scope active write with shared | unknown
      · simp [canReadScope,named,channel,shared]
      · have member := (directMember_memory unknown.memory).symm.trans unknown.member
        have unlisted := Option.not_isSome_iff_eq_none.mp (Bool.eq_false_iff.mp unknown.unknown)
        exact absurd (.unlistedChannel ref channel unknown.memory member unlisted unknown.noSession) read
    next ref group =>
      rcases shared_or_unknown scope active write with shared | unknown
      · simp [canReadScope,named,group,shared]
      · have member := (directMember_memory unknown.memory).symm.trans unknown.member
        exact absurd (.unsyncedGroup ref group unknown.memory unknown.unmanaged member unknown.unknown
          unknown.noSession) read
    · cases write

theorem unread_refused (letters : Letters) (gap : Gap own principalId scope) :
    own.deps.canWriteScope letters principalId scope ∧ own.deps.canReadScope letters principalId scope = false := by
  obtain ⟨named,active,unread⟩ := gap
  have accepted : ¬ (decide (principalId = "") || !own.deps.activePrincipal principalId) =
    true := by simp [named,active]
  rw [canWriteScope,if_neg accepted,canReadScope]
  cases unread with
  | untyped _ org noType => simp [org,noType]
  | unlistedChannel ref channel memory member unlisted noSession =>
    have unknown : Unknown own .channel ref principalId scope :=
      ⟨memory,rfl,(directMember_memory memory).trans member,by rw [known,unlisted]; rfl,noSession⟩
    have privacy : own.deps.channelPrivacy ref = none := by
      rw [channelPrivacy_memory memory,DirectoryStore.channelPrivacy,unlisted,Option.map_none]
    simp [channel,unknown.refused active,privacy]
  | unsyncedGroup ref group memory unmanaged member unsynced noSession =>
    have unknown : Unknown own .group ref principalId scope :=
      ⟨memory,unmanaged,(directMember_memory memory).trans member,unsynced,noSession⟩
    simp [group,unknown.refused active]

end

end OwnStores

theorem scope_checks_nested_iff {δ : Type} [DecidableEq δ] (own : OwnStores δ) (letters : Letters)
    (principalId : String) (scope : ScopeId) : (own.deps.canManageScope letters principalId scope = true →
        own.deps.canWriteScope letters principalId scope = true) ∧
      ((own.deps.canWriteScope letters principalId scope = true →
          own.deps.canReadScope letters principalId scope = true) ↔ ¬ own.Gap principalId scope) := by
  refine ⟨ScopeMembershipDeps.canManage_canWrite,fun nested gap => ?_,fun covered write => ?_⟩
  · obtain ⟨write,read⟩ := OwnStores.unread_refused letters gap
    rw [nested write] at read
    cases read
  · exact OwnStores.canWrite_canRead write covered

def partlySynced : OwnStores Text where
  hash := id
  kind := .memory
  calls := [.replaceChannels [⟨"C1","eng",some true⟩] (some [("C1","ana")]),.replaceChannels [] none,
    .upsertGroup "G1" ["ana"]]
  store := ⟨⟨id⟩,"acme"⟩
  projects := .empty
  isActiveMember _ := true
  identity := some fun _ => ⟨none,none⟩
  sessions := some fun _ => .ok []

theorem write_without_read :
    ["channel:C1","group:G1","org:acme"].map (partlySynced.deps.canWriteScope ⟨id⟩ "ana") = [true,true,true] ∧
      ["channel:C1","group:G1","org:acme"].map (partlySynced.deps.canReadScope ⟨id⟩ "ana") =
        [false,false,false] := by
  decide +kernel

end CompanyBrain.Resolution
