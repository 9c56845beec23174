import CompanyBrain.Foundations.History
import CompanyBrain.Foundations.Table

namespace CompanyBrain.Directory

open Foundations

inductive PrincipalType where
  | internal | guest
deriving DecidableEq

structure DirectoryMember where
  principalId : String
  displayName : String
  type : PrincipalType
  slackId : Option String

structure DirectoryChannel where
  channelId : String
  name : String
  isPrivate : Option Bool

abbrev Membership := String × String

inductive DirectoryCall where
  | replace (members : List DirectoryMember)
  | replaceChannels (channels : List DirectoryChannel) (channelMembers : Option (List Membership))
  | replaceGroups (groupMembers : List Membership)
  | upsertGroup (groupId : String) (principalIds : List String)

def keptMembers (members : List DirectoryMember) : List DirectoryMember :=
  members.filter fun m => m.principalId ≠ "" && m.type = .internal

def keptChannels (channels : List DirectoryChannel) : List DirectoryChannel :=
  channels.filter fun c => c.channelId ≠ "" && c.name ≠ ""

abbrev MemberMap := Table (Prod.fst : String × List String → String)

namespace MemberMap

def membersOf (m : MemberMap) (id : String) : List String := ((m.find? id).map Prod.snd).getD []

def has (m : MemberMap) (id principalId : String) : Bool := (m.membersOf id).contains principalId

def add (m : MemberMap) (r : Membership) : MemberMap :=
  if r.1 = "" || r.2 = "" then m else m.set (r.1,(m.membersOf r.1 ++ [r.2]).eraseDups)

def ofRows (rows : List Membership) : MemberMap := rows.foldl add .empty

theorem membersOf_set (m : MemberMap) (id : String) (members : List String) (id' : String) :
    membersOf (m.set (id,members)) id' = if id' = id then members else m.membersOf id' := by
  rw [membersOf,Table.find?_set]
  split
  · rw [Option.map_some,Option.getD_some]
  · rw [membersOf]

theorem has_set (m : MemberMap) (id : String) (members : List String) (id' principalId : String) :
    has (m.set (id,members)) id' principalId ↔
      (id' = id ∧ principalId ∈ members) ∨ (id' ≠ id ∧ m.has id' principalId) := by
  rw [has,membersOf_set]
  by_cases same : id' = id
  · simp [same]
  · simp [same,has]

theorem has_add (m : MemberMap) (r : Membership) (id principalId : String) : (m.add r).has id principalId ↔
      (r.1 ≠ "" ∧ r.2 ≠ "" ∧ (id,principalId) = r) ∨ m.has id principalId := by
  obtain ⟨rid,rpid⟩ := r
  rw [add]
  split
  next skipped =>
    have no : ¬ (rid ≠ "" ∧ rpid ≠ "" ∧ (id,principalId) = (rid,rpid)) := by
      rintro ⟨hid,hpid,_⟩
      simp [hid,hpid] at skipped
    exact (or_iff_right no).symm
  next kept =>
    have named : rid ≠ "" ∧ rpid ≠ "" := by simpa using kept
    rw [has_set]
    by_cases same : id = rid
    · subst same
      simp only [List.mem_eraseDups,List.mem_append,List.mem_singleton,true_and,ne_eq,not_true_eq_false,
        false_and,or_false,Prod.mk.injEq,named.1,named.2,not_false_eq_true,has,List.contains_iff_mem]
      exact or_comm
    · simp [same]

theorem has_ofRows (rows : List Membership) (id principalId : String) :
    (ofRows rows).has id principalId ↔ (id,principalId) ∈ rows ∧ id ≠ "" ∧ principalId ≠ "" := by
  induction rows using List.reverseRecOn with
  | nil => simp [ofRows,has,membersOf,Table.find?,Table.empty]
  | append_singleton _ _ ih =>
    rw [ofRows,List.foldl_append,List.foldl_cons,List.foldl_nil,has_add,← ofRows,ih,List.mem_append,
      List.mem_singleton]
    constructor
    · rintro (⟨hid,hpid,rfl⟩ | ⟨mem,named⟩)
      · exact ⟨.inr rfl,hid,hpid⟩
      · exact ⟨.inl mem,named⟩
    · rintro ⟨mem | rfl,hid,hpid⟩
      · exact .inr ⟨mem,hid,hpid⟩
      · exact .inl ⟨hid,hpid,rfl⟩

end MemberMap

structure DirectoryStore where
  members : List DirectoryMember
  channels : List DirectoryChannel
  channelMembers : Option MemberMap
  groupMembers : Option MemberMap
  groupsSynced : Bool

namespace DirectoryStore

def create : DirectoryStore := ⟨[],[],none,none,false⟩

section

variable (d : DirectoryStore) (channelId principalId : String)

def replace (next : List DirectoryMember) : DirectoryStore :=
  {d with members := keptMembers next}

def replaceChannels (nextChannels : List DirectoryChannel)
    (nextChannelMembers : Option (List Membership)) : DirectoryStore :=
  let d := {d with channels := keptChannels nextChannels}
  match nextChannelMembers with
  | none => d
  | some rows => {d with channelMembers := some (.ofRows rows)}

def replaceGroups (nextGroupMembers : List Membership) : DirectoryStore :=
  {d with groupMembers := some (.ofRows nextGroupMembers), groupsSynced := true}

def upsertGroup (groupId : String) (principalIds : List String) : DirectoryStore :=
  let ids := principalIds.filter (· ≠ "")
  if groupId = "" || ids.isEmpty then d
  else {d with groupMembers := some ((d.groupMembers.getD .empty).set (groupId,ids.eraseDups))}

def exec : DirectoryCall → DirectoryStore
  | .replace members => d.replace members
  | .replaceChannels channels channelMembers => d.replaceChannels channels channelMembers
  | .replaceGroups groupMembers => d.replaceGroups groupMembers
  | .upsertGroup groupId principalIds => d.upsertGroup groupId principalIds

def channelMember : Bool :=
  d.channelMembers.any fun m => m.has channelId principalId

def findChannel (channelId : String) : Option DirectoryChannel :=
  d.channels.find? fun c => c.channelId = channelId

def channelMembership : Option Bool :=
  match d.channelMembers, d.findChannel channelId with
  | some memberships, some channel =>
    let member := memberships.has channelId principalId
    if member || channel.isPrivate = some true then some member else none
  | _, _ => none

def channelPrivacy (channelId : String) : Option Bool :=
  (d.findChannel channelId).map fun c => c.isPrivate = some true

def groupMember (groupId principalId : String) : Bool :=
  d.groupMembers.any fun m => m.has groupId principalId

def groupMembership (groupId principalId : String) : Option Bool :=
  match d.groupMembers with
  | none => none
  | some memberships => if d.groupsSynced then some (memberships.has groupId principalId) else none

def listGroupsFor (principalId : String) : List String :=
  match d.groupMembers with
  | none => []
  | some memberships => (memberships.rows.filter fun r => r.2.contains principalId).map Prod.fst

def listChannelsFor (principalId : String) : List DirectoryChannel :=
  d.channels.filter fun c => c.isPrivate ≠ some true || d.channelMember c.channelId principalId

end

end DirectoryStore

end CompanyBrain.Directory
