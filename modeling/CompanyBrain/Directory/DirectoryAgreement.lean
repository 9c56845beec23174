import CompanyBrain.Directory.RosterText

namespace CompanyBrain.Directory

open Foundations DirectoryChannel MemberMap Table

def DirectoryCall.plain : DirectoryCall → Bool
  | .replace _ => true
  | .replaceChannels channels channelMembers =>
    channels.all plainChannel && channelMembers.all fun rows => rows.all plainRow
  | .replaceGroups groupMembers => groupMembers.all plainRow
  | .upsertGroup groupId principalIds => plainText groupId && principalIds.all plainText

def DirectoryCall.distinct : DirectoryCall → Bool
  | .replace members => (members.map DirectoryMember.principalId).Nodup
  | .replaceChannels channels _ => (channels.map channelId).Nodup
  | .replaceGroups _ | .upsertGroup _ _ => true

section

variable {rows : List Membership} {r : Membership}

theorem mem_dedupPairs : r ∈ dedupPairs rows ↔ r ∈ rows ∧ r.1 ≠ "" ∧ r.2 ≠ "" := by
  induction rows using List.reverseRecOn with
  | nil => simp [dedupPairs]
  | append_singleton _ _ ih =>
    rw [dedupPairs,List.foldl_append,List.foldl_cons,List.foldl_nil,← dedupPairs,List.mem_append,
      List.mem_singleton]
    split
    next skipped =>
      rw [ih]
      constructor
      · exact fun ⟨mem,named⟩ => ⟨.inl mem,named⟩
      · rintro ⟨mem | rfl,id,principal⟩
        · exact ⟨mem,id,principal⟩
        · simp only [id,principal,decide_false,Bool.false_or,List.contains_iff_mem] at skipped
          exact ih.mp skipped
    next new =>
      simp only [Bool.or_eq_true,decide_eq_true_eq,not_or] at new
      rw [List.mem_append,List.mem_singleton,ih]
      constructor
      · rintro (⟨mem,named⟩ | rfl)
        · exact ⟨.inl mem,named⟩
        · exact ⟨.inr rfl,new.1.1,new.1.2⟩
      · rintro ⟨mem | rfl,named⟩
        · exact .inl ⟨mem,named⟩
        · exact .inr rfl

theorem nodup_dedupPairs (rows : List Membership) : (dedupPairs rows).Nodup := by
  induction rows using List.reverseRecOn with
  | nil => exact List.nodup_nil
  | append_singleton _ last ih =>
    rw [dedupPairs,List.foldl_append,List.foldl_cons,← dedupPairs]
    split
    · exact ih
    next new =>
      simp only [Bool.or_eq_true,List.contains_iff_mem,not_or] at new
      exact List.Nodup.append ih (List.nodup_singleton last) (List.disjoint_singleton.mpr new.2)

theorem nodup_eraseDups {α : Type} [DecidableEq α] (l : List α) : l.eraseDups.Nodup := by
  induction n : l.length using Nat.strong_induction_on generalizing l with
  | _ n ih =>
    cases l with
    | nil => exact List.nodup_nil
    | cons a l =>
      rw [List.eraseDups_cons,List.nodup_cons]
      refine ⟨by simp,ih _ ?_ _ rfl⟩
      subst n
      exact Nat.lt_succ_of_le (List.length_filter_le _ l)

theorem foldl_set_nodup {α κ : Type} [DecidableEq κ] {key : α → κ} (l : List α) (nodup : (l.map key).Nodup) :
    (l.foldl set (empty : Table key)).rows = l := by
  induction l using List.reverseRecOn with
  | nil => rfl
  | append_singleton l a ih =>
    rw [List.map_append,List.nodup_append] at nodup
    rw [List.foldl_append,List.foldl_cons,List.foldl_nil,set_rows_of_new,ih nodup.1]
    refine find?_eq_none.mpr fun b mem same => ?_
    rw [← mem_rows,ih nodup.1] at mem
    exact nodup.2.2 (key b) (List.mem_map_of_mem mem) (key a) (by simp) same

theorem byChannel_rows {channels : List DirectoryChannel}
    (distinct : (channels.map channelId).Nodup) : (byChannel channels).rows = keptChannels channels :=
  foldl_set_nodup _ (distinct.sublist (List.filter_sublist.map _))

end

namespace PostgresDirectory

variable {δ : Type}

def channelsHash (p : PostgresDirectory δ) : Option δ := p.sync.bind SyncRow.channelsHash

def groupsHash (p : PostgresDirectory δ) : Option δ := p.sync.bind SyncRow.groupsHash

def synced (p : PostgresDirectory δ) : Bool := p.sync.any SyncRow.channelMembersSynced

end PostgresDirectory

open PostgresDirectory (writeSync hashRoster swapIfChanged channelsHash groupsHash)

open PostgresDirectory (exec replaceGroups upsertGroup replace create groupMembership)

section

variable {δ : Type} (hash : Text → δ)

structure ChannelsAgree (d : DirectoryStore) (p : PostgresDirectory δ) : Prop where
  channels : p.channels.Perm (d.channels.map channelRow)
  distinct : (d.channels.map channelId).Nodup
  members : ∀ c q, (c,q) ∈ p.channelMembers ↔ d.channelMember c q = true
  synced : p.synced = d.channelMembers.isSome
  plain : ∀ c ∈ p.channels, plainStored c = true
  plainRows : ∀ r ∈ p.channelMembers, plainRow r = true
  recorded : ∀ h, p.channelsHash = some h → ∃ rows, (rows = none ∨ rows = some p.channelMembers) ∧
    h = hashRoster hash (channelsRoster p.channels rows)

structure GroupsAgree (d : DirectoryStore) (p : PostgresDirectory δ) : Prop where
  members : ∀ g q, (g,q) ∈ p.groupMembers ↔ d.groupMember g q = true
  nodup : p.groupMembers.Nodup
  known : p.groupsHash.isSome = d.groupMembers.isSome
  plain : ∀ r ∈ p.groupMembers, plainRow r = true
  recorded : ∀ h, p.groupsHash = some h →
    h = hashRoster hash (p.groupMembers.map membershipText)

variable {hash}

structure SameChannels (p p' : PostgresDirectory δ) : Prop where
  channels : p'.channels = p.channels
  members : p'.channelMembers = p.channelMembers
  synced : p'.synced = p.synced
  hash : p'.channelsHash = p.channelsHash

structure SameGroups (p p' : PostgresDirectory δ) : Prop where
  members : p'.groupMembers = p.groupMembers
  hash : p'.groupsHash = p.groupsHash

variable {d : DirectoryStore} {p p' : PostgresDirectory δ}

theorem ChannelsAgree.frame {d' : DirectoryStore} (agree : ChannelsAgree hash d p) (same : SameChannels p p')
    (channels : d'.channels = d.channels) (members : d'.channelMembers = d.channelMembers) :
    ChannelsAgree hash d' p' := by
  have member (c q : String) : d'.channelMember c q = d.channelMember c q := by
    rw [DirectoryStore.channelMember,DirectoryStore.channelMember,members]
  refine ⟨?_,?_,fun c q => ?_,?_,?_,?_,fun h stored => ?_⟩
  · rw [same.channels,channels]
    exact agree.channels
  · rw [channels]
    exact agree.distinct
  · rw [same.members,member]
    exact agree.members c q
  · rw [same.synced,members]
    exact agree.synced
  · rw [same.channels]
    exact agree.plain
  · rw [same.members]
    exact agree.plainRows
  · rw [same.hash] at stored
    rw [same.channels,same.members]
    exact agree.recorded h stored

theorem GroupsAgree.frame {d' : DirectoryStore} (agree : GroupsAgree hash d p) (same : SameGroups p p')
    (members : d'.groupMembers = d.groupMembers) : GroupsAgree hash d' p' := by
  have member (g q : String) : d'.groupMember g q = d.groupMember g q := by
    rw [DirectoryStore.groupMember,DirectoryStore.groupMember,members]
  refine ⟨fun g q => ?_,?_,?_,?_,fun h stored => ?_⟩
  · rw [same.members,member]
    exact agree.members g q
  · rw [same.members]
    exact agree.nodup
  · rw [same.hash,members]
    exact agree.known
  · rw [same.members]
    exact agree.plain
  · rw [same.hash] at stored
    rw [same.members]
    exact agree.recorded h stored

section

variable {p q : PostgresDirectory δ} {set : SyncRow δ → SyncRow δ}

theorem writeSync_channels (channels : q.channels = p.channels) (members : q.channelMembers = p.channelMembers)
    (sync : q.sync = p.sync) (hash : ∀ row, (set row).channelsHash = row.channelsHash)
    (synced : ∀ row, (set row).channelMembersSynced = row.channelMembersSynced) : SameChannels p (q.writeSync set) := by
  refine ⟨channels,members,?_,?_⟩
  · cases row : p.sync <;> simp [PostgresDirectory.synced,writeSync,sync,row,synced]
  · cases row : p.sync <;> simp [channelsHash,writeSync,sync,row,hash]

theorem writeSync_groups (members : q.groupMembers = p.groupMembers) (sync : q.sync = p.sync)
    (hash : ∀ row, (set row).groupsHash = row.groupsHash) : SameGroups p (q.writeSync set) := by
  refine ⟨members,?_⟩
  cases row : p.sync <;> simp [groupsHash,writeSync,sync,row,hash]

variable [DecidableEq δ] {hash : Text → δ} (p)

theorem replace_channels (members : List DirectoryMember) : SameChannels p (p.replace hash members) := by
  rw [replace,swapIfChanged]
  split
  · exact ⟨rfl,rfl,rfl,rfl⟩
  · exact writeSync_channels rfl rfl rfl (fun _ => rfl) fun _ => rfl

theorem replace_groups (members : List DirectoryMember) : SameGroups p (p.replace hash members) := by
  rw [replace,swapIfChanged]
  split
  · exact ⟨rfl,rfl⟩
  · exact writeSync_groups rfl rfl fun _ => rfl

theorem replaceGroups_channels (rows : List Membership) : SameChannels p (p.replaceGroups hash rows) := by
  rw [replaceGroups,swapIfChanged]
  split
  · exact ⟨rfl,rfl,rfl,rfl⟩
  · exact writeSync_channels rfl rfl rfl (fun _ => rfl) fun _ => rfl

omit [DecidableEq δ] in
theorem upsertGroup_channels (groupId : String) (principalIds : List String) :
    SameChannels p (p.upsertGroup hash groupId principalIds) := by
  simp only [upsertGroup]
  split
  · exact ⟨rfl,rfl,rfl,rfl⟩
  · exact writeSync_channels rfl rfl rfl (fun _ => rfl) fun _ => rfl

def channelsDigest (hash : Text → δ) (channels : List DirectoryChannel) (rows : Option (List Membership)) : δ :=
  hashRoster hash (channelsRoster ((byChannel channels).rows.map channelRow) (rows.map dedupPairs))

def swapChannels (hash : Text → δ) (p : PostgresDirectory δ) (channels : List DirectoryChannel)
    (rows : Option (List Membership)) : PostgresDirectory δ :=
  if p.channelsHash = some (channelsDigest hash channels rows) then p
  else {p with
      channels := (byChannel channels).rows.map channelRow
      channelMembers := (rows.map dedupPairs).getD p.channelMembers}.writeSync
    fun row => {row with channelsHash := some (channelsDigest hash channels rows)}

def markSynced (p : PostgresDirectory δ) : PostgresDirectory δ :=
  {p with sync := p.sync.map fun row => {row with channelMembersSynced := true}}

theorem replaceChannels_eq (channels : List DirectoryChannel) (rows : Option (List Membership)) :
    p.replaceChannels hash channels rows =
      if rows.isSome then markSynced (swapChannels hash p channels rows) else swapChannels hash p channels rows := by
  cases rows <;> rfl

theorem replaceChannels_groups (channels : List DirectoryChannel) (rows : Option (List Membership)) :
    SameGroups p (p.replaceChannels hash channels rows) := by
  have marked (q : PostgresDirectory δ) : SameGroups q (markSynced q) := by
    refine ⟨rfl,?_⟩
    cases row : q.sync <;> simp [groupsHash,markSynced,row]
  have swapped : SameGroups p (swapChannels hash p channels rows) := by
    rw [swapChannels]
    split
    · exact ⟨rfl,rfl⟩
    · exact writeSync_groups rfl rfl fun _ => rfl
  rw [replaceChannels_eq]
  split
  · exact ⟨(marked _).members.trans swapped.members,(marked _).hash.trans swapped.hash⟩
  · exact swapped

end

section

variable [DecidableEq δ] {d : DirectoryStore} {p : PostgresDirectory δ} {channels : List DirectoryChannel}
  {rows : Option (List Membership)}

structure Swapped (hash : Text → δ) (p : PostgresDirectory δ) (channels : List DirectoryChannel)
    (rows : Option (List Membership)) (q : PostgresDirectory δ) : Prop where
  channels : q.channels.Perm ((keptChannels channels).map channelRow)
  kept : rows = none → q.channelMembers = p.channelMembers
  members : ∀ l, rows = some l → ∀ r, r ∈ q.channelMembers ↔ r ∈ dedupPairs l
  synced : q.synced = p.synced
  present : q.sync.isSome = true
  plain : ∀ c ∈ q.channels, plainStored c = true
  plainRows : ∀ r ∈ q.channelMembers, plainRow r = true
  recorded : ∀ h, q.channelsHash = some h → ∃ rows, (rows = none ∨ rows = some q.channelMembers) ∧
    h = hashRoster hash (channelsRoster q.channels rows)

theorem plain_channels (plain : (DirectoryCall.replaceChannels channels rows).plain) :
    (∀ c ∈ (keptChannels channels).map channelRow, plainStored c) ∧ ∀ l ∈ rows.map dedupPairs, ∀ r ∈ l, plainRow r := by
  rw [DirectoryCall.plain,Bool.and_eq_true,List.all_eq_true] at plain
  refine ⟨fun c mem => ?_,fun l mem r row => ?_⟩
  · obtain ⟨channel,kept,rfl⟩ := List.mem_map.mp mem
    exact plain.1 channel (List.mem_filter.mp kept).1
  · obtain ⟨given,rfl,rfl⟩ := Option.map_eq_some_iff.mp mem
    exact List.all_eq_true.mp plain.2 r (mem_dedupPairs.mp row).1

variable (agree : ChannelsAgree hash d p) (distinct : (channels.map channelId).Nodup)
  (plain : (DirectoryCall.replaceChannels channels rows).plain)
include agree distinct plain

theorem swapped_write (changed : p.channelsHash ≠ some (channelsDigest hash channels rows)) :
    Swapped hash p channels rows (swapChannels hash p channels rows) := by
  obtain ⟨plainNew,plainRowsNew⟩ := plain_channels plain
  rw [swapChannels,if_neg changed]
  refine ⟨?_,fun none => ?_,fun l given r => ?_,?_,rfl,?_,?_,fun h stored => ?_⟩
  · rw [writeSync,byChannel_rows distinct]
  · rw [none]
    rfl
  · rw [given]
    rfl
  · cases row : p.sync <;> simp [PostgresDirectory.synced,writeSync,row]
  · rw [byChannel_rows distinct]
    exact plainNew
  · cases rows with
    | none => exact agree.plainRows
    | some => exact plainRowsNew _ rfl
  · have digest : channelsDigest hash channels rows = h := Option.some.inj stored
    refine ⟨rows.map dedupPairs,?_,digest.symm⟩
    cases rows with
    | none => exact .inl rfl
    | some => exact .inr rfl

variable (injective : Function.Injective hash)
include injective

omit [DecidableEq δ] in
theorem swapped_skip (same : p.channelsHash = some (channelsDigest hash channels rows)) :
    Swapped hash p channels rows p := by
  obtain ⟨plainNew,plainRowsNew⟩ := plain_channels plain
  obtain ⟨stored,which,digest⟩ := agree.recorded _ same
  have plainStoredRows : ∀ l ∈ stored, ∀ r ∈ l, plainRow r = true := by
    intro l mem
    rcases which with rfl | rfl
    · cases mem
    · cases mem
      exact agree.plainRows
  rw [channelsDigest,byChannel_rows distinct] at digest
  have perm := roster_perm injective (lined_channelsRoster plainNew plainRowsNew)
    (lined_channelsRoster agree.plain plainStoredRows) digest
  refine ⟨?_,fun _ => rfl,fun l given r => ?_,rfl,?_,agree.plain,agree.plainRows,agree.recorded⟩
  · have decoded := perm.filterMap decodeChannel
    rw [decodeChannel_roster plainNew plainRowsNew,decodeChannel_roster agree.plain plainStoredRows] at decoded
    exact decoded.symm
  · subst given
    have known := (known_roster agree.plain).mp (perm.subset ((known_roster plainNew).mpr rfl))
    have decoded := perm.filterMap decodeChannelMembership
    rw [decodeMembership_roster plainNew plainRowsNew,decodeMembership_roster agree.plain plainStoredRows] at decoded
    rcases which with rfl | rfl
    · cases known
    · exact decoded.symm.mem_iff
  · cases row : p.sync with
    | none => simp [channelsHash,row] at same
    | some => rfl

theorem swapChannels_swapped : Swapped hash p channels rows (swapChannels hash p channels rows) := by
  by_cases same : p.channelsHash = some (channelsDigest hash channels rows)
  · rw [swapChannels,if_pos same]
    exact swapped_skip agree distinct plain injective same
  · exact swapped_write agree distinct plain same

theorem replaceChannels_agree :
    ChannelsAgree hash (d.replaceChannels channels rows) (p.replaceChannels hash channels rows) := by
  have swapped := swapChannels_swapped agree distinct plain injective
  have nodup : ((keptChannels channels).map channelId).Nodup :=
    distinct.sublist (List.filter_sublist.map _)
  rw [replaceChannels_eq]
  generalize swapChannels hash p channels rows = q at swapped
  cases rows with
  | none =>
    refine ⟨swapped.channels,nodup,fun c r => ?_,?_,swapped.plain,swapped.plainRows,swapped.recorded⟩
    · rw [if_neg (by simp),swapped.kept rfl]
      exact agree.members c r
    · exact swapped.synced.trans agree.synced
  | some l =>
    have recorded : (markSynced q).channelsHash = q.channelsHash := by
      cases row : q.sync <;> simp [channelsHash,markSynced,row]
    rw [if_pos (by simp)]
    refine ⟨swapped.channels,nodup,fun c r => ?_,?_,swapped.plain,swapped.plainRows,fun h stored => ?_⟩
    · rw [markSynced,swapped.members l rfl,mem_dedupPairs,← has_ofRows]
      rfl
    · obtain ⟨row,here⟩ := Option.isSome_iff_exists.mp swapped.present
      simp [PostgresDirectory.synced,markSynced,here,DirectoryStore.replaceChannels]
    · exact swapped.recorded h (recorded ▸ stored)

end

section

variable [DecidableEq δ] {d : DirectoryStore} {p : PostgresDirectory δ}

omit [DecidableEq δ] in
theorem membership_perm (injective : Function.Injective hash) {rows rows' : List Membership}
    (plain : ∀ r ∈ rows, plainRow r) (plain' : ∀ r ∈ rows', plainRow r)
    (same : hashRoster hash (rows.map membershipText) =
      hashRoster hash (rows'.map membershipText)) : rows.Perm rows' := by
  have lined {l : List Membership} (plain : ∀ r ∈ l, plainRow r = true) : ∀ t ∈ l.map membershipText, Lined t := by
    intro t mem
    obtain ⟨r,row,rfl⟩ := List.mem_map.mp mem
    exact lined_membershipText (plain r row)
  have decoded {l : List Membership} (plain : ∀ r ∈ l, plainRow r = true) :
      (l.map membershipText).filterMap decodeMembership = l := by
    rw [List.filterMap_map]
    exact (List.filterMap_congr fun r mem => decode_membershipText (plain r mem)).trans List.filterMap_some
  have perm := (roster_perm injective (lined plain) (lined plain') same).filterMap decodeMembership
  rwa [decoded plain,decoded plain'] at perm

theorem replaceGroups_agree (injective : Function.Injective hash) (agree : GroupsAgree hash d p)
    {groupMembers : List Membership} (plain : (DirectoryCall.replaceGroups groupMembers).plain) :
    GroupsAgree hash (d.replaceGroups groupMembers) (p.replaceGroups hash groupMembers) := by
  have plainNew : ∀ r ∈ dedupPairs groupMembers, plainRow r = true := fun r mem =>
    List.all_eq_true.mp plain r (mem_dedupPairs.mp mem).1
  have new (g q : String) : (g,q) ∈ dedupPairs groupMembers ↔
    (d.replaceGroups groupMembers).groupMember g q = true := by
    rw [mem_dedupPairs,← has_ofRows]
    rfl
  simp only [replaceGroups,swapIfChanged]
  split
  next same =>
    have perm := membership_perm injective plainNew agree.plain (agree.recorded _ same)
    refine ⟨fun g q => ?_,agree.nodup,?_,agree.plain,agree.recorded⟩
    · rw [← perm.mem_iff]
      exact new g q
    · rw [groupsHash,same]
      rfl
  · refine ⟨new,nodup_dedupPairs groupMembers,rfl,plainNew,fun h stored => ?_⟩
    exact (Option.some.inj stored).symm

omit [DecidableEq δ] in
theorem upsertGroup_agree (agree : GroupsAgree hash d p) {groupId : String} {principalIds : List String}
    (plain : (DirectoryCall.upsertGroup groupId principalIds).plain) :
    GroupsAgree hash (d.upsertGroup groupId principalIds) (p.upsertGroup hash groupId principalIds) := by
  rw [DirectoryCall.plain,Bool.and_eq_true,List.all_eq_true] at plain
  have ids : (principalIds.filter (· ≠ "")).eraseDups.isEmpty = (principalIds.filter (· ≠ "")).isEmpty := by
    cases principalIds.filter (· ≠ "") with
    | nil => rfl
    | cons => simp [List.eraseDups_cons]
  simp only [upsertGroup,DirectoryStore.upsertGroup,ids]
  split
  · exact agree
  · have row (r : Membership) : r ∈ p.groupMembers.filter (fun r => r.1 ≠ groupId) ++
        (principalIds.filter (· ≠ "")).eraseDups.map (fun id => (groupId,id)) ↔
        (r ∈ p.groupMembers ∧ r.1 ≠ groupId) ∨ (r.1 = groupId ∧ r.2 ∈ principalIds.filter (· ≠ "")) := by
      obtain ⟨g,q⟩ := r
      simp only [List.mem_append,List.mem_filter,List.mem_map,List.mem_eraseDups,decide_eq_true_eq,Prod.mk.injEq]
      constructor
      · rintro (mem | ⟨id,mem,rfl,rfl⟩)
        · exact .inl mem
        · exact .inr ⟨rfl,mem⟩
      · rintro (mem | ⟨rfl,mem⟩)
        · exact .inl mem
        · exact .inr ⟨q,mem,rfl,rfl⟩
    refine ⟨fun g q => ?_,?_,rfl,fun r mem => ?_,fun h stored => (Option.some.inj stored).symm⟩
    · have old : (d.groupMembers.getD .empty).has g q = true ↔ d.groupMember g q = true := by
        rw [DirectoryStore.groupMember]
        cases d.groupMembers <;> simp [has,membersOf]
      refine (row (g,q)).trans ?_
      rw [DirectoryStore.groupMember,Option.any_some,has_set,old,agree.members,List.mem_eraseDups]
      exact ⟨fun h => h.symm.imp id And.symm,fun h => h.symm.imp And.symm id⟩
    · refine List.Nodup.append (agree.nodup.filter _) ?_ ?_
      · exact List.Nodup.map (fun a b same => (Prod.mk.inj same).2) (nodup_eraseDups _)
      · intro r old new
        obtain ⟨id,_,rfl⟩ := List.mem_map.mp new
        simp at old
    · rcases (row r).mp mem with ⟨old,_⟩ | ⟨rfl,new⟩
      · exact agree.plain r old
      · rw [plainRow,Bool.and_eq_true]
        exact ⟨plain.1,plain.2 r.2 (List.mem_filter.mp new).1⟩

end

structure Agree (hash : Text → δ) (d : DirectoryStore) (p : PostgresDirectory δ) : Prop where
  channels : ChannelsAgree hash d p
  groups : GroupsAgree hash d p

theorem agree_create : Agree hash .create .create := by
  refine ⟨⟨.nil,List.nodup_nil,fun c q => ?_,rfl,?_,?_,?_⟩,⟨fun g q => ?_,List.nodup_nil,rfl,?_,?_⟩⟩
  all_goals simp [create,DirectoryStore.create,DirectoryStore.channelMember,
    DirectoryStore.groupMember,channelsHash,groupsHash]

variable [DecidableEq δ]

theorem agree_exec (injective : Function.Injective hash) (agree : Agree hash d p) {call : DirectoryCall}
    (distinct : call.distinct) (plain : call.plain) : Agree hash (d.exec call) (p.exec hash call) := by
  cases call with
  | replace members =>
    exact ⟨agree.channels.frame (replace_channels p members) rfl rfl,agree.groups.frame (replace_groups p members) rfl⟩
  | replaceChannels channels rows =>
    refine ⟨replaceChannels_agree agree.channels (of_decide_eq_true distinct) plain injective,?_⟩
    refine agree.groups.frame (replaceChannels_groups p channels rows) ?_
    cases rows <;> rfl
  | replaceGroups rows =>
    exact ⟨agree.channels.frame (replaceGroups_channels p rows) rfl rfl,
      replaceGroups_agree injective agree.groups plain⟩
  | upsertGroup groupId principalIds =>
    refine ⟨agree.channels.frame (upsertGroup_channels p groupId principalIds) ?_ ?_,
      upsertGroup_agree agree.groups plain⟩
    all_goals
      simp only [DirectoryStore.exec,DirectoryStore.upsertGroup]
      split <;> rfl

theorem agree_run (injective : Function.Injective hash) (calls : List DirectoryCall)
    (distinct : ∀ call ∈ calls, call.distinct) (plain : ∀ call ∈ calls, call.plain) :
    Agree hash (run DirectoryStore.exec .create calls) (run (exec hash) .create calls) := by
  induction calls using List.reverseRecOn with
  | nil => exact agree_create
  | append_singleton calls call ih =>
    rw [run_append,run_append]
    have last : call ∈ calls ++ [call] := by simp
    refine agree_exec injective (ih (fun c mem => ?_) fun c mem => ?_) (distinct call last) (plain call last)
    · exact distinct c (List.mem_append_left _ mem)
    · exact plain c (List.mem_append_left _ mem)

end

section

variable {δ : Type} [DecidableEq δ] {hash : Text → δ}

theorem groups_recorded_exec {p : PostgresDirectory δ} (recorded : p.groupMembers ≠ [] → p.groupsHash.isSome)
    (call : DirectoryCall) : (p.exec hash call).groupMembers ≠ [] → (p.exec hash call).groupsHash.isSome := by
  cases call with
  | replace members =>
    rw [exec,(replace_groups p members).members,(replace_groups p members).hash]
    exact recorded
  | replaceChannels channels rows =>
    rw [exec,(replaceChannels_groups p channels rows).members,
      (replaceChannels_groups p channels rows).hash]
    exact recorded
  | replaceGroups =>
    intro _
    simp only [exec,replaceGroups,swapIfChanged]
    split
    next same =>
      rw [groupsHash,same]
      rfl
    · rfl
  | upsertGroup =>
    simp only [exec,upsertGroup]
    split
    · exact recorded
    · exact fun _ => rfl

theorem groups_recorded_run (calls : List DirectoryCall) :
    (run (exec hash) .create calls).groupMembers ≠ [] →
      (run (exec hash) .create calls).groupsHash.isSome := by
  induction calls using List.reverseRecOn with
  | nil => exact fun some => absurd rfl some
  | append_singleton _ call ih =>
    rw [run_append]
    exact groups_recorded_exec ih call

end

def stated (c : DirectoryChannel) : DirectoryChannel := {c with isPrivate := some (c.isPrivate = some true)}

structure SameAnswers {δ : Type} (d : DirectoryStore) (p : PostgresDirectory δ) : Prop where
  channelMember : ∀ channelId principalId, d.channelMember channelId principalId = p.channelMember channelId principalId
  channelMembership : ∀ channelId principalId,
    d.channelMembership channelId principalId = p.channelMembership channelId principalId
  channelPrivacy : ∀ channelId, d.channelPrivacy channelId = p.channelPrivacy channelId
  groupMember : ∀ groupId principalId, d.groupMember groupId principalId = p.groupMember groupId principalId
  groupMembership : ∀ groupId principalId, d.groupMembership groupId principalId = p.groupMembership groupId principalId
  listGroupsFor : ∀ principalId, (d.listGroupsFor principalId).Perm (p.listGroupsFor principalId)
  listChannelsFor : ∀ principalId, ((d.listChannelsFor principalId).map stated).Perm (p.listChannelsFor principalId)

def MembersListed (d : DirectoryStore) : Prop :=
  ∀ channelId principalId, d.channelMember channelId principalId = true → (d.findChannel channelId).isSome = true

def GroupsFromSync (d : DirectoryStore) : Prop := d.groupMembers.isSome = true → d.groupsSynced = true

section

variable {δ : Type} {hash : Text → δ} {d : DirectoryStore} {p : PostgresDirectory δ}

theorem find?_perm {α κ : Type} [DecidableEq κ] {key : α → κ} {l l' : List α} (perm : l.Perm l')
    (nodup : (l'.map key).Nodup) (k : κ) : l.find? (fun a => key a = k) = l'.find? fun a => key a = k := by
  have nodup' : (l.map key).Nodup := (perm.map key).nodup_iff.mpr nodup
  have member (a : α) : a ∈ (⟨l,nodup'⟩ : Table key) ↔ a ∈ (⟨l',nodup⟩ : Table key) := perm.mem_iff
  have same : (⟨l,nodup'⟩ : Table key).find? k = (⟨l',nodup⟩ : Table key).find? k := by
    ext a
    rw [find?_eq_some,find?_eq_some,member]
  exact same

section

variable (agree : ChannelsAgree hash d p)
include agree

theorem ChannelsAgree.findChannel (channelId : String) :
    p.findChannel channelId = (d.findChannel channelId).map channelRow := by
  have nodup : ((d.channels.map channelRow).map ChannelRow.channelId).Nodup := by
    rw [List.map_map]
    exact agree.distinct
  rw [PostgresDirectory.findChannel,find?_perm agree.channels nodup,List.find?_map]
  rfl

theorem ChannelsAgree.channelMember (channelId principalId : String) :
    d.channelMember channelId principalId = p.channelMember channelId principalId := by
  rw [Bool.eq_iff_iff,← agree.members,PostgresDirectory.channelMember,List.contains_iff_mem]

omit agree in
theorem GroupsAgree.groupMember (agree : GroupsAgree hash d p) (groupId principalId : String) :
    d.groupMember groupId principalId = p.groupMember groupId principalId := by
  rw [Bool.eq_iff_iff,← agree.members,PostgresDirectory.groupMember,List.contains_iff_mem]

theorem ChannelsAgree.channelPrivacy (channelId : String) :
    d.channelPrivacy channelId = p.channelPrivacy channelId := by
  rw [PostgresDirectory.channelPrivacy,agree.findChannel,Option.map_map]
  rfl

theorem ChannelsAgree.listChannelsFor (principalId : String) :
    ((d.listChannelsFor principalId).map stated).Perm (p.listChannelsFor principalId) := by
  have rows := (agree.channels.filter fun c => !c.isPrivate || p.channelMember c.channelId principalId).map
    ChannelRow.channel
  rw [List.filter_map,List.map_map] at rows
  have shown : d.listChannelsFor principalId = d.channels.filter
      ((fun c => !c.isPrivate || p.channelMember c.channelId principalId) ∘ channelRow) := by
    refine List.filter_congr fun c _ => ?_
    rw [agree.channelMember]
    simp [channelRow]
  rw [shown]
  exact rows.symm

omit agree in
theorem GroupsAgree.listGroupsFor (agree : GroupsAgree hash d p) (principalId : String) :
    (d.listGroupsFor principalId).Perm (p.listGroupsFor principalId) := by
  have stored (g : String) : g ∈ p.listGroupsFor principalId ↔ (g,principalId) ∈ p.groupMembers := by
    simp [PostgresDirectory.listGroupsFor]
  have nodup : (p.listGroupsFor principalId).Nodup := by
    refine List.Nodup.map_on (fun a ha b hb same => ?_) (agree.nodup.filter _)
    refine Prod.ext same ?_
    rw [of_decide_eq_true (List.mem_filter.mp ha).2,of_decide_eq_true (List.mem_filter.mp hb).2]
  have members := agree.members
  rw [DirectoryStore.listGroupsFor]
  simp only [DirectoryStore.groupMember] at members
  generalize d.groupMembers = groups at members
  cases groups with
  | none =>
    have empty : p.listGroupsFor principalId = [] := by
      rw [List.eq_nil_iff_forall_not_mem]
      intro g mem
      simpa using (members g principalId).mp ((stored g).mp mem)
    rw [empty]
  | some m =>
    have nodup' : ((m.rows.filter fun r => r.2.contains principalId).map Prod.fst).Nodup :=
      m.nodup.sublist (List.filter_sublist.map _)
    refine (List.perm_ext_iff_of_nodup nodup' nodup).mpr fun g => ?_
    rw [stored,members,Option.any_some,has,membersOf,List.mem_map]
    constructor
    · rintro ⟨⟨id,principals⟩,mem,rfl⟩
      obtain ⟨row,has⟩ := List.mem_filter.mp mem
      rw [find?_eq_some.mpr ⟨row,rfl⟩]
      exact has
    · intro has
      cases found : m.find? g with
      | none => simp [found] at has
      | some r =>
        rw [found] at has
        exact ⟨r,List.mem_filter.mpr ⟨mem_of_find? found,has⟩,key_of_find? found⟩

theorem ChannelsAgree.channelMembership_iff (channelId principalId : String) :
    d.channelMembership channelId principalId = p.channelMembership channelId principalId ↔
      (d.channelMember channelId principalId → (d.findChannel channelId).isSome) := by
  have synced : p.sync.any SyncRow.channelMembersSynced = d.channelMembers.isSome := agree.synced
  rw [PostgresDirectory.channelMembership,DirectoryStore.channelMembership,← agree.channelMember,agree.findChannel,
    synced,DirectoryStore.channelMember]
  cases d.channelMembers with
  | none => simp
  | some m =>
    cases d.findChannel channelId with
    | none => cases has : m.has channelId principalId <;> simp [has]
    | some => simp [channelRow]

end

theorem GroupsAgree.groupMembership_iff (agree : GroupsAgree hash d p) (groupId principalId : String) :
    d.groupMembership groupId principalId = p.groupMembership groupId principalId ↔ GroupsFromSync d := by
  have known : (p.sync.any fun row => row.groupsHash.isSome) = d.groupMembers.isSome := by
    rw [← agree.known,groupsHash]
    cases p.sync <;> rfl
  rw [groupMembership,DirectoryStore.groupMembership,known,← agree.groupMember,
    DirectoryStore.groupMember,GroupsFromSync]
  cases d.groupMembers with
  | none => simp
  | some => cases d.groupsSynced <;> simp

end

theorem directories_agree_iff {δ : Type} [DecidableEq δ] (hash : Text → δ) (injective : Function.Injective hash)
    (calls : List DirectoryCall) (distinct : ∀ call ∈ calls, call.distinct = true)
    (plain : ∀ call ∈ calls, call.plain = true) :
    SameAnswers (run DirectoryStore.exec .create calls) (run (exec hash) .create calls) ↔
      MembersListed (run DirectoryStore.exec .create calls) ∧
        GroupsFromSync (run DirectoryStore.exec .create calls) := by
  obtain ⟨channels,groups⟩ := agree_run injective calls distinct plain
  constructor
  · intro same
    refine ⟨fun c q => ?_,?_⟩
    · exact (channels.channelMembership_iff c q).mp (same.channelMembership c q)
    · exact (groups.groupMembership_iff "" "").mp (same.groupMembership "" "")
  · rintro ⟨listed,fromSync⟩
    exact {
      channelMember := channels.channelMember
      channelMembership := fun c q => (channels.channelMembership_iff c q).mpr (listed c q)
      channelPrivacy := channels.channelPrivacy
      groupMember := groups.groupMember
      groupMembership := fun g q => (groups.groupMembership_iff g q).mpr fromSync
      listGroupsFor := groups.listGroupsFor
      listChannelsFor := channels.listChannelsFor}

def syncedCalls : List DirectoryCall :=
  [.replace [⟨"ana","Ana",.internal,none⟩],.replaceChannels [⟨"C1","eng",some true⟩] (some [("C1","ana")]),
    .replaceGroups [("G1","ana")],.upsertGroup "G2" ["bo","ana"],
    .replaceChannels [⟨"C1","eng",some true⟩] (some [("C1","ana")])]

theorem directories_agree_synced : SameAnswers (run DirectoryStore.exec .create syncedCalls)
      (run (exec (id : Text → Text)) .create syncedCalls) := by
  refine (directories_agree_iff id Function.injective_id syncedCalls (by decide) (by decide)).mpr
    ⟨fun c q has => ?_,fun _ => rfl⟩
  have row : (ofRows [("C1","ana")]).has c q = true := has
  obtain ⟨mem,_⟩ := (has_ofRows _ c q).mp row
  rw [List.mem_singleton,Prod.mk.injEq] at mem
  rw [mem.1]
  decide

def upsertedCalls : List DirectoryCall := [.upsertGroup "G" ["ana"]]

def unlistedCalls : List DirectoryCall := [.replaceChannels [] (some [("C1","ana")])]

def collidingCalls : List DirectoryCall :=
  [.replaceChannels [⟨"a","b|c",none⟩] none,.replaceChannels [⟨"a|b","c",none⟩] none]

theorem directories_differ :
    let memory (calls : List DirectoryCall) := run DirectoryStore.exec .create calls
    let postgres (calls : List DirectoryCall) := run (exec (id : Text → Text)) .create calls
    (∀ calls ∈ [upsertedCalls,unlistedCalls,collidingCalls], ∀ call ∈ calls, call.distinct = true) ∧
    (memory upsertedCalls).groupMembership "G" "ana" = none ∧
    (postgres upsertedCalls).groupMembership "G" "ana" = some true ∧
    (memory unlistedCalls).channelMembership "C1" "ana" = none ∧
    (postgres unlistedCalls).channelMembership "C1" "ana" = some true ∧
    (memory collidingCalls).channelPrivacy "a" = none ∧ (postgres collidingCalls).channelPrivacy "a" = some false := by
  decide

end CompanyBrain.Directory
