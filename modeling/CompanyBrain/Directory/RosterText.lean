import CompanyBrain.Directory.PostgresDirectoryStore

namespace CompanyBrain.Directory

open Foundations

def plainText (s : String) : Bool := s.toList.all fun c => c ≠ '|' && c ≠ '\n'

def plainRow (r : Membership) : Bool := plainText r.1 && plainText r.2

def plainChannel (c : DirectoryChannel) : Bool := plainText c.channelId && plainText c.name

section

variable {s : String} {r : Membership} {c : ChannelRow} {t : Text}

theorem plain_bar (plain : plainText s) : '|' ∉ s.toList := by
  intro mem
  simpa using List.all_eq_true.mp plain '|' mem

theorem plain_line (plain : plainText s) : '\n' ∉ s.toList := by
  intro mem
  simpa using List.all_eq_true.mp plain '\n' mem

def decodeMembership (t : Text) : Option Membership :=
  (cut '|' t).map fun p => (String.ofList p.1,String.ofList p.2)

theorem decode_membershipText (plain : plainRow r) : decodeMembership (membershipText r) = some r := by
  rw [plainRow,Bool.and_eq_true] at plain
  rw [decodeMembership,membershipText,cut_append _ (plain_bar plain.1)]
  simp

def decodeChannelMembership (t : Text) : Option Membership :=
  (cut '|' t).bind fun p =>
    if p.2.contains '|' then none else some (String.ofList (p.1.drop 2),String.ofList p.2)

def decodeChannel (t : Text) : Option ChannelRow :=
  (cut '|' t).bind fun p =>
    (cut '|' p.2).map fun q => ⟨String.ofList p.1,String.ofList q.1,q.2 = ['1']⟩

theorem cut_channelMembershipText (plain : plainRow r) :
    cut '|' (channelMembershipText r) = some ('m' :: ':' :: r.1.toList,r.2.toList) := by
  rw [plainRow,Bool.and_eq_true] at plain
  have bar : '|' ∉ 'm' :: ':' :: r.1.toList := by simpa using plain_bar plain.1
  exact cut_append r.2.toList bar

theorem decode_channelMembershipText (plain : plainRow r) :
    decodeChannelMembership (channelMembershipText r) = some r ∧ decodeChannel (channelMembershipText r) = none := by
  rw [decodeChannelMembership,decodeChannel,cut_channelMembershipText plain,Option.bind_some,Option.bind_some]
  rw [plainRow,Bool.and_eq_true] at plain
  have bar := plain_bar plain.2
  rw [cut_eq_none bar,if_neg (by simpa using bar)]
  simp

def plainStored (c : ChannelRow) : Bool := plainText c.channelId && plainText c.name

theorem decode_channelText (plain : plainStored c) :
    decodeChannel (channelText c) = some c ∧ decodeChannelMembership (channelText c) = none := by
  rw [plainStored,Bool.and_eq_true] at plain
  rw [decodeChannel,decodeChannelMembership,channelText,cut_append _ (plain_bar plain.1),Option.bind_some,
    cut_append _ (plain_bar plain.2)]
  obtain ⟨channelId,name,isPrivate⟩ := c
  cases isPrivate <;> simp

theorem decode_membersKnown : decodeChannel membersKnown = none ∧ decodeChannelMembership membersKnown = none := by
  decide

end

section

variable {channels channels' : List ChannelRow} {rows rows' : Option (List Membership)}

variable (plain : ∀ c ∈ channels, plainStored c)
include plain

section

variable (plainRows : ∀ l ∈ rows, ∀ r ∈ l, plainRow r)
include plainRows

theorem decodeChannel_roster :
    (channelsRoster channels rows).filterMap decodeChannel = channels := by
  have front : (channels.map channelText).filterMap decodeChannel = channels := by
    rw [List.filterMap_map]
    refine (List.filterMap_congr fun c mem => (decode_channelText (plain c mem)).1).trans ?_
    exact List.filterMap_some
  have back : (membersPart rows).filterMap decodeChannel = [] := by
    cases rows with
    | none => rfl
    | some l =>
      rw [membersPart,List.filterMap_cons,decode_membersKnown.1,List.filterMap_eq_nil_iff]
      intro t mem
      obtain ⟨r,row,rfl⟩ := List.mem_map.mp mem
      exact (decode_channelMembershipText (plainRows l rfl r row)).2
  rw [channelsRoster,List.filterMap_append,front,back,List.append_nil]

theorem decodeMembership_roster :
    (channelsRoster channels rows).filterMap decodeChannelMembership = rows.getD [] := by
  have front : (channels.map channelText).filterMap decodeChannelMembership = [] := by
    rw [List.filterMap_eq_nil_iff]
    intro t mem
    obtain ⟨c,row,rfl⟩ := List.mem_map.mp mem
    exact (decode_channelText (plain c row)).2
  have back : (membersPart rows).filterMap decodeChannelMembership = rows.getD [] := by
    cases rows with
    | none => rfl
    | some l =>
      rw [membersPart,List.filterMap_cons,List.filterMap_map]
      refine (List.filterMap_congr fun r mem => (decode_channelMembershipText (plainRows l rfl r mem)).1).trans ?_
      exact List.filterMap_some
  rw [channelsRoster,List.filterMap_append,front,back,List.nil_append]

end

theorem known_roster : membersKnown ∈ channelsRoster channels rows ↔ rows.isSome := by
  constructor
  · intro mem
    rcases List.mem_append.mp mem with mem | mem
    · obtain ⟨c,mem,same⟩ := List.mem_map.mp mem
      have decoded := (decode_channelText (plain c mem)).1
      rw [same] at decoded
      cases decoded
    · cases rows with
      | none => cases mem
      | some => rfl
  · intro some
    obtain ⟨l,rfl⟩ := Option.isSome_iff_exists.mp some
    exact List.mem_append_right _ (.head _)

end

def Lined (t : Text) : Prop := t ≠ [] ∧ '\n' ∉ t

theorem joinWith_injective {ts us : List Text} (lined : ∀ t ∈ ts, Lined t) (lined' : ∀ t ∈ us, Lined t)
    (same : joinWith ['\n'] ts = joinWith ['\n'] us) : ts = us := by
  have single (t : Text) (h : Lined t) (more : List Text) (empty : joinWith ['\n'] (t :: more) = []) : False := by
    cases more with
    | nil => exact h.1 empty
    | cons => simp [joinWith] at empty
  have cutJoin (t u : Text) (h : Lined t) (more : List Text) :
      cut '\n' (joinWith ['\n'] (t :: u :: more)) = some (t,joinWith ['\n'] (u :: more)) := by
    rw [joinWith,List.append_assoc]
    exact cut_append _ h.2
    exact List.cons_ne_nil u more
  induction ts generalizing us with
  | nil =>
    cases us with
    | nil => rfl
    | cons u us => exact (single u (lined' u (.head _)) us same.symm).elim
  | cons t ts ih =>
    have ht := lined t (.head _)
    cases us with
    | nil => exact (single t ht ts same).elim
    | cons u us =>
      have hu := lined' u (.head _)
      cases ts with
      | nil =>
        cases us with
        | nil => exact congrArg (fun t => [t]) same
        | cons v us =>
          have split := cutJoin u v hu us
          rw [← same,joinWith,cut_eq_none ht.2] at split
          cases split
      | cons v ts =>
        cases us with
        | nil =>
          have split := cutJoin t v ht ts
          rw [same,joinWith,cut_eq_none hu.2] at split
          cases split
        | cons w us =>
          have split := cutJoin t v ht ts
          rw [same,cutJoin u w hu us,Option.some.injEq,Prod.mk.injEq] at split
          have rest := ih (fun t mem => lined t (.tail _ mem))
            (fun t mem => lined' t (.tail _ mem)) split.2.symm
          rw [split.1,rest]

section

variable {δ : Type} {hash : Text → δ}

theorem roster_perm (injective : Function.Injective hash) {rows rows' : List Text} (lined : ∀ t ∈ rows, Lined t)
    (lined' : ∀ t ∈ rows', Lined t)
    (same : PostgresDirectory.hashRoster hash rows = PostgresDirectory.hashRoster hash rows') : rows.Perm rows' := by
  have sorted (l : List Text) : (sortTexts l).Perm l := List.perm_insertionSort _ l
  have joined := joinWith_injective (fun t mem => lined t ((sorted rows).subset mem))
    (fun t mem => lined' t ((sorted rows').subset mem)) (injective same)
  exact (sorted rows).symm.trans (joined ▸ sorted rows')

theorem lined_membershipText {r : Membership} (plain : plainRow r) : Lined (membershipText r) := by
  rw [plainRow,Bool.and_eq_true] at plain
  exact ⟨by simp [membershipText],by simp [membershipText,plain_line plain.1,plain_line plain.2]⟩

theorem lined_channelsRoster {channels : List ChannelRow} {rows : Option (List Membership)}
    (plain : ∀ c ∈ channels, plainStored c) (plainRows : ∀ l ∈ rows, ∀ r ∈ l, plainRow r) :
    ∀ t ∈ channelsRoster channels rows, Lined t := by
  intro t mem
  rcases List.mem_append.mp mem with mem | mem
  · obtain ⟨c,row,rfl⟩ := List.mem_map.mp mem
    have here := plain c row
    rw [plainStored,Bool.and_eq_true] at here
    refine ⟨by simp [channelText],?_⟩
    cases isPrivate : c.isPrivate <;> simp [channelText,isPrivate,plain_line here.1,plain_line here.2]
  · cases rows with
    | none => cases mem
    | some l =>
      rcases List.mem_cons.mp mem with rfl | mem
      · exact ⟨by decide,by decide⟩
      · obtain ⟨r,row,rfl⟩ := List.mem_map.mp mem
        have here := lined_membershipText (plainRows l rfl r row)
        exact ⟨by simp [channelMembershipText],by simpa [channelMembershipText] using here.2⟩

end

end CompanyBrain.Directory
