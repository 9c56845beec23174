import CompanyBrain.Projects.ProjectStore
import Mathlib.Data.List.Pairwise

namespace CompanyBrain.Projects

open Foundations Table
open Directory (Letters personKey samePerson)

variable {letters : Letters} {a b : String}

theorem samePerson_iff :
    samePerson letters a b ↔ personKey letters a ≠ [] ∧ personKey letters a = personKey letters b := by
  simp [samePerson]

theorem samePerson_symm (same : samePerson letters a b) : samePerson letters b a := by
  obtain ⟨named,key⟩ := samePerson_iff.mp same
  exact samePerson_iff.mpr ⟨key ▸ named,key.symm⟩

theorem samePerson_trans {c : String} (ab : samePerson letters a b) (bc : samePerson letters b c) :
    samePerson letters a c := by
  obtain ⟨named,key⟩ := samePerson_iff.mp ab
  exact samePerson_iff.mpr ⟨named,key.trans (samePerson_iff.mp bc).2⟩

instance apart_symm (letters : Letters) : Std.Symm fun a b => samePerson letters a b = false where
  symm a b apart := Bool.eq_false_iff.mpr fun same => by
    rw [samePerson_symm same] at apart
    cases apart

theorem eraseDups_of_nodup {l : List String} (nodup : l.Nodup) : l.eraseDups = l := by
  induction l with
  | nil => rfl
  | cons a l ih =>
    obtain ⟨fresh,nodup⟩ := List.nodup_cons.mp nodup
    have kept : l.filter (fun b => !b == a) = l := by
      refine List.filter_eq_self.mpr fun b mem => ?_
      have other : b ≠ a := fun same => fresh (same ▸ mem)
      simpa using other
    rw [List.eraseDups_cons,kept,ih nodup]

theorem nextRoster_add {memberIds : List String} (nodup : memberIds.Nodup) (memberId : String) :
    nextRoster true memberId memberIds =
      if memberId ∈ memberIds then memberIds else memberIds ++ [memberId] := by
  rw [nextRoster,if_pos rfl,List.eraseDups_append,eraseDups_of_nodup nodup]
  split
  next mem => simp [List.removeAll,mem]
  next absent => simp [List.removeAll,absent,List.eraseDups_cons]

section

variable (letters : Letters)

structure RosterOk (p : Project) : Prop where
  owner : p.ownerId ∈ p.memberIds
  nodup : p.memberIds.Nodup
  distinct : p.memberIds.Pairwise fun a b => samePerson letters a b = false

def Rostered (projects : ProjectTable) : Prop := ∀ p ∈ projects, RosterOk letters p

inductive RosterChange (m : Moment) (projects projects' : ProjectTable) : ProjectCall → Prop
  | idle (call : ProjectCall) (same : projects' = projects)
      (refused : ∀ add id actorId memberId, call = .change add id actorId memberId →
        (mutate letters projects m id actorId memberId add).2.isOk = false) :
      RosterChange m projects projects' call
  | created (call : ProjectCall) (p : Project) (fresh : projects.find? p.id = none)
      (roster : p.memberIds = [p.ownerId]) (other : ∀ add id actorId memberId, call ≠ .change add id actorId memberId)
      (set : projects' = projects.set p) : RosterChange m projects projects' call
  | renamed (call : ProjectCall) (p p' : Project) (mem : p ∈ projects) (ids : p'.id = p.id)
      (owner : p'.ownerId = p.ownerId) (roster : p'.memberIds = p.memberIds)
      (other : ∀ add id actorId memberId, call ≠ .change add id actorId memberId)
      (set : projects' = projects.set p') : RosterChange m projects projects' call
  | changed (add : Bool) (id actorId memberId : String) (p p' : Project) (mem : p ∈ projects) (here : p.id = id)
      (ids : p'.id = p.id) (owner : p'.ownerId = p.ownerId)
      (roster : p'.memberIds = nextRoster add memberId p.memberIds)
      (allowed : canChangeRoster letters add actorId p = true)
      (guest : samePerson letters memberId p.ownerId = false)
      (ok : (mutate letters projects m id actorId memberId add).2.isOk = true)
      (set : projects' = projects.set p') :
      RosterChange m projects projects' (.change add id actorId memberId)

end

theorem updateProject_cases (projects : ProjectTable) (id : String) (change : Project → ProjectMutation) :
    ((updateProject projects id change).1 = projects ∧ (updateProject projects id change).2.isOk = false) ∨
      ∃ p p' changed, projects.find? id = some p ∧ change p = .ok p' changed ∧
        updateProject projects id change = (projects.set p',.ok p' changed) := by
  unfold updateProject
  split
  · exact .inl ⟨rfl,rfl⟩
  next p found =>
    split
    next p' changed made => exact .inr ⟨p,p',changed,found,made,rfl⟩
    next refused =>
      refine .inl ⟨rfl,?_⟩
      cases made : change p with
      | ok p' changed => exact absurd made (refused p' changed)
      | notFound | forbidden | invalidMember | invalidName => rfl

section

variable {letters : Letters} {m : Moment} {add : Bool} {actorId memberId : String} {p p' : Project} {changed : Bool}

theorem changeRoster_ok (made : changeRoster letters m add actorId memberId p = .ok p' changed) :
    (p'.id = p.id ∧ p'.ownerId = p.ownerId ∧ p'.memberIds = nextRoster add memberId p.memberIds) ∧
      canChangeRoster letters add actorId p ∧ samePerson letters memberId p.ownerId = false := by
  unfold changeRoster at made
  split at made
  · cases made
  next allowed =>
    simp only [Bool.or_eq_true,Bool.not_eq_true',not_or,Bool.not_eq_false] at allowed
    split at made
    · cases made
    next guest =>
      refine ⟨?_,allowed.1.1,by simpa using guest⟩
      dsimp only at made
      split at made
      next same =>
        cases made
        exact ⟨rfl,rfl,same.symm⟩
      · cases made
        exact ⟨rfl,rfl,rfl⟩

theorem changeName_ok {ownerId : String} {name : Text} (made : changeName m ownerId name p = .ok p' changed) :
    p'.id = p.id ∧ p'.ownerId = p.ownerId ∧ p'.memberIds = p.memberIds := by
  unfold changeName at made
  split at made
  · cases made
  · split at made <;> cases made <;> exact ⟨rfl,rfl,rfl⟩

end

theorem step_change (store : ProjectStore) (projects : ProjectTable) (m : Moment) (call : ProjectCall) :
    RosterChange store.letters m projects (store.step projects (m,call)) call := by
  cases call with
  | create =>
    rw [ProjectStore.step,createProject]
    dsimp only
    split
    · exact .idle _ rfl fun _ _ _ _ is => by cases is
    · split
      next absent => exact .created _ _ absent rfl (fun _ _ _ _ is => by cases is) rfl
      · split <;> exact .idle _ rfl fun _ _ _ _ is => by cases is
  | change add id actorId memberId =>
    rw [ProjectStore.step]
    by_cases unnamed : memberId = ""
    · refine .idle _ (by simp [mutate,unnamed]) ?_
      rintro _ _ _ _ ⟨⟩
      simp [mutate,unnamed,ProjectMutation.isOk]
    · have through : mutate store.letters projects m id actorId memberId add =
          updateProject projects id (changeRoster store.letters m add actorId memberId) := if_neg unnamed
      rcases updateProject_cases projects id (changeRoster store.letters m add actorId memberId) with
        ⟨same,refused⟩ | ⟨p,p',changed,found,made,updated⟩
      · refine .idle _ (by rw [through,same]) ?_
        rintro _ _ _ _ ⟨⟩
        rw [through]
        exact refused
      · obtain ⟨⟨id_eq,owner,roster⟩,allowed,guest⟩ := changeRoster_ok made
        exact .changed add id actorId memberId p p' (mem_of_find? found) (key_of_find? found) id_eq owner
          roster allowed guest (by rw [through,updated]; rfl) (by rw [through,updated])
  | rename id ownerId name =>
    have other (add : Bool) (id' actorId memberId : String) :
        ProjectCall.rename id ownerId name ≠ .change add id' actorId memberId := by
      rintro ⟨⟩
    rw [ProjectStore.step,Projects.rename]
    split
    · exact .idle _ rfl fun add id' actorId memberId is => absurd is (other add id' actorId memberId)
    · rcases updateProject_cases projects id (changeName m ownerId (cleanName name)) with
        ⟨same,refused⟩ | ⟨p,p',changed,found,made,updated⟩
      · exact .idle _ same fun add id' actorId memberId is => absurd is (other add id' actorId memberId)
      · obtain ⟨id_eq,owner,roster⟩ := changeName_ok made
        exact .renamed _ p p' (mem_of_find? found) id_eq owner roster other (by rw [updated])

section

variable (letters : Letters) (m : Moment) (projects : ProjectTable)

structure RosterKept (projects' : ProjectTable) (call : ProjectCall) : Prop where
  owner : ∀ p ∈ projects', p.ownerId ∈ p.memberIds
  distinct : ∀ p ∈ projects', p.memberIds.Pairwise fun a b => samePerson letters a b = false
  author : ∀ p ∈ projects, ∀ p' ∈ projects', p'.id = p.id → p'.memberIds ≠ p.memberIds →
    ∃ add actorId memberId, call = .change add p.id actorId memberId ∧
      (∃ member ∈ p.memberIds, samePerson letters member actorId = true) ∧
      (add = false → samePerson letters p.ownerId actorId = true)
  removed : ∀ id actorId memberId, call = .removeMember id actorId memberId →
    (mutate letters projects m id actorId memberId false).2.isOk = true →
    ∀ p ∈ projects', p.id = id → (∀ member ∈ p.memberIds, samePerson letters member memberId = false) ∧
      ∀ m' actorId' other add, samePerson letters memberId actorId' = true →
        (mutate letters projects' m' id actorId' other add).2.isOk = false

def Exact (call : ProjectCall) : Prop :=
  ∀ add id actorId memberId, call = .change add id actorId memberId →
    (mutate letters projects m id actorId memberId add).2.isOk = true →
    ∀ p ∈ projects, p.id = id → ∀ member ∈ p.memberIds, samePerson letters member memberId = true →
      member = memberId

end

section

variable {letters : Letters} {m : Moment} {projects projects' : ProjectTable} {p p' : Project}
  {actorId memberId : String}

theorem nodup_nextRoster (nodup : p.memberIds.Nodup) (add : Bool) : (nextRoster add memberId p.memberIds).Nodup := by
  cases add with
  | false => exact nodup.filter _
  | true =>
    rw [nextRoster_add nodup]
    split
    · exact nodup
    next absent =>
      exact List.nodup_append.mpr ⟨nodup,List.nodup_singleton _,fun a mem b last same =>
        absent (List.mem_singleton.mp last ▸ same ▸ mem)⟩

theorem owner_nextRoster (ok : RosterOk letters p) (guest : samePerson letters memberId p.ownerId = false)
    {add : Bool} {actorId : String} (allowed : canChangeRoster letters add actorId p) :
    p.ownerId ∈ nextRoster add memberId p.memberIds := by
  cases add with
  | false =>
    refine List.mem_filter.mpr ⟨ok.owner,decide_eq_true fun same => ?_⟩
    have named := (samePerson_iff.mp allowed).1
    rw [same] at named
    have itself : samePerson letters memberId p.ownerId = true := by
      rw [same]
      exact samePerson_iff.mpr ⟨named,rfl⟩
    rw [guest] at itself
    cases itself
  | true =>
    rw [nextRoster_add ok.nodup]
    split
    · exact ok.owner
    · exact List.mem_append_left _ ok.owner

theorem distinct_nextRoster (ok : RosterOk letters p)
    (precise : ∀ member ∈ p.memberIds, samePerson letters member memberId → member = memberId) (add : Bool) :
    (nextRoster add memberId p.memberIds).Pairwise fun a b => samePerson letters a b = false := by
  cases add with
  | false => exact ok.distinct.filter _
  | true =>
    rw [nextRoster_add ok.nodup]
    split
    · exact ok.distinct
    next absent =>
      refine List.pairwise_append.mpr ⟨ok.distinct,List.pairwise_singleton _ _,fun a mem b last => ?_⟩
      rw [List.mem_singleton.mp last]
      refine Bool.eq_false_iff.mpr fun same => absent ?_
      exact precise a mem same ▸ mem

theorem mem_nextRoster_true (memberId : String) {member : String} (mem : member ∈ p.memberIds) :
    member ∈ nextRoster true memberId p.memberIds ∧ memberId ∈ nextRoster true memberId p.memberIds := by
  rw [nextRoster]
  simp [mem]

variable {call : ProjectCall}

theorem exact_of_kept (change : RosterChange letters m projects projects' call)
    (kept : RosterKept letters m projects projects' call) : Exact letters m projects call := by
  rintro add id actorId memberId rfl succeeded q hq rid member mem same
  cases change with
  | idle _ _ refused =>
    rw [refused add id actorId memberId rfl] at succeeded
    cases succeeded
  | created _ _ _ _ other | renamed _ _ _ _ _ _ _ other => exact absurd rfl (other add id actorId memberId)
  | changed _ _ _ _ _ p' old here ids _ roster _ _ _ set =>
    obtain rfl := eq_of_key hq old (rid.trans here.symm)
    have new : p' ∈ projects' := set ▸ mem_set_self projects p'
    by_contra different
    cases add with
    | false =>
      have stays : member ∈ p'.memberIds := by
        rw [roster]
        exact List.mem_filter.mpr ⟨mem,decide_eq_true different⟩
      have gone := (kept.removed id actorId memberId rfl succeeded p' new (ids.trans here)).1 member stays
      rw [same] at gone
      cases gone
    | true =>
      obtain ⟨first,second⟩ := mem_nextRoster_true memberId mem
      rw [← roster] at first second
      have apart := (kept.distinct p' new).forall first second different
      rw [same] at apart
      cases apart

variable (inv : Rostered letters projects)
include inv

theorem rosterOk_change (change : RosterChange letters m projects projects' call)
    (precise : Exact letters m projects call) : Rostered letters projects' := by
  cases change with
  | idle _ same => exact same ▸ inv
  | created _ _ _ roster _ set =>
    subst set
    exact forall_set ⟨by simp [roster],by simp [roster],by simp [roster]⟩ inv
  | renamed _ p _ old _ owner roster _ set =>
    subst set
    obtain ⟨member,nodup,distinct⟩ := inv p old
    exact forall_set ⟨by rw [owner,roster]; exact member,by rw [roster]; exact nodup,by rw [roster]; exact distinct⟩ inv
  | changed add id actorId memberId p _ old here _ owner roster allowed guest ok set =>
    subst set
    have before := inv p old
    have same := precise add id actorId memberId rfl ok p old here
    refine forall_set ⟨?_,?_,?_⟩ inv
    · rw [owner,roster]
      exact owner_nextRoster before guest allowed
    · rw [roster]
      exact nodup_nextRoster before.nodup add
    · rw [roster]
      exact distinct_nextRoster before same add

omit inv in
theorem refused_of_outside {projects : ProjectTable} {id actorId : String} (inv : Rostered letters projects)
    (outside : ∀ p ∈ projects, p.id = id → ∀ member ∈ p.memberIds, samePerson letters member actorId = false)
    (m : Moment) (memberId : String) (add : Bool) :
    (mutate letters projects m id actorId memberId add).2.isOk = false := by
  unfold mutate
  split
  · rfl
  · rcases updateProject_cases projects id (changeRoster letters m add actorId memberId) with
      ⟨_,refused⟩ | ⟨p,p',changed,found,made,_⟩
    · exact refused
    · have mem := mem_of_find? found
      have apart := outside p mem (key_of_find? found)
      have allowed := (changeRoster_ok made).2.1
      cases add with
      | false =>
        have owner := apart p.ownerId (inv p mem).owner
        rw [canChangeRoster,if_neg Bool.false_ne_true,owner] at allowed
        cases allowed
      | true =>
        obtain ⟨member,inside,same⟩ := List.any_eq_true.mp allowed
        rw [apart member inside] at same
        cases same

variable (change : RosterChange letters m projects projects' call)
include change

theorem author_change
    (old : p ∈ projects) : ∀ p' ∈ projects', p'.id = p.id → p'.memberIds ≠ p.memberIds →
      ∃ add actorId memberId, call = .change add p.id actorId memberId ∧
        (∃ member ∈ p.memberIds, samePerson letters member actorId) ∧
        (add = false → samePerson letters p.ownerId actorId) := by
  have kept {Q : Prop} (p' : Project) (mem : p' ∈ projects) (ids : p'.id = p.id)
      (differs : p'.memberIds ≠ p.memberIds) : Q :=
    absurd (congrArg Project.memberIds (eq_of_key mem old ids)) differs
  cases change with
  | idle _ same => exact same ▸ kept
  | created _ _ fresh _ _ set =>
    subst set
    exact forall_set (fun ids => absurd ids.symm (find?_eq_none.mp fresh p old)) kept
  | renamed _ _ _ mem same _ roster _ set =>
    subst set
    refine forall_set (fun ids differs => ?_) kept
    obtain rfl := eq_of_key old mem (ids.symm.trans same)
    exact absurd roster differs
  | changed add _ actorId memberId _ _ mem here same owner _ allowed _ _ set =>
    subst set
    refine forall_set (fun ids _ => ?_) kept
    obtain rfl := eq_of_key old mem (ids.symm.trans same)
    refine ⟨add,actorId,memberId,by rw [here],?_,?_⟩
    · cases add with
      | false => exact ⟨p.ownerId,(inv p old).owner,allowed⟩
      | true => exact List.any_eq_true.mp allowed
    · rintro rfl
      exact allowed

theorem kept_of_exact
    (precise : Exact letters m projects call) : RosterKept letters m projects projects' call := by
  have settled := rosterOk_change inv change precise
  refine ⟨fun p mem => (settled p mem).owner,fun p mem => (settled p mem).distinct,
    fun p old => author_change inv change old,?_⟩
  rintro id actorId memberId rfl succeeded q hq rfl
  have gone : ∀ member ∈ q.memberIds, samePerson letters member memberId = false := by
    cases change with
    | idle _ _ refused =>
      rw [refused false q.id actorId memberId rfl] at succeeded
      cases succeeded
    | created _ _ _ _ other | renamed _ _ _ _ _ _ _ other => exact absurd rfl (other false q.id actorId memberId)
    | changed _ _ _ _ p p' old here ids _ roster _ _ _ set =>
      subst set
      obtain rfl : q = p' := eq_of_key hq (mem_set_self projects p') (ids.trans here).symm
      intro member mem
      rw [roster] at mem
      obtain ⟨inside,other⟩ := List.mem_filter.mp mem
      refine Bool.eq_false_iff.mpr fun same => ?_
      exact of_decide_eq_true other (precise false _ actorId memberId rfl succeeded p old here member inside same)
  refine ⟨gone,fun m' actorId' other add same => ?_⟩
  refine refused_of_outside settled (fun p mem here member inside => ?_) m' other add
  obtain rfl := eq_of_key mem hq here
  refine Bool.eq_false_iff.mpr fun known => ?_
  have apart := gone member inside
  rw [samePerson_trans known (samePerson_symm same)] at apart
  cases apart

end

theorem rosters_kept_iff (store : ProjectStore) (calls : List (Moment × ProjectCall)) :
    Along store.step (fun s c => RosterKept store.letters c.1 s (store.step s c) c.2) empty calls ↔
      Along store.step (fun s c => Exact store.letters c.1 s c.2) empty calls := by
  refine @along_congr _ _ _ _ _ (Rostered store.letters) (fun s c inv => ?_) (fun s c inv kept => ?_) _ calls ?_
  · have change := step_change store s c.1 c.2
    exact ⟨exact_of_kept change,kept_of_exact inv change⟩
  · have change := step_change store s c.1 c.2
    exact rosterOk_change inv change (exact_of_kept change kept)
  · exact nofun

def everyone (now : Nat) : Moment := ⟨now,fun _ => true⟩

def lowerCase : Letters := ⟨List.map Char.toLower⟩

def respelledMember : List (Moment × ProjectCall) :=
  [(everyone 1,.create "p" "Launch".toList "ana@acme.io"),
    (everyone 2,.addMember "p" "ana@acme.io" "bo@acme.io"),
    (everyone 3,.addMember "p" "ana@acme.io" "Bo@acme.io"),
    (everyone 4,.removeMember "p" "ana@acme.io" "Bo@acme.io"),
    (everyone 5,.addMember "p" "Bo@acme.io" "eve@acme.io")]

theorem removed_member_changes_roster :
    let store : ProjectStore := ⟨lowerCase,"acme"⟩
    let rosters := fun n => (run store.step empty (respelledMember.take n)).rows.map Project.memberIds
    samePerson lowerCase "bo@acme.io" "Bo@acme.io" = true ∧ rosters 3 = [["ana@acme.io","bo@acme.io","Bo@acme.io"]] ∧
      rosters 4 = [["ana@acme.io","bo@acme.io"]] ∧ rosters 5 = [["ana@acme.io","bo@acme.io","eve@acme.io"]] := by
  decide +kernel

end CompanyBrain.Projects
