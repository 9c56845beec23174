import CompanyBrain.Foundations.Fallible
import CompanyBrain.Skills.SkillStore

namespace CompanyBrain.Skills

open Foundations

def shared (s : Skill) : Bool := scopeKind s.scopeId ≠ "personal"

def covered (s : Skill) : Prop := ∀ c ∈ s.manifest.requiredCapabilities, c ∈ s.grantedCapabilities

def Gated (shelf : Shelf) : Prop :=
  ∀ s ∈ shelf.skills, s.status = .published → shared s = true → (shelf.approvedBy s.id).isSome ∧ covered s

def Ready (s : Skill) : Prop := isSafeSkillName s.manifest.name = true ∧ s.status ≠ .draft ∧ SkillStore.missing s = []

def Leaves (s : Skill) (target : Resolution.ScopeId) : Prop :=
  isSafeSkillName s.manifest.name = true ∧ s.status = .published ∧ shared s = false ∧ scopeKind target ≠ "personal"

def Careful (store : SkillStore) (shelf : Shelf) (c : Nat × SkillCall) : Prop :=
  match c.2 with
  | .publish id => ∀ s, shelf.skills.find? id = some s → shared s = true → Ready s → (shelf.approvedBy id).isSome
  | .promote id target _ => ∀ s, shelf.skills.find? id = some s → Leaves s target →
      store.sign s.manifest = s.signature → (shelf.approvedBy id).isSome
  | .move id target => ∀ s, shelf.skills.find? id = some s → Leaves s target → scopeKind target ≠ "org" →
      (shelf.approvedBy id).isSome
  | _ => True

structure GateOk (shelf : Shelf) : Prop where
  gated : Gated shelf
  checked : ∀ s ∈ shelf.skills, s.status = .published → (shelf.approvedBy s.id).isSome → covered s

section

open SkillStore

variable {skills : SkillTable} {now : Nat} {id : String} {s' : Skill}

variable {store : SkillStore}

theorem update_ok {manifest : SkillManifest} (made : store.update skills now id manifest = .ok s') :
    s'.status = .published → shared s' = false := by
  unfold update at made
  split at made
  · cases made
  · obtain ⟨s,_,made⟩ := bind_ok made
    split at made
    · cases made
    · cases made
      intro published
      split at published
      · cases published
      next personal => simpa [shared] using personal

theorem review_ok {reviewer : String} {granted : List String}
    (made : store.review skills now id reviewer granted = .ok s') : s'.status = .reviewed := by
  obtain ⟨s,_,made⟩ := bind_ok made
  split at made
  · cases made
  · split at made <;> cases made
    rfl

theorem archive_ok (made : archive skills now id = .ok s') : s'.status = .archived := by
  obtain ⟨s,_,made⟩ := bind_ok made
  split at made <;> cases made
  · assumption
  · rfl

theorem create_ok {scopeId : Resolution.ScopeId} {manifest : SkillManifest} {createdBy : String}
    {pack : Option SkillPack} (made : store.create now id scopeId manifest createdBy pack = .ok s') :
    s'.status = .draft := by
  unfold create at made
  split at made <;> cases made
  rfl

theorem covered_of_missing {s : Skill} (full : missing s = []) : covered s := by
  intro c required
  by_contra ungranted
  have lacking : c ∈ missing s := List.mem_filter.mpr ⟨required,decide_eq_true ungranted⟩
  rw [full] at lacking
  cases lacking

theorem publish_ok_iff : publish skills now id = .ok s' ↔
    ∃ s, skills.find? id = some s ∧ Ready s ∧ s' = {s with status := .published, updatedAt := now} := by
  unfold publish known Ready
  cases skills.find? id with
  | none => simp [bind,Except.bind]
  | some s =>
    simp only [bind,Except.bind]
    grind

theorem move_ok_iff {target : Resolution.ScopeId} : move skills now id target = .ok s' ↔ ∃ s, skills.find? id = some s ∧
    isSafeSkillName s.manifest.name = true ∧ scopeKind target ≠ "org" ∧
    s' = {s with scopeId := target, updatedAt := now} := by
  unfold move known
  cases skills.find? id with
  | none => simp [bind,Except.bind]
  | some s =>
    simp only [bind,Except.bind]
    grind

variable {target : Resolution.ScopeId} {newId : String}

theorem promote_ok (made : store.promote skills now id target newId = .ok s') : ∃ s, skills.find? id = some s ∧
    isSafeSkillName s.manifest.name = true ∧ s.status = .published ∧ store.sign s.manifest = s.signature ∧
    s'.scopeId = target ∧ s'.manifest = s.manifest ∧ s'.grantedCapabilities = s.grantedCapabilities := by
  unfold promote known at made
  cases found : skills.find? id with
  | none => simp [found,bind,Except.bind] at made
  | some s =>
    simp only [found,bind,Except.bind] at made
    grind

theorem promote_goes {s : Skill} (found : skills.find? id = some s) (safe : isSafeSkillName s.manifest.name = true)
    (published : s.status = .published) (signed : store.sign s.manifest = s.signature) :
    ∃ s', store.promote skills now id target newId = .ok s' ∧ s'.scopeId = target ∧ s'.status = .published := by
  unfold promote known
  simp only [found,bind,Except.bind,safe,published,signed]
  grind

end

section

variable {store : SkillStore} {shelf : Shelf} {c : Nat × SkillCall}

theorem gated_found (gated : Gated shelf) {id : String} {s : Skill} (found : shelf.skills.find? id = some s)
    (published : s.status = .published) (outside : shared s = true) : (shelf.approvedBy id).isSome := by
  obtain rfl := Table.key_of_find? found
  exact (gated s (Table.mem_of_find? found) published outside).1

theorem checked_found (ok : GateOk shelf) {id : String} {s : Skill} (found : shelf.skills.find? id = some s)
    (published : s.status = .published) (approved : (shelf.approvedBy id).isSome) : covered s := by
  obtain rfl := Table.key_of_find? found
  exact ok.checked s (Table.mem_of_find? found) published approved

theorem checked_answer (ok : GateOk shelf) {s' : Skill} (made : store.answer shelf c.1 c.2 = .ok s')
    (published : s'.status = .published) (approved : (shelf.approval c.2).isSome) : covered s' := by
  obtain ⟨now,call⟩ := c
  cases call with
  | create | update => cases approved
  | review => cases (review_ok made).symm.trans published
  | publish id =>
    obtain ⟨s,_,ready,rfl⟩ := publish_ok_iff.mp made
    exact covered_of_missing ready.2.2
  | archive => cases (archive_ok made).symm.trans published
  | promote id target newId =>
    obtain ⟨s,found,_,was,_,_,manifest,granted⟩ := promote_ok made
    rw [covered,manifest,granted]
    exact checked_found ok found was approved
  | move id target =>
    obtain ⟨s,found,_,_,rfl⟩ := move_ok_iff.mp made
    have whole : covered s := checked_found ok found published approved
    exact whole

theorem careful_iff (ok : GateOk shelf) : Careful store shelf c ↔ ∀ s, store.answer shelf c.1 c.2 = .ok s →
    s.status = .published → shared s → (shelf.approval c.2).isSome := by
  obtain ⟨now,call⟩ := c
  cases call with
  | create =>
    refine ⟨fun _ s made published => ?_,fun _ => trivial⟩
    cases (create_ok made).symm.trans published
  | update =>
    refine ⟨fun _ s made published outside => ?_,fun _ => trivial⟩
    cases outside.symm.trans (update_ok made published)
  | review =>
    refine ⟨fun _ s made published => ?_,fun _ => trivial⟩
    cases (review_ok made).symm.trans published
  | publish =>
    constructor
    · intro careful s' made _ outside
      obtain ⟨s,found,ready,rfl⟩ := publish_ok_iff.mp made
      exact careful s found outside ready
    · intro safe s found outside ready
      exact safe _ (publish_ok_iff.mpr ⟨s,found,ready,rfl⟩) rfl outside
  | archive =>
    refine ⟨fun _ s made published => ?_,fun _ => trivial⟩
    cases (archive_ok made).symm.trans published
  | promote id target newId =>
    constructor
    · intro careful s' made _ outside
      obtain ⟨s,found,safe,published,signed,scope,_⟩ := promote_ok made
      cases source : shared s with
      | true => exact gated_found ok.gated found published source
      | false =>
        have target : scopeKind target ≠ "personal" := by simpa [shared,scope] using outside
        exact careful s found ⟨safe,published,source,target⟩ signed
    · intro safe s found leaves signed
      obtain ⟨s',made,scope,published⟩ := promote_goes found leaves.1 leaves.2.1 signed
      exact safe s' made published (by simpa [shared,scope] using leaves.2.2.2)
  | move id target =>
    constructor
    · intro careful s' made published outside
      obtain ⟨s,found,safe,allowed,rfl⟩ := move_ok_iff.mp made
      cases source : shared s with
      | true => exact gated_found ok.gated found published source
      | false => exact careful s found ⟨safe,published,source,of_decide_eq_true outside⟩ allowed
    · intro safe s found leaves allowed
      refine safe _ (move_ok_iff.mpr ⟨s,found,leaves.1,allowed,rfl⟩) leaves.2.1 ?_
      exact decide_eq_true leaves.2.2.2

theorem gated_step (ok : GateOk shelf) : Gated (store.step shelf c) ↔ Careful store shelf c := by
  rw [careful_iff ok,SkillStore.step]
  split
  next failed =>
    refine ⟨fun _ s made => ?_,fun _ => ok.gated⟩
    cases failed.symm.trans made
  next s made =>
    constructor
    · intro gated s' made' published outside
      obtain rfl := Except.ok.inj (made.symm.trans made')
      simpa using (gated s (Table.mem_set_self shelf.skills s) published outside).1
    · intro safe s' mem published outside
      rcases Table.mem_set.mp mem with rfl | ⟨old,other⟩
      · have approved := safe s' made published outside
        simpa using ⟨approved,checked_answer ok made published approved⟩
      · simpa [Function.update_of_ne other] using ok.gated s' old published outside

theorem gateOk_step (ok : GateOk shelf) (gated : Gated (store.step shelf c)) : GateOk (store.step shelf c) := by
  refine ⟨gated,?_⟩
  rw [SkillStore.step]
  split
  · exact ok.checked
  next s made =>
    intro s' mem published approved
    rcases Table.mem_set.mp mem with rfl | ⟨old,other⟩
    · exact checked_answer ok made published (by simpa using approved)
    · exact ok.checked s' old published (by simpa [Function.update_of_ne other] using approved)

end

theorem published_reviewed_iff (store : SkillStore) (calls : List (Nat × SkillCall)) :
    Along store.step (fun shelf c => Gated (store.step shelf c)) Shelf.empty calls ↔
      Along store.step (Careful store) Shelf.empty calls :=
  @along_congr _ _ _ _ _ GateOk (fun _ _ ok => gated_step ok) (fun _ _ ok gated => gateOk_step ok gated) _ calls
    ⟨nofun,nofun⟩

def deployNotes (required : List String) (body : String) : SkillManifest := ⟨"deploy","",required,body,[]⟩

def rewrittenThenMoved : List (Nat × SkillCall) :=
  [(1,.create "s1" "personal:ana" (deployNotes [] "Run the tests.") "ana" none),
    (2,.review "s1" "bo" []),
    (3,.publish "s1"),
    (4,.update "s1" (deployNotes ["shell"] "Skip the tests.")),
    (5,.move "s1" "channel:eng")]

def archivedThenPublished : List (Nat × SkillCall) :=
  [(1,.create "s1" "channel:eng" (deployNotes [] "Run the tests.") "ana" none),(2,.archive "s1"),(3,.publish "s1")]

theorem unreviewed_skills_published :
    let store : SkillStore := ⟨SkillManifest.body⟩
    let moved := run store.step Shelf.empty rewrittenThenMoved
    let published := run store.step Shelf.empty archivedThenPublished
    moved.skills.rows.map (fun s => (s.scopeId,s.status,s.manifest.body,s.manifest.requiredCapabilities,
        s.grantedCapabilities)) = [("channel:eng",.published,"Skip the tests.",["shell"],[])] ∧
      moved.approvedBy "s1" = none ∧
      published.skills.rows.map (fun s => (s.scopeId,s.status,s.approvals)) =
        [("channel:eng",.published,[])] ∧ published.approvedBy "s1" = none := by
  decide +kernel

end CompanyBrain.Skills
