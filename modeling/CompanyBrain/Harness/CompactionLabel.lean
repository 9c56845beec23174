import CompanyBrain.Resolution.ContextFilter

namespace CompanyBrain.Harness

open Foundations Resolution
open Sessions (SessionEntry)

def only (labels : List ScopeId) : Option ScopeId :=
  match labels with
  | [label] => some label
  | _ => none

def scopeLabels (entries : List SessionEntry) : List ScopeId :=
  (entries.map SessionEntry.scopeLabel).eraseDups

def byKind (labels : List ScopeId) (kind : ScopeKind) : List ScopeId :=
  labels.filter fun label => (parseScopeId label).1 = some kind

def compactedScopeLabel (entries : List SessionEntry) (sessionScopeId orgScopeId : ScopeId) : Option ScopeId :=
  let labels := scopeLabels entries
  let personal := byKind labels .personal
  let team := byKind labels .team
  let nonFloor := labels.filter fun label => label ≠ orgScopeId && label ≠ sessionScopeId
  if !personal.isEmpty then only personal
  else if !team.isEmpty then only team
  else if !nonFloor.isEmpty then only nonFloor
  else if labels.contains sessionScopeId then some sessionScopeId
  else some orgScopeId

section

variable {entries history : List SessionEntry} {audience : List Principal}
  {sessionScopeId orgScopeId label : ScopeId}

def hasKind (kind : ScopeKind) (e : SessionEntry) : Prop :=
  (parseScopeId e.scopeLabel).1 = some kind

instance (kind : ScopeKind) (e : SessionEntry) : Decidable (hasKind kind e) :=
  inferInstanceAs (Decidable (_ = _))

theorem only_eq_some {labels : List ScopeId} (h : only labels = some label) : labels = [label] := by
  unfold only at h
  split at h
  · cases h
    rfl
  · cases h

theorem mem_scopeLabels : label ∈ scopeLabels entries ↔ ∃ e ∈ entries, e.scopeLabel = label := by
  simp [scopeLabels]

variable {kind : ScopeKind}

theorem mem_byKind : label ∈ byKind (scopeLabels entries) kind ↔
      (∃ e ∈ entries, e.scopeLabel = label) ∧ (parseScopeId label).1 = some kind := by
  simp [byKind,mem_scopeLabels]

theorem byKind_nonempty : (!(byKind (scopeLabels entries) kind).isEmpty) ↔ ∃ e ∈ entries, hasKind kind e := by
  rw [Bool.not_eq_true',List.isEmpty_eq_false_iff_exists_mem]
  constructor
  · rintro ⟨label,h⟩
    obtain ⟨⟨e,he,rfl⟩,kind⟩ := mem_byKind.mp h
    exact ⟨e,he,kind⟩
  · rintro ⟨e,he,kind⟩
    exact ⟨e.scopeLabel,mem_byKind.mpr ⟨⟨e,he,rfl⟩,kind⟩⟩

theorem only_byKind (h : only (byKind (scopeLabels entries) kind) = some label) :
    (parseScopeId label).1 = some kind ∧ ∀ e ∈ entries, hasKind kind e → e.scopeLabel = label := by
  have single := only_eq_some h
  refine ⟨?_,fun e he kind => ?_⟩
  · have mem : label ∈ byKind (scopeLabels entries) kind := by simp [single]
    exact (mem_byKind.mp mem).2
  · have mem := mem_byKind.mpr ⟨⟨e,he,rfl⟩,kind⟩
    rw [single] at mem
    exact List.mem_singleton.mp mem

structure Labelled (entries : List SessionEntry) (kind : ScopeKind) (label : ScopeId) : Prop where
  named : (parseScopeId label).1 = some kind
  unique : ∀ e ∈ entries, hasKind kind e → e.scopeLabel = label

theorem compactedScopeLabel_cases
    (visible : ∀ e ∈ entries, e ∈ filterHistoryForAudience history audience sessionScopeId orgScopeId)
    (h : compactedScopeLabel entries sessionScopeId orgScopeId = some label) :
    ((∃ e ∈ entries, hasKind .personal e) ∧ Labelled entries .personal label) ∨
    ((∀ e ∈ entries, ¬ hasKind .personal e) ∧ Labelled entries .team label) ∨
    ∀ e ∈ entries, Floor sessionScopeId orgScopeId e.scopeLabel := by
  simp only [compactedScopeLabel] at h
  split at h
  next some => exact .inl ⟨byKind_nonempty.mp some,(only_byKind h).1,(only_byKind h).2⟩
  next none =>
    rw [byKind_nonempty] at none
    push Not at none
    split at h
    · exact .inr (.inl ⟨none,(only_byKind h).1,(only_byKind h).2⟩)
    next noTeam =>
      rw [byKind_nonempty] at noTeam
      push Not at noTeam
      exact .inr (.inr fun e he => bounded_of_visible (visible e he) (none e he) (noTeam e he))

def Covers (entries : List SessionEntry) (sessionScopeId orgScopeId label : ScopeId) : Prop :=
  ∀ q : Principal, principalEntitledToScope q label sessionScopeId orgScopeId = true →
    ∀ e ∈ entries, principalEntitledToScope q e.scopeLabel sessionScopeId orgScopeId = true

def TeamBelowPersonal (entries : List SessionEntry) (sessionScopeId orgScopeId : ScopeId) : Prop :=
  (∃ e ∈ entries, hasKind .personal e) ∧
    ∃ e ∈ entries, hasKind .team e ∧ ¬ Floor sessionScopeId orgScopeId e.scopeLabel

instance : Decidable (TeamBelowPersonal entries sessionScopeId orgScopeId) :=
  inferInstanceAs (Decidable (_ ∧ _))

theorem covers_of_labelled (labelled : Labelled entries kind label)
    (rest : ∀ e ∈ entries, ¬ hasKind kind e → Floor sessionScopeId orgScopeId e.scopeLabel) :
    Covers entries sessionScopeId orgScopeId label := by
  intro q entitled e he
  by_cases same : hasKind kind e
  · rw [labelled.unique e he same]
    exact entitled
  · exact entitled_floor (rest e he same)

theorem personal_entitled (kind : (parseScopeId label).1 = some .personal) :
    principalEntitledToScope ⟨(parseScopeId label).2,none⟩ label sessionScopeId orgScopeId := by
  by_cases floor : Floor sessionScopeId orgScopeId label
  · exact entitled_floor floor
  · exact (entitled_personal floor kind).mpr rfl

theorem compactedScopeLabel_covers_iff (history : List SessionEntry) (audience : List Principal)
    (visible : ∀ e ∈ entries, e ∈ filterHistoryForAudience history audience sessionScopeId orgScopeId)
    (h : compactedScopeLabel entries sessionScopeId orgScopeId = some label) :
    Covers entries sessionScopeId orgScopeId label ↔ ¬ TeamBelowPersonal entries sessionScopeId orgScopeId := by
  constructor
  · rintro covers ⟨⟨own,hown,personal⟩,e,he,team,above⟩
    rcases compactedScopeLabel_cases visible h with ⟨_,labelled⟩ | ⟨none,_⟩ | floor
    · have entitled := covers _ (personal_entitled labelled.named) e he
      rw [entitled_team above team] at entitled
      simp at entitled
    · exact none own hown personal
    · exact above (floor e he)
  · intro clear
    rcases compactedScopeLabel_cases visible h with ⟨some,labelled⟩ | ⟨none,labelled⟩ | floor
    · refine covers_of_labelled labelled fun e he other => ?_
      by_contra above
      by_cases team : hasKind .team e
      · exact clear ⟨some,e,he,team,above⟩
      · exact above (bounded_of_visible (visible e he) other team)
    · refine covers_of_labelled labelled fun e he other => ?_
      exact bounded_of_visible (visible e he) (none e he) other
    · intro q _ e he
      exact entitled_floor (floor e he)

end

def labelledEntry (seq : Nat) (label : ScopeId) : SessionEntry :=
  ⟨"s",seq,if seq = 0 then none else some (seq - 1),.user,.null,label,0⟩

def ana : Principal := ⟨"ana",some ["eng"]⟩

theorem compactedScopeLabel_covers_team :
    Covers [labelledEntry 0 "team:eng",labelledEntry 1 "org:acme"] "personal:ana" "org:acme" "team:eng" :=
  (compactedScopeLabel_covers_iff [labelledEntry 0 "team:eng",labelledEntry 1 "org:acme"] [ana]
    (by decide) (by decide)).mpr (by decide)

theorem compactedScopeLabel_widens :
    let entries := [labelledEntry 0 "team:eng",labelledEntry 1 "personal:ana"]
    filterHistoryForAudience entries [ana] "personal:ana" "org:acme" = entries ∧
      compactedScopeLabel entries "personal:ana" "org:acme" = some "personal:ana" ∧
      ¬ Covers entries "personal:ana" "org:acme" "personal:ana" := by
  refine ⟨by decide,by decide,fun covers => ?_⟩
  have leaked := covers ⟨"bo",none⟩ (by decide) (labelledEntry 0 "team:eng") (by decide)
  exact absurd leaked (by decide)

end CompanyBrain.Harness
