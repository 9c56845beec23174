import CompanyBrain.Acl.AclStore
import Mathlib.Data.List.Perm.Subperm

namespace CompanyBrain.Acl

open Foundations
open Resolution (ScopeId)

def Unique (grants : List Grant) : Prop := grants.Pairwise fun a b => sameGrant a b = false

instance (grants : List Grant) : Decidable (Unique grants) :=
  inferInstanceAs (Decidable (grants.Pairwise _))

def SameSet (a b : List Grant) : Prop := ∀ g, g ∈ a ↔ g ∈ b

structure Admitted (opts : AclStoreOptions) (r : Replacement) : Prop where
  manager : canManage opts r.ownerScopeId r.changedBy r.authoredBy = true
  expected : ∀ g ∈ r.expected, ofResource r.ownerScopeId r.ref g = true
  replacement : ∀ g ∈ r.replacement, ofResource r.ownerScopeId r.ref g = true

structure ReplacesExactly (opts : AclStoreOptions) (grants : Grants) (r : Replacement) : Prop where
  succeeds : (replaceGrantsIfCurrent opts grants r).2 = .ok true ↔
    SameSet (grants.filter (ofResource r.ownerScopeId r.ref)) r.expected
  holds : (replaceGrantsIfCurrent opts grants r).2 = .ok true →
    SameSet ((replaceGrantsIfCurrent opts grants r).1.filter (ofResource r.ownerScopeId r.ref)) r.replacement
  others : ∀ owner ref, (owner,ref) ≠ (r.ownerScopeId,r.ref) →
    (replaceGrantsIfCurrent opts grants r).1.filter (ofResource owner ref) =
      grants.filter (ofResource owner ref)
  refused : (replaceGrantsIfCurrent opts grants r).2 ≠ .ok true →
    (replaceGrantsIfCurrent opts grants r).1 = grants

def Sound (opts : AclStoreOptions) (grants : Grants) (a : Action) : Prop :=
  Unique (exec opts grants a) ∧ ∀ r, a = .replace r → Admitted opts r → ReplacesExactly opts grants r

def NoRepeats (opts : AclStoreOptions) (grants : Grants) (a : Action) : Prop :=
  ∀ r, a = .replace r → Admitted opts r → SameSet (grants.filter (ofResource r.ownerScopeId r.ref)) r.expected →
    r.expected.Nodup ∧ Unique r.replacement

section

variable {opts : AclStoreOptions} {grants : Grants} {r : Replacement}

theorem sameGrant_self (g : Grant) : sameGrant g g := by simp [sameGrant]

theorem sameGrantTuple_iff {a b : Grant} : sameGrantTuple a b ↔ a = b := by
  obtain ⟨owner,ref,grantee,permission,granter⟩ := a
  obtain ⟨owner',ref',grantee',permission',by'⟩ := b
  simp [sameGrantTuple,sameGrant,and_assoc]

variable {a b : List Grant}

theorem sameGrantSet_iff : sameGrantSet a b ↔ a.length = b.length ∧ a ⊆ b := by
  simp only [sameGrantSet,Bool.and_eq_true,decide_eq_true_eq,List.all_eq_true,List.any_eq_true,
    sameGrantTuple_iff,exists_eq_right',List.subset_def]

theorem Unique.nodup {grants : List Grant} (unique : Unique grants) : grants.Nodup := by
  refine unique.imp fun {a b} apart same => ?_
  rw [same,sameGrant_self] at apart
  cases apart

theorem sameSet_of_covers (nodup : a.Nodup) (length : a.length = b.length) (covers : a ⊆ b) : SameSet a b := by
  have perm := (List.subperm_of_subset nodup covers).perm_of_length_le (le_of_eq length.symm)
  exact fun g => perm.mem_iff

theorem length_eq_of_sameSet (ha : a.Nodup) (hb : b.Nodup) (same : SameSet a b) : a.length = b.length :=
  ((List.perm_ext_iff_of_nodup ha hb).mpr same).length_eq

theorem nodup_of_sameSet (ha : a.Nodup) (same : SameSet a b) (length : a.length = b.length) : b.Nodup := by
  have covers : a ⊆ b := fun g => (same g).mp
  have perm := (List.subperm_of_subset ha covers).perm_of_length_le (le_of_eq length.symm)
  exact perm.nodup_iff.mp ha

theorem replace_admitted (admitted : Admitted opts r) : replaceGrantsIfCurrent opts grants r =
      ((grants.replaceForResourceIfCurrent r.ownerScopeId r.ref r.expected r.replacement).1,
        .ok (sameGrantSet (grants.filter (ofResource r.ownerScopeId r.ref)) r.expected)) := by
  have outside : (r.expected.any (fun g => !ofResource r.ownerScopeId r.ref g) ||
      r.replacement.any fun g => !ofResource r.ownerScopeId r.ref g) = false := by
    simp only [Bool.or_eq_false_iff,List.any_eq_false]
    exact ⟨fun g hg => by simp [admitted.expected g hg],fun g hg => by simp [admitted.replacement g hg]⟩
  unfold replaceGrantsIfCurrent Grants.replaceForResourceIfCurrent
  simp only [admitted.manager,outside,Bool.not_true,Bool.false_eq_true,if_false]
  split
  next current => rw [current]
  next current =>
    rw [Bool.not_eq_true] at current
    rw [current]

theorem replace_cases (opts : AclStoreOptions) (grants : Grants) (r : Replacement) :
    (replaceGrantsIfCurrent opts grants r).1 = grants ∨ (Admitted opts r ∧
        sameGrantSet (grants.filter (ofResource r.ownerScopeId r.ref)) r.expected ∧
        (replaceGrantsIfCurrent opts grants r).1 =
          grants.filter (fun g => !ofResource r.ownerScopeId r.ref g) ++ r.replacement) := by
  unfold replaceGrantsIfCurrent
  split
  · exact .inl rfl
  next manager =>
    split
    · exact .inl rfl
    next outside =>
      rw [Bool.not_eq_true,Bool.or_eq_false_iff,List.any_eq_false,List.any_eq_false] at outside
      unfold Grants.replaceForResourceIfCurrent
      simp only
      split
      next current =>
        refine .inr ⟨⟨by simpa using manager,fun g hg => ?_,fun g hg => ?_⟩,current,rfl⟩
        · simpa using outside.1 g hg
        · simpa using outside.2 g hg
      · exact .inl rfl

variable {owner : ScopeId} {ref : String}

theorem not_same_of_resource {a b : Grant} (ha : ofResource owner ref a = false) (hb : ofResource owner ref b) :
    sameGrant a b = false := by
  by_contra same
  simp only [sameGrant,Bool.not_eq_false,Bool.and_eq_true,decide_eq_true_eq] at same
  obtain ⟨⟨⟨howner,href⟩,_⟩,_⟩ := same
  rw [ofResource,howner,href] at ha
  rw [ofResource,ha] at hb
  cases hb

theorem unique_put (unique : Unique grants) (g : Grant) : Unique (grants.put g) := by
  unfold Grants.put
  split
  · exact unique
  next fresh =>
    rw [List.any_eq_true,not_exists] at fresh
    refine List.pairwise_append.mpr ⟨unique,List.pairwise_singleton _ g,fun x hx y hy => ?_⟩
    rw [List.mem_singleton.mp hy,← Bool.not_eq_true]
    exact fun same => fresh x ⟨hx,same⟩

theorem unique_remove (unique : Unique grants) (g : Grant) : Unique (grants.remove g) :=
  unique.filter _

theorem unique_replaced (unique : Unique grants) (admitted : Admitted opts r) :
    Unique (grants.filter (fun g => !ofResource r.ownerScopeId r.ref g) ++ r.replacement) ↔ Unique r.replacement := by
  constructor
  · exact fun h => (List.pairwise_append.mp h).2.1
  · refine fun h => List.pairwise_append.mpr ⟨unique.filter _,h,fun a ha b hb => ?_⟩
    have outside := (List.mem_filter.mp ha).2
    exact not_same_of_resource (by simpa using outside) (admitted.replacement b hb)

theorem not_ofResource_other {g : Grant} (here : ofResource r.ownerScopeId r.ref g)
    (other : (owner,ref) ≠ (r.ownerScopeId,r.ref)) : ¬ofResource owner ref g := by
  intro same
  apply other
  simp only [ofResource,Bool.and_eq_true,decide_eq_true_eq] at same here
  rw [← same.1,← same.2,here.1,here.2]

section

variable (admitted : Admitted opts r)
include admitted

theorem replaced_others (other : (owner,ref) ≠ (r.ownerScopeId,r.ref)) :
    (grants.filter (fun g => !ofResource r.ownerScopeId r.ref g) ++ r.replacement).filter
      (ofResource owner ref) = grants.filter (ofResource owner ref) := by
  have none : r.replacement.filter (ofResource owner ref) = [] :=
    List.filter_eq_nil_iff.mpr fun g hg => not_ofResource_other (admitted.replacement g hg) other
  rw [List.filter_append,none,List.append_nil,List.filter_filter]
  refine List.filter_congr fun g _ => ?_
  cases here : ofResource r.ownerScopeId r.ref g with
  | false => simp
  | true => simpa using not_ofResource_other here other

theorem replaced_resource :
    (grants.filter (fun g => !ofResource r.ownerScopeId r.ref g) ++ r.replacement).filter
      (ofResource r.ownerScopeId r.ref) = r.replacement := by
  rw [List.filter_append,List.filter_eq_self.mpr admitted.replacement]
  simp

theorem replacesExactly_of_succeeds
    (succeeds : sameGrantSet (grants.filter (ofResource r.ownerScopeId r.ref)) r.expected ↔
      SameSet (grants.filter (ofResource r.ownerScopeId r.ref)) r.expected) : ReplacesExactly opts grants r := by
  have outcome : (replaceGrantsIfCurrent opts grants r).2 = .ok true ↔
      sameGrantSet (grants.filter (ofResource r.ownerScopeId r.ref)) r.expected = true := by
    rw [replace_admitted admitted]
    exact ⟨Except.ok.inj,congrArg _⟩
  have kept : sameGrantSet (grants.filter (ofResource r.ownerScopeId r.ref)) r.expected ≠ true →
      (replaceGrantsIfCurrent opts grants r).1 = grants := by
    intro refused
    rcases replace_cases opts grants r with same | ⟨_,current,_⟩
    · exact same
    · exact absurd current refused
  have replaced : sameGrantSet (grants.filter (ofResource r.ownerScopeId r.ref)) r.expected = true →
      (replaceGrantsIfCurrent opts grants r).1 =
        grants.filter (fun g => !ofResource r.ownerScopeId r.ref g) ++ r.replacement := by
    intro current
    rw [replace_admitted admitted]
    simp only [Grants.replaceForResourceIfCurrent,current,if_true]
  constructor
  case succeeds => exact outcome.trans succeeds
  case holds =>
    intro done g
    rw [replaced (outcome.mp done),replaced_resource admitted]
  case others =>
    intro owner ref other
    by_cases current : sameGrantSet (grants.filter (ofResource r.ownerScopeId r.ref)) r.expected = true
    · rw [replaced current,replaced_others admitted other]
    · rw [kept current]
  case refused => exact fun failed => kept fun current => failed (outcome.mpr current)

end

theorem sound_iff (unique : Unique grants) (a : Action) : Sound opts grants a ↔ NoRepeats opts grants a := by
  have nodup (r : Replacement) : (grants.filter (ofResource r.ownerScopeId r.ref)).Nodup :=
    unique.nodup.filter _
  constructor
  · rintro ⟨unique',precise⟩ r rfl admitted same
    have done := (precise r rfl admitted).succeeds.mpr same
    rw [replace_admitted admitted] at done
    have current := Except.ok.inj done
    have length := (sameGrantSet_iff.mp current).1
    refine ⟨nodup_of_sameSet (nodup r) same length,(unique_replaced unique admitted).mp ?_⟩
    rw [exec,replace_admitted admitted] at unique'
    simpa only [Grants.replaceForResourceIfCurrent,current,if_true] using unique'
  · intro clean
    have succeeds (r : Replacement) (ha : a = .replace r) (admitted : Admitted opts r) :
        sameGrantSet (grants.filter (ofResource r.ownerScopeId r.ref)) r.expected = true ↔
          SameSet (grants.filter (ofResource r.ownerScopeId r.ref)) r.expected := by
      rw [sameGrantSet_iff]
      constructor
      · rintro ⟨length,covers⟩
        exact sameSet_of_covers (nodup r) length covers
      · intro same
        have repeats := clean r ha admitted same
        exact ⟨length_eq_of_sameSet (nodup r) repeats.1 same,fun g => (same g).mp⟩
    refine ⟨?_,fun r ha admitted => replacesExactly_of_succeeds admitted (succeeds r ha admitted)⟩
    cases a with
    | put g => exact unique_put unique g
    | remove g => exact unique_remove unique g
    | replace r =>
      rw [exec]
      rcases replace_cases opts grants r with same | ⟨admitted,current,replaced⟩
      · rw [same]
        exact unique
      · rw [replaced]
        have same := (succeeds r rfl admitted).mp current
        exact (unique_replaced unique admitted).mpr (clean r rfl admitted same).2

end

theorem grants_replaced_exactly_iff (opts : AclStoreOptions) (actions : List Action) :
    Along (exec opts) (Sound opts) [] actions ↔ Along (exec opts) (NoRepeats opts) [] actions :=
  along_congr (fun _ a unique => sound_iff unique a) (fun _ _ _ sound => sound.1) [] actions .nil

def openStore : AclStoreOptions := ⟨⟨id⟩,none⟩

def keyGrant : Grant := ⟨"org:acme","service-cred:k","team:eng",.read,"ana"⟩

def repeated : Replacement :=
  ⟨"org:acme","service-cred:k",[],[keyGrant,keyGrant],"ana",none⟩

theorem repeated_grants_stored : run (exec openStore) [] [.replace repeated] = [keyGrant,keyGrant] ∧
      ¬Along (exec openStore) (Sound openStore) [] [.replace repeated] := by
  have stored : exec openStore [] (.replace repeated) = [keyGrant,keyGrant] := by decide +kernel
  refine ⟨stored,fun sound => ?_⟩
  have unique := sound.1.1
  rw [stored] at unique
  exact absurd unique (by decide)

end CompanyBrain.Acl
