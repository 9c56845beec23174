import CompanyBrain.Resolution.AudienceFloor

namespace CompanyBrain.Util

open Foundations
open Resolution (ScopeKind)

def isLowerHex (c : Char) : Bool := c.isDigit || ('a' ≤ c && c ≤ 'f')

structure Sha256 where
  hexDigest : Text → Text
  length_hexDigest : ∀ t, (hexDigest t).length = 64
  hex_hexDigest : ∀ t, ∀ c ∈ hexDigest t, isLowerHex c = true

def hashId (sha : Sha256) (parts : List Text) (len : Nat) : Text :=
  (sha.hexDigest (joinWith ['\x00'] parts)).take len

def isKeyChar (c : Char) : Bool := c.isAlphanum || c == '_' || c == '.' || c == '-'

def keyChars (c : Char) : Text :=
  if isKeyChar c then [c] else (utf16Units c).flatMap fun _ => ['_','_']

def legacyKey (scopeId : Text) : Text := scopeId.flatMap keyChars

def refOf (scopeId : Text) : Text :=
  match cut ':' scopeId with
  | none => scopeId
  | some (_,ref) => ref

def plainRef (ref : Text) : Bool := !ref.isEmpty && ref.all isKeyChar

def scopeDigest (sha : Sha256) (scopeId : Text) : Text := hashId sha [scopeId] 12

def scopeStorageKey (sha : Sha256) (scopeId : Text) : Text :=
  if plainRef (refOf scopeId) then legacyKey scopeId
  else legacyKey scopeId ++ "--".toList ++ scopeDigest sha scopeId

def scopeDir (sha : Sha256) (base scopeId : Text) : Text := base ++ '/' :: scopeStorageKey sha scopeId

def s3KeyFor (sha : Sha256) (s3Prefix scope : Text) : Text :=
  s3Prefix ++ '/' :: scopeStorageKey sha scope ++ ".tar".toList

structure Scope where
  kind : ScopeKind
  ref : Text
  nonempty : ref ≠ []

def Scope.id (s : Scope) : Text := s.kind.text.toList ++ ':' :: s.ref

theorem kind_plain (kind : ScopeKind) : kind.text.toList.all isKeyChar := by
  cases kind <;> decide

theorem kind_unmarked (kind : ScopeKind) : '_' ∉ kind.text.toList ∧ ':' ∉ kind.text.toList := by
  cases kind <;> decide

theorem kind_text_injective {k k' : ScopeKind} (h : k.text.toList = k'.text.toList) : k = k' := by
  cases k <;> cases k' <;> first | rfl | exact absurd h (by decide)

theorem isKeyChar_of_hex {c : Char} (h : isLowerHex c) : isKeyChar c := by
  simp only [isLowerHex,Bool.or_eq_true,Bool.and_eq_true,decide_eq_true_eq] at h
  rcases h with h | ⟨lo,hi⟩
  · simp [isKeyChar,Char.isAlphanum,h]
  · have lower : c.isLower = true :=
      Bool.and_eq_true_iff.mpr ⟨decide_eq_true lo,decide_eq_true (Char.le_trans hi (by decide))⟩
    have alpha : c.isAlpha = true := Bool.or_eq_true_iff.mpr (.inr lower)
    simp [isKeyChar,Char.isAlphanum,alpha]

theorem legacyKey_append (s t : Text) : legacyKey (s ++ t) = legacyKey s ++ legacyKey t :=
  List.flatMap_append

theorem legacyKey_plain {t : Text} (plain : t.all isKeyChar) : legacyKey t = t := by
  induction t with
  | nil => rfl
  | cons c t ih =>
    rw [List.all_cons,Bool.and_eq_true] at plain
    rw [legacyKey,List.flatMap_cons,keyChars,if_pos plain.1]
    exact congrArg (c :: ·) (ih plain.2)

theorem keyChars_plain (c : Char) : (keyChars c).all isKeyChar := by
  rw [keyChars]
  split
  · simpa
  · rw [List.all_flatMap,List.all_eq_true]
    intro _ _
    decide

theorem legacyKey_all (t : Text) : (legacyKey t).all isKeyChar := by
  rw [legacyKey,List.all_flatMap,List.all_eq_true]
  exact fun c _ => keyChars_plain c

section

variable {sha : Sha256}

theorem length_scopeDigest (id : Text) : (scopeDigest sha id).length = 12 := by
  rw [scopeDigest,hashId,List.length_take,sha.length_hexDigest]
  rfl

theorem scopeDigest_all (id : Text) : (scopeDigest sha id).all isKeyChar :=
  List.all_eq_true.mpr fun c hc => isKeyChar_of_hex (sha.hex_hexDigest _ c (List.mem_of_mem_take hc))

variable (s s' : Scope)

theorem refOf_id : refOf s.id = s.ref := by
  rw [refOf,Scope.id,cut_append s.ref (kind_unmarked s.kind).2]

theorem legacyKey_id : legacyKey s.id = s.kind.text.toList ++ '_' :: '_' :: legacyKey s.ref := by
  rw [Scope.id,legacyKey_append,legacyKey_plain (kind_plain s.kind)]
  rfl

def keyRef (sha : Sha256) (s : Scope) : Text :=
  if plainRef s.ref then s.ref else legacyKey s.ref ++ "--".toList ++ scopeDigest sha s.id

theorem scopeStorageKey_id : scopeStorageKey sha s.id = s.kind.text.toList ++ '_' :: '_' :: keyRef sha s := by
  rw [scopeStorageKey,refOf_id,legacyKey_id,keyRef]
  split
  next plain =>
    rw [plainRef,Bool.and_eq_true] at plain
    rw [legacyKey_plain plain.2]
  · simp

theorem scopeStorageKey_eq_iff : scopeStorageKey sha s.id = scopeStorageKey sha s'.id ↔
      s.kind = s'.kind ∧ keyRef sha s = keyRef sha s' := by
  rw [scopeStorageKey_id,scopeStorageKey_id]
  constructor
  · intro same
    have split := cut_append ('_' :: keyRef sha s) (kind_unmarked s.kind).1
    rw [same,cut_append _ (kind_unmarked s'.kind).1,Option.some.injEq,Prod.mk.injEq] at split
    exact ⟨(kind_text_injective split.1).symm,(List.cons.inj split.2).2.symm⟩
  · rintro ⟨kind,ref⟩
    rw [kind,ref]

variable {s s'}

structure Lookalike (sha : Sha256) (s s' : Scope) : Prop where
  kind : s.kind = s'.kind
  hashed : plainRef s'.ref = false
  spelled : s.ref = legacyKey s'.ref ++ "--".toList ++ scopeDigest sha s'.id

instance decidableLookalike (sha : Sha256) (s s' : Scope) : Decidable (Lookalike sha s s') :=
  decidable_of_iff (s.kind = s'.kind ∧ plainRef s'.ref = false ∧
      s.ref = legacyKey s'.ref ++ "--".toList ++ scopeDigest sha s'.id)
    ⟨fun ⟨kind,hashed,spelled⟩ => ⟨kind,hashed,spelled⟩,fun h => ⟨h.kind,h.hashed,h.spelled⟩⟩

theorem Lookalike.plain (h : Lookalike sha s s') : plainRef s.ref := by
  rw [h.spelled,plainRef,List.all_append,List.all_append,legacyKey_all,scopeDigest_all]
  simp
  decide

theorem Lookalike.sameKey (h : Lookalike sha s s') : scopeStorageKey sha s.id = scopeStorageKey sha s'.id := by
  rw [scopeStorageKey_eq_iff,keyRef,keyRef,if_pos h.plain,if_neg (by simp [h.hashed])]
  exact ⟨h.kind,h.spelled⟩

theorem digest_of_hashed (hashed : plainRef s.ref = false) (hashed' : plainRef s'.ref = false)
    (same : keyRef sha s = keyRef sha s') : scopeDigest sha s.id = scopeDigest sha s'.id := by
  rw [keyRef,keyRef,if_neg (by simp [hashed]),if_neg (by simp [hashed'])] at same
  refine (List.append_inj' same ?_).2
  rw [length_scopeDigest,length_scopeDigest]

theorem lookalike_of_sameKey (differ : s ≠ s') (digests : scopeDigest sha s.id ≠ scopeDigest sha s'.id)
    (same : scopeStorageKey sha s.id = scopeStorageKey sha s'.id) : Lookalike sha s s' ∨ Lookalike sha s' s := by
  obtain ⟨kind,ref⟩ := (scopeStorageKey_eq_iff s s').mp same
  cases plain : plainRef s.ref with
  | false =>
    cases plain' : plainRef s'.ref with
    | false => exact absurd (digest_of_hashed plain plain' ref) digests
    | true =>
      rw [keyRef,keyRef,if_neg (by simp [plain]),if_pos plain'] at ref
      exact .inr ⟨kind.symm,plain,ref.symm⟩
  | true =>
    cases plain' : plainRef s'.ref with
    | false =>
      rw [keyRef,keyRef,if_pos plain,if_neg (by simp [plain'])] at ref
      exact .inl ⟨kind,plain',ref⟩
    | true =>
      rw [keyRef,keyRef,if_pos plain,if_pos plain'] at ref
      obtain ⟨k,r,_⟩ := s
      cases kind
      cases ref
      exact absurd rfl differ

end

def Separate (sha : Sha256) (base s3Prefix : Text) (s s' : Scope) : Prop :=
  scopeStorageKey sha s.id ≠ scopeStorageKey sha s'.id ∧ scopeDir sha base s.id ≠ scopeDir sha base s'.id ∧
    s3KeyFor sha s3Prefix s.id ≠ s3KeyFor sha s3Prefix s'.id

theorem separate_iff_key {sha : Sha256} {base s3Prefix : Text} {s s' : Scope} :
    Separate sha base s3Prefix s s' ↔ scopeStorageKey sha s.id ≠ scopeStorageKey sha s'.id := by
  simp [Separate,scopeDir,s3KeyFor]

theorem scopes_separate_iff (sha : Sha256) (base s3Prefix : Text) (s s' : Scope) (differ : s.id ≠ s'.id)
    (digests : scopeDigest sha s.id ≠ scopeDigest sha s'.id) :
    Separate sha base s3Prefix s s' ↔ ¬ Lookalike sha s s' ∧ ¬ Lookalike sha s' s := by
  rw [separate_iff_key,← not_or,not_iff_not]
  constructor
  · exact lookalike_of_sameKey (fun same => differ (congrArg Scope.id same)) digests
  · rintro (h | h)
    · exact h.sameKey
    · exact h.sameKey.symm

def lengthDigest : Sha256 where
  hexDigest t := List.replicate 64 (if t.length % 2 = 0 then '0' else '1')
  length_hexDigest t := List.length_replicate
  hex_hexDigest t c hc := by
    rw [List.eq_of_mem_replicate hc]
    split <;> decide

def mailScope : Scope := ⟨.personal,"a@b.c".toList,by decide⟩

def underscoreScope : Scope := ⟨.personal,"a__b.c".toList,by decide⟩

theorem scopes_separate_mail :
    Separate lengthDigest "/data/workspaces".toList "scopes".toList mailScope underscoreScope :=
  (scopes_separate_iff lengthDigest _ _ mailScope underscoreScope (by decide) (by decide +kernel)).mpr
    (by decide +kernel)

def spelledScope (sha : Sha256) : Scope :=
  ⟨.personal,"a__b.c--".toList ++ scopeDigest sha mailScope.id,by simp⟩

theorem spelled_scope_shares_storage : mailScope.id = "personal:a@b.c".toList ∧ ∀ sha,
      (spelledScope sha).id ≠ mailScope.id ∧
        scopeStorageKey sha (spelledScope sha).id = scopeStorageKey sha mailScope.id ∧
        ∀ base s3Prefix, scopeDir sha base (spelledScope sha).id = scopeDir sha base mailScope.id ∧
          s3KeyFor sha s3Prefix (spelledScope sha).id = s3KeyFor sha s3Prefix mailScope.id := by
  refine ⟨by decide,fun sha => ?_⟩
  have lookalike : Lookalike sha (spelledScope sha) mailScope := by
    refine ⟨rfl,by decide,?_⟩
    have legacy : legacyKey mailScope.ref = "a__b.c".toList := by decide
    rw [legacy]
    rfl
  have key := lookalike.sameKey
  refine ⟨fun same => ?_,key,fun base s3Prefix => ?_⟩
  · have ref := congrArg refOf same
    have plain := lookalike.plain
    rw [← refOf_id,ref,refOf_id] at plain
    exact absurd plain (by decide)
  · rw [scopeDir,scopeDir,s3KeyFor,s3KeyFor,key]
    exact ⟨rfl,rfl⟩

end CompanyBrain.Util
