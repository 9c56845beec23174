import CompanyBrain.Foundations.JsText
import CompanyBrain.Foundations.Ranking
import CompanyBrain.Foundations.Table
import Mathlib.Algebra.Order.Floor.Ring
import Mathlib.Data.List.Lex
import Mathlib.Data.Prod.Lex
import Mathlib.Data.Rat.Floor

namespace CompanyBrain.Files

open Foundations

structure FileArtifact where
  id : Text
  ownerScopeId : String
  createdInScope : Option String
  createdAt : Int
  enabled : Bool
deriving DecidableEq

structure Encoding where
  toBase64url : Text → Text
  ofBase64url : Text → Text
  decoded : ∀ t, ofBase64url (toBase64url t) = t
  encoded : ∀ t, t ≠ [] → toBase64url t ≠ []
  numeral : Int → Text
  number : Text → Option Int
  numbered : ∀ n, number (numeral n) = some n
  unbarred : ∀ n, '|' ∉ numeral n

def encodeCursor (js : Encoding) (a : FileArtifact) : Text := js.toBase64url (js.numeral a.createdAt ++ '|' :: a.id)

def decodeCursor (js : Encoding) (cursor : Text) : Option (Int × Text) :=
  (cut '|' (js.ofBase64url cursor)).bind fun (stamp,rest) =>
    (js.number stamp).map (·,((cut '|' rest).map Prod.fst).getD rest)

def units (id : Text) : List Nat := id.flatMap utf16Units

def afterCursor (a : FileArtifact) (c : Int × Text) : Bool :=
  a.createdAt < c.1 || (a.createdAt = c.1 && units a.id < units c.2)

def clampLimit : Option ℚ → Nat
  | none => 50
  | some limit => if limit ≤ 0 then 50 else min ⌊limit⌋.toNat 200

structure ListOwnedOptions where
  limit : Option ℚ
  cursor : Option Text
  includeDisabled : Bool
  createdInScope : Option String

def age (a : FileArtifact) : Int ×ₗ List Nat := toLex (a.createdAt,units a.id)

abbrev Artifacts := Table FileArtifact.id

def Matches (scopes : List String) (opts : ListOwnedOptions) (r : FileArtifact) : Bool :=
  scopes.contains r.ownerScopeId && (opts.includeDisabled || r.enabled) &&
    opts.createdInScope.all (r.createdInScope = some ·)

def listOwnedByScopes (js : Encoding) (rows : Artifacts) (scopes : List String) (opts : ListOwnedOptions) :
    List FileArtifact × Option Text :=
  let limit := clampLimit opts.limit
  let cursor := (truthy opts.cursor).bind (decodeCursor js)
  let all := ranked age ((rows.rows.filter (Matches scopes opts)).filter fun r => cursor.all (afterCursor r))
  let page := all.take limit
  (page,if limit < all.length then page.getLast?.map (encodeCursor js) else none)

def followCursor (js : Encoding) (rows : Artifacts) (scopes : List String) (opts : ListOwnedOptions) :
    Nat → Option Text → Option (List FileArtifact)
  | 0, _ => none
  | fuel+1, cursor =>
    match listOwnedByScopes js rows scopes {opts with cursor} with
    | (files,none) => some files
    | (files,some next) => (followCursor js rows scopes opts fuel (some next)).map (files ++ ·)

variable {js : Encoding} {rows : Artifacts} {scopes : List String} {opts : ListOwnedOptions} {a b : FileArtifact}

theorem decode_encode (js : Encoding) (plain : '|' ∉ a.id) :
    decodeCursor js (encodeCursor js a) = some (a.createdAt,a.id) := by
  simp [decodeCursor,encodeCursor,js.decoded,cut_append _ (js.unbarred _),js.numbered,cut_eq_none plain]

theorem afterCursor_iff : afterCursor a (b.createdAt,b.id) ↔ age a < age b := by
  simp [afterCursor,age,Prod.Lex.lt_iff]

theorem utf16Units_append_inj {c d : Char} {s t : List Nat} (same : utf16Units c ++ s = utf16Units d ++ t) :
    c = d ∧ s = t := by
  have scalar (c : Char) : c.toNat < 0xd800 ∨ 0xdfff < c.toNat ∧ c.toNat < 0x110000 := c.valid
  have sc := scalar c
  have sd := scalar d
  unfold utf16Units at same
  split at same <;> split at same <;> simp at same
  · exact ⟨Char.toNat_inj.mp same.1,same.2⟩
  · omega
  · omega
  · exact ⟨Char.toNat_inj.mp (by omega),same.2.2⟩

theorem units_inj {s t : Text} (same : units s = units t) : s = t := by
  have nonempty (c : Char) : utf16Units c ≠ [] := by unfold utf16Units; split <;> simp
  induction s generalizing t with
  | nil =>
    cases t with
    | nil => rfl
    | cons d => simp [units,nonempty d] at same
  | cons c s ih =>
    cases t with
    | nil => simp [units,nonempty c] at same
    | cons =>
      obtain ⟨rfl,rest⟩ := utf16Units_append_inj same
      rw [ih rest]

theorem strictly_ranked (rows : Artifacts) (p : FileArtifact → Bool) :
    (ranked age (rows.rows.filter p)).Pairwise fun x y => age y < age x := by
  have distinct : (ranked age (rows.rows.filter p)).Nodup := ranked_perm.nodup_iff.mpr (rows.filter p).nodup.of_map
  refine (pairwise_ranked.and distinct).imp_of_mem fun {x y} hx hy h => lt_of_le_of_ne h.1 fun same => h.2 ?_
  have ids : x.id = y.id := units_inj (congrArg Prod.snd (toLex.injective same)).symm
  exact rows.eq_of_key (List.mem_of_mem_filter (mem_ranked.mp hx)) (List.mem_of_mem_filter (mem_ranked.mp hy)) ids

theorem listed_after (js : Encoding) {done left : List FileArtifact} (plain : ∀ f ∈ rows, '|' ∉ f.id)
    (split : ranked age (rows.rows.filter (Matches scopes opts)) = done ++ left) :
    ranked age ((rows.rows.filter (Matches scopes opts)).filter fun r =>
      ((truthy (done.getLast?.map (encodeCursor js))).bind (decodeCursor js)).all (afterCursor r)) = left := by
  rw [← filter_ranked,split]
  have strict := split ▸ strictly_ranked rows (Matches scopes opts)
  rcases List.eq_nil_or_concat' done with rfl | ⟨front,x,rfl⟩
  · simp [truthy]
  · have mem : x ∈ ranked age (rows.rows.filter (Matches scopes opts)) := by simp [split]
    have cursor : some (encodeCursor js x) ≠ some [] := fun empty => js.encoded _ (by simp) (Option.some.inj empty)
    have position := decode_encode js (plain x (List.mem_of_mem_filter (mem_ranked.mp mem)))
    have after (r : FileArtifact) : afterCursor r (x.createdAt,x.id) = decide (age r < age x) := by
      simp [← afterCursor_iff]
    obtain ⟨earlier,_,above⟩ := List.pairwise_append.mp strict
    have first : ∀ r ∈ front ++ [x], ¬age r < age x := by
      intro r hr
      rcases List.mem_append.mp hr with hr | hr
      · exact ((List.pairwise_append.mp earlier).2.2 r hr x (by simp)).not_gt
      · simp [List.mem_singleton.mp hr]
    have rest : ∀ r ∈ left, age r < age x := fun r hr => above x (by simp) r hr
    simp only [List.getLast?_concat,Option.map_some,truthy_eq cursor,Option.bind_some,position,Option.all_some,after]
    rw [List.filter_append,List.filter_eq_nil_iff.mpr (by simpa using first),
      List.filter_eq_self.mpr (by simpa using rest),List.nil_append]

theorem followCursor_lists (js : Encoding) (limited : 0 < clampLimit opts.limit) (plain : ∀ f ∈ rows, '|' ∉ f.id)
    (fuel : Nat) (done left : List FileArtifact) (enough : left.length < fuel)
    (split : ranked age (rows.rows.filter (Matches scopes opts)) = done ++ left) :
    followCursor js rows scopes opts fuel (done.getLast?.map (encodeCursor js)) = some left := by
  induction fuel generalizing done left with
  | zero => omega
  | succ _ ih =>
    have page : listOwnedByScopes js rows scopes {opts with cursor := done.getLast?.map (encodeCursor js)} =
        (left.take (clampLimit opts.limit),if clampLimit opts.limit < left.length then
          (left.take (clampLimit opts.limit)).getLast?.map (encodeCursor js) else none) := by
      have all := listed_after js plain split
      exact congrArg (fun all => (all.take (clampLimit opts.limit),if clampLimit opts.limit < all.length then
        (all.take (clampLimit opts.limit)).getLast?.map (encodeCursor js) else none)) all
    by_cases more : clampLimit opts.limit < left.length
    · obtain ⟨y,last⟩ : ∃ y, (left.take (clampLimit opts.limit)).getLast? = some y := by
        have page : left.take (clampLimit opts.limit) ≠ [] := by
          rw [Ne,List.take_eq_nil_iff]
          rintro (none | rfl)
          · omega
          · simp at more
        exact ⟨_,List.getLast?_eq_some_getLast page⟩
      have next := ih (done ++ left.take (clampLimit opts.limit)) (left.drop (clampLimit opts.limit))
        (by rw [List.length_drop]; omega) (by rw [split,List.append_assoc,List.take_append_drop])
      rw [List.getLast?_append,last,Option.some_or,Option.map_some] at next
      simp [followCursor,page,more,last,next]
    · simp [followCursor,page,more,List.take_of_length_le (Nat.le_of_not_lt more)]

theorem clampLimit_pos_iff {limit : Option ℚ} : 0 < clampLimit limit ↔ ∀ l, limit = some l → 0 < l → 1 ≤ l := by
  cases limit with
  | none => simp [clampLimit]
  | some l =>
    by_cases pos : 0 < l
    · have floor : 1 ≤ ⌊l⌋ ↔ 1 ≤ l := by rw [Int.le_floor,Int.cast_one]
      simp only [clampLimit,if_neg (not_le.mpr pos),Option.some.injEq,forall_eq',pos,true_imp_iff,← floor]
      omega
    · simp [clampLimit,not_lt.mp pos,pos]

theorem followCursor_empty (zero : clampLimit opts.limit = 0) (fuel : Nat) :
    followCursor js rows scopes opts (fuel+1) none = some [] := by
  simp [followCursor,listOwnedByScopes,zero]

theorem followCursor_complete_iff (js : Encoding) (rows : Artifacts) (scopes : List String) (opts : ListOwnedOptions)
    (fuel : Nat) (plain : ∀ f ∈ rows, '|' ∉ f.id) (enough : rows.rows.length < fuel) :
    (∃ files, followCursor js rows scopes opts fuel none = some files ∧ files.Nodup ∧
      (∀ f, f ∈ files ↔ f ∈ rows ∧ Matches scopes opts f) ∧ files.Pairwise fun x y => y.createdAt ≤ x.createdAt) ↔
    (∀ l, opts.limit = some l → 0 < l → 1 ≤ l) ∨ ∀ f ∈ rows, ¬Matches scopes opts f := by
  rw [← clampLimit_pos_iff]
  obtain ⟨fuel,rfl⟩ : ∃ n, fuel = n+1 := ⟨fuel-1,by omega⟩
  rcases Nat.eq_zero_or_pos (clampLimit opts.limit) with zero | limited
  · simp [followCursor_empty zero,zero]
  · refine iff_of_true ?_ (.inl limited)
    have short : (ranked age (rows.rows.filter (Matches scopes opts))).length < fuel+1 :=
      lt_of_le_of_lt (length_ranked.trans_le (List.length_filter_le ..)) enough
    have strict := strictly_ranked rows (Matches scopes opts)
    refine ⟨_,followCursor_lists js limited plain _ [] _ short rfl,?_,?_,?_⟩
    · exact strict.imp fun h => ne_of_apply_ne age h.ne'
    · exact fun f => mem_ranked.trans List.mem_filter
    · exact strict.imp fun {x y} h => (Prod.Lex.lt_iff.mp h).elim le_of_lt fun h => h.1.le

def alphabet : Text := "ABCDEFGHIJKLMNOPQRSTUVWXYZabcdefghijklmnopqrstuvwxyz0123456789-_".toList

def letter (n : Nat) : Char := alphabet.getD n 'A'

def sextet (c : Char) : Nat := alphabet.idxOf c

def toLetters : List UInt8 → Text
  | [] => []
  | [a] => [letter (a.toNat / 4),letter (a.toNat % 4 * 16)]
  | [a,b] => [letter (a.toNat / 4),letter (a.toNat % 4 * 16 + b.toNat / 16),letter (b.toNat % 16 * 4)]
  | a :: b :: c :: rest =>
    letter (a.toNat / 4) :: letter (a.toNat % 4 * 16 + b.toNat / 16) :: letter (b.toNat % 16 * 4 + c.toNat / 64) ::
      letter (c.toNat % 64) :: toLetters rest

def ofLetters : Text → List UInt8
  | w :: x :: y :: z :: rest =>
    .ofNat (sextet w * 4 + sextet x / 16) :: .ofNat (sextet x % 16 * 16 + sextet y / 4) ::
      .ofNat (sextet y % 4 * 64 + sextet z) :: ofLetters rest
  | [w,x,y] => [.ofNat (sextet w * 4 + sextet x / 16),.ofNat (sextet x % 16 * 16 + sextet y / 4)]
  | [w,x] => [.ofNat (sextet w * 4 + sextet x / 16)]
  | _ => []

theorem sextet_letter {n : Nat} (small : n < 64) : sextet (letter n) = n :=
  (by decide +kernel : ∀ n : Fin 64, sextet (letter n) = n) ⟨n,small⟩

theorem ofNat_eq {a : UInt8} {n : Nat} (same : n = a.toNat) : UInt8.ofNat n = a := by
  rw [same,UInt8.ofNat_toNat]

theorem ofLetters_toLetters (bytes : List UInt8) : ofLetters (toLetters bytes) = bytes := by
  fun_induction toLetters bytes with
  | case1 => rfl
  | case2 a =>
    have ha := a.toNat_lt
    simp (disch := omega) only [ofLetters,sextet_letter]
    rw [ofNat_eq (a := a) (by omega)]
  | case3 a b =>
    have ha := a.toNat_lt
    have hb := b.toNat_lt
    simp (disch := omega) only [ofLetters,sextet_letter]
    rw [ofNat_eq (a := a) (by omega),ofNat_eq (a := b) (by omega)]
  | case4 a b c rest ih =>
    have ha := a.toNat_lt
    have hb := b.toNat_lt
    have hc := c.toNat_lt
    simp (disch := omega) only [ofLetters,sextet_letter]
    rw [ih,ofNat_eq (a := a) (by omega),ofNat_eq (a := b) (by omega),ofNat_eq (a := c) (by omega)]

def decimal (n : Nat) : Text := Nat.toDigits 10 n

def readDecimal (t : Text) : Option Int := if t ≠ [] ∧ t.all Char.isDigit then some (Nat.ofDigitChars 10 t 0) else none

theorem isDigit_decimal {n : Nat} {c : Char} (mem : c ∈ decimal n) : c.isDigit = true :=
  Nat.isDigit_of_mem_toDigits (by decide) (by decide) mem

theorem readDecimal_decimal (n : Nat) : readDecimal (decimal n) = some (n : Int) := by
  have digits : (decimal n).all Char.isDigit = true := List.all_eq_true.mpr fun _ => isDigit_decimal
  rw [readDecimal,if_pos ⟨Nat.toDigits_ne_nil,digits⟩,decimal,Nat.ofDigitChars_ten_toDigits]

theorem unbarred_decimal (n : Nat) : '|' ∉ decimal n := fun mem => absurd (isDigit_decimal mem) (by decide)

def bytesOf (t : Text) : List UInt8 := t.flatMap String.utf8EncodeChar

def textOf (bytes : List UInt8) : Text := (bytes.toByteArray.utf8Decode?.getD #[]).toList

theorem textOf_bytesOf (t : Text) : textOf (bytesOf t) = t := by
  have bytes : (bytesOf t).toByteArray = List.utf8Encode t := rfl
  rw [textOf,bytes,List.utf8Decode?_utf8Encode]
  rfl

def base64url : Encoding where
  toBase64url t := toLetters (bytesOf t)
  ofBase64url t := textOf (ofLetters t)
  decoded t := by rw [ofLetters_toLetters,textOf_bytesOf]
  encoded t filled empty := by
    have back := ofLetters_toLetters (bytesOf t)
    rw [empty] at back
    refine filled ?_
    rw [← textOf_bytesOf t,← back]
    rfl
  numeral
    | .ofNat n => decimal n
    | .negSucc n => '-' :: decimal (n+1)
  number
    | '-' :: t => (readDecimal t).map (-·)
    | t => readDecimal t
  numbered n := by
    cases n with
    | ofNat n =>
      dsimp only
      split
      next t same =>
        have sign := isDigit_decimal (n := n) (c := '-') (by rw [same]; exact .head _)
        cases sign
      · exact readDecimal_decimal n
    | negSucc n =>
      change (readDecimal (decimal (n+1))).map (-·) = _
      rw [readDecimal_decimal]
      rfl
  unbarred n := by
    cases n with
    | ofNat n => exact unbarred_decimal n
    | negSucc n => simpa using unbarred_decimal (n+1)

def reports : Artifacts := ⟨[⟨['a'],"dm",none,7,true⟩,⟨['b'],"dm",none,7,true⟩],by decide⟩

theorem followCursor_of_two :
    ∃ files, followCursor base64url reports ["dm"] ⟨some 1,none,false,none⟩ 3 none = some files ∧ files.Nodup ∧
      (∀ f, f ∈ files ↔ f ∈ reports ∧ Matches ["dm"] ⟨some 1,none,false,none⟩ f) ∧
      files.Pairwise fun x y => y.createdAt ≤ x.createdAt :=
  (followCursor_complete_iff base64url reports ["dm"] ⟨some 1,none,false,none⟩ 3 (by decide) (by decide)).mpr
    (.inl (by simp))

def halfPage : ListOwnedOptions := ⟨some (1 / 2),none,false,none⟩

theorem fractional_limit_lists_nothing :
    (∀ fuel, followCursor base64url reports ["dm"] halfPage (fuel+1) none = some []) ∧
      ∃ f ∈ reports, Matches ["dm"] halfPage f := by
  have empty : clampLimit halfPage.limit = 0 := by decide +kernel
  exact ⟨followCursor_empty empty,⟨['a'],"dm",none,7,true⟩,.head _,by decide⟩

end CompanyBrain.Files
