import CompanyBrain.Foundations.JsText
import Mathlib.Data.List.Infix

namespace CompanyBrain.Foundations

variable {α : Type} [DecidableEq α]

def occurrences (p : List α) : List α → Nat
  | [] => 0
  | c :: t => (if p.isPrefixOf (c :: t) then 1 else 0) + occurrences p t

section

variable {p : List α}

theorem occurrences_congr {c : α} {s t : List α} (head : p <+: c :: s ↔ p <+: c :: t) :
    (if p.isPrefixOf (c :: s) then 1 else 0) = if p.isPrefixOf (c :: t) then 1 else 0 := by
  simp only [List.isPrefixOf_iff_prefix,head]

theorem occurrences_eq_zero (nonempty : p ≠ []) {t : List α} : occurrences p t = 0 ↔ ¬ p <:+: t := by
  induction t with
  | nil => simp [occurrences,nonempty]
  | cons c t ih =>
    rw [occurrences,Nat.add_eq_zero_iff,ih,List.infix_cons_iff]
    simp

variable {x : α}

omit [DecidableEq α] in
theorem prefix_of_prefix_mid {a b : List α} (absent : x ∉ p) (h : p <+: a ++ x :: b) : p <+: a := by
  induction a generalizing p with
  | nil =>
    cases p with
    | nil => exact List.prefix_refl []
    | cons =>
      obtain ⟨rfl,_⟩ := List.cons_prefix_cons.mp h
      exact absurd (.head _) absent
  | cons d a ih =>
    cases p with
    | nil => exact List.nil_prefix
    | cons c =>
      obtain ⟨rfl,rest⟩ := List.cons_prefix_cons.mp h
      exact List.cons_prefix_cons.mpr ⟨rfl,ih (fun mem => absent (.tail c mem)) rest⟩

section

variable (nonempty : p ≠ [])
include nonempty

theorem occurrences_mid (absent : x ∉ p) (a b : List α) :
    occurrences p (a ++ x :: b) = occurrences p a + occurrences p b := by
  induction a with
  | nil =>
    have here : p.isPrefixOf (x :: b) = false := by
      rw [← Bool.not_eq_true,List.isPrefixOf_iff_prefix]
      exact fun h => nonempty (List.prefix_nil.mp (prefix_of_prefix_mid absent h))
    simp [occurrences,here]
  | cons c a ih =>
    rw [List.cons_append,occurrences,occurrences,Nat.add_assoc]
    congr 1
    refine occurrences_congr ⟨fun h => ?_,fun h => h.trans (List.prefix_append (c :: a) _)⟩
    exact prefix_of_prefix_mid absent h

def startsIn (p v : List α) : Bool := v.any fun c => decide (p.head? = some c)

def endsIn (p u : List α) : Bool := u.any fun c => decide (p.getLast? = some c)

theorem occurrences_front {v : List α} (outside : startsIn p v = false) (b : List α) :
    occurrences p (v ++ b) = occurrences p b := by
  induction v with
  | nil => rfl
  | cons c v ih =>
    rw [startsIn,List.any_cons,Bool.or_eq_false_iff] at outside
    have here : p.isPrefixOf (c :: (v ++ b)) = false := by
      cases p with
      | nil => exact absurd rfl nonempty
      | cons d =>
        have other : d ≠ c := by simpa using outside.1
        simp [List.isPrefixOf,other]
    rw [List.cons_append,occurrences,here,ih outside.2]
    simp

theorem occurrences_back (a : List α) {u : List α} (outside : endsIn p u = false) :
    occurrences p (a ++ u) = occurrences p a := by
  have one (c : α) (other : p.getLast? ≠ some c) (a : List α) : occurrences p (a ++ [c]) = occurrences p a := by
    have shorter (t : List α) (h : p <+: t ++ [c]) : p <+: t := by
      rcases List.prefix_concat_iff.mp h with whole | h
      · exact absurd (by simp [whole]) other
      · exact h
    induction a with
    | nil =>
      have here : p.isPrefixOf [c] = false := by
        rw [← Bool.not_eq_true,List.isPrefixOf_iff_prefix]
        exact fun h => nonempty (List.prefix_nil.mp (shorter [] h))
      simp [occurrences,here]
    | cons d a ih =>
      rw [List.cons_append,occurrences]
      congr 1
      exact occurrences_congr ⟨shorter (d :: a),fun h => h.trans (List.prefix_append (d :: a) [c])⟩
  induction u generalizing a with
  | nil => rw [List.append_nil]
  | cons c u ih =>
    rw [endsIn,List.any_cons,Bool.or_eq_false_iff,decide_eq_false_iff_not] at outside
    rw [List.append_cons,ih (a ++ [c]) outside.2,one c outside.1]

structure Barrier (p sep : List α) : Prop where
  nonempty : p ≠ []
  parts : ∃ u x v, sep = u ++ x :: v ∧ p.contains x = false ∧ endsIn p u = false ∧ startsIn p v = false

theorem Barrier.of_append {u v : List α} (absent : p.contains x = false)
    (before : endsIn p u = false) (after : startsIn p v = false) : Barrier p (u ++ x :: v) :=
  ⟨nonempty,u,x,v,rfl,absent,before,after⟩

theorem Barrier.single (absent : p.contains x = false) : Barrier p [x] :=
  Barrier.of_append nonempty (u := []) absent rfl rfl

end

theorem occurrences_barrier {sep : List α} (barrier : Barrier p sep) (a b : List α) :
    occurrences p (a ++ sep ++ b) = occurrences p a + occurrences p b := by
  obtain ⟨nonempty,u,x,v,rfl,absent,before,after⟩ := barrier
  have absent : x ∉ p := by simpa using absent
  rw [List.append_assoc,List.append_assoc,List.cons_append,← List.append_assoc,
    occurrences_mid nonempty absent,occurrences_front nonempty after,occurrences_back nonempty a before]

theorem occurrences_le {q : List α} (h : p <+: q) (t : List α) : occurrences q t ≤ occurrences p t := by
  induction t with
  | nil => exact Nat.le_refl 0
  | cons c t ih =>
    rw [occurrences,occurrences]
    have head : q <+: c :: t → p <+: c :: t := h.trans
    grind [List.isPrefixOf_iff_prefix]

theorem occurrences_cons {v : List α} (free : x ∉ v) :
    occurrences (x :: p) (x :: v) = if p.isPrefixOf v then 1 else 0 := by
  have outside : startsIn (x :: p) v = false := by simpa [startsIn] using fun c mem same => free (by rwa [same])
  have none := occurrences_front (List.cons_ne_nil x p) outside []
  rw [List.append_nil] at none
  simp [occurrences,none,List.isPrefixOf]

end

theorem occurrences_joinWith {p sep : Text} (barrier : Barrier p sep) (parts : List Text) :
    occurrences p (joinWith sep parts) = (parts.map (occurrences p)).sum := by
  induction parts using joinWith.induct with
  | case1 => rfl
  | case2 => simp [joinWith]
  | case3 t ts more ih => rw [joinWith.eq_3 sep t ts more,occurrences_barrier barrier,ih,List.map_cons,List.sum_cons]

def replaceFrom (pattern replacement : List α) : Nat → List α → List α
  | _, [] => []
  | n+1, _ :: t => replaceFrom pattern replacement n t
  | 0, c :: t =>
    if pattern.isPrefixOf (c :: t) then replacement ++ replaceFrom pattern replacement (pattern.length - 1) t
    else c :: replaceFrom pattern replacement 0 t

def replaceText (pattern replacement t : List α) : List α := replaceFrom pattern replacement 0 t

section

variable {p pattern replacement : List α}

structure Seals (p sep : List α) : Prop where
  nonempty : p ≠ []
  opens : ∀ s b, s ≠ [] → s <:+ p → ¬ s <+: sep ++ b
  skips : ∀ b, p <:+: sep ++ b → p <:+: b

theorem Barrier.seals {sep : List α} (barrier : Barrier p sep) : Seals p sep := by
  refine ⟨barrier.nonempty,fun s b nonempty inner h => ?_,fun b h => by_contra fun absent => ?_⟩
  · obtain ⟨_,u,x,v,rfl,absent,before,_⟩ := barrier
    have absent : x ∉ p := by simpa using absent
    rw [List.append_assoc] at h
    have inside := prefix_of_prefix_mid (fun mem => absent (inner.subset mem)) h
    have mem := inside.subset (List.getLast_mem nonempty)
    rw [endsIn,List.any_eq_false] at before
    obtain ⟨front,rfl⟩ := inner
    exact before _ mem (by simp [List.getLast?_eq_some_getLast nonempty])
  · have free := occurrences_barrier barrier [] b
    rw [(occurrences_eq_zero barrier.nonempty).mpr absent] at free
    exact (occurrences_eq_zero barrier.nonempty).mp free h

theorem prefix_replaceFrom (seals : Seals p replacement) {s t : List α} (inner : s <:+ p)
    (h : s <+: replaceFrom pattern replacement 0 t) : s <+: t := by
  induction t generalizing s with
  | nil => simpa [replaceFrom] using h
  | cons c t ih =>
    cases s with
    | nil => exact List.nil_prefix
    | cons d s =>
      rw [replaceFrom] at h
      split at h
      · exact absurd h (seals.opens _ _ (List.cons_ne_nil d s) inner)
      · obtain ⟨rfl,rest⟩ := List.cons_prefix_cons.mp h
        exact List.cons_prefix_cons.mpr ⟨rfl,ih ((List.suffix_cons d s).trans inner) rest⟩

theorem infix_replaceFrom (seals : Seals p replacement) (n : Nat) (t : List α)
    (h : p <:+: replaceFrom pattern replacement n t) : ∃ a b, t = a ++ b ∧ p <+: b ∧ pattern.isPrefixOf b = false := by
  induction t generalizing n with
  | nil => exact absurd (List.infix_nil.mp (by simpa [replaceFrom] using h)) seals.nonempty
  | cons c t ih =>
    have later (n : Nat) (h : p <:+: replaceFrom pattern replacement n t) :
        ∃ a b, c :: t = a ++ b ∧ p <+: b ∧ pattern.isPrefixOf b = false := by
      obtain ⟨a,b,rfl,rest⟩ := ih n h
      exact ⟨c :: a,b,rfl,rest⟩
    cases n with
    | succ n => exact later n h
    | zero =>
      rw [replaceFrom] at h
      split at h
      · exact later (pattern.length - 1) (seals.skips _ h)
      next miss =>
        rcases List.infix_cons_iff.mp h with front | h
        · have whole : p <+: replaceFrom pattern replacement 0 (c :: t) := by rwa [replaceFrom,if_neg miss]
          exact ⟨[],c :: t,rfl,prefix_replaceFrom seals (List.suffix_refl p) whole,Bool.eq_false_iff.mpr miss⟩
        · exact later 0 h

theorem replaceText_free (seals : Seals pattern replacement) (t : List α) :
    ¬ pattern <:+: replaceText pattern replacement t := by
  intro h
  obtain ⟨_,b,_,front,miss⟩ := infix_replaceFrom seals 0 t h
  rw [← List.isPrefixOf_iff_prefix,miss] at front
  cases front

theorem replaceText_keeps_free (seals : Seals p replacement) {t : List α} (free : ¬ p <:+: t) :
    ¬ p <:+: replaceText pattern replacement t := by
  intro h
  obtain ⟨a,b,rfl,front,_⟩ := infix_replaceFrom seals 0 t h
  exact free (front.isInfix.trans (List.suffix_append a b).isInfix)

end

theorem replaceFrom_drop (p r : Text) (n : Nat) (t : Text) : replaceFrom p r n t = replaceText p r (t.drop n) := by
  induction t generalizing n with
  | nil => cases n <;> rfl
  | cons c t ih =>
    cases n with
    | zero => rfl
    | succ n => exact ih n

-- `pieces` are what stands between the copies of `p` that a reader finds from left to right.
structure Cuts (p t : Text) (pieces : List Text) : Prop where
  whole : t = joinWith p pieces
  free : ∀ piece ∈ pieces, ¬p <:+: piece
  first : ∀ piece ∈ pieces.dropLast, ¬p <:+: piece ++ p.dropLast

section

variable {p r t : Text} {pieces : List Text}

theorem Cuts.found (nonempty : p ≠ []) (cuts : Cuts p t pieces) (more : pieces ≠ []) :
    Cuts p (p ++ t) ([] :: pieces) where
  whole := by rw [cuts.whole,joinWith.eq_3 p [] pieces more,List.nil_append]
  free := List.forall_mem_cons.mpr ⟨fun inside => nonempty (List.infix_nil.mp inside),cuts.free⟩
  first := by
    rw [List.dropLast_cons_of_ne_nil more]
    refine List.forall_mem_cons.mpr ⟨fun inside => ?_,cuts.first⟩
    have short := inside.length_le
    have long := List.length_pos_of_ne_nil nonempty
    rw [List.nil_append,List.length_dropLast] at short
    omega

theorem Cuts.kept {c : Char} {piece : Text} (cuts : Cuts p t (piece :: pieces)) (miss : ¬p <+: c :: t) :
    Cuts p (c :: t) ((c :: piece) :: pieces) := by
  have begins : piece <+: t := by
    rw [cuts.whole]
    cases pieces with
    | nil => exact List.prefix_refl _
    | cons => exact ⟨_,(List.append_assoc ..).symm⟩
  refine ⟨?_,?_,?_⟩
  · rw [cuts.whole]
    cases pieces <;> rfl
  · obtain ⟨here,later⟩ := List.forall_mem_cons.mp cuts.free
    refine List.forall_mem_cons.mpr ⟨fun inside => ?_,later⟩
    rcases List.infix_cons_iff.mp inside with front | inside
    · exact miss (front.trans (List.cons_prefix_cons.mpr ⟨rfl,begins⟩))
    · exact here inside
  · cases pieces with
    | nil => exact nofun
    | cons next pieces =>
      obtain ⟨here,later⟩ := List.forall_mem_cons.mp cuts.first
      refine List.forall_mem_cons.mpr ⟨fun inside => ?_,later⟩
      rcases List.infix_cons_iff.mp inside with front | inside
      · refine miss (front.trans (List.cons_prefix_cons.mpr ⟨rfl,?_⟩))
        rw [cuts.whole,joinWith.eq_3 p piece _ (List.cons_ne_nil _ _),List.append_assoc]
        exact (List.prefix_append_right_inj piece).mpr ((List.dropLast_prefix p).trans (List.prefix_append ..))
      · exact here inside

theorem cuts_replaceText (nonempty : p ≠ []) (r t : Text) :
    ∃ piece pieces, Cuts p t (piece :: pieces) ∧ replaceText p r t = joinWith r (piece :: pieces) := by
  match t with
  | [] => exact ⟨[],[],⟨rfl,by simpa using nonempty,nofun⟩,rfl⟩
  | c :: t =>
    by_cases front : p <+: c :: t
    · obtain ⟨rest,split⟩ := front
      have shorter : rest.length < (c :: t).length := by
        rw [← split,List.length_append]
        exact Nat.lt_add_of_pos_left (List.length_pos_of_ne_nil nonempty)
      obtain ⟨piece,pieces,cuts,replaced⟩ := cuts_replaceText nonempty r rest
      refine ⟨[],piece :: pieces,split ▸ cuts.found nonempty (List.cons_ne_nil _ _),?_⟩
      have left : t.drop (p.length - 1) = rest := by
        have dropped := congrArg (List.drop p.length) split
        rw [List.drop_left,List.drop_cons (List.length_pos_of_ne_nil nonempty)] at dropped
        exact dropped.symm
      have here : p.isPrefixOf (c :: t) = true := by simp [← split]
      rw [replaceText,replaceFrom,if_pos here,replaceFrom_drop,left,replaced]
      rfl
    · obtain ⟨piece,pieces,cuts,replaced⟩ := cuts_replaceText nonempty r t
      refine ⟨c :: piece,pieces,cuts.kept front,?_⟩
      rw [replaceText,replaceFrom,if_neg (by simpa using front),← replaceText,replaced]
      cases pieces <;> rfl
termination_by t.length
decreasing_by
  · exact shorter
  · exact Nat.lt_succ_self _

end

end CompanyBrain.Foundations
