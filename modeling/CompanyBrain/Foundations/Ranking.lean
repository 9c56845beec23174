import Mathlib.Data.List.Sort
import Mathlib.Order.Basic

namespace CompanyBrain.Foundations

variable {α ρ : Type} [LinearOrder ρ] (rank : α → ρ)

def ranked (l : List α) : List α := l.insertionSort fun x y => rank y ≤ rank x

instance ranks_trans : IsTrans α fun x y => rank y ≤ rank x := ⟨fun _ _ _ xy yz => le_trans yz xy⟩

instance ranks_total : Std.Total fun x y : α => rank y ≤ rank x := ⟨fun x y => le_total (rank y) (rank x)⟩

variable {rank} {l l' : List α} {x : α}

theorem mem_ranked : x ∈ ranked rank l ↔ x ∈ l := List.mem_insertionSort _

theorem ranked_perm : (ranked rank l).Perm l := List.perm_insertionSort _ l

theorem length_ranked : (ranked rank l).length = l.length := List.length_insertionSort _ l

theorem pairwise_ranked : (ranked rank l).Pairwise fun x y => rank y ≤ rank x :=
  List.pairwise_insertionSort _ l

theorem ranked_cons (x : α) (l : List α) :
    ranked rank (x :: l) = (ranked rank l).orderedInsert (fun x y => rank y ≤ rank x) x :=
  List.insertionSort_cons _ x l

theorem ranked_cons_of_le (top : ∀ y ∈ l, rank y ≤ rank x) : ranked rank (x :: l) = x :: ranked rank l :=
  List.insertionSort_cons_of_forall_rel _ top

theorem filter_orderedInsert (p : α → Bool) (x : α) (sorted : l.Pairwise fun x y => rank y ≤ rank x) :
    (l.orderedInsert (fun x y => rank y ≤ rank x) x).filter p =
      if p x then (l.filter p).orderedInsert (fun x y => rank y ≤ rank x) x else l.filter p := by
  induction l with
  | nil => cases h : p x <;> simp [h]
  | cons y l ih =>
    obtain ⟨below,sorted⟩ := List.pairwise_cons.mp sorted
    rw [List.orderedInsert_cons]
    by_cases first : rank y ≤ rank x
    · rw [if_pos first,List.filter_cons]
      split
      · cases kept : (y :: l).filter p with
        | nil => rfl
        | cons z =>
          have mem : z ∈ y :: l := List.mem_of_mem_filter (kept ▸ List.mem_cons_self)
          have small : rank z ≤ rank x := by
            rcases List.mem_cons.mp mem with rfl | mem
            · exact first
            · exact le_trans (below z mem) first
          rw [List.orderedInsert_cons,if_pos small]
      · rfl
    · rw [if_neg first,List.filter_cons,ih sorted,List.filter_cons]
      split <;> split <;> simp [first]

theorem filter_ranked (p : α → Bool) (l : List α) : (ranked rank l).filter p = ranked rank (l.filter p) := by
  induction l with
  | nil => rfl
  | cons x l ih =>
    rw [ranked_cons,filter_orderedInsert p x pairwise_ranked,List.filter_cons,ih]
    split
    · rw [ranked_cons]
    · rfl

theorem ranked_append_of_le (above : ∀ x ∈ l, ∀ y ∈ l', rank y ≤ rank x) :
    ranked rank (l ++ l') = ranked rank l ++ ranked rank l' := by
  induction l with
  | nil => rfl
  | cons x l ih =>
    rw [List.cons_append,ranked_cons,ranked_cons,ih fun y mem => above y (.tail x mem)]
    have top := above x (.head _)
    induction ranked rank l with
    | nil =>
      cases rest : ranked rank l' with
      | nil => rfl
      | cons z =>
        have mem : z ∈ l' := mem_ranked.mp (rest ▸ List.mem_cons_self)
        simp [top z mem]
    | cons y m ihm =>
      rw [List.cons_append,List.orderedInsert_cons,List.orderedInsert_cons]
      split
      · rfl
      · rw [ihm,List.cons_append]

theorem ranked_append_congr (front : List α) (same : ranked rank l = ranked rank l') :
    ranked rank (front ++ l) = ranked rank (front ++ l') := by
  induction front with
  | nil => exact same
  | cons _ _ ih =>
    rw [List.cons_append,List.cons_append,ranked_cons,ranked_cons,ih]

theorem sorted_split (limit : ρ) (sorted : l.Pairwise fun x y => rank y ≤ rank x) :
    l = (l.filter fun x => limit < rank x) ++ l.filter fun x => !(limit < rank x) := by
  induction l with
  | nil => rfl
  | cons x l ih =>
    obtain ⟨below,sorted⟩ := List.pairwise_cons.mp sorted
    by_cases high : limit < rank x
    · simpa [high] using ih sorted
    · have low : l.filter (fun y => limit < rank y) = [] := by
        rw [List.filter_eq_nil_iff]
        intro y mem beyond
        exact high (lt_of_lt_of_le (of_decide_eq_true beyond) (below y mem))
      have rest := ih sorted
      simpa [high,low] using rest

theorem ranked_split (limit : ρ) (l : List α) : ranked rank l = ranked rank (l.filter fun x => limit < rank x) ++
      ranked rank (l.filter fun x => !(limit < rank x)) := by
  rw [← filter_ranked,← filter_ranked]
  exact sorted_split limit pairwise_ranked

variable {front rest others : List α}

theorem ranked_between (limit : ρ) (above : ∀ y ∈ front, limit ≤ rank y) (below : ∀ y ∈ rest, rank y ≤ limit) :
    ranked rank (front ++ (rest ++ others)) = ranked rank (front ++ others.filter fun y => limit < rank y) ++
      ranked rank (rest ++ others.filter fun y => !(limit < rank y)) := by
  have none_above : rest.filter (fun y => limit < rank y) = [] := by
    rw [List.filter_eq_nil_iff]
    intro y mem beyond
    exact absurd (of_decide_eq_true beyond) (not_lt.mpr (below y mem))
  have all_below : rest.filter (fun y => !(limit < rank y)) = rest := by
    rw [List.filter_eq_self]
    intro y mem
    simpa using below y mem
  have high (y : α) (mem : y ∈ others.filter fun y => limit < rank y) : limit ≤ rank y :=
    le_of_lt (of_decide_eq_true (List.mem_filter.mp mem).2)
  have low (y : α) (mem : y ∈ rest ++ others.filter fun y => !(limit < rank y)) : rank y ≤ limit := by
    rcases List.mem_append.mp mem with mem | mem
    · exact below y mem
    · simpa using (List.mem_filter.mp mem).2
  have split : ranked rank (rest ++ others) = ranked rank ((others.filter fun y => limit < rank y) ++
      (rest ++ others.filter fun y => !(limit < rank y))) := by
    rw [ranked_append_of_le fun x hx y hy => le_trans (low y hy) (high x hx),ranked_split limit (rest ++ others),
      List.filter_append,List.filter_append,none_above,all_below,List.nil_append]
  rw [ranked_append_congr front split,← List.append_assoc,ranked_append_of_le]
  intro x mem y mem'
  refine le_trans (low y mem') ?_
  rcases List.mem_append.mp mem with mem | mem
  · exact above x mem
  · exact high x mem

theorem take_ranked_eq_iff (n : Nat) (above : ∀ y ∈ front, rank x ≤ rank y) (below : ∀ y ∈ rest, rank y ≤ rank x)
    (fresh : x ∉ others) :
    (ranked rank (front ++ others)).take n = (ranked rank (front ++ (x :: rest ++ others))).take n ↔
      n ≤ front.length + (others.filter fun y => rank x < rank y).length := by
  have without := @ranked_between α ρ _ rank front [] others (rank x) above fun _ mem => nomatch mem
  have within := @ranked_between α ρ _ rank front (x :: rest) others (rank x) above
    (List.forall_mem_cons.mpr ⟨le_refl (rank x),below⟩)
  rw [List.nil_append,List.nil_append] at without
  rw [without,within]
  have head : ranked rank (x :: rest ++ others.filter fun y => !(rank x < rank y)) =
      x :: ranked rank (rest ++ others.filter fun y => !(rank x < rank y)) := by
    refine ranked_cons_of_le fun y mem => ?_
    rcases List.mem_append.mp mem with mem | mem
    · exact below y mem
    · simpa using (List.mem_filter.mp mem).2
  rw [head]
  have length : (ranked rank (front ++ others.filter fun y => rank x < rank y)).length =
      front.length + (others.filter fun y => rank x < rank y).length := by
    rw [length_ranked,List.length_append]
  rw [← length]
  constructor
  · intro same
    by_contra short
    rw [List.take_append,List.take_append] at same
    have tails := List.append_cancel_left same
    have mem : x ∈ (ranked rank (others.filter fun y => !(rank x < rank y))).take
        (n - (ranked rank (front ++ others.filter fun y => rank x < rank y)).length) := by
      rw [tails]
      obtain ⟨k,hk⟩ := Nat.exists_eq_succ_of_ne_zero (Nat.sub_ne_zero_of_lt (Nat.lt_of_not_le short))
      rw [hk]
      exact .head _
    exact fresh (List.mem_of_mem_filter (mem_ranked.mp (List.mem_of_mem_take mem)))
  · intro enough
    rw [List.take_append_of_le_length enough,List.take_append_of_le_length enough]

end CompanyBrain.Foundations
