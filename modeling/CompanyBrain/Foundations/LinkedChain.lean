import Mathlib.Order.Lattice
import Mathlib.Data.List.Induction
import Mathlib.Data.List.Nodup

namespace CompanyBrain.Foundations

variable {ι κ : Type} {slot : ι → κ} {after : ι → Option κ} {start : Option κ}

def tip (after : ι → Option κ) (start : Option κ) (chain : List ι) : Option κ :=
  chain.foldl (fun _ c => after c) start

def Linked (slot : ι → κ) (after : ι → Option κ) : Option κ → List ι → Prop
  | _, [] => True
  | start, c :: chain => start = some (slot c) ∧ Linked slot after (after c) chain

@[simp] theorem tip_snoc (chain : List ι) (c : ι) : tip after start (chain ++ [c]) = after c := by
  simp [tip]

theorem linked_snoc (chain : List ι) (c : ι) : Linked slot after start (chain ++ [c]) ↔
      Linked slot after start chain ∧ tip after start chain = some (slot c) := by
  induction chain generalizing start with
  | nil => simp [Linked,tip]
  | cons _ _ ih => simp [Linked,ih,tip,and_assoc]

variable {c : ι}

theorem after_cases (chain : List ι) (linked : Linked slot after start chain) (hc : c ∈ chain) :
    (∃ earlier, chain = earlier ++ [c]) ∨ ∃ d ∈ chain, after c = some (slot d) := by
  induction chain using List.reverseRecOn with
  | nil => cases hc
  | append_singleton chain d ih =>
    obtain ⟨linked,last⟩ := (linked_snoc chain d).mp linked
    rcases List.mem_append.mp hc with hc | hc
    · rcases ih linked hc with ⟨earlier,rfl⟩ | ⟨e,he,next⟩
      · rw [tip_snoc] at last
        exact .inr ⟨d,by simp,last⟩
      · exact .inr ⟨e,List.mem_append_left _ he,next⟩
    · rw [List.mem_singleton] at hc
      exact .inl ⟨chain,by rw [hc]⟩

variable {chain : List ι}

theorem linked_short (linked : Linked slot after start chain) (ends : ∀ c ∈ chain, after c = none) :
    chain.length ≤ 1 := by
  match chain, linked with
  | [], _ | [_], _ => simp
  | c :: d :: rest, linked =>
    have next : after c = some (slot d) := linked.2.1
    rw [ends c (by simp)] at next
    cases next

variable [LinearOrder κ]

theorem slot_lt_tip (chain : List ι) (later : ∀ c ∈ chain, ∀ x, after c = some x → slot c < x)
    (linked : Linked slot after start chain) (hc : c ∈ chain) {x : κ} (hx : tip after start chain = some x) :
    slot c < x := by
  induction chain using List.reverseRecOn generalizing x with
  | nil => cases hc
  | append_singleton chain d ih =>
    obtain ⟨linked,last⟩ := (linked_snoc chain d).mp linked
    rw [tip_snoc] at hx
    have step : slot d < x := later d (by simp) x hx
    rcases List.mem_append.mp hc with hc | hc
    · have below : slot c < slot d :=
        ih (fun e he => later e (List.mem_append_left _ he)) linked hc last
      exact lt_trans below step
    · rw [List.mem_singleton] at hc
      exact hc ▸ step

theorem linked_increasing (chain : List ι) (later : ∀ c ∈ chain, ∀ x, after c = some x → slot c < x)
    (linked : Linked slot after start chain) : chain.Pairwise fun a b => slot a < slot b := by
  induction chain using List.reverseRecOn with
  | nil => exact .nil
  | append_singleton chain d ih =>
    obtain ⟨linked,last⟩ := (linked_snoc chain d).mp linked
    have later' := fun e (he : e ∈ chain) => later e (List.mem_append_left _ he)
    refine List.pairwise_append.mpr ⟨ih later' linked,List.pairwise_singleton _ _,?_⟩
    intro c hc e he
    rw [List.mem_singleton] at he
    exact he ▸ slot_lt_tip chain later' linked hc last

theorem eq_of_slot_eq (increasing : chain.Pairwise fun a b => slot a < slot b) {d : ι} (hc : c ∈ chain) (hd : d ∈ chain)
    (same : slot c = slot d) : c = d := by
  have distinct : (chain.map slot).Nodup := List.pairwise_map.mpr (increasing.imp ne_of_lt)
  exact List.inj_on_of_nodup_map distinct hc hd same

variable (later : ∀ c ∈ chain, ∀ x, after c = some x → slot c < x)
include later

variable (linked : Linked slot after start chain)
include linked

theorem last_of_after_eq_tip
    (hc : c ∈ chain) (same : after c = tip after start chain) :
    ∃ earlier, chain = earlier ++ [c] := by
  rcases after_cases chain linked hc with last | ⟨d,hd,next⟩
  · exact last
  · have below : slot d < slot d := slot_lt_tip chain later linked hd (same.symm.trans next)
    exact absurd below (lt_irrefl _)

theorem tip_ne_start
    (nonempty : chain ≠ []) : tip after start chain ≠ start := by
  cases chain with
  | nil => exact absurd rfl nonempty
  | cons c chain =>
    intro back
    have below : slot c < slot c :=
      slot_lt_tip (c :: chain) later linked (by simp) (back.trans linked.1)
    exact absurd below (lt_irrefl _)

end CompanyBrain.Foundations
