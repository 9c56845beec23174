import Mathlib.Data.Set.Basic
import Mathlib.Data.List.Nodup
import Mathlib.Order.Defs.LinearOrder

namespace CompanyBrain.Foundations

variable {κ τ : Type}

structure Ledger (κ τ : Type) where
  clock : τ
  live : Set (κ × τ)
  granted : List (κ × τ)

namespace Ledger

variable [LinearOrder τ]

def Keeps (l : Ledger κ τ) (live : Set (κ × τ)) : Prop :=
  ∀ x ∈ l.live, x ∉ live → x.2 < l.clock

inductive Step (l : Ledger κ τ) : Ledger κ τ → Prop where
  | wait {t : τ} (later : l.clock ≤ t) : Step l {l with clock := t}
  | change {live : Set (κ × τ)} (keeps : l.Keeps live) : Step l {l with live := live}
  | grant {k : κ} {e : τ} {live : Set (κ × τ)} (free : ∀ e', (k,e') ∈ l.live → e' < l.clock)
      (keeps : l.Keeps live) (new : (k,e) ∈ live)
      (onTime : ∀ x ∈ l.granted, x.1 = k → l.clock ≤ x.2) :
      Step l ⟨l.clock,live,l.granted ++ [(k,e)]⟩

structure Sound (l : Ledger κ τ) : Prop where
  remembered : ∀ x ∈ l.granted, x ∈ l.live ∨ x.2 < l.clock
  once : (l.granted.map Prod.fst).Nodup

theorem Keeps.remembered {l : Ledger κ τ} (h : l.Sound) {live : Set (κ × τ)} (keeps : l.Keeps live)
    {x : κ × τ} (hx : x ∈ l.granted) : x ∈ live ∨ x.2 < l.clock := by
  rcases h.remembered x hx with here | old
  · by_cases kept : x ∈ live
    · exact .inl kept
    · exact .inr (keeps x here kept)
  · exact .inr old

theorem Step.sound {l l' : Ledger κ τ} (step : Step l l') (h : l.Sound) : l'.Sound := by
  cases step with
  | wait later => exact ⟨fun x hx => (h.remembered x hx).imp_right (lt_of_lt_of_le · later),h.once⟩
  | change keeps => exact ⟨fun x hx => keeps.remembered h hx,h.once⟩
  | @grant k e live free keeps new onTime =>
    refine ⟨fun x hx => ?_,?_⟩
    · rcases List.mem_append.mp hx with hx | hx
      · exact keeps.remembered h hx
      · cases List.mem_singleton.mp hx
        exact .inl new
    · rw [List.map_append]
      refine List.nodup_append.mpr ⟨h.once,List.nodup_singleton k,?_⟩
      intro a ha b hb heq
      cases List.mem_singleton.mp hb
      obtain ⟨⟨k',e'⟩,hx,rfl⟩ := List.mem_map.mp ha
      subst heq
      have late : e' < l.clock := (h.remembered _ hx).elim (free e') id
      exact absurd (onTime _ hx rfl) (not_le.mpr late)

end Ledger

end CompanyBrain.Foundations
