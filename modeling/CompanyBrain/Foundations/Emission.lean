import Mathlib.Data.List.Basic

namespace CompanyBrain.Foundations

variable {δ ε α β : Type}

structure Emission (δ ε α : Type) where
  emitted : List δ
  result : Except ε α

namespace Emission

def call (r : Except ε α) : Emission δ ε α := ⟨[],r⟩

def emit (d : δ) : Emission δ ε Unit := ⟨[d],.ok ()⟩

instance : Monad (Emission δ ε) where
  pure a := ⟨[],.ok a⟩
  bind x f :=
    match x.result with
    | .ok a => ⟨x.emitted ++ (f a).emitted,(f a).result⟩
    | .error e => ⟨x.emitted,.error e⟩

def Emits (P : δ → Prop) (x : Emission δ ε α) : Prop := ∀ d ∈ x.emitted, P d

variable {P : δ → Prop}

theorem emits_pure (a : α) : Emits P (pure a : Emission δ ε α) := by
  intro d hd
  cases hd

theorem emits_call (r : Except ε α) : Emits P (call r : Emission δ ε α) := by
  intro d hd
  cases hd

theorem emits_emit {d : δ} (h : P d) : Emits P (emit d : Emission δ ε Unit) := by
  intro e he
  rw [List.mem_singleton.mp he]
  exact h

variable {x : Emission δ ε α} {f : α → Emission δ ε β}

theorem emits_bind (first : Emits P x) (rest : ∀ a, x.result = .ok a → Emits P (f a)) : Emits P (x >>= f) := by
  obtain ⟨emitted,result⟩ := x
  cases result with
  | error => exact first
  | ok a =>
    intro d hd
    rcases List.mem_append.mp hd with hd | hd
    · exact first d hd
    · exact rest a rfl d hd

theorem speaks_first (f : α → Emission δ ε β) (speaks : x.emitted ≠ []) : (x >>= f).emitted ≠ [] := by
  obtain ⟨emitted,result⟩ := x
  cases result with
  | error => exact speaks
  | ok => exact List.append_ne_nil_of_left_ne_nil speaks _

theorem speaks_then {a : α} (ok : x.result = .ok a) (speaks : (f a).emitted ≠ []) : (x >>= f).emitted ≠ [] := by
  obtain ⟨emitted,result⟩ := x
  cases ok
  exact List.append_ne_nil_of_right_ne_nil _ speaks

end Emission

end CompanyBrain.Foundations
