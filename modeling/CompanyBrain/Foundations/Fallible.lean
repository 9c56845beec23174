import Mathlib.Data.List.Basic

namespace CompanyBrain.Foundations

variable {ε α β : Type}

variable {f : α → Except ε β}

theorem bind_ok {x : Except ε α} {b : β} (h : x >>= f = .ok b) : ∃ a, x = .ok a ∧ f a = .ok b := by
  cases x with
  | error => cases h
  | ok a => exact ⟨a,rfl,h⟩

theorem map_ok {f : α → β} {x : Except ε α} {b : β} (h : f <$> x = .ok b) : ∃ a, x = .ok a ∧ f a = b := by
  cases x with
  | error => cases h
  | ok a => exact ⟨a,rfl,Except.ok.inj h⟩

variable {xs : List α} {ys : List β}

theorem mapM_cons_ok {x : α} (h : (x :: xs).mapM f = .ok ys) :
    ∃ z zs, f x = .ok z ∧ xs.mapM f = .ok zs ∧ ys = z :: zs := by
  rw [List.mapM_cons] at h
  obtain ⟨z,hz,h⟩ := bind_ok h
  obtain ⟨zs,hzs,h⟩ := bind_ok h
  exact ⟨z,zs,hz,hzs,(Except.ok.inj h).symm⟩

theorem mapM_congr_mem {g : α → Except ε β} (h : ∀ x ∈ xs, f x = g x) : xs.mapM f = xs.mapM g := by
  induction xs with
  | nil => rfl
  | cons _ _ ih =>
    obtain ⟨here,later⟩ := List.forall_mem_cons.mp h
    rw [List.mapM_cons,List.mapM_cons,here,ih later]

theorem mapM_ok_of_mem (h : xs.mapM f = .ok ys) {x : α} (hx : x ∈ xs) : ∃ y ∈ ys, f x = .ok y := by
  induction xs generalizing ys with
  | nil => cases hx
  | cons _ _ ih =>
    obtain ⟨z,zs,hz,hzs,rfl⟩ := mapM_cons_ok h
    rcases List.mem_cons.mp hx with rfl | hx
    · exact ⟨z,.head _,hz⟩
    · obtain ⟨y,hy,found⟩ := ih hzs hx
      exact ⟨y,List.mem_cons_of_mem z hy,found⟩

end CompanyBrain.Foundations
