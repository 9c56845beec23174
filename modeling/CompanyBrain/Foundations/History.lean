import Mathlib.Data.List.Induction

namespace CompanyBrain.Foundations

variable {σ τ ι ο : Type}

def run (step : σ → ι → σ) (s : σ) (as : List ι) : σ := as.foldl step s

section

variable (step : σ → ι → σ) (s : σ)
include step s

@[simp] theorem run_nil : run step s [] = s := rfl

@[simp] theorem run_cons (a : ι) (as : List ι) : run step s (a :: as) = run step (step s a) as := rfl

@[simp] theorem run_append (as bs : List ι) : run step s (as ++ bs) = run step (run step s as) bs := by
  simp [run]

end

theorem forall_snoc {P : ι → Prop} {as : List ι} {a : ι} (old : ∀ b ∈ as, P b) (new : P a) : ∀ b ∈ as ++ [a], P b :=
  List.forall_mem_append.mpr ⟨old,List.forall_mem_singleton.mpr new⟩

variable {step : σ → ι → σ}

theorem run_history {s₀ : σ} {Ok : List ι → Prop} {Inv : List ι → σ → Prop}
    (closed : ∀ as a, Ok (as ++ [a]) → Ok as) (start : Inv [] s₀)
    (next : ∀ as a s, Ok (as ++ [a]) → Inv as s → Inv (as ++ [a]) (step s a))
    (as : List ι) (hok : Ok as) : Inv as (run step s₀ as) := by
  induction as using List.reverseRecOn with
  | nil => exact start
  | append_singleton as a ih =>
    rw [run_append]
    exact next as a _ hok (ih (closed as a hok))

def tally (step : σ → ι → σ) (test : σ → ι → Bool) : σ → List ι → Nat
  | _, [] => 0
  | s, a :: as => (test s a).toNat + tally step test (step s a) as

theorem tally_snoc (step : σ → ι → σ) (test : σ → ι → Bool) (s : σ) (as : List ι) (a : ι) :
    tally step test s (as ++ [a]) = tally step test s as + (test (run step s as) a).toNat := by
  induction as generalizing s with
  | nil => simp [tally]
  | cons _ _ ih => simp [tally,ih,Nat.add_assoc]

def Along (step : σ → ι → σ) (G : σ → ι → Prop) : σ → List ι → Prop
  | _, [] => True
  | s, a :: as => G s a ∧ Along step G (step s a) as

instance decidableAlong (step : σ → ι → σ) (G : σ → ι → Prop) [∀ s a, Decidable (G s a)] :
    (s : σ) → (as : List ι) → Decidable (Along step G s as)
  | _, [] => .isTrue trivial
  | s, a :: as =>
    have := decidableAlong step G (step s a) as
    inferInstanceAs (Decidable (_ ∧ _))

variable {P Q : σ → ι → Prop}

theorem along_mono (weaker : ∀ s a, P s a → Q s a) (s : σ)
    (as : List ι) (h : Along step P s as) : Along step Q s as := by
  induction as generalizing s with
  | nil => trivial
  | cons a _ ih => exact ⟨weaker s a h.1,ih (step s a) h.2⟩

theorem along_under (Inv : σ → Prop)
    (here : ∀ s a, Inv s → P s a → Q s a) (next : ∀ s a, Inv s → P s a → Inv (step s a)) (s : σ)
    (as : List ι) (h : Inv s) (along : Along step P s as) : Along step Q s as := by
  induction as generalizing s with
  | nil => trivial
  | cons a _ ih => exact ⟨here s a h along.1,ih (step s a) (next s a h along.1) along.2⟩

theorem along_of_inv {Q : σ → ι → Prop} {Inv : σ → Prop} (here : ∀ s a, Inv s → Q s a)
    (next : ∀ s a, Inv s → Inv (step s a)) (s : σ) (as : List ι) (h : Inv s) : Along step Q s as := by
  induction as generalizing s with
  | nil => trivial
  | cons a _ ih => exact ⟨here s a h,ih (step s a) (next s a h)⟩

theorem along_append {G : σ → ι → Prop} (s : σ) (as bs : List ι) :
    Along step G s (as ++ bs) ↔ Along step G s as ∧ Along step G (run step s as) bs := by
  induction as generalizing s with
  | nil => simp [Along]
  | cons _ _ ih => simp [Along,ih,and_assoc]

theorem run_along {G : σ → ι → Prop} {Inv : σ → Prop}
    (next : ∀ s a, G s a → Inv s → Inv (step s a)) (s : σ) (as : List ι)
    (hg : Along step G s as) (h : Inv s) : Inv (run step s as) := by
  induction as generalizing s with
  | nil => exact h
  | cons a _ ih => exact ih (step s a) hg.2 (next s a hg.1 h)

theorem along_congr {Inv : σ → Prop}
    (same : ∀ s a, Inv s → (P s a ↔ Q s a)) (next : ∀ s a, Inv s → P s a → Inv (step s a)) (s : σ)
    (as : List ι) (h : Inv s) : Along step P s as ↔ Along step Q s as := by
  induction as generalizing s with
  | nil => exact Iff.rfl
  | cons a _ ih =>
    constructor
    · rintro ⟨here,later⟩
      exact ⟨(same s a h).mp here,(ih (step s a) (next s a h here)).mp later⟩
    · rintro ⟨here,later⟩
      have here := (same s a h).mpr here
      exact ⟨here,(ih (step s a) (next s a h here)).mpr later⟩

def moment (step : σ → ι → σ) (s : σ) (as : List ι) (n : Nat) : σ := run step s (as.take n)

theorem moment_length (step : σ → ι → σ) (s : σ) (as : List ι) : moment step s as as.length = run step s as := by
  rw [moment,List.take_length]

theorem moment_append (step : σ → ι → σ) (s : σ) (as bs : List ι) {n : Nat} (h : n ≤ as.length) :
    moment step s (as ++ bs) n = moment step s as n := by
  rw [moment,moment,List.take_append_of_le_length h]

def Ranked (step : σ → ι → σ) (rank : σ → Nat) (view : σ → τ) : Prop :=
  ∀ s a, rank (step s a) = rank s ∧ view (step s a) = view s ∨ rank s < rank (step s a)

theorem Ranked.run_le {rank : σ → Nat} {view : σ → τ} (ranked : Ranked step rank view) (s : σ)
    (as : List ι) : rank s ≤ rank (run step s as) := by
  induction as generalizing s with
  | nil => exact Nat.le_refl _
  | cons a _ ih =>
    rcases ranked s a with ⟨same,-⟩ | up
    · exact same ▸ ih (step s a)
    · exact Nat.le_trans (Nat.le_of_lt up) (ih (step s a))

theorem Ranked.run_view {rank : σ → Nat} {view : σ → τ} (ranked : Ranked step rank view) (s : σ)
    (as : List ι) (level : rank (run step s as) = rank s) : view (run step s as) = view s := by
  induction as generalizing s with
  | nil => rfl
  | cons a as ih =>
    rcases ranked s a with ⟨same,unchanged⟩ | up
    · exact (ih (step s a) (level.trans same.symm)).trans unchanged
    · have later := ranked.run_le (step s a) as
      rw [run_cons] at level
      exact absurd level (by omega)

theorem moment_run (step : σ → ι → σ) (s : σ) (as : List ι) {m n : Nat} (h : m ≤ n) :
    moment step s as n = run step (moment step s as m) ((as.take n).drop m) := by
  rw [moment,moment,← run_append]
  conv_rhs => rw [show as.take m = (as.take n).take m by rw [List.take_take,Nat.min_eq_left h]]
  rw [List.take_append_drop]

theorem Ranked.view_between {rank : σ → Nat} {view : σ → τ} (ranked : Ranked step rank view) (s : σ)
    (as : List ι) {l m n : Nat} (lm : l ≤ m) (mn : m ≤ n)
    (level : rank (moment step s as l) = rank (moment step s as n)) :
    view (moment step s as m) = view (moment step s as n) := by
  have up := ranked.run_le (moment step s as l) ((as.take m).drop l)
  have up' := ranked.run_le (moment step s as m) ((as.take n).drop m)
  rw [← moment_run step s as lm] at up
  rw [← moment_run step s as mn] at up'
  rw [moment_run step s as mn] at up' level ⊢
  exact (ranked.run_view _ _ (by omega)).symm

def after (exec : σ → ι → σ × ο) : σ → List ι → σ := run (fun s a => (exec s a).1)

def outputs (exec : σ → ι → σ × ο) : σ → List ι → List ο
  | _, [] => []
  | s, a :: as => (exec s a).2 :: outputs exec (exec s a).1 as

theorem after_snoc (exec : σ → ι → σ × ο) (s : σ) (as : List ι) (a : ι) :
    after exec s (as ++ [a]) = (exec (after exec s as) a).1 := by
  simp [after]

theorem outputs_snoc (exec : σ → ι → σ × ο) (s : σ) (as : List ι) (a : ι) :
    outputs exec s (as ++ [a]) = outputs exec s as ++ [(exec (after exec s as) a).2] := by
  induction as generalizing s with
  | nil => rfl
  | cons _ _ ih => simp [outputs,ih,after]

theorem outputs_agree {e : σ → ι → σ × ο} {f : τ → ι → τ × ο} {s₀ : σ} {t₀ : τ}
    {Ok : List ι → Prop} {R : σ → τ → Prop} (closed : ∀ as a, Ok (as ++ [a]) → Ok as) (start : R s₀ t₀)
    (next : ∀ as a, Ok (as ++ [a]) → R (after e s₀ as) (after f t₀ as) →
      (e (after e s₀ as) a).2 = (f (after f t₀ as) a).2 ∧ R (e (after e s₀ as) a).1 (f (after f t₀ as) a).1)
    (as : List ι) (hok : Ok as) : outputs e s₀ as = outputs f t₀ as ∧ R (after e s₀ as) (after f t₀ as) := by
  induction as using List.reverseRecOn with
  | nil => exact ⟨rfl,start⟩
  | append_singleton as a ih =>
    obtain ⟨hout,hrel⟩ := ih (closed as a hok)
    obtain ⟨hreply,hnext⟩ := next as a hok hrel
    rw [outputs_snoc,outputs_snoc,after_snoc,after_snoc,hout,hreply]
    exact ⟨rfl,hnext⟩

end CompanyBrain.Foundations
