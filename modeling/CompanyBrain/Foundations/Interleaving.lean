import CompanyBrain.Foundations.History
import Mathlib.Logic.Function.Basic

namespace CompanyBrain.Foundations

variable {σ ℓ ρ π ε : Type}

inductive Task (σ ℓ : Type) where
  | done
  | step (label : ℓ) (act : σ → σ) (next : σ → Task σ ℓ) (error : Task σ ℓ)

namespace Task

def label : Task σ ℓ → Option ℓ
  | .done => none
  | .step l _ _ _ => some l

def call (l : ℓ) (act : σ → σ × ρ) (error : Task σ ℓ) (next : ρ → Task σ ℓ) : Task σ ℓ :=
  .step l (fun s => (act s).1) (fun s => next (act s).2) error

def read (l : ℓ) (get : σ → ρ) (error : Task σ ℓ) (next : ρ → Task σ ℓ) : Task σ ℓ :=
  .step l id (fun s => next (get s)) error

def All (P : ℓ → (σ → σ) → (σ → Task σ ℓ) → Task σ ℓ → Prop) : Task σ ℓ → Prop
  | .done => True
  | .step l act next error => P l act next error ∧ (∀ s, All P (next s)) ∧ All P error

inductive Ran (Q : σ → σ → Prop) : Task σ ℓ → σ → σ → Prop
  | done (s s' : σ) (others : Q s s') : Ran Q .done s s'
  | step (l : ℓ) (act : σ → σ) (next : σ → Task σ ℓ) (error : Task σ ℓ) (s s₁ s' : σ) (others : Q s s₁)
      (rest : Ran Q (next s₁) (act s₁) s') : Ran Q (.step l act next error) s s'

def finish : Task σ ℓ → σ → σ
  | .done, s => s
  | .step _ act next _, s => (next s).finish (act s)

variable {Q : σ → σ → Prop} {s s' : σ}

theorem ran_finish (refl : ∀ s, Q s s) (t : Task σ ℓ) (s : σ) : Ran Q t s (t.finish s) := by
  induction t generalizing s with
  | done => exact .done s s (refl s)
  | step l act next error ih => exact .step l act next error s s _ (refl s) (ih s (act s))

theorem ran_done : Ran Q (.done : Task σ ℓ) s s' ↔ Q s s' := by
  constructor
  · rintro ⟨⟩
    assumption
  · exact .done s s'

theorem ran_call {l : ℓ} {act : σ → σ × ρ} {error : Task σ ℓ} {next : ρ → Task σ ℓ} :
    Ran Q (call l act error next) s s' ↔ ∃ s₁, Q s s₁ ∧ Ran Q (next (act s₁).2) (act s₁).1 s' := by
  constructor
  · rintro ⟨⟩
    exact ⟨_,by assumption,by assumption⟩
  · rintro ⟨s₁,others,rest⟩
    exact .step l _ _ error s s₁ s' others rest

theorem ran_read {l : ℓ} {get : σ → ρ} {error : Task σ ℓ} {next : ρ → Task σ ℓ} :
    Ran Q (read l get error next) s s' ↔ ∃ s₁, Q s s₁ ∧ Ran Q (next (get s₁)) s₁ s' := by
  constructor
  · rintro ⟨⟩
    exact ⟨_,by assumption,by assumption⟩
  · rintro ⟨s₁,others,rest⟩
    exact .step l _ _ error s s₁ s' others rest

end Task

structure Pool (σ ℓ : Type) where
  shared : σ
  threads : Nat → Task σ ℓ

def Pool.idle (s : σ) : Pool σ ℓ := ⟨s,fun _ => .done⟩

def Pool.set (p : Pool σ ℓ) (s : σ) (i : Nat) (t : Task σ ℓ) : Pool σ ℓ :=
  ⟨s,Function.update p.threads i t⟩

@[simp] theorem Pool.set_shared (p : Pool σ ℓ) (s : σ) (i : Nat) (t : Task σ ℓ) : (p.set s i t).shared = s := rfl

@[simp] theorem Pool.set_self (p : Pool σ ℓ) (s : σ) (i : Nat) (t : Task σ ℓ) :
    (p.set s i t).threads i = t := Function.update_self ..

theorem Pool.set_other (p : Pool σ ℓ) (s : σ) {i j : Nat} (t : Task σ ℓ) (other : j ≠ i) :
    (p.set s i t).threads j = p.threads j := Function.update_of_ne other ..

inductive PoolStep (π ε : Type) where
  | spawn (i : Nat) (program : π)
  | run (i : Nat)
  | fail (i : Nat)
  | lose (i : Nat)
  | env (e : ε)

structure System (σ ℓ π ε : Type) where
  program : π → Task σ ℓ
  env : ε → σ → σ

namespace System

variable (sys : System σ ℓ π ε)

-- A statement that fails is not executed; one whose answer is lost is executed, and its caller sees
-- an error all the same.
def step (p : Pool σ ℓ) : PoolStep π ε → Pool σ ℓ
  | .spawn i program =>
    match p.threads i with
    | .done => p.set p.shared i (sys.program program)
    | .step _ _ _ _ => p
  | .run i =>
    match p.threads i with
    | .done => p
    | .step _ act next _ => p.set (act p.shared) i (next p.shared)
  | .fail i =>
    match p.threads i with
    | .done => p
    | .step _ _ _ error => p.set p.shared i error
  | .lose i =>
    match p.threads i with
    | .done => p
    | .step _ act _ error => p.set (act p.shared) i error
  | .env e => {p with shared := sys.env e p.shared}

inductive Stepped (p : Pool σ ℓ) : PoolStep π ε → Pool σ ℓ → Prop
  | idle (a : PoolStep π ε) (done : ∀ e, a ≠ .env e) : Stepped p a p
  | spawn (i : Nat) (program : π) (free : p.threads i = .done) :
      Stepped p (.spawn i program) (p.set p.shared i (sys.program program))
  | run (i : Nat) (l : ℓ) (act : σ → σ) (next : σ → Task σ ℓ) (error : Task σ ℓ)
      (here : p.threads i = .step l act next error) :
      Stepped p (.run i) (p.set (act p.shared) i (next p.shared))
  | fail (i : Nat) (l : ℓ) (act : σ → σ) (next : σ → Task σ ℓ) (error : Task σ ℓ)
      (here : p.threads i = .step l act next error) : Stepped p (.fail i) (p.set p.shared i error)
  | lose (i : Nat) (l : ℓ) (act : σ → σ) (next : σ → Task σ ℓ) (error : Task σ ℓ)
      (here : p.threads i = .step l act next error) : Stepped p (.lose i) (p.set (act p.shared) i error)
  | env (e : ε) : Stepped p (.env e) {p with shared := sys.env e p.shared}

theorem step_stepped (p : Pool σ ℓ) (a : PoolStep π ε) : sys.Stepped p a (sys.step p a) := by
  cases a with
  | spawn i program =>
    rw [step]
    split
    next free => exact .spawn i program free
    · exact .idle _ fun e => by simp
  | run | fail | lose =>
    rw [step]
    split
    · exact .idle _ fun e => by simp
    next here =>
      constructor
      exact here
  | env e => exact .env e

variable {sys} {P : ℓ → (σ → σ) → (σ → Task σ ℓ) → Task σ ℓ → Prop}

theorem all_set {p : Pool σ ℓ} (all : ∀ j, (p.threads j).All P) (s : σ) (i : Nat) {t : Task σ ℓ}
    (new : t.All P) (j : Nat) : ((p.set s i t).threads j).All P :=
  (Function.forall_update_iff p.threads fun _ t => t.All P).mpr ⟨new,fun j _ => all j⟩ j

theorem all_stepped (programs : ∀ program, (sys.program program).All P) {p p' : Pool σ ℓ}
    {a : PoolStep π ε} (stepped : sys.Stepped p a p') (all : ∀ j, (p.threads j).All P) (j : Nat) :
    (p'.threads j).All P := by
  have node {i : Nat} {l : ℓ} {act : σ → σ} {next : σ → Task σ ℓ} {error : Task σ ℓ}
      (here : p.threads i = .step l act next error) : (∀ s, (next s).All P) ∧ error.All P := by
    have h := all i
    rw [here] at h
    exact h.2
  cases stepped with
  | idle | env => exact all j
  | spawn i program => exact all_set all _ i (programs program) j
  | run i _ _ _ _ here => exact all_set all _ i ((node here).1 p.shared) j
  | fail i _ _ _ _ here | lose i _ _ _ _ here => exact all_set all _ i (node here).2 j

theorem step_shared {p : Pool σ ℓ} (all : ∀ j, (p.threads j).All P) (a : PoolStep π ε) :
    (sys.step p a).shared = p.shared ∨
    (∃ e, a = .env e ∧ (sys.step p a).shared = sys.env e p.shared) ∨
    ∃ i l act next error, (a = .run i ∨ a = .lose i) ∧ (p.threads i).label = some l ∧ P l act next error ∧
      (sys.step p a).shared = act p.shared := by
  have stepped := sys.step_stepped p a
  have node {i : Nat} {l : ℓ} {act : σ → σ} {next : σ → Task σ ℓ} {error : Task σ ℓ}
      (here : p.threads i = .step l act next error) : (p.threads i).label = some l ∧ P l act next error := by
    have h := all i
    rw [here] at h
    exact ⟨congrArg Task.label here,h.1⟩
  generalize sys.step p a = p' at stepped
  cases stepped with
  | idle | spawn | fail => exact .inl rfl
  | run i l act next error here =>
    exact .inr (.inr ⟨i,l,act,next,error,.inl rfl,(node here).1,(node here).2,rfl⟩)
  | lose i l act next error here =>
    exact .inr (.inr ⟨i,l,act,next,error,.inr rfl,(node here).1,(node here).2,rfl⟩)
  | env e => exact .inr (.inl ⟨e,rfl,rfl⟩)

theorem all_run (programs : ∀ program, (sys.program program).All P) (s : σ) (as : List (PoolStep π ε))
    (j : Nat) : ((run sys.step (Pool.idle s) as).threads j).All P := by
  induction as using List.reverseRecOn generalizing j with
  | nil => trivial
  | append_singleton _ a ih =>
    rw [run_append]
    exact all_stepped programs (sys.step_stepped _ a) ih j

end System

end CompanyBrain.Foundations
