import CompanyBrain.Foundations.History
import CompanyBrain.Foundations.Table

namespace CompanyBrain.Foundations

open Table

variable {β γ κ ν : Type}

structure Transactions (β γ κ ν : Type) where
  locks : γ → List κ
  rows : γ → List κ
  view : γ → β → ν
  effect : γ → ν → Nat → β → β

def Apart (a b : List κ) : Prop := ∀ k ∈ a, k ∉ b

instance [DecidableEq κ] (a b : List κ) : Decidable (Apart a b) :=
  inferInstanceAs (Decidable (∀ k ∈ a, k ∉ b))

theorem Apart.symm {a b : List κ} (h : Apart a b) : Apart b a := fun k hb ha => h k ha hb

structure Held (γ ν : Type) where
  id : Nat
  call : γ
  seen : ν
  reading : Option Nat

structure Shared (β γ ν : Type) where
  clock : Nat
  data : β
  held : Table (Held.id (γ := γ) (ν := ν))
  log : List (γ × Nat)

inductive LockStep (γ : Type) where
  | tick (n : Nat)
  | start (id : Nat) (call : γ)
  | read (id : Nat)
  | commit (id : Nat)
  | abort (id : Nat)

namespace Transactions

variable (tx : Transactions β γ κ ν)

def opened (data : β) (clock : Nat) : Shared β γ ν := ⟨clock,data,empty,[]⟩

def serial (data : β) (e : γ × Nat) : β := tx.effect e.1 (tx.view e.1 data) e.2 data

def Isolated : Prop := ∀ c e data, Apart (tx.locks c) (tx.locks e.1) →
  Apart (tx.locks c) (tx.rows e.1) → tx.view c (tx.serial data e) = tx.view c data

section Step

variable [DecidableEq κ]

def step (s : Shared β γ ν) : LockStep γ → Shared β γ ν
  | .tick n => {s with clock := s.clock + n}
  | .start id call =>
    if s.held.find? id = none ∧ ∀ h ∈ s.held.rows, Apart (tx.locks h.call) (tx.locks call) then
      {s with held := s.held.set ⟨id,call,tx.view call s.data,none⟩}
    else s
  | .read id =>
    match s.held.find? id with
    | some h => if h.reading = none then {s with held := s.held.set {h with reading := some s.clock}} else s
    | none => s
  | .commit id =>
    match s.held.find? id with
    | some ⟨_,call,seen,some t⟩ =>
      if ∀ h ∈ (s.held.erase id).rows, Apart (tx.locks h.call) (tx.rows call) then
        {s with
          data := tx.effect call seen t s.data
          held := s.held.erase id
          log := s.log ++ [(call,t)]}
      else s
    | _ => s
  | .abort id => {s with held := s.held.erase id}

theorem step_data (s : Shared β γ ν) (a : LockStep γ) : (tx.step s a).data = s.data ∨
      ∃ h t, a = .commit h.id ∧ h ∈ s.held ∧ h.reading = some t ∧
        (tx.step s a).data = tx.effect h.call h.seen t s.data := by
  cases a with
  | tick | abort => exact .inl rfl
  | start =>
    rw [step]
    split <;> exact .inl rfl
  | read =>
    rw [step]
    split
    · split <;> exact .inl rfl
    · exact .inl rfl
  | commit id =>
    rw [step]
    split
    next own call seen t found =>
      split
      · have own_eq : own = id := key_of_find? found
        exact .inr ⟨⟨own,call,seen,some t⟩,t,by rw [own_eq],mem_of_find? found,rfl,rfl⟩
      · exact .inl rfl
    · exact .inl rfl

end Step

structure Serialised (data : β) (s : Shared β γ ν) : Prop where
  data_eq : s.data = run tx.serial data s.log
  seen : ∀ h ∈ s.held, h.seen = tx.view h.call s.data
  exclusive : ∀ h ∈ s.held, ∀ h' ∈ s.held, h.id ≠ h'.id → Apart (tx.locks h.call) (tx.locks h'.call)
  logged : ∀ e ∈ s.log, e.2 ≤ s.clock
  pending : ∀ h ∈ s.held, ∀ t, h.reading = some t → t ≤ s.clock ∧
    ∀ e ∈ s.log, ¬Apart (tx.locks h.call) (tx.locks e.1) → e.2 ≤ t
  ordered : s.log.Pairwise fun e e' => ¬Apart (tx.locks e'.1) (tx.locks e.1) → e.2 ≤ e'.2

namespace Serialised

variable {tx} {data : β} {s : Shared β γ ν}

theorem opened (data : β) (clock : Nat) : tx.Serialised data (Transactions.opened data clock) where
  data_eq := rfl
  seen := nofun
  exclusive := nofun
  logged := nofun
  pending := nofun
  ordered := .nil

section

variable (inv : tx.Serialised data s)
include inv

theorem tick (n : Nat) : tx.Serialised data {s with clock := s.clock + n} where
  data_eq := inv.data_eq
  seen := inv.seen
  exclusive := inv.exclusive
  logged := fun e he => Nat.le_add_right_of_le (inv.logged e he)
  pending := fun h hh t ht =>
    ⟨Nat.le_add_right_of_le (inv.pending h hh t ht).1,(inv.pending h hh t ht).2⟩
  ordered := inv.ordered

theorem erase (id : Nat) :
    tx.Serialised data {s with held := s.held.erase id} where
  data_eq := inv.data_eq
  seen := fun h hh => inv.seen h (mem_erase.mp hh).1
  exclusive := fun h hh h' hh' =>
    inv.exclusive h (mem_erase.mp hh).1 h' (mem_erase.mp hh').1
  logged := inv.logged
  pending := fun h hh => inv.pending h (mem_erase.mp hh).1
  ordered := inv.ordered

theorem set {h : Held γ ν} (seen : h.seen = tx.view h.call s.data)
    (exclusive : ∀ h' ∈ s.held, h'.id ≠ h.id → Apart (tx.locks h'.call) (tx.locks h.call))
    (reading : ∀ t, h.reading = some t → t = s.clock) :
    tx.Serialised data {s with held := s.held.set h} where
  data_eq := inv.data_eq
  seen := forall_set seen inv.seen
  exclusive := by
    intro a ha b hb ne
    rcases mem_set.mp ha with hah | ⟨olda,_⟩ <;> rcases mem_set.mp hb with hbh | ⟨oldb,_⟩
    · exact absurd (by rw [hah,hbh]) ne
    · rw [hah] at ne ⊢
      exact (exclusive b oldb ne.symm).symm
    · rw [hbh] at ne ⊢
      exact exclusive a olda ne
    · exact inv.exclusive a olda b oldb ne
  logged := inv.logged
  pending := by
    refine forall_set (fun t ht => ?_) inv.pending
    rw [reading t ht]
    exact ⟨Nat.le_refl _,fun e he _ => inv.logged e he⟩
  ordered := inv.ordered

end

theorem commit (isolated : tx.Isolated) (inv : tx.Serialised data s) {h : Held γ ν} {t : Nat}
    (mem : h ∈ s.held) (reading : h.reading = some t)
    (free : ∀ h' ∈ s.held.erase h.id, Apart (tx.locks h'.call) (tx.rows h.call)) :
    tx.Serialised data {s with
      data := tx.effect h.call h.seen t s.data
      held := s.held.erase h.id
      log := s.log ++ [(h.call,t)]} where
  data_eq := by
    rw [run_append,← inv.data_eq,inv.seen h mem]
    rfl
  seen := by
    intro h' hh'
    have hh := mem_erase.mp hh'
    have kept := isolated h'.call (h.call,t) s.data (inv.exclusive h' hh.1 h mem hh.2) (free h' hh')
    rw [inv.seen h' hh.1,inv.seen h mem]
    exact kept.symm
  exclusive := (inv.erase h.id).exclusive
  logged := forall_snoc inv.logged (inv.pending h mem t reading).1
  pending := by
    intro h' hh' t' ht'
    have hh := mem_erase.mp hh'
    obtain ⟨before,rest⟩ := inv.pending h' hh.1 t' ht'
    exact ⟨before,forall_snoc rest fun meets => absurd (inv.exclusive h' hh.1 h mem hh.2) meets⟩
  ordered := by
    refine List.pairwise_append.mpr ⟨inv.ordered,List.pairwise_singleton _ _,fun e he e' he' => ?_⟩
    rw [List.mem_singleton.mp he']
    exact (inv.pending h mem t reading).2 e he

variable [DecidableEq κ]

theorem step (isolated : tx.Isolated) (inv : tx.Serialised data s) (a : LockStep γ) :
    tx.Serialised data (tx.step s a) := by
  cases a with
  | tick n => exact inv.tick n
  | start =>
    rw [Transactions.step]
    split
    next free => exact inv.set rfl (fun h hh _ => free.2 h hh) (fun _ ht => by cases ht)
    · exact inv
  | read =>
    rw [Transactions.step]
    split
    next h found =>
      have mem := mem_of_find? found
      split
      · exact inv.set (inv.seen h mem) (fun h' hh' ne => inv.exclusive h' hh' h mem ne)
          (fun t ht => (Option.some.inj ht).symm)
      · exact inv
    · exact inv
  | commit id =>
    rw [Transactions.step]
    split
    next own call seen t found =>
      have mem := mem_of_find? found
      have own_eq : own = id := key_of_find? found
      subst own_eq
      split
      next free => exact inv.commit isolated mem rfl free
      · exact inv
    · exact inv
  | abort id => exact inv.erase id

end Serialised

variable [DecidableEq κ]

theorem serialised (isolated : tx.Isolated) (data : β) (clock : Nat) (actions : List (LockStep γ)) :
    tx.Serialised data (run tx.step (opened data clock) actions) := by
  induction actions using List.reverseRecOn with
  | nil => exact Serialised.opened data clock
  | append_singleton _ a ih =>
    rw [run_append]
    exact ih.step isolated a

end Transactions

end CompanyBrain.Foundations
