import CompanyBrain.Idempotency.IdempotencyStore

namespace CompanyBrain.Idempotency

open Foundations
open Function

namespace Call

def active : Call → Bool
  | idle => false
  | returned _ => false
  | threw => false
  | _ => true

def ran : Call → Bool
  | storing _ => true
  | stored _ => true
  | returned result => result
  | _ => false

def cutoff : Call → Option Int
  | reading cutoff => some cutoff
  | got cutoff _ => some cutoff
  | _ => none

def saving : Call → Option Int
  | storing time => some time
  | stored time => some time
  | _ => none

end Call

def Prune.cutoff : Prune → Option Int
  | idle => none
  | reading cutoff => some cutoff
  | sweeping cutoff _ => some cutoff

structure Locked (keys : Nat → String) (s : Store) : Prop where
  held : ∀ i, (s.call i).active → s.inflight (keys i) = true
  single : ∀ i j, (s.call i).active → (s.call j).active → keys i = keys j → i = j

structure Counted (s : Store) : Prop where
  ran : ∀ i, i ∈ s.completed ↔ (s.call i).ran = true
  nodup : s.completed.Nodup

section

variable {opts : Options} {keys : Nat → String} {s s' : Store} {i : Nat} {p : Call}

@[simp] theorem pruneIfDue_call (time : Int) : (s.pruneIfDue opts i time).call = s.call := by
  unfold Store.pruneIfDue
  split <;> rfl

@[simp] theorem pruneIfDue_inflight (time : Int) : (s.pruneIfDue opts i time).inflight = s.inflight := by
  unfold Store.pruneIfDue
  split <;> rfl

@[simp] theorem pruneIfDue_completed (time : Int) : (s.pruneIfDue opts i time).completed = s.completed := by
  unfold Store.pruneIfDue
  split <;> rfl

section

variable (h : Locked keys s)
include h

theorem Locked.stay (calls : s'.call = update s.call i p)
    (locks : s'.inflight = s.inflight) (stays : p.active → (s.call i).active) : Locked keys s' := by
  have active : ∀ j, (s'.call j).active → (s.call j).active := by
    rw [calls]
    exact (forall_update_iff s.call fun j c => c.active → (s.call j).active).mpr ⟨stays,fun _ _ h => h⟩
  constructor
  · intro j hj
    rw [locks]
    exact h.held j (active j hj)
  · intro j k hj hk
    exact h.single j k (active j hj) (active k hk)

theorem Locked.enter (free : s.inflight (keys i) = false) (calls : s'.call = update s.call i p)
    (locks : s'.inflight = update s.inflight (keys i) true) : Locked keys s' := by
  have apart : ∀ j, j ≠ i → (s'.call j).active → keys j ≠ keys i := by
    intro j hj active same
    rw [calls,update_of_ne hj] at active
    have held := h.held j active
    rw [same,free] at held
    cases held
  constructor
  · intro j active
    rw [locks]
    by_cases hj : j = i
    · rw [hj,update_self]
    · rw [update_of_ne (apart j hj active)]
      rw [calls,update_of_ne hj] at active
      exact h.held j active
  · intro j k hj hk same
    by_cases hji : j = i
    · by_cases hki : k = i
      · rw [hji,hki]
      · exact absurd (same.symm.trans (congrArg keys hji)) (apart k hki hk)
    · by_cases hki : k = i
      · exact absurd (same.trans (congrArg keys hki)) (apart j hji hj)
      · rw [calls,update_of_ne hji] at hj
        rw [calls,update_of_ne hki] at hk
        exact h.single j k hj hk same

theorem Locked.exit (was : (s.call i).active)
    (gone : p.active = false) (calls : s'.call = update s.call i p)
    (locks : s'.inflight = update s.inflight (keys i) false) : Locked keys s' := by
  have other : ∀ j, (s'.call j).active → j ≠ i ∧ (s.call j).active := by
    rw [calls]
    refine (forall_update_iff s.call fun j c => c.active → j ≠ i ∧ (s.call j).active).mpr
      ⟨fun active => ?_,fun j hj active => ⟨hj,active⟩⟩
    rw [gone] at active
    cases active
  constructor
  · intro j active
    obtain ⟨hj,active⟩ := other j active
    have apart : keys j ≠ keys i := fun same => hj (h.single j i active was same)
    rw [locks,update_of_ne apart]
    exact h.held j active
  · intro j k hj hk
    exact h.single j k (other j hj).2 (other k hk).2

omit h in
theorem delete_call (key : String) : (s.delete key).call = s.call ∧ (s.delete key).inflight = s.inflight ∧
    (s.delete key).completed = s.completed := by
  unfold Store.delete
  split <;> exact ⟨rfl,rfl,rfl⟩

omit h in
theorem sweepRow_call (cutoff : Int) (rows : List IdempotencyRecord) (key : String) :
    (s.sweepRow i cutoff rows key).call = s.call ∧ (s.sweepRow i cutoff rows key).inflight = s.inflight ∧
      (s.sweepRow i cutoff rows key).completed = s.completed := by
  unfold Store.sweepRow
  split
  · exact ⟨rfl,rfl,rfl⟩
  · simp only
    split
    · exact delete_call key
    · exact ⟨rfl,rfl,rfl⟩

theorem Locked.same (calls : s'.call = s.call)
    (locks : s'.inflight = s.inflight) : Locked keys s' := by
  constructor
  · rw [calls,locks]
    exact h.held
  · rw [calls]
    exact h.single

theorem locked_move (move : Move opts keys s s') : Locked keys s' := by
  cases move with
  | nothing => exact h
  | waited | readAll => exact h.same rfl rfl
  | refused => exact h.stay rfl rfl (by simp [Call.active])
  | entered _ free => exact h.enter free rfl rfl
  | read call | found call | cleared call | started call | completed call | put call =>
    exact h.stay rfl rfl (by simp [call,Call.active])
  | failed call | left call => exact h.exit (by rw [call]; rfl) rfl rfl rfl
  | @finished i time call =>
    refine h.exit (p := .returned true) (by rw [call]; rfl) rfl ?_ ?_
    · simp [Store.to,Store.lock]
    · simp [Store.to,Store.lock]
  | swept key =>
    obtain ⟨calls,locks,_⟩ := sweepRow_call _ _ key
    exact h.same calls locks

end

theorem Counted.stay (h : Counted s) (calls : s'.call = update s.call i p)
    (completed : s'.completed = s.completed) (same : p.ran = (s.call i).ran) : Counted s' := by
  have ran : ∀ j, (s'.call j).ran = (s.call j).ran := by
    rw [calls]
    exact (forall_update_iff s.call fun j c => c.ran = (s.call j).ran).mpr ⟨same,fun _ _ => rfl⟩
  constructor
  · intro j
    rw [completed,ran]
    exact h.ran j
  · rw [completed]
    exact h.nodup

theorem Counted.complete (h : Counted s) (calls : s'.call = update s.call i p)
    (completed : s'.completed = s.completed ++ [i]) (before : (s.call i).ran = false) (after : p.ran) : Counted s' := by
  constructor
  · intro j
    rw [completed,calls]
    by_cases hj : j = i
    · simp [hj,after]
    · rw [update_of_ne hj,← h.ran j]
      simp [hj]
  · rw [completed]
    refine h.nodup.append (List.nodup_singleton i) ?_
    intro j hj hi
    rw [h.ran j,List.mem_singleton.mp hi,before] at hj
    cases hj

theorem Counted.same (h : Counted s) (calls : s'.call = s.call)
    (completed : s'.completed = s.completed) : Counted s' := by
  constructor
  · rw [calls,completed]
    exact h.ran
  · rw [completed]
    exact h.nodup

theorem lookup_ran (key : String) : (lookup opts s key).ran = false := by
  unfold lookup
  simp only
  split
  · rfl
  · split <;> rfl

theorem counted_move (h : Counted s) (move : Move opts keys s s') : Counted s' := by
  cases move with
  | nothing => exact h
  | waited | readAll => exact h.same rfl rfl
  | refused call | read call | found call | cleared call | started call | failed call | put call | left call =>
    exact h.stay rfl rfl (by rw [call]; rfl)
  | entered call => exact h.stay rfl rfl (by rw [call,lookup_ran]; rfl)
  | completed call => exact h.complete rfl rfl (by rw [call]; rfl) rfl
  | @finished i time call =>
    refine h.stay (p := .returned true) ?_ ?_ (by rw [call]; rfl)
    · simp [Store.to,Store.lock]
    · simp [Store.to,Store.lock]
  | swept key =>
    obtain ⟨calls,_,completed⟩ := sweepRow_call _ _ key
    exact h.same calls completed

end

end CompanyBrain.Idempotency
