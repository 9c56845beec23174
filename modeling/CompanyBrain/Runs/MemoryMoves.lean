import CompanyBrain.Runs.MemoryRunStore
import Mathlib.Logic.Relation

namespace CompanyBrain.Runs

open Foundations Table

def Op.isClaim : Op → Bool
  | .claim _ _ _ => true
  | .claimById _ _ _ _ => true
  | _ => false

def Op.isFail : Op → Bool
  | .fail _ _ _ _ => true
  | _ => false

namespace Memory

section

variable (s : Store) (run : Run)
include s run

@[simp] theorem put_runs : (s.put run).runs = s.runs.set run := rfl
@[simp] theorem put_called : (s.put run).called = s.called := rfl
@[simp] theorem put_maxClaims : (s.put run).maxClaims = s.maxClaims := rfl
@[simp] theorem put_listeners : (s.put run).terminalListeners = s.terminalListeners := rfl

@[simp] theorem settle_runs : (s.settle run).runs = s.runs := by
  unfold Store.settle; split <;> rfl
@[simp] theorem settle_maxClaims :
    (s.settle run).maxClaims = s.maxClaims := by unfold Store.settle; split <;> rfl
@[simp] theorem settle_listeners : (s.settle run).terminalListeners = s.terminalListeners := by
  unfold Store.settle; split <;> rfl
theorem settle_called (h : isTerminal run.status) :
    (s.settle run).called = s.called ++ s.terminalListeners.map (·,run) := by
  simp [Store.settle,h]

end

@[simp] theorem unleased_id (r : Run) (e : Bool) : (unleased r e).id = r.id := rfl

variable {s : Store}

theorem sessionHasRunning_iff {sessionId : String} :
    s.sessionHasRunning sessionId ↔ ∃ r ∈ s.runs, r.sessionId = sessionId ∧ r.status = .running := by
  simp [Store.sessionHasRunning,← mem_rows]

variable {run : Run}

theorem claimable_iff : s.claimable run ↔ run.status = .pending ∧
      ∀ r ∈ s.runs, r.sessionId = run.sessionId → r.status ≠ .running := by
  have h : s.sessionHasRunning run.sessionId = true ↔ _ := sessionHasRunning_iff
  simp only [Store.claimable,Bool.and_eq_true,Bool.not_eq_true',← Bool.not_eq_true,h]
  simp

inductive Move : Op → Store → Store → Prop
  | added {s : Store} (input : EnqueueInput) (uuid : String) (now : Int)
      (byKey : Table (Prod.fst : String × String → String))
      (new : s.runs.find? uuid = none) :
      Move (.enqueue input uuid) s {s.put (newRun input uuid now) with byKey := byKey}
  | leased {s : Store} {op : Op} {run : Run} (w : String) (ttl : Int) (uuid : String)
      (clock : Clock) (claims : op.isClaim = true) (draws : op.drawn = [uuid])
      (mem : run ∈ s.runs) (free : s.claimable run = true) :
      Move op s (s.put (leased run w ttl uuid clock))
  | beat {s : Store} {run : Run} (token : String) (ttl expiry : Int)
      (mem : run ∈ s.runs) (running : run.status = .running)
      (held : run.leaseToken = some token) :
      Move (.heartbeat run.id token ttl) s (s.put {run with leaseExpiresAt := some expiry})
  | released {s : Store} {run : Run} (token : String)
      (mem : run ∈ s.runs) (running : run.status = .running)
      (held : run.leaseToken = some token) :
      Move (.releaseLease run.id token) s (s.put (released run))
  | completed {s : Store} {run : Run} (token : String) (result : TurnResult) (now : Int)
      (mem : run ∈ s.runs) (held : run.leaseToken = some token) :
      Move (.complete run.id token result) s
        ((s.put (completed run result now)).settle (completed run result now))
  | requeued {s : Store} {op : Op} {run : Run} (retry : Bool)
      (mem : run ∈ s.runs) (running : run.status = .running)
      (again : retries s.maxClaims (unleased run op.isFail) retry = true) :
      Move op s (s.put {unleased run op.isFail with status := .pending})
  | parked {s : Store} {op : Op} {run : Run} (reason : String) (now : Int)
      (mem : run ∈ s.runs) (running : run.status = .running) :
      Move op s ((s.put (parked (unleased run op.isFail) reason now)).settle
        (parked (unleased run op.isFail) reason now))
  | recorded {s : Store} {op : Op} (ledger : Table (Prod.fst : String × String → String)) :
      Move op s {s with ledger := ledger}

abbrev Moves (op : Op) : Store → Store → Prop := Relation.ReflTransGen (Move op)

theorem retireBlocked_running {opts : RetireOptions} (h : retireBlocked run opts = false) : run.status = .running := by
  simp only [retireBlocked,Bool.or_eq_false_iff,decide_eq_false_iff_not,not_not] at h
  exact h.1

variable {op : Op}

theorem retire_moves (error : String) (retry : Bool) (opts : RetireOptions) (now : Int) (mem : run ∈ s.runs)
    (hop : opts.countsAsError = op.isFail) : Moves op s (s.retire run error retry opts now).1 := by
  unfold Store.retire
  split
  · exact .refl
  next hb =>
    have running := retireBlocked_running (Bool.not_eq_true _ ▸ hb)
    rw [hop]
    dsimp only
    split
    next again => exact .single (.requeued retry mem running again)
    · exact .single (.parked _ now mem running)

theorem enqueue_moves (input : EnqueueInput) (uuid : String) (clock : Clock) (new : s.runs.find? uuid = none) :
    Moves (.enqueue input uuid) s (s.enqueue input uuid clock).1 := by
  unfold Store.enqueue
  split
  · exact .refl
  · exact .single (.added input uuid (clock 0) _ new)

theorem claim_head_mem
    (h : ((s.runs.rows.filter s.claimable).insertionSort (fun a b => a.createdAt ≤ b.createdAt)).head? = some run) :
    run ∈ s.runs ∧ s.claimable run := by
  have hm := List.mem_of_mem_head? h
  rw [List.mem_insertionSort,List.mem_filter] at hm
  exact hm

theorem claim_moves (w : String) (ttl : Int) (uuid : String) (clock : Clock) :
    Moves (.claim w ttl uuid) s (s.claim w ttl uuid clock).1 := by
  simp only [Store.claim]
  split
  · exact .refl
  next run h =>
    obtain ⟨mem,free⟩ := claim_head_mem h
    exact .single (.leased w ttl uuid clock rfl rfl mem free)

theorem claimById_moves (id w : String) (ttl : Int) (uuid : String) (clock : Clock) :
    Moves (.claimById id w ttl uuid) s (s.claimById id w ttl uuid clock).1 := by
  unfold Store.claimById
  split
  · exact .refl
  next run h =>
    split
    next free => exact .single (.leased w ttl uuid clock rfl rfl (mem_of_find? h) free)
    · exact .refl

theorem heartbeat_moves (id token : String) (ttl : Int) (clock : Clock) :
    Moves (.heartbeat id token ttl) s (s.heartbeat id token ttl clock).1 := by
  unfold Store.heartbeat
  split
  · exact .refl
  next run h =>
    obtain ⟨mem,rfl⟩ := find?_eq_some.mp h
    split
    next held => exact .single (.beat token ttl _ mem held.1 held.2)
    · exact .refl

theorem releaseLease_moves (id token : String) : Moves (.releaseLease id token) s (s.releaseLease id token).1 := by
  unfold Store.releaseLease
  split
  · exact .refl
  next run h =>
    obtain ⟨mem,rfl⟩ := find?_eq_some.mp h
    split
    next held => exact .single (.released token mem held.1 held.2)
    · exact .refl

theorem complete_moves (id token : String) (result : TurnResult) (clock : Clock) :
    Moves (.complete id token result) s (s.complete id token result clock).1 := by
  unfold Store.complete
  split
  · exact .refl
  next run h =>
    obtain ⟨mem,rfl⟩ := find?_eq_some.mp h
    split
    next held => exact .single (.completed token result (clock 0) mem held)
    · exact .refl

theorem fail_moves (id token error : String) (retry : Bool) (clock : Clock) :
    Moves (.fail id token error retry) s (s.fail id token error retry clock).1 := by
  unfold Store.fail
  split
  · exact .refl
  next run h =>
    split
    · exact retire_moves error retry ⟨none,true⟩ (clock 0) (mem_of_find? h) rfl
    · exact .refl

theorem sweep_reap_moves (w : Sweep) (now : Int) (maxAge : Option Int) (clock : Clock)
    (id : String) : Moves (.reapExpired maxAge) w.store (w.reap now maxAge clock id).store := by
  unfold Sweep.reap
  split
  · exact .refl
  next run h =>
    dsimp only
    split
    · exact retire_moves _ _ ⟨some now,false⟩ _ (mem_of_find? h) rfl
    · exact .refl

theorem reapExpired_moves (maxAge : Option Int) (clock : Clock) :
    Moves (.reapExpired maxAge) s (s.reapExpired maxAge clock).store := by
  suffices h : ∀ (ids : List String) (w : Sweep), Moves (.reapExpired maxAge) w.store
      (ids.foldl (fun w id => w.reap (clock 0) maxAge clock id) w).store from
    h (s.expired (clock 0)) ⟨s,0,0,[],[]⟩
  intro ids
  induction ids with
  | nil => exact fun _ => .refl
  | cons id _ ih => exact fun w => (sweep_reap_moves w _ _ _ id).trans (ih _)

def Call.newTo (s : Store) (c : Call) : Prop :=
  ∀ input uuid, c.op = .enqueue input uuid → s.runs.find? uuid = none

theorem step_moves {c : Call} (new : Call.newTo s c) : Moves c.op s (s.step c) := by
  obtain ⟨op,clock⟩ := c
  cases op with
  | enqueue input uuid => exact enqueue_moves input uuid clock (new input uuid rfl)
  | claim w ttl uuid => exact claim_moves w ttl uuid clock
  | claimById id w ttl uuid => exact claimById_moves id w ttl uuid clock
  | heartbeat id token ttl => exact heartbeat_moves id token ttl clock
  | releaseLease id token => exact releaseLease_moves id token
  | complete id token result => exact complete_moves id token result clock
  | fail id token error retry => exact fail_moves id token error retry clock
  | reapExpired maxAge => exact reapExpired_moves maxAge clock
  | begin => exact .refl
  | record _ _ _ _ => exact .single (.recorded _)

variable {t : Store}

theorem moves_induct {P : Store → Prop} (next : ∀ {s t}, Move op s t → P s → P t) (h : Moves op s t) (hs : P s) :
    P t := by
  induction h with
  | refl => exact hs
  | tail _ hm ih => exact next hm ih

theorem move_maxClaims (h : Move op s t) : t.maxClaims = s.maxClaims := by
  cases h <;> simp

theorem move_listeners (h : Move op s t) : t.terminalListeners = s.terminalListeners := by
  cases h <;> simp

end Memory

end CompanyBrain.Runs
