import CompanyBrain.Foundations.History

namespace CompanyBrain.Egress

open Foundations

variable {ρ : Type}

structure Record (ρ : Type) where
  source : String
  rest : ρ

def relayMaxBatch : Nat := 500

def relayMaxBuffer : Nat := 5000

structure Sink (ρ : Type) where
  buffer : List ρ
  flushing : Option (List ρ)
  dropped : Nat

namespace Sink

def record (s : Sink ρ) (r : Record ρ) : Sink ρ :=
  if relayMaxBuffer ≤ s.buffer.length then {s with dropped := s.dropped+1} else {s with buffer := s.buffer ++ [r.rest]}

def flush (s : Sink ρ) : Sink ρ :=
  if s.flushing.isSome || s.buffer.isEmpty then s else {s with flushing := some (s.buffer.take relayMaxBatch)}

def settle (s : Sink ρ) (batch : List ρ) (ok : Bool) : Sink ρ :=
  if ok then ⟨s.buffer.drop batch.length,none,0⟩ else {s with flushing := none}

end Sink

structure Relay (ρ : Type) where
  sink : Sink ρ
  arrived : Bool
  stored : List (List ρ)
  accepted : List ρ

inductive Event (ρ : Type) where
  | record (r : Record ρ)
  | flush
  | store
  | settle

namespace Relay

def start : Relay ρ := ⟨⟨[],none,0⟩,false,[],[]⟩

def step (w : Relay ρ) : Event ρ → Relay ρ
  | .record r =>
    {w with
      sink := w.sink.record r
      accepted := if w.sink.buffer.length < relayMaxBuffer then w.accepted ++ [r.rest] else w.accepted}
  | .flush => {w with sink := w.sink.flush}
  | .store =>
    match w.sink.flushing with
    | some batch => if w.arrived then w else {w with arrived := true, stored := w.stored ++ [batch]}
    | none => w
  | .settle =>
    match w.sink.flushing with
    | some batch => {w with sink := w.sink.settle batch w.arrived, arrived := false}
    | none => w

def landed (w : Relay ρ) : List ρ := if w.arrived then w.sink.flushing.getD [] else []

structure InOrder (w : Relay ρ) : Prop where
  cut : ∀ batch ∈ w.sink.flushing, batch <+: w.sink.buffer
  idle : w.sink.flushing = none → w.arrived = false
  split : w.accepted = w.stored.flatten ++ w.sink.buffer.drop w.landed.length
  room : w.sink.buffer.length ≤ relayMaxBuffer

variable {w : Relay ρ}

theorem landed_le (h : InOrder w) : w.landed.length ≤ w.sink.buffer.length := by
  unfold landed
  split
  · cases sent : w.sink.flushing with
    | none => exact Nat.zero_le _
    | some batch => exact (h.cut batch sent).length_le
  · exact Nat.zero_le _

theorem inOrder_start : InOrder (start : Relay ρ) :=
  ⟨fun _ none => absurd none (Option.not_mem_none _),fun _ => rfl,rfl,Nat.zero_le _⟩

theorem inOrder_record (h : InOrder w) (r : Record ρ) : InOrder (w.step (.record r)) := by
  have small := landed_le h
  obtain ⟨cut,idle,split,room⟩ := h
  simp only [step,Sink.record]
  constructor <;> grind [landed]

theorem inOrder_flush (h : InOrder w) : InOrder (w.step .flush) := by
  obtain ⟨cut,idle,split,room⟩ := h
  simp only [step,Sink.flush]
  cases sent : w.sink.flushing <;> constructor <;> grind [landed]

theorem inOrder_store (h : InOrder w) : InOrder (w.step .store) := by
  simp only [step]
  split
  next batch sent =>
    split
    next => exact h
    next unsent =>
      obtain ⟨later,whole⟩ := h.cut batch sent
      refine ⟨h.cut,fun none => ?_,?_,h.room⟩
      · rw [sent] at none
        cases none
      · have split := h.split
        simp only [landed,unsent] at split
        simp [landed,sent,split,← whole]
  next => exact h

theorem inOrder_settle (h : InOrder w) : InOrder (w.step .settle) := by
  obtain ⟨cut,idle,split,room⟩ := h
  simp only [step,Sink.settle]
  constructor <;> grind [landed]

theorem inOrder_step (h : InOrder w) (e : Event ρ) : InOrder (w.step e) := by
  cases e with
  | record r => exact inOrder_record h r
  | flush => exact inOrder_flush h
  | store => exact inOrder_store h
  | settle => exact inOrder_settle h

theorem inOrder_run (events : List (Event ρ)) : InOrder (run step start events) :=
  List.foldlRecOn events step inOrder_start fun _ h e _ => inOrder_step h e

theorem record_refused {s : Sink ρ} {r : Record ρ} (refused : (s.record r).buffer = s.buffer) :
    relayMaxBuffer ≤ s.buffer.length := by
  unfold Sink.record at refused
  split at refused
  next full => exact full
  next => simp at refused

theorem relayed_in_order (events : List (Event ρ)) :
    (run step start events).stored.flatten <+: (run step start events).accepted ∧
    (run step start events).sink.buffer.length ≤ relayMaxBuffer ∧
    ∀ r, ((run step start events).sink.record r).buffer = (run step start events).sink.buffer →
      relayMaxBuffer ≤ (run step start events).sink.buffer.length := by
  have h := inOrder_run events
  exact ⟨⟨_,h.split.symm⟩,h.room,fun _ => record_refused⟩

end Relay

end CompanyBrain.Egress
