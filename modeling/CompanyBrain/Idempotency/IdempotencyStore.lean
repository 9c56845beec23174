import CompanyBrain.Foundations.History
import CompanyBrain.Foundations.Table
import Mathlib.Logic.Function.Basic

namespace CompanyBrain.Idempotency

open Foundations

structure IdempotencyRecord where
  key : String
  time : Int
deriving DecidableEq

structure Options where
  retentionMs : Int := 14 * 24 * 60 * 60000
  pruneIntervalMs : Int := 60 * 60000

inductive Call where
  | idle
  | reading (cutoff : Int)
  | got (cutoff : Int) (record : Option IdempotencyRecord)
  | committed
  | clear
  | running
  | storing (time : Int)
  | stored (time : Int)
  | returned (result : Bool)
  | threw

inductive Prune where
  | idle
  | reading (cutoff : Int)
  | sweeping (cutoff : Int) (rows : List IdempotencyRecord)
deriving DecidableEq

structure Start where
  key : String
  time : Int
  lastRun : Option Int

structure Deletion where
  record : IdempotencyRecord
  time : Int
deriving DecidableEq

structure Store where
  clock : Int
  done : String → Option Int
  inflight : String → Bool
  lastPruneAt : Int
  backing : Option (Table IdempotencyRecord.key)
  call : Nat → Call
  prune : Nat → Prune
  lastRun : String → Option Int
  started : List Start
  completed : List Nat
  deleted : List Deletion

def createIdempotencyStore (clock : Int) (backing : Option (Table IdempotencyRecord.key)) : Store where
  clock := clock
  done _ := none
  inflight _ := false
  lastPruneAt := clock
  backing := backing
  call _ := .idle
  prune _ := .idle
  lastRun k := (backing.bind fun b => b.find? k).map IdempotencyRecord.time
  started := []
  completed := []
  deleted := []

inductive Action where
  | wait (ms : Nat)
  | begin (i : Nat)
  | read (i : Nat)
  | resume (i : Nat)
  | start (i : Nat)
  | complete (i : Nat)
  | fail (i : Nat)
  | put (i : Nat)
  | finish (i : Nat)
  | leave (i : Nat)
  | readAll (i : Nat)
  | sweep (i : Nat) (key : String)

open Function

section

variable (opts : Options) (keys : Nat → String) (s : Store) (a : Action)

def Store.to (i : Nat) (p : Call) : Store := {s with call := update s.call i p}

def Store.lock (key : String) (held : Bool) : Store :=
  {s with inflight := update s.inflight key held}

def Store.pruneIfDue (i : Nat) (time : Int) : Store :=
  if time - s.lastPruneAt < opts.pruneIntervalMs then s
  else
    let cutoff := time - opts.retentionMs
    {s with
      lastPruneAt := time
      done := fun k => (s.done k).filter (cutoff ≤ ·)
      prune := if s.backing.isSome then update s.prune i (.reading cutoff) else s.prune}

def lookup (key : String) : Call :=
  let cutoff := s.clock - opts.retentionMs
  if (s.done key).any (cutoff ≤ ·) then .committed
  else if s.backing.isSome then .reading cutoff
  else .clear

def Store.delete (key : String) : Store :=
  match s.backing with
  | none => s
  | some b =>
    {s with
      backing := some (b.erase key)
      deleted := s.deleted ++ ((b.find? key).map fun r => ⟨r,s.clock⟩).toList}

def Store.sweepRow (i : Nat) (cutoff : Int) (rows : List IdempotencyRecord) (key : String) : Store :=
  match rows.find? (·.key = key) with
  | none => s
  | some r =>
    let rest := rows.filter (·.key ≠ key)
    let s := {s with prune := update s.prune i (.sweeping cutoff rest)}
    if r.time < cutoff then s.delete key else s

def Store.exec : Action → Store
  | .wait ms => {s with clock := s.clock + ms}
  | .begin i =>
    match s.call i with
    | .idle =>
      if s.inflight (keys i) then s.to i (.returned false)
      else (s.lock (keys i) true).to i (lookup opts s (keys i))
    | _ => s
  | .read i =>
    match s.call i with
    | .reading cutoff => s.to i (.got cutoff (s.backing.bind fun b => b.find? (keys i)))
    | _ => s
  | .resume i =>
    match s.call i with
    | .got cutoff (some r) =>
      if cutoff ≤ r.time then {s with done := update s.done r.key (some r.time)}.to i .committed
      else s.to i .clear
    | .got _ none => s.to i .clear
    | _ => s
  | .start i =>
    match s.call i with
    | .clear =>
      let start : Start := ⟨keys i,s.clock,s.lastRun (keys i)⟩
      {s with started := s.started ++ [start]}.to i .running
    | _ => s
  | .complete i =>
    match s.call i with
    | .running =>
      {s with
        lastRun := update s.lastRun (keys i) (some s.clock)
        completed := s.completed ++ [i]}.to i (.storing s.clock)
    | _ => s
  | .fail i =>
    match s.call i with
    | .running => (s.lock (keys i) false).to i .threw
    | _ => s
  | .put i =>
    match s.call i with
    | .storing time =>
      let record : IdempotencyRecord := ⟨keys i,time⟩
      {s with backing := s.backing.map fun b => Table.set b record}.to i (.stored time)
    | _ => s
  | .finish i =>
    match s.call i with
    | .stored time =>
      let s := {s with done := update s.done (keys i) (some time)}.pruneIfDue opts i time
      (s.lock (keys i) false).to i (.returned true)
    | _ => s
  | .leave i =>
    match s.call i with
    | .committed => (s.lock (keys i) false).to i (.returned false)
    | _ => s
  | .readAll i =>
    match s.prune i, s.backing with
    | .reading cutoff, some b => {s with prune := update s.prune i (.sweeping cutoff b.rows)}
    | _, _ => s
  | .sweep i key =>
    match s.prune i with
    | .sweeping cutoff rows => s.sweepRow i cutoff rows key
    | _ => s

inductive Move (opts : Options) (keys : Nat → String) (s : Store) : Store → Prop
  | nothing : Move opts keys s s
  | waited (ms : Nat) : Move opts keys s {s with clock := s.clock + ms}
  | refused {i : Nat} (call : s.call i = .idle) : Move opts keys s (s.to i (.returned false))
  | entered {i : Nat} (call : s.call i = .idle) (free : s.inflight (keys i) = false) :
      Move opts keys s ((s.lock (keys i) true).to i (lookup opts s (keys i)))
  | read {i : Nat} {cutoff : Int} (call : s.call i = .reading cutoff) :
      Move opts keys s (s.to i (.got cutoff (s.backing.bind fun b => b.find? (keys i))))
  | found {i : Nat} {cutoff : Int} {r : IdempotencyRecord} (call : s.call i = .got cutoff (some r))
      (fresh : cutoff ≤ r.time) :
      Move opts keys s ({s with done := update s.done r.key (some r.time)}.to i .committed)
  | cleared {i : Nat} {cutoff : Int} {r : Option IdempotencyRecord}
      (call : s.call i = .got cutoff r) (stale : ∀ x, r = some x → x.time < cutoff) :
      Move opts keys s (s.to i .clear)
  | started {i : Nat} (call : s.call i = .clear) :
      Move opts keys s ({s with
        started := s.started ++ [(⟨keys i,s.clock,s.lastRun (keys i)⟩ : Start)]}.to i .running)
  | completed {i : Nat} (call : s.call i = .running) :
      Move opts keys s ({s with
        lastRun := update s.lastRun (keys i) (some s.clock)
        completed := s.completed ++ [i]}.to i (.storing s.clock))
  | failed {i : Nat} (call : s.call i = .running) :
      Move opts keys s ((s.lock (keys i) false).to i .threw)
  | put {i : Nat} {time : Int} (call : s.call i = .storing time) :
      Move opts keys s ({s with
        backing := s.backing.map fun b =>
          Table.set b (⟨keys i,time⟩ : IdempotencyRecord)}.to i (.stored time))
  | finished {i : Nat} {time : Int} (call : s.call i = .stored time) :
      Move opts keys s (((({s with done := update s.done (keys i) (some time)}).pruneIfDue
        opts i time).lock (keys i) false).to i (.returned true))
  | left {i : Nat} (call : s.call i = .committed) :
      Move opts keys s ((s.lock (keys i) false).to i (.returned false))
  | readAll {i : Nat} {cutoff : Int} {b : Table IdempotencyRecord.key}
      (prune : s.prune i = .reading cutoff) (backing : s.backing = some b) :
      Move opts keys s {s with prune := update s.prune i (.sweeping cutoff b.rows)}
  | swept {i : Nat} {cutoff : Int} {rows : List IdempotencyRecord} (key : String)
      (prune : s.prune i = .sweeping cutoff rows) :
      Move opts keys s (s.sweepRow i cutoff rows key)

theorem exec_move : Move opts keys s (s.exec opts keys a) := by
  cases a with
  | wait ms => exact .waited ms
  | begin =>
    simp only [Store.exec]
    split
    next call =>
      split
      · exact .refused call
      next free => exact .entered call (by simpa using free)
    · exact .nothing
  | read =>
    simp only [Store.exec]
    split
    next call => exact .read call
    · exact .nothing
  | resume =>
    simp only [Store.exec]
    split
    next call =>
      split
      next fresh => exact .found call fresh
      next stale =>
        refine .cleared call ?_
        rintro _ ⟨⟩
        exact Int.not_le.mp stale
    next call => exact .cleared call (by simp)
    · exact .nothing
  | start =>
    simp only [Store.exec]
    split
    next call => exact .started call
    · exact .nothing
  | complete =>
    simp only [Store.exec]
    split
    next call => exact .completed call
    · exact .nothing
  | fail =>
    simp only [Store.exec]
    split
    next call => exact .failed call
    · exact .nothing
  | put =>
    simp only [Store.exec]
    split
    next call => exact .put call
    · exact .nothing
  | finish =>
    simp only [Store.exec]
    split
    next call => exact .finished call
    · exact .nothing
  | leave =>
    simp only [Store.exec]
    split
    next call => exact .left call
    · exact .nothing
  | readAll =>
    simp only [Store.exec]
    split
    next prune backing => exact .readAll prune backing
    · exact .nothing
  | sweep i key =>
    simp only [Store.exec]
    split
    next prune => exact .swept key prune
    · exact .nothing

end

end CompanyBrain.Idempotency
