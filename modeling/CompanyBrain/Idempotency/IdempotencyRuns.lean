import CompanyBrain.Idempotency.Retention

namespace CompanyBrain.Idempotency

open Foundations
open Function

structure OncePerKey (opts : Options) (keys : Nat → String) (s : Store) : Prop where
  alone : ∀ i j, s.call i = .running → s.call j = .running → keys i = keys j → i = j
  counted : s.completed.Nodup
  truthful : ∀ i, s.call i = .returned true → i ∈ s.completed
  answered : ∀ i ∈ s.completed, (run (Store.exec opts keys) s [.put i,.finish i]).call i = .returned true
  spaced : ∀ st ∈ s.started, ∀ last, st.lastRun = some last → last < st.time - opts.retentionMs
  spared : ∀ d ∈ s.deleted, d.record.time < d.time - opts.retentionMs

def RowUnchanged (s : Store) : Action → Prop
  | .sweep i key => ∀ cutoff rows r b, s.prune i = .sweeping cutoff rows →
      rows.find? (·.key = key) = some r → r.time < cutoff → s.backing = some b →
      ∀ r', b.find? key = some r' → r' = r
  | _ => True

structure Guarded (opts : Options) (keys : Nat → String) (s : Store) : Prop where
  locked : Locked keys s
  counted : Counted s
  retained : Retained opts keys s

section

variable {opts : Options} {keys : Nat → String} {s s' : Store} {i : Nat}

theorem guarded_create (opts : Options) (keys : Nat → String) (clock : Int)
    (backing : Option (Table IdempotencyRecord.key)) : Guarded opts keys (createIdempotencyStore clock backing) where
  locked := by
    constructor
    · intro i busy
      cases busy
    · intro i j busy
      cases busy
  counted := ⟨fun i => by simp [createIdempotencyStore,Call.ran],List.nodup_nil⟩
  retained := by
    refine ⟨fun i => fits_plain rfl,?_,fun k a last _ => ?_,?_⟩
    · intro i c sweeping
      cases sweeping
    swap
    · intro st started
      cases started
    obtain ⟨r,found,rfl⟩ := Option.map_eq_some_iff.mp last
    obtain ⟨b,hb,found⟩ := Option.bind_eq_some_iff.mp found
    have key := Table.key_of_find? found
    subst key
    refine .inr (.inl ⟨b,hb,found,fun i cutoff rows sweeping => ?_⟩)
    cases sweeping

theorem guarded_exec (h : Guarded opts keys s) (a : Action) : Guarded opts keys (s.exec opts keys a) := by
  have move := exec_move opts keys s a
  exact ⟨locked_move h.locked move,counted_move h.counted move,retained_move h.retained h.locked move⟩

theorem pruneIfDue_deleted (time : Int) : (s.pruneIfDue opts i time).deleted = s.deleted := by
  unfold Store.pruneIfDue
  split <;> rfl

theorem exec_deleted (a : Action) (other : ∀ i key, a ≠ .sweep i key) : (s.exec opts keys a).deleted = s.deleted := by
  cases a with
  | sweep i key => exact absurd rfl (other i key)
  | finish =>
    simp only [Store.exec]
    split
    · exact pruneIfDue_deleted _
    · rfl
  | _ =>
    simp only [Store.exec]
    repeat' split
    all_goals rfl

theorem sweep_deleted (h : Retained opts keys s) {i : Nat} {key : String} (unchanged : RowUnchanged s (.sweep i key)) :
    ∀ d ∈ (s.exec opts keys (.sweep i key)).deleted,
      d ∈ s.deleted ∨ d.record.time < d.time - opts.retentionMs := by
  simp only [Store.exec]
  split
  next cutoff rows prune =>
    have past := h.pruning i cutoff (by rw [prune]; rfl)
    unfold Store.sweepRow
    split
    · exact fun d hd => .inl hd
    next r row =>
      simp only [Store.delete]
      split
      next expired =>
        split
        · exact fun d hd => .inl hd
        next b backing =>
          intro d hd
          rcases List.mem_append.mp hd with old | new
          · exact .inl old
          · obtain ⟨r',found,rfl⟩ := Option.map_eq_some_iff.mp (Option.mem_toList.mp new)
            have same := unchanged cutoff rows r b prune row expired backing r' found
            rw [same]
            simp only
            omega
      · exact fun d hd => .inl hd
  · exact fun d hd => .inl hd

theorem answered_of_ran (ran : (s.call i).ran) :
    (run (Store.exec opts keys) s [.put i,.finish i]).call i = .returned true := by
  cases call : s.call i with
  | storing | stored => simp [Store.exec,call,Store.to]
  | returned =>
    rw [call] at ran
    cases ran
    simp [Store.exec,call]
  | _ =>
    rw [call] at ran
    cases ran

theorem oncePerKey_of_guarded (h : Guarded opts keys s)
    (spared : ∀ d ∈ s.deleted, d.record.time < d.time - opts.retentionMs) : OncePerKey opts keys s where
  alone i j hi hj := h.locked.single i j (by rw [hi]; rfl) (by rw [hj]; rfl)
  counted := h.counted.nodup
  truthful i hi := (h.counted.ran i).mpr (by rw [hi]; rfl)
  answered i hi := answered_of_ran ((h.counted.ran i).mp hi)
  spaced := h.retained.spaced
  spared := spared

end

theorem guarded_run (opts : Options) (keys : Nat → String) (clock : Int)
    (backing : Option (Table IdempotencyRecord.key)) (actions : List Action) :
    Guarded opts keys (run (Store.exec opts keys) (createIdempotencyStore clock backing) actions) := by
  induction actions using List.reverseRecOn with
  | nil => exact guarded_create opts keys clock backing
  | append_singleton _ a ih =>
    rw [run_append]
    exact guarded_exec ih a

theorem spared_run (opts : Options) (keys : Nat → String) (clock : Int)
    (backing : Option (Table IdempotencyRecord.key)) (actions : List Action)
    (unchanged : Along (Store.exec opts keys) RowUnchanged (createIdempotencyStore clock backing) actions) :
    ∀ d ∈ (run (Store.exec opts keys) (createIdempotencyStore clock backing) actions).deleted,
      d.record.time < d.time - opts.retentionMs := by
  induction actions using List.reverseRecOn with
  | nil => exact nofun
  | append_singleton actions a ih =>
    obtain ⟨before,last,_⟩ := (along_append _ actions [a]).mp unchanged
    have spared := ih before
    have guarded := guarded_run opts keys clock backing actions
    rw [run_append,run_cons,run_nil]
    by_cases sweep : ∃ i key, a = .sweep i key
    · obtain ⟨i,key,rfl⟩ := sweep
      intro d hd
      rcases sweep_deleted guarded.retained last d hd with old | expired
      · exact spared d old
      · exact expired
    · rw [exec_deleted a fun i key same => sweep ⟨i,key,same⟩]
      exact spared

theorem once_per_key (opts : Options) (keys : Nat → String) (clock : Int)
    (backing : Option (Table IdempotencyRecord.key)) (actions : List Action)
    (unchanged : Along (Store.exec opts keys) RowUnchanged (createIdempotencyStore clock backing) actions) :
    OncePerKey opts keys (run (Store.exec opts keys) (createIdempotencyStore clock backing) actions) :=
  oncePerKey_of_guarded (guarded_run opts keys clock backing actions)
    (spared_run opts keys clock backing actions unchanged)

def brief : Options := ⟨100,1⟩

def twoKeys (i : Nat) : String := if i = 0 then "k" else "j"

def oldRecord : Store :=
  createIdempotencyStore 500 (some (Table.set Table.empty (⟨"k",0⟩ : IdempotencyRecord)))

def untilSnapshot : List Action :=
  [.begin 1,.read 1,.resume 1,.start 1,.wait 10,.complete 1,.put 1,.finish 1,.readAll 1]

def rerunThenSweep : List Action :=
  [.begin 0,.read 0,.resume 0,.start 0,.complete 0,.put 0,.sweep 1 "k"]

theorem prune_deletes_fresh_record :
    (run (Store.exec brief twoKeys) oldRecord (untilSnapshot ++ rerunThenSweep)).deleted = [⟨⟨"k",510⟩,510⟩] ∧
      ¬OncePerKey brief twoKeys (run (Store.exec brief twoKeys) oldRecord (untilSnapshot ++ rerunThenSweep)) := by
  have deleted : (run (Store.exec brief twoKeys) oldRecord
      (untilSnapshot ++ rerunThenSweep)).deleted = [⟨⟨"k",510⟩,510⟩] := by
    decide +kernel
  refine ⟨deleted,fun once => ?_⟩
  have spared := once.spared ⟨⟨"k",510⟩,510⟩ (by rw [deleted]; simp)
  exact absurd spared (by decide)

theorem once_per_key_expired_row : OncePerKey brief twoKeys
      (run (Store.exec brief twoKeys) oldRecord (untilSnapshot ++ [.sweep 1 "k"])) := by
  have quiet : Along (Store.exec brief twoKeys) RowUnchanged oldRecord untilSnapshot :=
    ⟨trivial,trivial,trivial,trivial,trivial,trivial,trivial,trivial,trivial,trivial⟩
  have snapshot : (run (Store.exec brief twoKeys) oldRecord untilSnapshot).prune 1 =
      .sweeping 410 [⟨"k",0⟩,⟨"j",510⟩] := by
    decide +kernel
  have stored : (run (Store.exec brief twoKeys) oldRecord untilSnapshot).backing.bind
      (fun b => b.find? "k") = some ⟨"k",0⟩ := by
    decide +kernel
  have unchanged : RowUnchanged (run (Store.exec brief twoKeys) oldRecord untilSnapshot) (.sweep 1 "k") := by
    intro cutoff rows r b prune row expired backing r' found
    obtain ⟨rfl,rfl⟩ := Prune.sweeping.inj (snapshot.symm.trans prune)
    obtain rfl : (⟨"k",0⟩ : IdempotencyRecord) = r := Option.some_inj.mp row
    obtain ⟨b',backing',found'⟩ := Option.bind_eq_some_iff.mp stored
    cases backing.symm.trans backing'
    exact Option.some_inj.mp (found.symm.trans found')
  have along : Along (Store.exec brief twoKeys) RowUnchanged oldRecord (untilSnapshot ++ [.sweep 1 "k"]) :=
    (along_append oldRecord untilSnapshot [.sweep 1 "k"]).mpr ⟨quiet,unchanged,trivial⟩
  exact once_per_key brief twoKeys 500 _ _ along

end CompanyBrain.Idempotency
