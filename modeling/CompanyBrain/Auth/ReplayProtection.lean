import Mathlib.Tactic.Linarith
import CompanyBrain.Foundations.ExpiringLedger
import CompanyBrain.Foundations.History
import CompanyBrain.Auth.SourceAuth

namespace CompanyBrain.Auth

open Foundations PostgresWorld Table

def accepted (results : List (Call × SourceAuthResult)) : List Call :=
  (results.filter fun result => result.2 = .ok).map Prod.fst

theorem accepted_claim (results : List (Call × SourceAuthResult)) (call : Call) (claimed : Bool) :
    accepted (results ++ [(call,claimResult claimed)]) = accepted results ++ if claimed then [call] else [] := by
  cases claimed <;> simp [accepted,claimResult]

section Requests

variable (signer : Signer) (auths : Nat → SourceAuth)

structure Genuine (call : Call) : Prop where
  signed : ∃ secret body, call.signature = signer.signRequest secret call.timestamp body
  named : call.eventId = call.signature
  expires : ∃ i, call.expiresAtMs = call.timestamp * 1000 + (auths i).replayWindowMs

def OnTime (clock : ℚ) (call : Call) : Prop :=
  ∀ i, clock ≤ call.timestamp * 1000 + (auths i).replayWindowMs

variable {signer auths}

theorem genuine_of_check {i : Nat} {now : ℚ} {signature : Text} {timestamp : Option ℚ} {payload : Text} {call : Call}
    (h : checkRequest signer (auths i) now (signedRequest signature timestamp payload) = .ok call) :
    Genuine signer auths call := by
  simp only [checkRequest,verifySignature,signedRequest] at h
  by_cases unsigned : signature = []
  · simp [unsigned] at h
  · cases timestamp with
    | none => simp [unsigned] at h
    | some timestamp =>
      simp only [unsigned] at h
      by_cases stale : (auths i).replayWindowMs < |now - timestamp * 1000|
      · simp [stale] at h
      · by_cases mismatch : signer.signRequest (auths i).signingSecret timestamp payload ≠ signature
        · simp [stale,mismatch] at h
        · simp only [stale,mismatch] at h
          cases h
          exact ⟨⟨_,payload,(not_not.mp mismatch).symm⟩,rfl,i,rfl⟩

theorem OnTime.before_expiry {clock : ℚ} {call earlier : Call} (onTime : OnTime auths clock call)
    (genuine : Genuine signer auths call) (genuine' : Genuine signer auths earlier)
    (same : earlier.eventId = call.eventId) : clock ≤ earlier.expiresAtMs := by
  obtain ⟨secret,body,signed⟩ := genuine.signed
  obtain ⟨secret',body',signed'⟩ := genuine'.signed
  have equal : earlier.timestamp = call.timestamp := by
    have signature : earlier.signature = call.signature := by
      rw [← genuine.named,← genuine'.named,same]
    rw [signed,signed'] at signature
    exact signer.timestamp_eq signature
  obtain ⟨i,expires⟩ := genuine'.expires
  rw [expires,equal]
  exact onTime i

end Requests

namespace MemoryReplayDedupe

variable {d : MemoryReplayDedupe} {t : ℚ}

theorem prune_keeps {x : Text × ℚ} (hx : x ∈ d.seen) (gone : x ∉ (d.prune t).seen) : x.2 < t := by
  simp only [prune] at gone
  split at gone
  · by_contra live
    exact gone (mem_filter.mpr ⟨hx,by simpa using live⟩)
  · exact absurd hx gone

structure Claimed (d d' : MemoryReplayDedupe) (t : ℚ) (eventId : Text) (expiresAtMs : ℚ) : Prop where
  free : ∀ e, (eventId,e) ∈ d.seen → e < t
  keeps : ∀ x ∈ d.seen, x ∉ d'.seen → x.2 < t
  new : (eventId,expiresAtMs) ∈ d'.seen

theorem claim_true {expiresAtMs : ℚ} {eventId : Text} (h : (d.claim t eventId expiresAtMs).1) :
    Claimed d (d.claim t eventId expiresAtMs).2 t eventId expiresAtMs := by
  simp only [claim] at h ⊢
  split at h
  · cases h
  next unclaimed =>
    rw [if_neg unclaimed]
    have expired {e : ℚ} (he : (eventId,e) ∈ (d.prune t).seen) : e < t := by
      by_contra live
      have found : (d.prune t).seen.find? eventId = some (eventId,e) :=
        find?_eq_some.mpr ⟨he,rfl⟩
      exact unclaimed (by rw [found]; simpa using live)
    refine ⟨fun e he => ?_,fun x hx gone => ?_,mem_set_self _ _⟩
    · by_cases kept : (eventId,e) ∈ (d.prune t).seen
      · exact expired kept
      · exact prune_keeps he kept
    · by_cases kept : x ∈ (d.prune t).seen
      · obtain ⟨id,e⟩ := x
        have same : id = eventId := by
          by_contra other
          exact gone (mem_set.mpr (.inr ⟨kept,other⟩))
        subst same
        exact expired kept
      · exact prune_keeps hx kept

theorem claim_false {expiresAtMs : ℚ} {eventId : Text} (h : (d.claim t eventId expiresAtMs).1 = false) :
    ∀ x ∈ d.seen, x ∉ (d.claim t eventId expiresAtMs).2.seen → x.2 < t := by
  simp only [claim] at h ⊢
  split at h
  next duplicate =>
    rw [if_pos duplicate]
    exact fun x hx gone => prune_keeps hx gone
  · cases h

end MemoryReplayDedupe

namespace MemoryWorld

def view (w : MemoryWorld) : Ledger Text ℚ where
  clock := w.clock
  live := {x | x ∈ w.dedupe.seen}
  granted := (accepted w.results).map fun call => (call.eventId,call.expiresAtMs)

variable (signer : Signer) (auths : Nat → SourceAuth)

def Timely (w : MemoryWorld) : MemoryAction → Prop
  | .claim k => ∀ call ∈ w.calls[k]?, OnTime auths w.clock call
  | _ => True

structure Valid (w : MemoryWorld) : Prop where
  sound : w.view.Sound
  calls : ∀ call ∈ w.calls, Genuine signer auths call
  accepted : ∀ call ∈ accepted w.results, Genuine signer auths call

variable {signer auths}

theorem view_claim {w : MemoryWorld} (valid : w.Valid signer auths) {k : Nat}
    (timely : w.Timely auths (.claim k)) {call : Call} (found : w.calls[k]? = some call) :
    Ledger.Step w.view (w.step signer auths (.claim k)).view := by
  have onTime : OnTime auths w.clock call := timely call found
  have genuine := valid.calls call (List.mem_of_getElem? found)
  have next : (w.step signer auths (.claim k)).view =
      ⟨w.clock,{x | x ∈ (w.dedupe.claim w.clock call.eventId call.expiresAtMs).2.seen},
        (Auth.accepted (w.results ++ [(call,claimResult
          (w.dedupe.claim w.clock call.eventId call.expiresAtMs).1)])).map
            fun call => (call.eventId,call.expiresAtMs)⟩ := by
    simp only [step,found,view]
  rw [next,accepted_claim]
  cases claimed : (w.dedupe.claim w.clock call.eventId call.expiresAtMs).1 with
  | false =>
    simp only [Bool.false_eq_true,if_false,List.append_nil]
    exact .change (MemoryReplayDedupe.claim_false claimed)
  | true =>
    obtain ⟨free,keeps,new⟩ := MemoryReplayDedupe.claim_true claimed
    simp only [List.map_append]
    refine .grant free keeps new fun x hx same => ?_
    obtain ⟨earlier,hearlier,rfl⟩ := List.mem_map.mp hx
    exact onTime.before_expiry genuine (valid.accepted earlier hearlier) same

theorem step_valid {w : MemoryWorld} {action : MemoryAction} (timely : w.Timely auths action)
    (valid : w.Valid signer auths) : (w.step signer auths action).Valid signer auths := by
  cases action with
  | advance reading =>
    exact ⟨Ledger.Step.sound (.wait (le_max_left w.clock reading)) valid.sound,valid.calls,valid.accepted⟩
  | verify =>
    simp only [step]
    split
    · exact valid
    next call checked => exact ⟨valid.sound,forall_snoc valid.calls (genuine_of_check checked),valid.accepted⟩
  | claim k =>
    cases found : w.calls[k]? with
    | none =>
      have same : w.step signer auths (.claim k) = w := by simp only [step,found]
      rw [same]
      exact valid
    | some call =>
      refine ⟨(view_claim valid timely found).sound valid.sound,?_,?_⟩
      · simp only [step,found]
        exact fun c hc => valid.calls c (List.mem_of_mem_eraseIdx hc)
      · simp only [step,found,accepted_claim]
        intro c hc
        rcases List.mem_append.mp hc with hc | hc
        · exact valid.accepted c hc
        · split at hc
          · cases List.mem_singleton.mp hc
            exact valid.calls call (List.mem_of_getElem? found)
          · cases hc

theorem start_valid : start.Valid signer auths where
  sound := ⟨nofun,List.nodup_nil⟩
  calls := nofun
  accepted := nofun

end MemoryWorld

namespace PostgresWorld

section Statements

variable {tz : Timestamptz}

variable {table : ReplayEntries}

theorem deleteExpired_keeps {t clock : ℚ} (past : t ≤ clock) {x : Text × ℚ} (hx : x ∈ table)
    (gone : x ∉ deleteExpired tz t table) : x.2 < tz.ofMillis clock := by
  by_contra live
  have kept : ¬ x.2 < tz.ofMillis t := fun old =>
    live (lt_of_lt_of_le old (tz.monotone past))
  exact gone (mem_filter.mpr ⟨hx,by simpa using kept⟩)

theorem insertRow_keeps {call : Call} {x : Text × ℚ} (hx : x ∈ table) : x ∈ (insertRow tz call table).2 := by
  simp only [insertRow]
  split
  · exact hx
  next new => exact mem_set.mpr (.inr ⟨hx,find?_eq_none.mp new x hx⟩)

theorem insertRow_new {call : Call} (h : (insertRow tz call table).1 = 1) : (∀ e, (call.eventId,e) ∉ table) ∧
      (call.eventId,tz.ofMillis call.expiresAtMs) ∈ (insertRow tz call table).2 := by
  simp only [insertRow] at h ⊢
  split at h
  · cases h
  next new => exact ⟨fun e he => find?_eq_none.mp new _ he rfl,mem_set_self _ _⟩

end Statements

def view (tz : Timestamptz) (w : PostgresWorld) : Ledger Text ℚ where
  clock := tz.ofMillis w.clock
  live := {x | x ∈ w.table}
  granted := (accepted w.results).map fun call => (call.eventId,tz.ofMillis call.expiresAtMs)

variable (signer : Signer) (tz : Timestamptz) (auths : Nat → SourceAuth)

def Timely (w : PostgresWorld) : PostgresAction → Prop
  | .insert k => ∀ c ∈ w.calls[k]?, OnTime auths w.clock c.call
  | _ => True

structure SaneCall (clock : ℚ) (c : PostgresCall) : Prop where
  genuine : Genuine signer auths c.call
  past : ∀ t, c.phase = .pruning t → t ≤ clock

structure Valid (w : PostgresWorld) : Prop where
  sound : (w.view tz).Sound
  calls : ∀ c ∈ w.calls, SaneCall signer auths w.clock c
  accepted : ∀ call ∈ accepted w.results, Genuine signer auths call

variable {signer tz auths}

variable {w : PostgresWorld}

theorem sane_set {c : PostgresCall} (sane : SaneCall signer auths w.clock c)
    (calls : ∀ c ∈ w.calls, SaneCall signer auths w.clock c) (k : Nat) :
    ∀ c' ∈ w.calls.set k c, SaneCall signer auths w.clock c' := by
  intro c' hc'
  rcases List.mem_or_eq_of_mem_set hc' with hc' | rfl
  · exact calls c' hc'
  · exact sane

theorem SaneCall.inserting {clock : ℚ} {call : Call} (genuine : Genuine signer auths call)
    (dedupe : Nat) : SaneCall signer auths clock ⟨call,dedupe,.inserting⟩ :=
  ⟨genuine,fun t h => by cases h⟩

section

variable (valid : w.Valid signer tz auths)
include valid

theorem readClock_valid {k : Nat} {c : PostgresCall} (found : w.calls[k]? = some c) :
    (w.readClock k c).Valid signer tz auths := by
  have genuine := (valid.calls c (List.mem_of_getElem? found)).genuine
  simp only [readClock]
  split
  · have sane : SaneCall signer auths w.clock ⟨c.call,c.dedupe,.pruning w.clock⟩ := by
      refine ⟨genuine,fun t h => ?_⟩
      cases h
      exact le_refl _
    exact ⟨valid.sound,sane_set sane valid.calls k,valid.accepted⟩
  · exact ⟨valid.sound,sane_set (.inserting genuine c.dedupe) valid.calls k,valid.accepted⟩

theorem insert_valid {k : Nat} (timely : w.Timely auths (.insert k)) {call : Call}
    {dedupe : Nat} (found : w.calls[k]? = some ⟨call,dedupe,.inserting⟩) :
    (w.step signer tz auths (.insert k)).Valid signer tz auths := by
  have onTime : OnTime auths w.clock call := timely ⟨call,dedupe,.inserting⟩ found
  have genuine := (valid.calls _ (List.mem_of_getElem? found)).genuine
  have keeps : (w.view tz).Keeps {x | x ∈ (insertRow tz call w.table).2} :=
    fun x hx gone => absurd (insertRow_keeps hx) gone
  have ledger : Ledger.Step (w.view tz) ((w.step signer tz auths (.insert k)).view tz) := by
    simp only [step,found,view,accepted_claim]
    by_cases inserted : (insertRow tz call w.table).1 = 1
    · obtain ⟨free,new⟩ := insertRow_new inserted
      simp only [inserted,List.map_append]
      refine .grant (fun e he => absurd he (free e)) keeps new fun x hx same => ?_
      obtain ⟨earlier,hearlier,rfl⟩ := List.mem_map.mp hx
      exact tz.monotone (onTime.before_expiry genuine (valid.accepted earlier hearlier) same)
    · simp only [inserted,decide_false,Bool.false_eq_true,if_false,List.append_nil]
      exact .change keeps
  refine ⟨ledger.sound valid.sound,?_,?_⟩
  · simp only [step,found]
    exact fun c hc => valid.calls c (List.mem_of_mem_eraseIdx hc)
  · simp only [step,found,accepted_claim]
    intro c hc
    rcases List.mem_append.mp hc with hc | hc
    · exact valid.accepted c hc
    · split at hc
      · cases List.mem_singleton.mp hc
        exact genuine
      · cases hc

theorem change_valid {table : ReplayEntries} {calls : List PostgresCall}
    (keeps : (w.view tz).Keeps {x | x ∈ table}) (sane : ∀ c ∈ calls, SaneCall signer auths w.clock c) :
    {w with table := table, calls := calls}.Valid signer tz auths :=
  ⟨Ledger.Step.sound (.change keeps) valid.sound,sane,valid.accepted⟩

end

theorem step_valid {action : PostgresAction} (timely : w.Timely auths action) (valid : w.Valid signer tz auths) :
    (w.step signer tz auths action).Valid signer tz auths := by
  have erased (k : Nat) : ∀ c ∈ w.calls.eraseIdx k, SaneCall signer auths w.clock c :=
    fun c hc => valid.calls c (List.mem_of_mem_eraseIdx hc)
  cases action with
  | advance reading =>
    have later : w.clock ≤ max w.clock reading := le_max_left w.clock reading
    refine ⟨Ledger.Step.sound (.wait (tz.monotone later)) valid.sound,fun c hc => ?_,valid.accepted⟩
    obtain ⟨genuine,past⟩ := valid.calls c hc
    exact ⟨genuine,fun t h => (past t h).trans later⟩
  | verify =>
    simp only [step]
    split
    · exact valid
    next call checked =>
      exact ⟨valid.sound,forall_snoc valid.calls ⟨genuine_of_check checked,fun t h => by cases h⟩,valid.accepted⟩
  | read =>
    simp only [step]
    split
    next call dedupe found => exact readClock_valid valid found
    · exact valid
  | prune k =>
    simp only [step]
    split
    next call dedupe t found =>
      obtain ⟨genuine,past⟩ := valid.calls _ (List.mem_of_getElem? found)
      exact change_valid valid (fun x hx gone => deleteExpired_keeps (past t rfl) hx gone)
        (sane_set (.inserting genuine dedupe) valid.calls k)
    · exact valid
  | insert k =>
    cases found : w.calls[k]? with
    | none =>
      simp only [step,found]
      exact valid
    | some c =>
      obtain ⟨call,dedupe,phase⟩ := c
      cases phase with
      | inserting => exact insert_valid valid timely found
      | reading | pruning =>
        simp only [step,found]
        exact valid
  | fail k committed =>
    have unchanged : (w.view tz).Keeps {x | x ∈ w.table} := fun x hx gone => absurd hx gone
    simp only [step]
    split
    · cases committed with
      | false => exact change_valid valid unchanged (erased k)
      | true =>
        exact change_valid valid (fun x hx gone => absurd (insertRow_keeps hx) gone) (erased k)
    next call dedupe t found =>
      have past := (valid.calls _ (List.mem_of_getElem? found)).past t rfl
      cases committed with
      | false => exact change_valid valid unchanged (erased k)
      | true =>
        exact change_valid valid (fun x hx gone => deleteExpired_keeps past hx gone) (erased k)
    · exact valid

theorem start_valid : start.Valid signer tz auths where
  sound := ⟨nofun,List.nodup_nil⟩
  calls := nofun
  accepted := nofun

end PostgresWorld

def acceptedSignatures (results : List (Call × SourceAuthResult)) : List Text :=
  (accepted results).map Call.signature

theorem nodup_of_sound {signer : Signer} {auths : Nat → SourceAuth} {f : ℚ → ℚ}
    {results : List (Call × SourceAuthResult)} (genuine : ∀ call ∈ accepted results, Genuine signer auths call)
    (once : (((accepted results).map fun call => (call.eventId,f call.expiresAtMs)).map
      Prod.fst).Nodup) : (acceptedSignatures results).Nodup := by
  have ids : ((accepted results).map fun call => (call.eventId,f call.expiresAtMs)).map Prod.fst =
      acceptedSignatures results := by
    rw [List.map_map]
    exact List.map_congr_left fun call hc => (genuine call hc).named
  exact ids ▸ once

theorem signature_accepted_once (signer : Signer) (tz : Timestamptz) (auths : Nat → SourceAuth) :
    (∀ actions, Along (MemoryWorld.step signer auths) (MemoryWorld.Timely auths) .start actions →
      (acceptedSignatures (run (MemoryWorld.step signer auths) .start actions).results).Nodup) ∧ ∀ actions,
      Along (step signer tz auths) (PostgresWorld.Timely auths) .start actions →
      (acceptedSignatures (run (step signer tz auths) .start actions).results).Nodup := by
  refine ⟨fun actions timely => ?_,fun actions timely => ?_⟩
  · have start : MemoryWorld.start.Valid signer auths := MemoryWorld.start_valid
    have valid := run_along (fun _ _ => MemoryWorld.step_valid) _ actions timely start
    exact nodup_of_sound (f := id) valid.accepted valid.sound.once
  · have start : start.Valid signer tz auths := start_valid
    have valid := run_along (fun _ _ => step_valid) _ actions timely start
    exact nodup_of_sound valid.accepted valid.sound.once

def spelledTimestamp (timestamp : ℚ) : Text :=
  (if timestamp.num < 0 then '-' else '+') ::
    (List.replicate timestamp.num.natAbs '1' ++ List.replicate timestamp.den '/')

theorem spelledTimestamp_injective {a b : ℚ} (h : spelledTimestamp a = spelledTimestamp b) : a = b := by
  obtain ⟨sign,digits⟩ := List.cons.inj h
  have num := congrArg (List.count '1') digits
  have den := congrArg (List.count '/') digits
  simp only [List.count_append,List.count_replicate] at num den
  have natAbs : a.num.natAbs = b.num.natAbs := by simpa using num
  have negative : a.num < 0 ↔ b.num < 0 := by
    by_cases ha : a.num < 0 <;> by_cases hb : b.num < 0 <;> simp [ha,hb] at sign ⊢
  exact Rat.ext (by omega) (by simpa using den)

def spellingSigner : Signer := ⟨fun _ timestamp _ => spelledTimestamp timestamp,spelledTimestamp_injective⟩

def exactTimestamptz : Timestamptz := ⟨id,monotone_id⟩

def oneAuth : Nat → SourceAuth := fun _ => ⟨"secret".toList,defaultReplayWindowMs,0⟩

theorem onTime_oneAuth {clock : ℚ} {call : Call}
    (h : clock ≤ call.timestamp * 1000 + defaultReplayWindowMs) : OnTime oneAuth clock call :=
  fun _ => h

def promptReplay : List PostgresAction :=
  [.advance 1000,.verify 0 (spelledTimestamp 1) (some 1) [],.read 0,.prune 0,.insert 0,
    .advance 301000,.verify 0 (spelledTimestamp 1) (some 1) [],.read 0,.prune 0,.insert 0]

theorem prompt_replay_accepted_once : Along (step spellingSigner exactTimestamptz oneAuth)
        (PostgresWorld.Timely oneAuth) .start promptReplay ∧
      (acceptedSignatures (run (step spellingSigner exactTimestamptz oneAuth) .start promptReplay).results).Nodup := by
  have timely : Along (step spellingSigner exactTimestamptz oneAuth)
      (PostgresWorld.Timely oneAuth) .start promptReplay := by
    refine ⟨trivial,trivial,trivial,trivial,fun c hc => onTime_oneAuth ?_,trivial,trivial,
      trivial,trivial,fun c hc => onTime_oneAuth ?_,trivial⟩
    · revert c
      decide +kernel
    · revert c
      decide +kernel
  exact ⟨timely,(signature_accepted_once spellingSigner exactTimestamptz oneAuth).2 _ timely⟩

theorem late_replay_accepted_twice : acceptedSignatures (run (MemoryWorld.step spellingSigner oneAuth) .start
      [.advance 1000,.verify 0 (spelledTimestamp 1) (some 1) [],.claim 0,
        .advance 301000,.verify 0 (spelledTimestamp 1) (some 1) [],
        .advance 301001,.claim 0]).results = [spelledTimestamp 1,spelledTimestamp 1] ∧
    acceptedSignatures (run (step spellingSigner exactTimestamptz oneAuth) .start
      [.advance 1000,.verify 0 (spelledTimestamp 1) (some 1) [],.read 0,.prune 0,.insert 0,
        .advance 301000,.verify 0 (spelledTimestamp 1) (some 1) [],
        .advance 301001,.read 0,.prune 0,.insert 0]).results =
      [spelledTimestamp 1,spelledTimestamp 1] := by
  decide +kernel

end CompanyBrain.Auth
