import CompanyBrain.Runs.PostgresCalls

namespace CompanyBrain.Runs

structure SameBudget (snap run : Run) : Prop where
  attempts : run.attempts = snap.attempts
  errorAttempts : run.errorAttempts = snap.errorAttempts
  maxAttempts : run.maxAttempts = snap.maxAttempts

theorem SameBudget.refl (run : Run) : SameBudget run run := ⟨rfl,rfl,rfl⟩

namespace Pg

open Foundations Pg.System Db

theorem sqlEq_iff {a b : Option String} : sqlEq a b = true ↔ ∃ t, a = some t ∧ b = some t := by
  cases a <;> cases b <;> simp [sqlEq,eq_comm]

variable {db : Db} {token id : String}

theorem holds_iff : db.holds id token = true ↔ ∃ row ∈ db.runs, row.id = id ∧ row.leaseToken = some token := by
  unfold holds
  constructor
  · intro h
    cases hf : db.runs.find? id with
    | none => simp [hf] at h
    | some row =>
      obtain ⟨mem,hid⟩ := Table.find?_eq_some.mp hf
      exact ⟨row,mem,hid,by simpa [hf] using h⟩
  · rintro ⟨row,mem,hid,held⟩
    simp [Table.find?_eq_some.mpr ⟨mem,hid⟩,held]

def TokenRuns (db : Db) : Prop :=
  ∀ row ∈ db.runs, row.leaseToken.isSome = true → row.status = .running

inductive Write (draws : List String) : Db → Option String → Db → Prop
  | same {db db' : Db} (runs : db'.runs = db.runs) : Write draws db none db'
  | inserted {db : Db} (row : Row) (new : db.runs.find? row.id = none)
      (unheld : row.leaseToken = none) (live : isTerminal row.status = false) :
      Write draws db none {db with runs := db.runs.set row}
  | changed {db : Db} {row : Row} (row' : Row) (mem : row ∈ db.runs) (id : row'.id = row.id)
      (live : isTerminal row.status = false)
      (token : ∀ t, row'.leaseToken = some t → row.leaseToken = some t ∨ t ∈ draws)
      (runs : row'.leaseToken.isSome = true → row'.status = .running) :
      Write draws db (if isTerminal row'.status then some row.id else none) {db with runs := db.runs.set row'}

def Retains (draws : List String) (db db' : Db) : Prop :=
  ∀ row' ∈ db'.runs, ∀ t, row'.leaseToken = some t → t ∈ draws ∨
    ∃ row ∈ db.runs, row.id = row'.id ∧ row.leaseToken = some t ∧ SameBudget (rowToRun row) (rowToRun row')

structure Kept (draws : List String) (db : Db) (ended : Option String) (db' : Db) : Prop where
  write : Write draws db ended db'
  retains : Retains draws db db'

section

variable {draws : List String}

theorem kept_same {db' : Db} (runs : db'.runs = db.runs) : Kept draws db none db' := by
  refine ⟨.same runs,fun row mem t held => .inr ⟨row,?_,rfl,held,.refl _⟩⟩
  rwa [runs] at mem

theorem retains_set {row' : Row} (next : ∀ t, row'.leaseToken = some t → t ∈ draws ∨
      ∃ row ∈ db.runs, row.id = row'.id ∧ row.leaseToken = some t ∧ SameBudget (rowToRun row) (rowToRun row')) :
    Retains draws db {db with runs := db.runs.set row'} :=
  Table.forall_set next fun row mem _ held => .inr ⟨row,mem,rfl,held,.refl _⟩

theorem kept_changed {row : Row} (row' : Row) (mem : row ∈ db.runs) (id : row'.id = row.id)
    (live : isTerminal row.status = false) (token : ∀ t, row'.leaseToken = some t →
      row.leaseToken = some t ∧ SameBudget (rowToRun row) (rowToRun row') ∨ t ∈ draws)
    (runs : row'.leaseToken.isSome = true → row'.status = .running) :
    Kept draws db (if isTerminal row'.status then some row.id else none) {db with runs := db.runs.set row'} := by
  refine ⟨.changed row' mem id live (fun t held => (token t held).imp_left And.left) runs,retains_set fun t held => ?_⟩
  rcases token t held with ⟨held,same⟩ | drawn
  · exact .inr ⟨row,mem,id.symm,held,same⟩
  · exact .inl drawn

end

theorem update_cases (db : Db) (id : String) (guard : Row → Bool) (f : Row → Row) :
    db.update id guard f = (db,0) ∨ ∃ row ∈ db.runs, row.id = id ∧ guard row = true ∧
      db.update id guard f = ({db with runs := db.runs.set (f row)},1) := by
  unfold update
  split
  · exact .inl rfl
  next row hf =>
    obtain ⟨mem,hid⟩ := Table.find?_eq_some.mp hf
    split
    next hg => exact .inr ⟨row,mem,hid,hg,rfl⟩
    · exact .inl rfl

theorem update_of_not_held {guard : Row → Bool} (f : Row → Row)
    (needs : ∀ row, guard row = true → row.leaseToken = some token) (lost : db.holds id token = false) :
    db.update id guard f = (db,0) := by
  rcases update_cases db id guard f with h | ⟨row,mem,hid,hg,_⟩
  · exact h
  · have held := holds_iff.mpr ⟨row,mem,hid,needs row hg⟩
    rw [lost] at held
    cases held

variable {row : Row}

theorem live_of_held (ok : TokenRuns db) (mem : row ∈ db.runs) (held : row.leaseToken = some token) :
    isTerminal row.status = false := by
  rw [ok row mem (by simp [held])]
  rfl

theorem heldRunning_token (h : heldRunning token row = true) : row.leaseToken = some token := by
  simp only [heldRunning,Bool.and_eq_true] at h
  obtain ⟨t,held,ht⟩ := sqlEq_iff.mp h.1
  exact held.trans ht.symm

theorem heldRunning_running (h : heldRunning token row = true) : row.status = .running := by
  simp only [heldRunning,Bool.and_eq_true,decide_eq_true_eq] at h
  exact h.2

theorem retireGuard_token {run : Run} {e : Option Int} (h : retireGuard run e row = true) :
    ∃ t, row.leaseToken = some t ∧ run.leaseToken = some t := by
  simp only [retireGuard,Bool.and_eq_true] at h
  exact sqlEq_iff.mp h.1.1

section

variable (ok : TokenRuns db) (draws : List String)
include ok draws

theorem heartbeat_kept (id token : String) (ttl now : Int) : Kept draws db none (db.heartbeat id token ttl now).1 := by
  unfold heartbeat
  rcases update_cases db id (heldRunning token) _ with he | ⟨row,mem,_,hg,he⟩
  · rw [he]; exact kept_same rfl
  · rw [he]
    have running := heldRunning_running hg
    have live := live_of_held ok mem (heldRunning_token hg)
    have kept : Kept draws db _ _ := kept_changed {row with leaseExpiresAt := some (now + ttl)} mem rfl live
      (fun t h => .inl ⟨h,rfl,rfl,rfl⟩) (fun _ => running)
    simpa [live] using kept

theorem releaseLease_kept (id token : String) : Kept draws db none (db.releaseLease id token).1 := by
  unfold releaseLease
  rcases update_cases db id (heldRunning token) releasedRow with he | ⟨row,mem,_,hg,he⟩
  · rw [he]; exact kept_same rfl
  · rw [he]
    exact kept_changed (releasedRow row) mem rfl (live_of_held ok mem (heldRunning_token hg))
      (by simp [releasedRow]) (by simp [releasedRow])

theorem complete_kept (id token : String) (result : TurnResult) (now : Int) :
    let u := db.complete id token result now
    Kept draws db (if u.2 > 0 then some id else none) u.1 := by
  unfold complete
  rcases update_cases db id (fun r => sqlEq r.leaseToken (some token)) (completedRow result now)
    with he | ⟨row,mem,rfl,hg,he⟩
  · rw [he]; exact kept_same rfl
  · rw [he]
    obtain ⟨t,held,_⟩ := sqlEq_iff.mp hg
    exact kept_changed (completedRow result now row) mem rfl (live_of_held ok mem held)
      (by simp [completedRow]) (by simp [completedRow])

theorem retire_kept (maxClaims : Option Int) (run : Run) (error : String)
    (retry : Bool) (opts : RetireOptions) (now : Int) : let r := db.retire maxClaims run error retry opts now
    Kept draws db (if r.applied && !r.requeued then some run.id else none) r.db := by
  unfold retire
  split
  · rcases update_cases db run.id (retireGuard run opts.ifExpiredAt)
      (requeuedRow opts.countsAsError) with he | ⟨row,mem,_,hg,he⟩
    · simp only [he]; exact kept_same rfl
    · simp only [he]
      obtain ⟨t,held,_⟩ := retireGuard_token hg
      exact kept_changed (requeuedRow opts.countsAsError row) mem rfl (live_of_held ok mem held)
        (by simp [requeuedRow,releasedRow]) (by simp [requeuedRow,releasedRow])
  · dsimp only
    rcases update_cases db run.id (retireGuard run opts.ifExpiredAt) (parkedRow (failedResult run.sessionId
        (parkReason maxClaims run error retry opts.countsAsError)) now opts.countsAsError)
      with he | ⟨row,mem,hid,hg,he⟩
    · simp only [he]; exact kept_same rfl
    · simp only [he]
      rw [← hid]
      obtain ⟨t,held,_⟩ := retireGuard_token hg
      exact kept_changed (parkedRow _ now opts.countsAsError row) mem rfl
        (live_of_held ok mem held) (by simp [parkedRow]) (by simp [parkedRow])

end

theorem claimable_pending (h : db.claimable row = true) : row.status = .pending := by
  simp only [claimable,Bool.and_eq_true,decide_eq_true_eq] at h
  exact h.1

theorem lease_kept {candidate : Option Row} (w : String) (ttl : Int) (token : String) (now : Int) (draws : List String)
    (drawn : token ∈ draws) (hc : ∀ row, candidate = some row → row ∈ db.runs ∧ db.claimable row = true) :
    Kept draws db none (db.lease candidate w ttl token now).1 := by
  unfold lease
  split
  · exact kept_same rfl
  next row =>
    obtain ⟨mem,free⟩ := hc row rfl
    dsimp only
    split
    · exact kept_same rfl
    · refine kept_changed (leasedRow w ttl token now row) mem rfl
        (by rw [claimable_pending free]; rfl) ?_ (fun _ => rfl)
      intro t ht
      exact .inr (Option.some.inj ht ▸ drawn)

theorem nextPending_mem {plan : Planner} (h : db.nextPending plan = some row) :
    row ∈ db.runs ∧ db.claimable row = true := by
  have mem := List.mem_of_mem_head? (Option.mem_def.mpr h)
  rw [List.mem_insertionSort,(plan.perm _).mem_iff,List.mem_filter] at mem
  exact mem

theorem pendingById_mem (h : db.pendingById id = some row) : row ∈ db.runs ∧ db.claimable row = true := by
  obtain ⟨hf,free⟩ := Option.filter_eq_some_iff.mp h
  exact ⟨Table.mem_of_find? hf,free⟩

theorem insertRun_kept (db : Db) (draws : List String) (input : EnqueueInput) (uuid : String)
    (now : Int) : Kept draws db none (db.insertRun (insertedRow input uuid now)).1 := by
  unfold insertRun
  split
  · exact kept_same rfl
  · split
    · exact kept_same rfl
    next hnew =>
      exact ⟨.inserted (insertedRow input uuid now) (by simpa using hnew) rfl rfl,
        retains_set fun _ held => by cases held⟩

theorem start_kept (ok : TokenRuns db) (maxClaims : Option Int) (plan : Planner) (c : Call) :
    let o := db.start maxClaims plan c
    Kept c.op.drawn db o.ended o.db := by
  obtain ⟨op,clock⟩ := c
  cases op with
  | enqueue input uuid =>
    have hw := insertRun_kept db [uuid] input uuid (clock 0)
    simp only [start]
    split <;> rename_i he <;> rw [he] at hw <;> exact hw
  | claim w ttl uuid =>
    exact lease_kept w ttl uuid (clock 0) [uuid] (by simp) (fun _ => nextPending_mem)
  | claimById _ w ttl uuid =>
    exact lease_kept w ttl uuid (clock 0) [uuid] (by simp) (fun _ => pendingById_mem)
  | heartbeat id token ttl => exact heartbeat_kept ok _ id token ttl (clock 0)
  | releaseLease => exact releaseLease_kept ok _ ..
  | complete id token result =>
    have hw := complete_kept ok [] id token result (clock 0)
    unfold start
    dsimp only at hw ⊢
    split <;> rename_i hc <;> simp only [hc] at hw <;> exact hw
  | fail =>
    simp only [start]
    split <;> exact kept_same rfl
  | reapExpired | begin => exact kept_same rfl
  | record id attempt index output =>
    refine kept_same ?_
    change (db.record id attempt index output (clock 0)).runs = db.runs
    unfold record
    split <;> rfl

variable {draws : List String}

theorem then_kept {r : Retired} (next : Flow)
    (hw : Kept draws db (if r.applied && !r.requeued then some id else none) r.db) :
    Kept draws db (r.then id next).ended (r.then id next).db := by
  unfold Retired.then
  split <;> rename_i hc <;> simp only [hc] at hw <;> exact hw

theorem resume_kept (ok : TokenRuns db) (reading : Int) (flow : Flow) :
    Kept [] db (flow.resume db reading).ended (flow.resume db reading).db := by
  cases flow with
  | answered | lookup | settling => exact kept_same rfl
  | failing => exact then_kept _ (retire_kept ok ..)
  | sweeping _ _ _ left =>
    cases left with
    | nil => exact kept_same rfl
    | cons => exact then_kept _ (retire_kept ok ..)

variable {db' : Db} {e : Option String}

theorem write_tokenRuns (hw : Write draws db e db') (ok : TokenRuns db) : TokenRuns db' := by
  cases hw with
  | same runs => simpa only [TokenRuns,runs] using ok
  | inserted _ _ unheld => exact Table.forall_set (fun hs => by simp [unheld] at hs) ok
  | changed _ _ _ _ _ runs => exact Table.forall_set runs ok

variable {t : String}

theorem retains_lost (retains : Retains draws db db') (lost : db.holds id t = false) (old : t ∉ draws) :
    db'.holds id t = false := by
  rw [← Bool.not_eq_true,holds_iff]
  rintro ⟨r,hr,rfl,ht⟩
  rcases retains r hr t ht with hd | ⟨row,mem,same,held,_⟩
  · exact old hd
  · rw [holds_iff.mpr ⟨row,mem,same,held⟩] at lost
    cases lost

def Db.isEnded (db : Db) (id : String) : Bool :=
  (db.runs.find? id).any (fun row => isTerminal row.status)

theorem write_ended (hw : Write draws db e db') (id : String) :
    (db'.isEnded id).toNat = (db.isEnded id).toNat + (decide (e = some id)).toNat := by
  cases hw with
  | same runs => simp [isEnded,runs]
  | inserted _ new _ live =>
    simp only [isEnded,Table.find?_set]
    split
    next h =>
      subst h
      simp [new,live]
    · simp
  | @changed row row' mem hid live token runs =>
    simp only [isEnded,Table.find?_set,hid]
    split
    next h =>
      subst h
      have hf : db.runs.find? row.id = some row := Table.find?_eq_some.mpr ⟨mem,rfl⟩
      cases hs : isTerminal row'.status <;> simp [hf,live,hs]
    next h =>
      have hne : row.id ≠ id := fun he => h he.symm
      cases isTerminal row'.status <;> simp [hne]

def Flow.carries : Flow → List Run
  | .failing _ run _ _ => [run]
  | .sweeping _ _ _ left _ => left
  | .settling _ next => next.carries
  | _ => []

theorem then_flow (r : Retired) (id : String) (next : Flow) : (r.then id next).flow.carries = next.carries := by
  unfold Retired.then
  split <;> rfl

variable {flow : Flow}

theorem resume_carries {reading : Int} {run : Run} (h : run ∈ (flow.resume db reading).flow.carries) :
    run ∈ flow.carries := by
  cases flow with
  | answered | lookup | settling => exact h
  | failing =>
    simp only [Flow.resume,then_flow,Flow.carries,List.not_mem_nil] at h
  | sweeping _ _ _ left =>
    cases left with
    | nil => exact h
    | cons next =>
      simp only [Flow.resume,then_flow] at h
      exact .tail next h

theorem start_carries {maxClaims : Option Int} {plan : Planner} {c : Call} {run : Run}
    (h : run ∈ (db.start maxClaims plan c).flow.carries) : ∃ row ∈ db.runs, rowToRun row = run := by
  obtain ⟨op,clock⟩ := c
  cases op with
  | enqueue | complete =>
    unfold start at h
    dsimp only at h
    split at h <;> cases h
  | fail =>
    unfold start at h
    dsimp only at h
    split at h
    · cases h
    next read hr =>
      obtain ⟨hf,_⟩ := Option.filter_eq_some_iff.mp hr
      obtain ⟨row,hrow,heq⟩ := Option.map_eq_some_iff.mp hf
      exact ⟨row,Table.mem_of_find? hrow,heq.trans (List.mem_singleton.mp h).symm⟩
  | reapExpired =>
    obtain ⟨row,hrow,heq⟩ := List.mem_map.mp h
    rw [(plan.perm _).mem_iff,List.mem_filter] at hrow
    exact ⟨row,hrow.1,heq⟩
  | claim | claimById | heartbeat | releaseLease | begin | record => cases h

structure Fenced (past : List Act) (s : System) : Prop where
  tokenRuns : TokenRuns s.db
  rows : ∀ row ∈ s.db.runs, ∀ t, row.leaseToken = some t → t ∈ drawnTokens past
  flows : ∀ flow ∈ s.calls, ∀ run ∈ flow.carries, ∀ t, run.leaseToken = some t → t ∈ drawnTokens past
  once : ∀ id, (s.endedCalls id).length = (s.db.isEnded id).toNat

theorem drawnTokens_snoc (past : List Act) (a : Act) :
    drawnTokens (past ++ [a]) = drawnTokens past ++ a.drawn := by
  simp [drawnTokens]

variable {s : System}

theorem step_resume_none {n : Nat} (reading : Int) (h : s.calls[n]? = none) : s.step (.resume n reading) = s := by
  simp only [System.step,h]

theorem step_resume {n : Nat} (reading : Int) (h : s.calls[n]? = some flow) :
    s.step (.resume n reading) = s.apply n (flow.resume s.db reading)
      (s.calls.set n (flow.resume s.db reading).flow) (flow.announces s.db) := by
  simp only [System.step,h]

theorem fenced_apply {past : List Act} {s : System} (a : Act) (h : Fenced past s) (n : Nat)
    {o : Outcome} (calls : List Flow) (news : Option Run)
    (hw : Kept a.drawn s.db o.ended o.db)
    (flows : ∀ flow ∈ calls, flow ∈ s.calls ∨ ∀ run ∈ flow.carries,
      (∃ row ∈ s.db.runs, rowToRun row = run) ∨ ∃ flow ∈ s.calls, run ∈ flow.carries) :
    Fenced (past ++ [a]) (s.apply n o calls news) where
  tokenRuns := write_tokenRuns hw.write h.tokenRuns
  rows row hrow t ht := by
    rw [drawnTokens_snoc,List.mem_append]
    rcases hw.retains row hrow t ht with hd | ⟨row',mem,_,held,_⟩
    · exact .inr hd
    · exact .inl (h.rows row' mem t held)
  flows flow hflow run hrun t ht := by
    rw [drawnTokens_snoc,List.mem_append]
    left
    rcases flows flow hflow with hold | hnew
    · exact h.flows flow hold run hrun t ht
    · rcases hnew run hrun with ⟨row,mem,rfl⟩ | ⟨flow',hflow',hrun'⟩
      · exact h.rows row mem t ht
      · exact h.flows flow' hflow' run hrun' t ht
  once id := by
    have hdb : (s.apply n o calls news).db = o.db := rfl
    rw [hdb,write_ended hw.write id,← h.once id]
    simp only [endedCalls,apply]
    cases o.ended with
    | none => simp
    | some e => by_cases he : e = id <;> simp [he]

theorem fenced_step {past : List Act} (a : Act) (h : Fenced past s) : Fenced (past ++ [a]) (s.step a) := by
  cases a with
  | call maxClaims plan c =>
    refine fenced_apply _ h _ _ _ (start_kept h.tokenRuns maxClaims plan c) ?_
    exact forall_snoc (fun _ hflow => .inl hflow) (.inr fun run hrun => .inl (start_carries hrun))
  | resume n reading =>
    cases hn : s.calls[n]? with
    | none =>
      rw [step_resume_none reading hn]
      exact ⟨h.tokenRuns,by simpa [drawnTokens_snoc,Act.drawn] using h.rows,
        by simpa [drawnTokens_snoc,Act.drawn] using h.flows,h.once⟩
    | some flow =>
      rw [step_resume reading hn]
      refine fenced_apply (.resume n reading) h _ _ _ (resume_kept h.tokenRuns reading flow) ?_
      intro flow' hflow'
      rcases List.mem_or_eq_of_mem_set hflow' with hold | rfl
      · exact .inl hold
      · exact .inr (fun run hrun =>
          .inr ⟨flow,List.mem_of_getElem? hn,resume_carries hrun⟩)

theorem fenced_init : Fenced [] init := by
  refine ⟨?_,?_,?_,fun _ => rfl⟩
  · intro row h
    exact absurd h (Table.not_mem_empty row)
  · intro row h
    exact absurd h (Table.not_mem_empty row)
  · intro flow h
    cases h

theorem fenced_run (acts : List Act) : Fenced acts (run step init acts) := by
  refine run_history (fun _ _ _ => trivial) fenced_init ?_ acts trivial
  exact fun _ a _ _ h => fenced_step a h

theorem step_keeps_lost (ok : TokenRuns s.db) {a : Act} (lost : s.db.holds id t = false) (old : t ∉ a.drawn) :
    (s.step a).db.holds id t = false := by
  cases a with
  | call maxClaims plan c => exact retains_lost (start_kept ok maxClaims plan c).retains lost old
  | resume n reading =>
    cases hn : s.calls[n]? with
    | none =>
      rw [step_resume_none reading hn]
      exact lost
    | some flow =>
      rw [step_resume reading hn]
      exact retains_lost (resume_kept ok reading flow).retains lost (List.not_mem_nil)

theorem lost_for_good {past later : List Act} (fresh : FreshTokens (past ++ later)) (drawn : t ∈ drawnTokens past)
    (lost : (run step init past).db.holds id t = false) :
    (run step init (past ++ later)).db.holds id t = false := by
  have old : ∀ a ∈ later, t ∉ a.drawn := by
    intro a ha hd
    unfold FreshTokens drawnTokens at fresh
    rw [List.flatMap_append] at fresh
    exact (List.nodup_append.mp fresh).2.2 t drawn t (List.mem_flatMap.mpr ⟨a,ha,hd⟩) rfl
  clear fresh
  induction later using List.reverseRecOn with
  | nil => simpa using lost
  | append_singleton later a ih =>
    rw [← List.append_assoc,run_append]
    exact step_keeps_lost (fenced_run (past ++ later)).tokenRuns
      (ih (fun b hb => old b (by simp [hb]))) (old a (by simp))

theorem failRead_of_not_held (lost : db.holds id token = false) : db.failRead id token = none := by
  rw [failRead,Option.filter_eq_none_iff]
  intro run hrun held
  obtain ⟨row,hrow,rfl⟩ := Option.map_eq_some_iff.mp hrun
  obtain ⟨mem,hid⟩ := Table.find?_eq_some.mp hrow
  have yes := holds_iff.mpr ⟨row,mem,hid,of_decide_eq_true held⟩
  rw [lost] at yes
  cases yes

theorem start_of_not_held {c : Call} (shown : c.op.presents = some (id,token)) (lost : db.holds id token = false)
    (maxClaims : Option Int) (plan : Planner) : db.start maxClaims plan c = .plain db c.op.refusal := by
  obtain ⟨op,clock⟩ := c
  cases op with
  | heartbeat | releaseLease =>
    cases shown
    simp only [start,heartbeat,releaseLease,update_of_not_held _ (fun _ => heldRunning_token) lost]
    rfl
  | complete =>
    cases shown
    have needs : ∀ row : Row, sqlEq row.leaseToken (some token) = true → row.leaseToken = some token := by
      intro row h
      obtain ⟨x,hx,hs⟩ := sqlEq_iff.mp h
      exact hx.trans hs.symm
    simp only [start,complete,update_of_not_held _ needs lost]
    rfl
  | fail =>
    cases shown
    simp only [start,failRead_of_not_held lost]
    rfl
  | _ => cases shown

def LeaseLost (db : Db) (run : Run) : Prop :=
  ∀ token, run.leaseToken = some token → db.holds run.id token = false

theorem retire_of_lost {run : Run} (lost : LeaseLost db run) (maxClaims : Option Int) (error : String) (retry : Bool)
    (opts : RetireOptions) (now : Int) : db.retire maxClaims run error retry opts now = ⟨db,false,false⟩ := by
  have none_match (f : Row → Row) : db.update run.id (retireGuard run opts.ifExpiredAt) f = (db,0) := by
    rcases update_cases db run.id (retireGuard run opts.ifExpiredAt) f with h | ⟨row,mem,hid,hg,_⟩
    · exact h
    · obtain ⟨t,held,shown⟩ := retireGuard_token hg
      have yes := holds_iff.mpr ⟨row,mem,hid,held⟩
      rw [lost t shown] at yes
      cases yes
  unfold retire
  simp only [none_match]
  split <;> rfl

def Flow.updates : Flow → Option Run
  | .failing _ run _ _ => some run
  | .sweeping _ _ _ (run :: _) _ => some run
  | _ => none

def Flow.refused : Flow → Flow
  | .failing _ _ _ _ => .answered (.requeued false)
  | .sweeping maxClaims now maxAgeMs (_ :: left) tally =>
    .sweeping maxClaims now maxAgeMs left tally
  | flow => flow

theorem resume_of_lost {run : Run} (hu : flow.updates = some run) (lost : LeaseLost db run) (reading : Int) :
    flow.resume db reading = ⟨db,flow.refused,none⟩ := by
  cases flow with
  | failing =>
    cases hu
    simp only [Flow.resume,retire_of_lost lost]
    rfl
  | sweeping _ _ _ left =>
    cases left with
    | nil => cases hu
    | cons =>
      cases hu
      simp only [Flow.resume,reapRetire,retire_of_lost lost]
      rfl
  | _ => cases hu

def RefusesStaleCalls (s : System) : Prop :=
  ∀ maxClaims plan (c : Call) id token, c.op.presents = some (id,token) → s.db.holds id token = false →
    (s.step (.call maxClaims plan c)).db = s.db ∧
    (s.step (.call maxClaims plan c)).calls[s.calls.length]? = some (.answered (c.op.refusal))

def FencesStaleUpdates (s s' : System) : Prop :=
  ∀ n flow flow' run reading, s.calls[n]? = some flow → run ∈ flow.carries → LeaseLost s.db run →
    s'.calls[n]? = some flow' → flow'.updates = some run →
    (s'.step (.resume n reading)).db = s'.db ∧
    (s'.step (.resume n reading)).calls[n]? = some flow'.refused

def EndsOnce (s : System) : Prop :=
  ∀ id, (s.endedCalls id).length ≤ 1 ∧
    ((s.endedCalls id).length = 1 ↔ ∃ run, s.db.getRun id = some run ∧ isTerminal run.status = true)

theorem refuses_stale_calls (s : System) : RefusesStaleCalls s := by
  intro maxClaims plan c id token shown lost
  simp only [System.step,apply,start_of_not_held shown lost]
  simp [Outcome.plain]

theorem fences_stale_updates {acts later : List Act} (fresh : FreshTokens (acts ++ later)) :
    FencesStaleUpdates (run step init acts) (run step init (acts ++ later)) := by
  intro n flow flow' run reading hflow hrun lost hflow' hu
  have mem := List.mem_of_getElem? hflow
  have still : LeaseLost (Foundations.run step init (acts ++ later)).db run :=
    fun t ht => lost_for_good fresh ((fenced_run acts).flows flow mem run hrun t ht) (lost t ht)
  obtain ⟨bound,_⟩ := List.getElem?_eq_some_iff.mp hflow'
  rw [step_resume reading hflow',resume_of_lost hu still]
  refine ⟨rfl,?_⟩
  simp only [apply]
  rw [List.getElem?_set_self bound]

theorem ends_once (acts : List Act) : EndsOnce (run step init acts) := by
  intro id
  rw [(fenced_run acts).once id]
  refine ⟨Bool.toNat_le _,?_⟩
  simp only [isEnded,getRun]
  cases (run step init acts).db.runs.find? id with
  | none => simp
  | some => simp [rowToRun]

theorem postgres_store_fenced (acts later : List Act) (fresh : FreshTokens (acts ++ later)) :
    let s := run step init acts
    let s' := run step init (acts ++ later)
    RefusesStaleCalls s' ∧ FencesStaleUpdates s s' ∧ EndsOnce s' :=
  ⟨refuses_stale_calls _,fences_stale_updates fresh,ends_once _⟩

def staleFail : List Act :=
  [.call none scanOrder ⟨.enqueue ⟨"s1",⟨"go",.direct⟩,none,none⟩ "r1",fun _ => 0⟩,
   .call none scanOrder ⟨.claim "w1" 10 "t1",fun _ => 1⟩,
   .call none scanOrder ⟨.fail "r1" "t1" "boom" true,fun _ => 2⟩]

def reapedAndReclaimed : List Act :=
  [.call none scanOrder ⟨.reapExpired none,fun _ => 99⟩,.resume 3 99,
   .call none scanOrder ⟨.claim "w2" 10 "t2",fun _ => 100⟩]

theorem postgres_store_fenced_stale_fail :
    let s := run step init (staleFail ++ reapedAndReclaimed)
    FreshTokens (staleFail ++ reapedAndReclaimed) ∧ s.db.holds "r1" "t2" = true ∧
    (s.step (.resume 2 101)).db = s.db ∧
    (s.step (.resume 2 101)).calls[2]? = some (.answered (.requeued false)) := by
  have fresh : FreshTokens (staleFail ++ reapedAndReclaimed) := by unfold FreshTokens; decide
  have fresh' : FreshTokens ((staleFail ++ reapedAndReclaimed) ++ []) := by simpa using fresh
  obtain ⟨_,fences,_⟩ := postgres_store_fenced (staleFail ++ reapedAndReclaimed) [] fresh'
  rw [List.append_nil] at fences
  refine ⟨fresh,by decide,?_⟩
  refine fences 2 _ _ _ 101 rfl (List.mem_singleton.mpr rfl) ?_ rfl rfl
  intro token held
  cases held
  decide

end Pg

end CompanyBrain.Runs
