import CompanyBrain.Runs.Fencing
import CompanyBrain.Runs.MemoryInvariant

namespace CompanyBrain.Runs

open Foundations Table

theorem SameBudget.trans {a b c : Run} (ab : SameBudget a b) (bc : SameBudget b c) : SameBudget a c :=
  ⟨bc.attempts.trans ab.attempts,bc.errorAttempts.trans ab.errorAttempts,bc.maxAttempts.trans ab.maxAttempts⟩

theorem SameBudget.errorParks_eq {snap run : Run} (same : SameBudget snap run) (maxClaims : Option Int) :
    errorParks run maxClaims = errorParks snap maxClaims := by
  rw [errorParks,errorParks,same.attempts,same.errorAttempts,same.maxAttempts]

def predictedStatus (maxClaims : Option Int) (snap : Run) : RunStatus :=
  if errorParks snap maxClaims then .failed else .pending

namespace Memory

def Budgeted (snap : Run) (token : String) (s : Store) : Prop :=
  ∀ run ∈ s.runs, run.id = snap.id → run.leaseToken = some token → SameBudget snap run

section

variable {snap : Run} {token : String} {s t : Store} {op : Op}

theorem budgeted_put {run : Run} (budgeted : Budgeted snap token s)
    (same : run.id = snap.id → run.leaseToken = some token → SameBudget snap run) :
    Budgeted snap token (s.put run) := forall_set same budgeted

theorem move_budgeted (move : Move op s t) (old : token ∉ op.drawn) (budgeted : Budgeted snap token s) :
    Budgeted snap token t := by
  cases move with
  | added | requeued => exact budgeted_put budgeted fun _ held => by cases held
  | leased _ _ uuid _ _ draws =>
    refine budgeted_put budgeted fun _ held => absurd ?_ old
    rw [draws,← Option.some.inj held]
    exact List.mem_singleton_self uuid
  | @beat _ run token' ttl expiry mem running held =>
    exact budgeted_put budgeted fun id held => ⟨(budgeted run mem id held).attempts,
      (budgeted run mem id held).errorAttempts,(budgeted run mem id held).maxAttempts⟩
  | released _ _ _ held => exact budgeted_put budgeted fun _ held => by cases held
  | completed _ _ _ _ held =>
    exact budgeted_put budgeted fun _ held => by cases held
  | parked =>
    exact budgeted_put budgeted fun _ held => by cases held
  | recorded => exact budgeted

variable {clock : Clock} {ttl : Int} {uuid w : String}

theorem lease_claimed {run : Run} (claimed : (s.lease run w ttl uuid clock).2 = some snap) :
    (s.lease run w ttl uuid clock).1 = s.put snap ∧ snap.leaseToken = some uuid := by
  rw [← Option.some.inj claimed]
  exact ⟨rfl,rfl⟩

theorem claim_claimed (claimed : (s.claim w ttl uuid clock).2 = some snap) :
    (s.claim w ttl uuid clock).1 = s.put snap ∧ snap.leaseToken = some uuid := by
  unfold Store.claim at claimed ⊢
  dsimp only at claimed ⊢
  split at claimed
  · cases claimed
  · exact lease_claimed claimed

theorem claimById_claimed {id : String} (claimed : (s.claimById id w ttl uuid clock).2 = some snap) :
    (s.claimById id w ttl uuid clock).1 = s.put snap ∧ snap.leaseToken = some uuid := by
  unfold Store.claimById at claimed ⊢
  split at claimed
  · cases claimed
  · split at claimed
    next free =>
      simp only [if_pos free]
      exact lease_claimed claimed
    · cases claimed

theorem exec_claimed {c : Call} (claimed : (s.exec c).2 = .claimed (some snap)) :
    s.step c = s.put snap ∧ ∃ uuid ∈ c.op.drawn, snap.leaseToken = some uuid := by
  obtain ⟨op,clock⟩ := c
  cases op with
  | claim _ _ uuid =>
    obtain ⟨stored,token⟩ := claim_claimed (Reply.claimed.inj claimed)
    exact ⟨stored,uuid,List.mem_singleton_self uuid,token⟩
  | claimById _ _ _ uuid =>
    obtain ⟨stored,token⟩ := claimById_claimed (Reply.claimed.inj claimed)
    exact ⟨stored,uuid,List.mem_singleton_self uuid,token⟩
  | enqueue | heartbeat | releaseLease | complete | fail | reapExpired | begin | record => cases claimed

theorem budgeted_claim {c : Call} (claimed : (s.exec c).2 = .claimed (some snap)) :
    Budgeted snap token (s.step c) := by
  rw [(exec_claimed claimed).1]
  intro r mem id _
  rcases mem_set.mp mem with rfl | ⟨_,other⟩
  · exact .refl r
  · exact absurd id other

theorem budgeted_run {maxClaims : Option Int} {listeners : List Listener} {past later : List Call}
    (fresh : FreshIds (past ++ later)) (old : token ∈ drawn past)
    (budgeted : Budgeted snap token (run Store.step (create maxClaims listeners) past)) :
    Budgeted snap token (run Store.step (create maxClaims listeners) (past ++ later)) := by
  induction later using List.reverseRecOn with
  | nil => simpa using budgeted
  | append_singleton later c ih =>
    rw [← List.append_assoc] at fresh ⊢
    have before := reached_run maxClaims listeners _ (freshIds_closed _ _ fresh)
    have undrawn : token ∉ c.op.drawn := by
      intro again
      unfold FreshIds drawn at fresh
      rw [List.append_assoc,List.flatMap_append] at fresh
      refine (List.nodup_append.mp fresh).2.2 token old token ?_ rfl
      exact List.mem_flatMap.mpr ⟨c,List.mem_append_right _ (List.mem_singleton_self c),again⟩
    rw [run_append _ _ (past ++ later) [c]]
    exact moves_induct (fun move => move_budgeted move undrawn)
      (step_moves (new_of_fresh fresh before)) (ih (freshIds_closed _ _ fresh))

theorem retries_eq (maxClaims : Option Int) (run : Run) :
    retries maxClaims (unleased run true) true = !errorParks run maxClaims := by
  rw [Bool.eq_iff_iff]
  simp [retries,unleased,errorParks]

theorem fail_predicted {run : Run} (sound : Sound s) (mem : run ∈ s.runs) (held : run.leaseToken = some token)
    (error : String) (clock : Clock) :
    let failed := s.fail run.id token error true clock
    failed.2 = !errorParks run s.maxClaims ∧
      (failed.1.runs.find? run.id).map Run.status = some (predictedStatus s.maxClaims run) := by
  have running := running_of_held sound mem held
  have found := find?_eq_some.mpr ⟨mem,rfl⟩
  have free : retireBlocked run ⟨none,true⟩ = false := by simp [retireBlocked,running]
  simp only [Store.fail,found,if_pos held,Store.retire,free,retries_eq,predictedStatus]
  cases errorParks run s.maxClaims with
  | true => simp [find?_set,parked]
  | false => simp [find?_set]

end

def ParksAsPredicted (maxClaims : Option Int) (listeners : List Listener) (before : List Call) (c : Call)
    (between : List Call) : Prop :=
  let s := run Store.step (create maxClaims listeners) (before ++ c :: between)
  ∀ snap token, ((run Store.step (create maxClaims listeners) before).exec c).2 = .claimed (some snap) →
    snap.leaseToken = some token → (s.runs.find? snap.id).any (fun run => run.leaseToken = some token) = true →
    ∀ error clock,
      let failed := s.exec ⟨.fail snap.id token error true,clock⟩
      failed.2 = .requeued (!errorParks snap maxClaims) ∧
        (failed.1.runs.find? snap.id).map Run.status = some (predictedStatus maxClaims snap)

theorem holder_of_current {s : Store} {id token : String}
    (current : (s.runs.find? id).any (fun run => run.leaseToken = some token) = true) :
    ∃ run, s.runs.find? id = some run ∧ run.leaseToken = some token := by
  cases found : s.runs.find? id with
  | none => simp [found] at current
  | some run => exact ⟨run,rfl,by simpa [found] using current⟩

theorem parks_as_predicted {maxClaims : Option Int} {listeners : List Listener} {before : List Call} {c : Call}
    {between : List Call} (fresh : FreshIds (before ++ c :: between)) :
    ParksAsPredicted maxClaims listeners before c between := by
  intro snap token claimed isToken current error clock
  have reached := reached_run maxClaims listeners _ fresh
  have budgeted : Budgeted snap token (run Store.step (create maxClaims listeners) (before ++ c :: between)) := by
    obtain ⟨_,uuid,draws,uuidToken⟩ := exec_claimed claimed
    have old : token ∈ drawn (before ++ [c]) := by
      rw [isToken] at uuidToken
      exact List.mem_flatMap.mpr ⟨c,by simp,Option.some.inj uuidToken ▸ draws⟩
    rw [List.append_cons] at fresh ⊢
    refine budgeted_run fresh old ?_
    rw [run_append]
    exact budgeted_claim claimed
  obtain ⟨run,found,held⟩ := holder_of_current current
  obtain ⟨mem,id⟩ := find?_eq_some.mp found
  have same := budgeted run mem id held
  have failed := fail_predicted reached.sound mem held error clock
  rw [reached.cap,id,predictedStatus,same.errorParks_eq] at failed
  exact ⟨congrArg Reply.requeued failed.1,failed.2⟩

end Memory

namespace Pg

structure Budgeted (snap : Run) (token : String) (s : System) : Prop where
  rows : ∀ row ∈ s.db.runs, row.id = snap.id → row.leaseToken = some token → SameBudget snap (rowToRun row)
  flows : ∀ flow ∈ s.calls, ∀ run ∈ flow.carries, run.id = snap.id → run.leaseToken = some token →
    SameBudget snap run

section

variable {snap : Run} {token : String} {s : System}

theorem budgeted_apply (budgeted : Budgeted snap token s) {draws : List String} (old : token ∉ draws) (n : Nat)
    {o : Outcome} (calls : List Flow) (news : Option Run) (retains : Retains draws s.db o.db)
    (flows : ∀ flow ∈ calls, flow ∈ s.calls ∨ ∀ run ∈ flow.carries,
      (∃ row ∈ s.db.runs, rowToRun row = run) ∨ ∃ flow ∈ s.calls, run ∈ flow.carries) :
    Budgeted snap token (s.apply n o calls news) where
  rows row' mem id held := by
    rcases retains row' mem token held with now | ⟨row,mem,same,held,counters⟩
    · exact absurd now old
    · exact (budgeted.rows row mem (same.trans id) held).trans counters
  flows flow mem run carried id held := by
    rcases flows flow mem with before | new
    · exact budgeted.flows flow before run carried id held
    · rcases new run carried with ⟨row,mem,rfl⟩ | ⟨flow',mem,carried⟩
      · exact budgeted.rows row mem id held
      · exact budgeted.flows flow' mem run carried id held

theorem budgeted_step (ok : TokenRuns s.db) (budgeted : Budgeted snap token s) {a : Act} (old : token ∉ a.drawn) :
    Budgeted snap token (s.step a) := by
  cases a with
  | call maxClaims plan c =>
    refine budgeted_apply budgeted old _ _ _ (start_kept ok maxClaims plan c).retains ?_
    exact forall_snoc (fun _ before => .inl before) (.inr fun run carried => .inl (start_carries carried))
  | resume n reading =>
    cases hn : s.calls[n]? with
    | none => rwa [step_resume_none reading hn]
    | some flow =>
      rw [step_resume reading hn]
      refine budgeted_apply budgeted old _ _ _ (resume_kept ok reading flow).retains fun flow' mem => ?_
      rcases List.mem_or_eq_of_mem_set mem with before | rfl
      · exact .inl before
      · exact .inr fun run carried => .inr ⟨flow,List.mem_of_getElem? hn,resume_carries carried⟩

variable {db : Db}

theorem lease_claimed {candidate : Option Row} {w : String} {ttl : Int} {uuid : String} {now : Int}
    (claimed : (db.lease candidate w ttl uuid now).2 = some snap) :
    snap.leaseToken = some uuid ∧ ∀ row ∈ (db.lease candidate w ttl uuid now).1.runs, row.id = snap.id →
      rowToRun row = snap := by
  unfold Db.lease at claimed ⊢
  split at claimed
  · cases claimed
  next row =>
    dsimp only at claimed ⊢
    split at claimed
    · cases claimed
    next free =>
      rw [if_neg free,← Option.some.inj claimed]
      refine ⟨rfl,fun row' mem id => ?_⟩
      rcases mem_set.mp mem with rfl | ⟨_,other⟩
      · rfl
      · exact absurd id other

theorem start_claimed {maxClaims : Option Int} {plan : Planner} {c : Call}
    (claimed : (db.start maxClaims plan c).flow = .answered (.claimed (some snap))) :
    (∃ uuid ∈ c.op.drawn, snap.leaseToken = some uuid) ∧
      ∀ row ∈ (db.start maxClaims plan c).db.runs, row.id = snap.id → rowToRun row = snap := by
  obtain ⟨op,clock⟩ := c
  cases op with
  | claim _ _ uuid | claimById _ _ _ uuid =>
    obtain ⟨token,rows⟩ := lease_claimed (Reply.claimed.inj (Flow.answered.inj claimed))
    exact ⟨⟨uuid,List.mem_singleton_self uuid,token⟩,rows⟩
  | enqueue | complete | fail =>
    unfold Db.start at claimed
    dsimp only at claimed
    split at claimed <;> cases claimed
  | heartbeat | releaseLease | reapExpired | begin | record => cases claimed

theorem budgeted_claim {past : List Act} (fenced : Fenced past s) {maxClaims : Option Int} {plan : Planner} {c : Call}
    (claimed : (s.db.start maxClaims plan c).flow = .answered (.claimed (some snap)))
    (undrawn : token ∉ drawnTokens past) : Budgeted snap token (s.step (.call maxClaims plan c)) where
  rows row mem id _ := (start_claimed claimed).2 row mem id ▸ .refl _
  flows flow mem run carried _ held := by
    rcases List.mem_append.mp mem with before | new
    · exact absurd (fenced.flows flow before run carried token held) undrawn
    · rw [List.mem_singleton.mp new,claimed] at carried
      cases carried

theorem budgeted_run {past later : List Act} (fresh : FreshTokens (past ++ later)) (old : token ∈ drawnTokens past)
    (budgeted : Budgeted snap token (run System.step System.init past)) :
    Budgeted snap token (run System.step System.init (past ++ later)) := by
  induction later using List.reverseRecOn with
  | nil => simpa using budgeted
  | append_singleton _ a ih =>
    unfold FreshTokens drawnTokens at fresh
    rw [List.flatMap_append,List.flatMap_append,List.flatMap_singleton] at fresh
    have undrawn : token ∉ a.drawn := fun again =>
      (List.nodup_append.mp fresh).2.2 token old token (List.mem_append_right _ again) rfl
    rw [← List.append_assoc,run_append]
    refine budgeted_step (fenced_run _).tokenRuns (ih ?_) undrawn
    unfold FreshTokens drawnTokens
    rw [← List.append_assoc] at fresh
    rw [List.flatMap_append]
    exact (List.nodup_append.mp fresh).1

theorem requeues_eq (maxClaims : Option Int) (run : Run) :
    requeues maxClaims run true true = !errorParks run maxClaims := by
  rw [Bool.eq_iff_iff]
  simp [requeues,errorAttemptsAfter,errorParks]

theorem retire_predicted {run : Run} (ok : TokenRuns db) (isToken : run.leaseToken = some token)
    (current : db.holds run.id token = true) (maxClaims : Option Int) (error : String) (reading : Int) :
    let r := db.retire maxClaims run error true ⟨none,true⟩ reading
    r.applied = true ∧ r.requeued = (!errorParks run maxClaims) ∧
      (r.db.runs.find? run.id).map Row.status = some (predictedStatus maxClaims run) := by
  obtain ⟨row,mem,id,held⟩ := holds_iff.mp current
  have running := ok row mem (by simp [held])
  have found := find?_eq_some.mpr ⟨mem,id⟩
  have guard : retireGuard run none row = true := by simp [retireGuard,held,isToken,running,sqlEq]
  simp only [Db.retire,requeues_eq,predictedStatus]
  cases errorParks run maxClaims with
  | true => simp [Db.update,found,guard,find?_set,parkedRow,id]
  | false => simp [Db.update,found,guard,find?_set,requeuedRow,releasedRow,id]

theorem start_fail {id : String} (current : db.holds id token = true) (maxClaims : Option Int) (plan : Planner)
    (error : String) (clock : Clock) :
    ∃ run, (db.start maxClaims plan ⟨.fail id token error true,clock⟩).flow = .failing maxClaims run error true ∧
      run.id = id ∧ run.leaseToken = some token := by
  obtain ⟨row,mem,rfl,held⟩ := holds_iff.mp current
  have found : db.failRead row.id token = some (rowToRun row) := by
    simp [Db.failRead,Db.getRun,find?_eq_some.mpr ⟨mem,rfl⟩,rowToRun,held]
  refine ⟨rowToRun row,?_,rfl,held⟩
  simp only [Db.start,found]

end

def ParksAsPredicted (before : List Act) (claims : Option Int) (plan : Planner) (c : Call) (between : List Act) :
    Prop :=
  let s := run System.step System.init (before ++ .call claims plan c :: between)
  ∀ snap token,
    ((run System.step System.init before).db.start claims plan c).flow = .answered (.claimed (some snap)) →
    snap.leaseToken = some token → s.db.holds snap.id token = true →
    (∀ maxClaims plan error clock, ∃ run,
      (s.db.start maxClaims plan ⟨.fail snap.id token error true,clock⟩).flow = .failing maxClaims run error true ∧
        run.id = snap.id ∧ run.leaseToken = some token) ∧
    ∀ n maxClaims run error reading, s.calls[n]? = some (.failing maxClaims run error true) → run.id = snap.id →
      run.leaseToken = some token →
      let s' := s.step (.resume n reading)
      (s'.db.runs.find? snap.id).map Row.status = some (predictedStatus maxClaims snap) ∧
        s'.calls[n]? = some (if errorParks snap maxClaims then .settling snap.id (.answered (.requeued false))
          else .answered (.requeued true))

theorem parks_as_predicted {before : List Act} {claims : Option Int} {plan : Planner} {c : Call} {between : List Act}
    (fresh : FreshTokens (before ++ .call claims plan c :: between)) :
    ParksAsPredicted before claims plan c between := by
  intro snap token claimed isToken current
  refine ⟨start_fail current,fun n maxClaims run error reading atCall id held => ?_⟩
  have fenced := fenced_run (before ++ .call claims plan c :: between)
  have budgeted : Budgeted snap token
      (Foundations.run System.step System.init (before ++ .call claims plan c :: between)) := by
    obtain ⟨⟨uuid,draws,uuidToken⟩,_⟩ := start_claimed claimed
    rw [isToken,Option.some.injEq] at uuidToken
    subst uuidToken
    have undrawn : token ∉ drawnTokens before := by
      unfold FreshTokens drawnTokens at fresh
      rw [List.flatMap_append] at fresh
      exact fun drawn => (List.nodup_append.mp fresh).2.2 token drawn token
        (List.mem_flatMap.mpr ⟨_,.head _,draws⟩) rfl
    rw [List.append_cons] at fresh ⊢
    refine budgeted_run fresh (List.mem_flatMap.mpr ⟨.call claims plan c,by simp,draws⟩) ?_
    rw [run_append]
    exact budgeted_claim (fenced_run before) claimed undrawn
  have same := budgeted.flows _ (List.mem_of_getElem? atCall) run (List.mem_singleton_self run) id held
  obtain ⟨applied,requeued,status⟩ := retire_predicted fenced.tokenRuns held (id ▸ current) maxClaims error reading
  obtain ⟨bound,_⟩ := List.getElem?_eq_some_iff.mp atCall
  rw [predictedStatus,same.errorParks_eq] at status
  rw [same.errorParks_eq] at requeued
  rw [step_resume reading atCall]
  refine ⟨?_,?_⟩
  · rw [predictedStatus,← status,id]
    simp only [Flow.resume,Retired.then]
    split <;> rfl
  · simp only [System.apply,Flow.resume,Retired.then,applied,requeued,id]
    rw [List.getElem?_set_self bound]
    cases errorParks snap maxClaims <;> rfl

end Pg

theorem failures_park_as_predicted (maxClaims : Option Int) (listeners : List Listener) (before : List Call) (c : Call)
    (between : List Call) (fresh : FreshIds (before ++ c :: between)) (earlier : List Pg.Act) (claims : Option Int)
    (plan : Pg.Planner) (c' : Call) (later : List Pg.Act)
    (freshTokens : Pg.FreshTokens (earlier ++ .call claims plan c' :: later)) :
    Memory.ParksAsPredicted maxClaims listeners before c between ∧
      Pg.ParksAsPredicted earlier claims plan c' later :=
  ⟨Memory.parks_as_predicted fresh,Pg.parks_as_predicted freshTokens⟩

def enqueueOnce : Call := ⟨.enqueue ⟨"s1",⟨"go",.direct⟩,none,some 1⟩ "r1",fun _ => 0⟩

def claimOnce : Call := ⟨.claim "w1" 10 "t1",fun _ => 1⟩

def beatOnce : Call := ⟨.heartbeat "r1" "t1" 10,fun _ => 5⟩

def failOnce : Call := ⟨.fail "r1" "t1" "boom" true,fun _ => 6⟩

def memoryBeat : Memory.Store := run Memory.Store.step (Memory.create none []) [enqueueOnce,claimOnce,beatOnce]

def postgresFailing : Pg.System :=
  run Pg.System.step Pg.System.init
    ([enqueueOnce,claimOnce,beatOnce,failOnce].map (Pg.Act.call none Pg.scanOrder))

theorem failures_park_as_predicted_last_attempt :
    ((memoryBeat.exec failOnce).1.runs.find? "r1").map Run.status = some .failed ∧
      ((postgresFailing.step (.resume 3 7)).db.runs.find? "r1").map Pg.Row.status = some .failed := by
  obtain ⟨memory,postgres⟩ := failures_park_as_predicted none [] [enqueueOnce] claimOnce [beatOnce]
    (by unfold FreshIds; decide) [.call none Pg.scanOrder enqueueOnce] none Pg.scanOrder claimOnce
    ([beatOnce,failOnce].map (Pg.Act.call none Pg.scanOrder)) (by unfold Pg.FreshTokens; decide)
  exact ⟨(memory _ "t1" rfl rfl (by decide) "boom" _).2,((postgres _ "t1" rfl rfl (by decide)).2 3 none _ "boom" 7 rfl
    rfl rfl).1⟩

end CompanyBrain.Runs
