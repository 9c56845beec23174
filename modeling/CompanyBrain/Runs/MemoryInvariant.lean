import CompanyBrain.Runs.MemoryMoves

namespace CompanyBrain.Runs.Memory

open Foundations Table Store

def Store.calledFor (s : Store) (id : String) : List (Listener × Run) :=
  s.called.filter (fun c => c.2.id = id)

@[simp] theorem put_calledFor (s : Store) (run : Run) (id : String) : (s.put run).calledFor id = s.calledFor id := rfl

structure Sound (s : Store) : Prop where
  token : ∀ r ∈ s.runs, r.leaseToken.isSome ↔ r.status = .running
  expiry : ∀ r ∈ s.runs, r.leaseExpiresAt.isSome ↔ r.status = .running
  alone : ∀ r ∈ s.runs, ∀ r' ∈ s.runs, r.sessionId = r'.sessionId →
    r.status = .running → r'.status = .running → r = r'
  notified : ∀ r ∈ s.runs, s.calledFor r.id =
    if isTerminal r.status then s.terminalListeners.map (·,r) else []
  known : ∀ c ∈ s.called, ∃ r ∈ s.runs, r.id = c.2.id

theorem isTerminal_eq_false {st : RunStatus} (h : st = .pending ∨ st = .running) : isTerminal st = false := by
  rcases h with rfl | rfl <;> rfl

theorem create_sound (maxClaims : Option Int) (listeners : List Listener) : Sound (create maxClaims listeners) := by
  refine ⟨?_,?_,?_,?_,?_⟩ <;> simp [create]

variable {s : Store}

theorem known_put (hs : Sound s) {run : Run} {c : Listener × Run} (hc : c ∈ s.called) :
    ∃ r ∈ (s.put run).runs, r.id = c.2.id :=
  exists_set (hs.known c hc) fun _ _ same hid => same.symm.trans hid

theorem alone_put (hs : Sound s) {run : Run}
    (free : run.status = .running → ∀ r ∈ s.runs, r.id ≠ run.id → r.sessionId = run.sessionId → r.status ≠ .running) :
    ∀ r ∈ (s.put run).runs, ∀ r' ∈ (s.put run).runs, r.sessionId = r'.sessionId →
      r.status = .running → r'.status = .running → r = r' := by
  intro r hr r' hr' hsess hrun hrun'
  rcases mem_set.mp hr with rfl | ⟨hr,hne⟩
  · rcases mem_set.mp hr' with rfl | ⟨hr',hne'⟩
    · rfl
    · exact absurd hrun' (free hrun r' hr' hne' hsess.symm)
  · rcases mem_set.mp hr' with rfl | ⟨hr',_⟩
    · exact absurd hrun (free hrun' r ‹r ∈ s.runs› hne hsess)
    · exact hs.alone r hr r' hr' hsess hrun hrun'

theorem sound_put {s : Store} (hs : Sound s) (run : Run) (token : run.leaseToken.isSome ↔ run.status = .running)
    (expiry : run.leaseExpiresAt.isSome ↔ run.status = .running)
    (free : run.status = .running → ∀ r ∈ s.runs, r.id ≠ run.id → r.sessionId = run.sessionId → r.status ≠ .running)
    (live : isTerminal run.status = false) (silent : s.calledFor run.id = []) : Sound (s.put run) where
  token := forall_set token hs.token
  expiry := forall_set expiry hs.expiry
  alone := alone_put hs free
  notified := forall_set (by simpa [live] using silent) hs.notified
  known _ hc := known_put hs hc

theorem calledFor_settle {run : Run} (h : isTerminal run.status) (id : String) :
    (s.settle run).calledFor id = s.calledFor id ++ if run.id = id then s.terminalListeners.map (·,run) else [] := by
  simp only [calledFor,settle_called s run h]
  split <;> rename_i hid <;> simp [hid]

theorem sound_settle (hs : Sound s) {run : Run} (dead : isTerminal run.status) (token : run.leaseToken = none)
    (expiry : run.leaseExpiresAt = none) (silent : s.calledFor run.id = []) : Sound ((s.put run).settle run) := by
  have idle : run.status ≠ .running := fun h => by simp [h,isTerminal] at dead
  constructor <;> rw [settle_runs]
  · exact forall_set (by simp [token,idle]) hs.token
  · exact forall_set (by simp [expiry,idle]) hs.expiry
  · exact alone_put hs (fun h => absurd h idle)
  · intro r hr
    rw [calledFor_settle dead]
    rcases mem_set.mp hr with rfl | ⟨hr,hne⟩
    · simpa [dead] using silent
    · simpa [Ne.symm hne] using hs.notified r hr
  · intro c hc
    rw [settle_called _ _ dead,List.mem_append] at hc
    rcases hc with hc | hc
    · exact known_put hs hc
    · obtain ⟨l,_,rfl⟩ := List.mem_map.mp hc
      exact ⟨run,mem_set_self _ _,rfl⟩

theorem silent_of_live (hs : Sound s) {run : Run} (mem : run ∈ s.runs)
    (live : run.status = .pending ∨ run.status = .running) : s.calledFor run.id = [] := by
  rw [hs.notified run mem,isTerminal_eq_false live]
  rfl

theorem silent_of_new (hs : Sound s) {id : String} (new : s.runs.find? id = none) : s.calledFor id = [] := by
  rw [calledFor,List.filter_eq_nil_iff]
  intro c hc hid
  obtain ⟨r,hr,hrid⟩ := hs.known c hc
  exact find?_eq_none.mp new r hr (hrid.trans (of_decide_eq_true hid))

theorem running_of_held (hs : Sound s) {run : Run} {token : String} (mem : run ∈ s.runs)
    (held : run.leaseToken = some token) : run.status = .running :=
  (hs.token run mem).mp (by simp [held])

variable {op : Op} {t : Store}

theorem move_sound (h : Move op s t) (hs : Sound s) : Sound t := by
  cases h with
  | added input uuid now _ new =>
    have hp := sound_put hs (newRun input uuid now) (by simp [newRun]) (by simp [newRun])
      (by simp [newRun]) rfl (silent_of_new hs new)
    exact ⟨hp.token,hp.expiry,hp.alone,hp.notified,hp.known⟩
  | leased _ _ _ _ _ _ mem free =>
    obtain ⟨pending,idle⟩ := claimable_iff.mp free
    have quiet := silent_of_live hs mem (.inl pending)
    exact sound_put hs _ (by simp [leased]) (by simp [leased]) (fun _ r hr _ hsess => idle r hr hsess) rfl quiet
  | @beat _ held token ttl expiry mem running _ =>
    have quiet := silent_of_live hs mem (.inr running)
    refine sound_put hs _ (hs.token held mem) (by simp [running]) ?_ (isTerminal_eq_false (.inr running)) quiet
    intro _ r hr hne hsess hrun
    have same : r.id = held.id := congrArg Run.id (hs.alone r hr held mem hsess hrun running)
    exact hne same
  | released _ mem running =>
    have quiet := silent_of_live hs mem (.inr running)
    exact sound_put hs _ (by simp [released]) (by simp [released]) (by simp [released]) rfl quiet
  | completed _ _ _ mem held =>
    have quiet := silent_of_live hs mem (.inr (running_of_held hs mem held))
    exact sound_settle hs rfl rfl rfl quiet
  | requeued _ mem running =>
    have quiet := silent_of_live hs mem (.inr running)
    exact sound_put hs _ (by simp [unleased]) (by simp [unleased]) (by simp) rfl quiet
  | parked _ _ mem running =>
    have quiet := silent_of_live hs mem (.inr running)
    exact sound_settle hs rfl rfl rfl quiet
  | recorded => exact ⟨hs.token,hs.expiry,hs.alone,hs.notified,hs.known⟩

variable {r : Run}

theorem move_runs (h : Move op s t) : t.runs = s.runs ∨
    (∃ run, s.runs.find? run.id = none ∧ run.id ∈ op.drawn ∧ t.runs = s.runs.set run) ∨
    ∃ run ∈ s.runs, ∃ run', t.runs = s.runs.set run' ∧ run'.id = run.id ∧ (Sound s → isTerminal run.status = false) ∧
      (op.isFail = false → run'.errorAttempts = run.errorAttempts) := by
  cases h with
  | added _ _ _ _ new => exact .inr (.inl ⟨_,new,List.mem_singleton.mpr rfl,rfl⟩)
  | recorded => exact .inl rfl
  | leased _ _ _ _ _ _ mem free =>
    exact .inr (.inr ⟨_,mem,_,rfl,rfl,fun _ => isTerminal_eq_false (.inl (claimable_iff.mp free).1),fun _ => rfl⟩)
  | beat _ _ _ mem running | released _ mem running =>
    exact .inr (.inr ⟨_,mem,_,rfl,rfl,fun _ => isTerminal_eq_false (.inr running),fun _ => rfl⟩)
  | completed _ _ _ mem held =>
    exact .inr (.inr ⟨_,mem,_,settle_runs _ _,rfl,fun hs => isTerminal_eq_false (.inr (running_of_held hs mem held)),
      fun _ => rfl⟩)
  | requeued _ mem running =>
    exact .inr (.inr ⟨_,mem,_,rfl,rfl,fun _ => isTerminal_eq_false (.inr running),fun hop => by simp [unleased,hop]⟩)
  | parked _ _ mem running =>
    exact .inr (.inr ⟨_,mem,_,settle_runs _ _,rfl,fun _ => isTerminal_eq_false (.inr running),
      fun hop => by simp [parked,unleased,hop]⟩)

theorem move_keeps_terminal (h : Move op s t) (hs : Sound s) (hr : r ∈ s.runs) (dead : isTerminal r.status) :
    r ∈ t.runs := by
  rcases move_runs h with same | ⟨run,new,_,set⟩ | ⟨run,mem,run',set,hid,live,_⟩
  · rwa [same]
  · rw [set]
    exact mem_set.mpr (.inr ⟨hr,find?_eq_none.mp new r hr⟩)
  · rw [set]
    refine mem_set.mpr (.inr ⟨hr,fun hk => ?_⟩)
    rw [eq_of_key hr mem (hk.trans hid),live hs] at dead
    cases dead

theorem moves_sound (h : Moves op s t) (hs : Sound s) : Sound t :=
  moves_induct move_sound h hs

theorem moves_keep_terminal (h : Moves op s t) (hs : Sound s) (hr : r ∈ s.runs) (dead : isTerminal r.status) :
    r ∈ t.runs :=
  (moves_induct (P := fun s => Sound s ∧ r ∈ s.runs)
    (fun hm hp => ⟨move_sound hm hp.1,move_keeps_terminal hm hp.1 hp.2 dead⟩) h ⟨hs,hr⟩).2

theorem move_ids (h : Move op s t) : ∀ r ∈ t.runs, (∃ r' ∈ s.runs, r'.id = r.id) ∨ r.id ∈ op.drawn := by
  have old : ∀ r ∈ s.runs, (∃ r' ∈ s.runs, r'.id = r.id) ∨ r.id ∈ op.drawn := fun r hr => .inl ⟨r,hr,rfl⟩
  rcases move_runs h with same | ⟨run,_,drawn,set⟩ | ⟨run,mem,run',set,hid,_⟩
  · rwa [same]
  · rw [set]
    exact forall_set (.inr drawn) old
  · rw [set]
    exact forall_set (.inl ⟨run,mem,hid.symm⟩) old

theorem moves_ids (h : Moves op s t) (hr : r ∈ t.runs) : (∃ r' ∈ s.runs, r'.id = r.id) ∨ r.id ∈ op.drawn := by
  induction h generalizing r with
  | refl => exact .inl ⟨r,hr,rfl⟩
  | tail _ hm ih =>
    rcases move_ids hm r hr with ⟨r',hr',hid⟩ | hd
    · rcases ih hr' with ⟨q,hq,hqid⟩ | hd
      · exact .inl ⟨q,hq,hqid.trans hid⟩
      · exact .inr (hid ▸ hd)
    · exact .inr hd

structure Reached (maxClaims : Option Int) (listeners : List Listener) (past : List Call) (s : Store) : Prop where
  sound : Sound s
  ids : ∀ r ∈ s.runs, r.id ∈ drawn past
  cap : s.maxClaims = maxClaims
  listeners : s.terminalListeners = listeners

theorem freshIds_append {past later : List Call} (h : FreshIds (past ++ later)) : FreshIds past := by
  unfold FreshIds drawn at h ⊢
  rw [List.flatMap_append] at h
  exact (List.nodup_append.mp h).1

theorem freshIds_closed (past : List Call) (c : Call) (h : FreshIds (past ++ [c])) : FreshIds past := freshIds_append h

variable {listeners : List Listener} {maxClaims : Option Int}

theorem new_of_fresh {past : List Call} {c : Call} (fresh : FreshIds (past ++ [c]))
    (hr : Reached maxClaims listeners past s) : Call.newTo s c := by
  intro input uuid hop
  rw [find?_eq_none]
  intro r hrs hid
  unfold FreshIds drawn at fresh
  rw [List.flatMap_append,List.nodup_append] at fresh
  refine fresh.2.2 r.id (hr.ids r hrs) uuid ?_ hid
  simp [hop,Op.drawn]

theorem reached_step {past : List Call} {c : Call} (fresh : FreshIds (past ++ [c]))
    (hr : Reached maxClaims listeners past s) : Reached maxClaims listeners (past ++ [c]) (s.step c) := by
  have hm := step_moves (new_of_fresh fresh hr)
  refine ⟨moves_sound hm hr.sound,?_,?_,?_⟩
  · intro r hrs
    unfold drawn
    rw [List.flatMap_append,List.mem_append]
    rcases moves_ids hm hrs with ⟨r',hr',hid⟩ | hd
    · exact .inl (hid ▸ hr.ids r' hr')
    · exact .inr (by simpa using hd)
  · exact moves_induct
      (fun hm h => (move_maxClaims hm).trans h) hm hr.cap
  · exact moves_induct
      (fun hm h => (move_listeners hm).trans h) hm hr.listeners

theorem reached_run (maxClaims : Option Int) (listeners : List Listener) (calls : List Call) (fresh : FreshIds calls) :
    Reached maxClaims listeners calls (run step (create maxClaims listeners) calls) :=
  run_history freshIds_closed ⟨create_sound _ _,by simp [create],rfl,rfl⟩
    (fun _ _ _ h hr => reached_step h hr) calls fresh

theorem terminal_persists {calls later : List Call} (fresh : FreshIds (calls ++ later))
    (hr : r ∈ (run step (create maxClaims listeners) calls).runs) (dead : isTerminal r.status) :
    r ∈ (run step (create maxClaims listeners) (calls ++ later)).runs := by
  induction later using List.reverseRecOn with
  | nil => simpa using hr
  | append_singleton later c ih =>
    rw [← List.append_assoc] at fresh ⊢
    have before := reached_run maxClaims listeners _ (freshIds_closed _ _ fresh)
    rw [run_append _ _ (calls ++ later) [c]]
    exact moves_keep_terminal (step_moves (new_of_fresh fresh before)) before.sound
      (ih (freshIds_closed _ _ fresh)) dead

def OneRunningPerSession (s : Store) : Prop :=
  ∀ r ∈ s.runs, ∀ r' ∈ s.runs, r.sessionId = r'.sessionId → r.status = .running → r'.status = .running → r = r'

def LeasedIffRunning (s : Store) : Prop :=
  ∀ r ∈ s.runs, (r.leaseToken.isSome ↔ r.status = .running) ∧ (r.leaseExpiresAt.isSome ↔ r.status = .running)

def SettledForGood (listeners : List Listener) (s s' : Store) : Prop :=
  ∀ r ∈ s.runs, isTerminal r.status = true → (∃ r' ∈ s'.runs, r'.id = r.id ∧
      r'.status = r.status ∧ r'.result = r.result ∧ r'.finishedAt = r.finishedAt) ∧
    s.calledFor r.id = listeners.map (·,r) ∧ s'.calledFor r.id = listeners.map (·,r)

theorem memory_store_invariant (maxClaims : Option Int) (listeners : List Listener)
    (calls later : List Call) (fresh : FreshIds (calls ++ later)) :
    let s := run step (create maxClaims listeners) calls
    let s' := run step (create maxClaims listeners) (calls ++ later)
    OneRunningPerSession s ∧ LeasedIffRunning s ∧ SettledForGood listeners s s' := by
  have hlater := reached_run maxClaims listeners _ fresh
  have hnow := reached_run maxClaims listeners calls (freshIds_append fresh)
  refine ⟨hnow.sound.alone,fun r hr => ⟨hnow.sound.token r hr,hnow.sound.expiry r hr⟩,?_⟩
  intro r hr dead
  have kept := terminal_persists fresh hr dead
  refine ⟨⟨r,kept,rfl,rfl,rfl,rfl⟩,?_,?_⟩
  · rw [hnow.sound.notified r hr,if_pos dead,hnow.listeners]
  · rw [hlater.sound.notified r kept,if_pos dead,hlater.listeners]

def drillInput (sessionId : String) (dedupKey : Option String) : EnqueueInput :=
  ⟨sessionId,⟨"go",.direct⟩,dedupKey,none⟩

def drill : List Call :=
  [⟨.enqueue (drillInput "s1" none) "r1",fun _ => 0⟩,⟨.claim "w1" 10 "t1",fun _ => 1⟩,
   ⟨.complete "r1" "t1" ⟨.ok,none,some "done",none⟩,fun _ => 2⟩]

theorem memory_store_invariant_drill : FreshIds (drill ++ [⟨.reapExpired none,fun _ => 99⟩]) ∧
    SettledForGood [7] (run step (create none [7]) drill)
      (run step (create none [7]) (drill ++ [⟨.reapExpired none,fun _ => 99⟩])) ∧
    (run step (create none [7]) drill).called.length = 1 :=
  ⟨by unfold FreshIds; decide,
   (memory_store_invariant none [7] drill [⟨.reapExpired none,fun _ => 99⟩] (by unfold FreshIds; decide)).2.2,
   by decide⟩

end CompanyBrain.Runs.Memory
