import CompanyBrain.Runs.Reaper

namespace CompanyBrain.Runs

open Foundations Table World Runs.Memory Sessions.Store

open Runs.Memory.Store (releaseJobs retire enqueue heartbeat complete fail exec)

section

variable {s t : Memory.Store} {k : Claim} {threadRef : String}

theorem live_put {run run' : Run} (mem : run ∈ s.runs) (runs : t.runs = s.runs.set run')
    (hid : run'.id = run.id)
    (kept : run.id = k.runId → run.leaseToken = some k.leaseToken →
      run'.leaseToken = run.leaseToken ∧ run'.sessionId = run.sessionId)
    (live : s.live k threadRef) : t.live k threadRef := by
  unfold Memory.Store.live
  rw [runs]
  refine exists_set live fun r hr hk hrest => ?_
  obtain ⟨hrid,held,hthread⟩ := hrest
  have same := eq_of_key hr mem (hk.trans hid)
  subst same
  obtain ⟨htoken,hsession⟩ := kept hrid held
  exact ⟨hid.trans hrid,htoken.trans held,hsession.trans hthread⟩

theorem retire_unblocked {run : Run} {opts : RetireOptions} (passes : retireBlocked run opts = false) (error : String)
    (retry : Bool) (now : Int) :
    let r := s.retire run error retry opts now
    r.2.2 = true ∧ ∃ run', r.1.runs = s.runs.set run' ∧ run'.id = run.id := by
  unfold retire
  simp only [passes,Bool.false_eq_true,if_false]
  split
  · exact ⟨rfl,_,rfl,rfl⟩
  · exact ⟨rfl,_,settle_runs _ _,rfl⟩

theorem claim_keeps_live (sound : Memory.Sound s) {p : Memory.Store × Option Run} {w : String}
    {ttl : Int} {uuid : String} {clock : Clock}
    (hp : p = (s,none) ∨ ∃ run ∈ s.runs, s.claimable run = true ∧
      p = (s.put (leased run w ttl uuid clock),some (leased run w ttl uuid clock)))
    (live : s.live k threadRef) : p.1.live k threadRef := by
  rcases hp with rfl | ⟨run,mem,free,rfl⟩
  · exact live
  · have pending := (claimable_iff.mp free).1
    refine live_put mem rfl rfl (fun _ held => ?_) live
    rw [running_of_held sound mem held] at pending
    cases pending

theorem call_keeps_live {c : Call} (sound : Memory.Sound s) (new : Memory.Call.newTo s c)
    (notReap : ∀ age, c.op ≠ .reapExpired age)
    (other : c.op.presents = some (k.runId,k.leaseToken) → ∃ ttl, c.op = .heartbeat k.runId k.leaseToken ttl)
    (live : s.live k threadRef) : (s.step c).live k threadRef := by
  obtain ⟨op,clock⟩ := c
  have spent {run : Run} {id token : String} (hid : run.id = id)
      (held : run.leaseToken = some token) (shows : op.presents = some (id,token))
      (beat : ∀ ttl, op ≠ .heartbeat id token ttl) (hk : run.id = k.runId)
      (hheld : run.leaseToken = some k.leaseToken) : False := by
    have hid' : k.runId = id := hk.symm.trans hid
    have htoken : k.leaseToken = token := Option.some.inj (hheld.symm.trans held)
    obtain ⟨ttl,he⟩ := other (by rw [hid',htoken]; exact shows)
    exact beat ttl (by rw [← hid',← htoken]; exact he)
  cases op with
  | enqueue input uuid =>
    change (s.enqueue input uuid clock).1.live k threadRef
    unfold enqueue
    split
    · exact live
    · obtain ⟨r,hr,hrest⟩ := live
      have hne := find?_eq_none.mp (new input uuid rfl) r hr
      exact ⟨r,mem_set.mpr (.inr ⟨hr,hne⟩),hrest⟩
  | claim w ttl uuid => exact claim_keeps_live sound (claim_cases s w ttl uuid clock) live
  | claimById id w ttl uuid =>
    exact claim_keeps_live sound (claimById_cases s id w ttl uuid clock) live
  | heartbeat id token ttl =>
    change (s.heartbeat id token ttl clock).1.live k threadRef
    unfold heartbeat
    split
    · exact live
    next run hf =>
      split
      · exact live_put (mem_of_find? hf) rfl rfl (fun _ _ => ⟨rfl,rfl⟩) live
      · exact live
  | releaseLease id token =>
    change (s.releaseLease id token).1.live k threadRef
    rcases releaseLease_cases s id token with he | ⟨run,mem,hid,_,held,he⟩
    · rw [he]; exact live
    · rw [he]
      exact live_put mem rfl rfl (fun hk hh => (spent hid held rfl (by simp) hk hh).elim) live
  | complete id token result =>
    change (s.complete id token result clock).1.live k threadRef
    unfold complete
    split
    · exact live
    next run hf =>
      obtain ⟨mem,hid⟩ := find?_eq_some.mp hf
      split
      next held =>
        exact live_put mem (settle_runs _ _) rfl (fun hk hh => (spent hid held rfl (by simp) hk hh).elim) live
      · exact live
  | fail id token error retry =>
    change (s.fail id token error retry clock).1.live k threadRef
    unfold fail
    split
    · exact live
    next run hf =>
      obtain ⟨mem,hid⟩ := find?_eq_some.mp hf
      split
      next held =>
        cases blocked : retireBlocked run ⟨none,true⟩ with
        | true => simpa only [retire,blocked,if_true] using live
        | false =>
          obtain ⟨_,run',he,hid'⟩ := retire_unblocked (s := s) blocked error retry (clock 0)
          exact live_put mem he hid' (fun hk hh => (spent hid held rfl (by simp) hk hh).elim) live
      · exact live
  | reapExpired age => exact absurd rfl (notReap age)
  | begin | record => exact live

theorem unblocked_of_lapsed {run : Run} {now : Int} (lapsed : leaseLapsed run now = true) :
    retireBlocked run ⟨some now,false⟩ = false := by
  simp only [leaseLapsed,Bool.and_eq_true] at lapsed
  obtain ⟨running,expired⟩ := lapsed
  cases he : run.leaseExpiresAt with
  | none => simp [he] at expired
  | some =>
    simp only [he,decide_eq_true_eq] at expired
    simp [retireBlocked,running,he,expired]

theorem sweep_fold {now : Int} (age : Option Int) (clock : Clock) (rs : List Run)
    (w : Memory.Sweep) (mem : ∀ r ∈ rs, r ∈ w.store.runs)
    (lapsed : ∀ r ∈ rs, leaseLapsed r now = true) (nodup : (rs.map Run.id).Nodup) :
    let m := (rs.map Run.id).foldl (fun w id => w.reap now age clock id) w
    m.retiredSessionIds = w.retiredSessionIds ++ rs.map Run.sessionId ∧
    ∀ r ∈ w.store.runs, r.id ∉ rs.map Run.id → r ∈ m.store.runs := by
  induction rs generalizing w with
  | nil => simp
  | cons r rs ih =>
    rw [List.map_cons,List.nodup_cons] at nodup
    have hfind : w.store.runs.find? r.id = some r := find?_eq_some.mpr ⟨mem r (by simp),rfl⟩
    obtain ⟨happ,r',hset,hid⟩ := retire_unblocked (s := w.store) (unblocked_of_lapsed (lapsed r (by simp)))
      (reapReason (tooOld r now age)) (!tooOld r now age) (clock (w.events.length+1))
    have hstore : (w.reap now age clock r.id).store.runs = w.store.runs.set r' := by
      simp only [Memory.Sweep.reap,hfind,happ]
      exact hset
    have hretired : (w.reap now age clock r.id).retiredSessionIds = w.retiredSessionIds ++ [r.sessionId] := by
      simp only [Memory.Sweep.reap,hfind,happ,if_true]
    have stays : ∀ q ∈ w.store.runs, q.id ≠ r.id → q ∈ (w.reap now age clock r.id).store.runs := by
      intro q hq hne
      rw [hstore]
      exact mem_set.mpr (.inr ⟨hq,hid ▸ hne⟩)
    have rest : ∀ q ∈ rs, q ∈ (w.reap now age clock r.id).store.runs := by
      intro q hq
      refine stays q (mem q (by simp [hq])) (fun he => nodup.1 ?_)
      exact he ▸ List.mem_map_of_mem hq
    obtain ⟨hids,hkeep⟩ := ih (w.reap now age clock r.id) rest (fun q hq => lapsed q (by simp [hq])) nodup.2
    refine ⟨?_,?_⟩
    · simp only [List.map_cons,List.foldl_cons,hids,hretired,List.append_assoc,List.singleton_append]
    · intro q hq hout
      simp only [List.map_cons,List.mem_cons,not_or] at hout
      exact hkeep q (stays q hq hout.1) hout.2

theorem reap_retires (s : Memory.Store) (age : Option Int) (clock : Clock) :
    let w := s.reapExpired age clock
    w.retiredSessionIds = (s.runs.rows.filter (leaseLapsed · (clock 0))).map Run.sessionId ∧
    ∀ r ∈ s.runs, leaseLapsed r (clock 0) = false → r ∈ w.store.runs := by
  obtain ⟨hids,hkeep⟩ := sweep_fold age clock (s.runs.rows.filter (leaseLapsed · (clock 0))) ⟨s,0,0,[],[]⟩
    (fun r hr => (List.mem_filter.mp hr).1) (fun r hr => (List.mem_filter.mp hr).2)
    (s.runs.nodup.sublist (List.filter_sublist.map Run.id))
  refine ⟨hids,?_⟩
  intro r hr awake
  refine hkeep r hr ?_
  intro hm
  obtain ⟨q,hq,hid⟩ := List.mem_map.mp hm
  obtain ⟨hq,lapsed⟩ := List.mem_filter.mp hq
  rw [eq_of_key hr hq hid.symm,lapsed] at awake
  cases awake

end

def World.leads (w : World) (threadRef sessionId : String) : Prop :=
  (w.sessions.byThread.find? threadRef).map Prod.snd = some sessionId

open WorldAct (opens calls call)

structure Tended (maxClaims : Option Int) (listeners : List Listener) (past : List WorldAct)
    (w : World) : Prop where
  reached : Memory.Reached maxClaims listeners (past.flatMap calls) w.runs
  threads : ∀ p ∈ w.sessions.byThread, p.2 ≠ "" ∧
    ∃ session ∈ w.sessions.sessions, session.id = p.2 ∧ session.threadRef = p.1
  opened : ∀ session ∈ w.sessions.sessions, session.id ∈ past.flatMap opens
  held : ∀ held ∈ w.sessions.leases, ∃ k threadRef, w.ownerOf held.sessionId = some k ∧
    w.leads threadRef held.sessionId ∧
    ((w.runs.live k threadRef ∧ ¬ w.pending threadRef) ∨
      ∃ job ∈ w.jobs, threadRef ∈ job.left ∧ k ∈ job.retired)
  single : ∀ (n m : Nat) (job job' : ReleaseJob) (threadRef : String), w.jobs[n]? = some job → w.jobs[m]? = some job' →
    threadRef ∈ job.left → threadRef ∈ job'.left → n = m
  target : ∀ job ∈ w.jobs, ∀ sessionId, job.target = some sessionId →
    ∃ threadRef rest, job.left = threadRef :: rest ∧ w.leads threadRef sessionId
  proper : ∀ f ∈ w.released, ∃ k ∈ f.retired, f.onBehalf = some k

section

variable {maxClaims : Option Int} {listeners : List Listener} {past : List WorldAct} {w : World}

variable {threadRef sessionId : String}

theorem leads_mem (h : w.leads threadRef sessionId) : (threadRef,sessionId) ∈ w.sessions.byThread := by
  obtain ⟨p,hp,rfl⟩ := Option.map_eq_some_iff.mp h
  obtain ⟨mem,rfl⟩ := find?_eq_some.mp hp
  exact mem

theorem leads_inj (h : Tended maxClaims listeners past w) {t t' : String} (ht : w.leads t sessionId)
    (ht' : w.leads t' sessionId) : t = t' := by
  obtain ⟨_,a,ha,haid,rfl⟩ := h.threads _ (leads_mem ht)
  obtain ⟨_,b,hb,hbid,rfl⟩ := h.threads _ (leads_mem ht')
  rw [eq_of_key ha hb (haid.trans hbid.symm)]

theorem getByThread_of_leads (h : Tended maxClaims listeners past w) (ht : w.leads threadRef sessionId) :
    ∃ session, w.sessions.getByThread threadRef = some session ∧ session.id = sessionId := by
  obtain ⟨hne,session,mem,hid,_⟩ := h.threads _ (leads_mem ht)
  unfold leads at ht
  refine ⟨session,?_,hid⟩
  have real : some sessionId ≠ some "" := fun empty => hne (Option.some.inj empty)
  simp only [getByThread,ht,truthy_eq real]
  exact find?_eq_some.mpr ⟨mem,hid⟩

theorem leads_of_getByThread {session : Sessions.Session} (h : w.sessions.getByThread threadRef = some session) :
    w.leads threadRef session.id := by
  obtain ⟨id,htruthy,hfind⟩ := Option.bind_eq_some_iff.mp h
  have hid := key_of_find? hfind
  rw [leads,hid]
  exact (Option.filter_eq_some_iff.mp htruthy).1

section

variable (h : Tended maxClaims listeners past w)
include h

theorem tended_sessions {a : WorldAct} (calls : a.calls = []) {sessions : Sessions.Store}
    (fewer : ∀ held ∈ sessions.leases, ∃ old ∈ w.sessions.leases, old.sessionId = held.sessionId)
    (threads : ∀ p ∈ sessions.byThread, p.2 ≠ "" ∧
      ∃ session ∈ sessions.sessions, session.id = p.2 ∧ session.threadRef = p.1)
    (opened : ∀ session ∈ sessions.sessions, session.id ∈ (past ++ [a]).flatMap opens)
    (leads : ∀ t i, w.leads t i → {w with sessions := sessions}.leads t i) :
    Tended maxClaims listeners (past ++ [a]) {w with sessions := sessions} where
  reached := by simpa [calls] using h.reached
  threads := threads
  opened := opened
  held held hheld := by
    obtain ⟨old,hold,hid⟩ := fewer held hheld
    obtain ⟨k,threadRef,howner,hleads,hstate⟩ := h.held old hold
    exact ⟨k,threadRef,hid ▸ howner,hid ▸ leads _ _ hleads,hstate⟩
  single := h.single
  target job hjob sessionId ht := by
    obtain ⟨threadRef,rest,hleft,hleads⟩ := h.target job hjob sessionId ht
    exact ⟨threadRef,rest,hleft,leads _ _ hleads⟩
  proper := h.proper

theorem tended_leases {a : WorldAct} (calls : a.calls = []) (opens : a.opens = []) {sessions : Sessions.Store}
    (same : sessions.sessions = w.sessions.sessions)
    (threads : sessions.byThread = w.sessions.byThread)
    (fewer : ∀ held ∈ sessions.leases, ∃ old ∈ w.sessions.leases, old.sessionId = held.sessionId) :
    Tended maxClaims listeners (past ++ [a]) {w with sessions := sessions} := by
  refine tended_sessions h calls fewer (by simpa only [same,threads] using h.threads)
    (by simpa [same,opens] using h.opened) ?_
  intro t i hl
  unfold leads at hl ⊢
  rw [threads,hl]

theorem tended_same (a : WorldAct) (calls : a.calls = []) (opens : a.opens = []) :
    Tended maxClaims listeners (past ++ [a]) w :=
  tended_leases h calls opens rfl rfl (fun held hm => ⟨held,hm,rfl⟩)

theorem tended_release (lease : Sessions.Lease) :
    Tended maxClaims listeners (past ++ [.release lease]) (w.step (.release lease)) := by
  unfold step releaseLease
  have stay := tended_same h (.release lease) rfl rfl
  dsimp only
  split
  · split
    · refine tended_leases h rfl rfl rfl rfl ?_
      intro held hm
      exact ⟨held,(mem_erase.mp hm).1,rfl⟩
    · exact stay
  · exact stay

theorem tended_append (lease : Sessions.Lease) (entry : Sessions.NewEntry) (clock : Clock) :
    Tended maxClaims listeners (past ++ [.append lease entry clock]) (w.step (.append lease entry clock)) := by
  unfold step append
  have stay := tended_same h (.append lease entry clock) rfl rfl
  dsimp only
  split
  · exact stay
  next held hf =>
    have mem := mem_of_find? hf
    have renewed : ∀ x ∈ w.sessions.leases.set {held with expiresAt := clock 0 + w.sessions.leaseTtlMs},
        ∃ old ∈ w.sessions.leases, old.sessionId = x.sessionId := by
      exact forall_set ⟨held,mem,rfl⟩ fun x hx => ⟨x,hx,rfl⟩
    split
    · exact stay
    · split <;> exact tended_leases h rfl rfl rfl rfl renewed

theorem tended_acquire {holder : Option Sessions.LeaseHolder}
    {onBehalf : Option Claim} {uuid : String} {clock : Clock}
    (orderly : w.Orderly (.acquire sessionId holder onBehalf uuid clock)) :
    Tended maxClaims listeners (past ++ [.acquire sessionId holder onBehalf uuid clock])
      (w.step (.acquire sessionId holder onBehalf uuid clock)) := by
  obtain ⟨k,threadRef,rfl,live,hleads,idle⟩ := orderly
  let a : WorldAct := .acquire sessionId holder (some k) uuid clock
  let lease : Sessions.HeldLease :=
    ⟨sessionId,uuid,clock 1 + w.sessions.leaseTtlMs,clock 2,holder⟩
  have granted : Tended maxClaims listeners (past ++ [a]) {w with
        sessions := {w.sessions with leases := w.sessions.leases.set lease}
        owners := w.owners.set (sessionId,some k)} := by
    refine ⟨by simpa [calls] using h.reached,h.threads,
      by simpa [opens] using h.opened,?_,h.single,h.target,h.proper⟩
    intro held hheld
    rcases mem_set.mp hheld with rfl | ⟨hold,hne⟩
    · refine ⟨k,threadRef,?_,hleads,.inl ⟨live,idle⟩⟩
      simp [ownerOf,find?_set,lease]
    · obtain ⟨k',t',howner,hrest⟩ := h.held held hold
      refine ⟨k',t',?_,hrest⟩
      have hne' : held.sessionId ≠ sessionId := hne
      simpa [ownerOf,find?_set,hne'] using howner
  have refused := tended_same h a rfl rfl
  unfold step acquireLease
  dsimp only
  split
  · split
    · exact refused
    · exact granted
  · exact granted

end

theorem refreshed_id (x : Sessions.Session) (name surface : Option String) :
    (Sessions.refreshed x name surface).id = x.id ∧
      (Sessions.refreshed x name surface).threadRef = x.threadRef := by
  simp only [Sessions.refreshed]
  cases truthy name <;> cases truthy surface <;> dsimp only <;> repeat' split
  all_goals exact ⟨rfl,rfl⟩

section

variable (h : Tended maxClaims listeners past w)
include h

theorem tended_refresh {a : WorldAct}
    (calls : a.calls = []) {old new : Sessions.Session} (mem : old ∈ w.sessions.sessions)
    (hid : new.id = old.id) (hthread : new.threadRef = old.threadRef) :
    Tended maxClaims listeners (past ++ [a])
      {w with sessions := {w.sessions with sessions := w.sessions.sessions.set new}} := by
  refine tended_sessions h calls (fun held hm => ⟨held,hm,rfl⟩) ?_ ?_ (fun _ _ hl => hl)
  · intro p hp
    obtain ⟨hne,y,hy,hyid,hyt⟩ := h.threads p hp
    refine ⟨hne,exists_set ⟨y,hy,hyid,hyt⟩ fun y hy hk hrest => ?_⟩
    have same := eq_of_key hy mem (hk.trans hid)
    exact ⟨hid.trans (same ▸ hrest.1),hthread.trans (same ▸ hrest.2)⟩
  · simp only [List.flatMap_append,List.mem_append]
    exact forall_set (.inl (hid ▸ h.opened old mem)) fun y hy => .inl (h.opened y hy)

theorem tended_create (req : Sessions.OpenRequest)
    (uuid : String) (clock : Clock) (unused : uuid ∉ past.flatMap opens)
    (real : uuid ≠ "") (closed : w.sessions.getByThread req.threadRef = none) :
    Tended maxClaims listeners (past ++ [.openSession req uuid clock])
      (w.step (.openSession req uuid clock)) := by
  simp only [step,getOrCreateByThread,closed]
  refine tended_sessions h rfl (fun held hm => ⟨held,hm,rfl⟩) ?_ ?_ ?_
  · intro p hp
    rcases mem_set.mp hp with rfl | ⟨hp,_⟩
    · exact ⟨real,_,mem_set_self _ _,rfl,rfl⟩
    · obtain ⟨hne,y,hy,hyid,hyt⟩ := h.threads p hp
      refine ⟨hne,y,mem_set.mpr (.inr ⟨hy,fun hk => unused ?_⟩),hyid,hyt⟩
      have huid : y.id = uuid := hk
      exact huid ▸ h.opened y hy
  · simp only [List.flatMap_append,List.mem_append]
    exact forall_set (.inr (List.mem_singleton.mpr rfl)) fun y hy => .inl (h.opened y hy)
  · intro t i hl
    have hne : t ≠ req.threadRef := by
      rintro rfl
      obtain ⟨x,hx,_⟩ := getByThread_of_leads h hl
      rw [closed] at hx
      cases hx
    unfold leads at hl ⊢
    simpa [find?_set,hne] using hl

theorem tended_openSession (req : Sessions.OpenRequest) (uuid : String) (clock : Clock)
    (fresh : FreshWorld (past ++ [.openSession req uuid clock])) :
    Tended maxClaims listeners (past ++ [.openSession req uuid clock])
      (w.step (.openSession req uuid clock)) := by
  have opensAll : (past ++ [WorldAct.openSession req uuid clock]).flatMap opens =
      past.flatMap opens ++ [uuid] := by
    simp [opens]
  cases hget : w.sessions.getByThread req.threadRef with
  | some x =>
    obtain ⟨_,_,hfind⟩ := Option.bind_eq_some_iff.mp hget
    obtain ⟨hid,hthread⟩ := refreshed_id x req.channelName req.surface
    simp only [step,getOrCreateByThread,hget]
    exact tended_refresh h rfl (mem_of_find? hfind) hid hthread
  | none =>
    have unused : uuid ∉ past.flatMap opens := by
      intro hm
      have hnd := fresh.sessions
      rw [opensAll,List.nodup_append] at hnd
      exact hnd.2.2 uuid hm uuid (by simp) rfl
    have real : uuid ≠ "" := fun he => fresh.real (by rw [opensAll,he]; simp)
    exact tended_create h req uuid clock unused real hget

end

theorem pending_append {w : World} {runs : Memory.Store} {threadRef : String} {more : List ReleaseJob} :
    pending {w with runs := runs, jobs := w.jobs ++ more} threadRef ↔
      w.pending threadRef ∨ ∃ job ∈ more, threadRef ∈ job.left := by
  simp only [pending,List.mem_append,or_and_right,exists_or]

variable {c : Call} {job : ReleaseJob}

theorem mem_releaseJobs {s : Memory.Store} (h : job ∈ s.releaseJobs c) :
    job.target = none ∧ (∃ age, c.op = .reapExpired age) ∧
      ∀ t ∈ job.left, ∃ r ∈ s.runs, leaseLapsed r (c.clock 0) = true ∧ r.sessionId = t := by
  unfold releaseJobs at h
  split at h
  next age hop =>
    dsimp only at h
    split at h
    · cases h
    · rw [List.mem_singleton] at h
      subst h
      refine ⟨rfl,⟨age,hop⟩,?_⟩
      intro t ht
      rw [List.mem_eraseDups,(reap_retires s age c.clock).1] at ht
      obtain ⟨r,hr,hs⟩ := List.mem_map.mp ht
      obtain ⟨hr,hl⟩ := List.mem_filter.mp hr
      exact ⟨r,hr,hl,hs⟩
  · cases h

theorem releaseJobs_length (s : Memory.Store) (c : Call) : (s.releaseJobs c).length ≤ 1 := by
  unfold releaseJobs
  split
  · dsimp only
    split
    · exact Nat.zero_le 1
    · exact Nat.le_refl 1
  · exact Nat.zero_le 1

theorem lapsed_in_job {s : Memory.Store} {age : Option Int} {r : Run} (hop : c.op = .reapExpired age) (hr : r ∈ s.runs)
    (lapsed : leaseLapsed r (c.clock 0) = true) {token : String} (held : r.leaseToken = some token) :
    ∃ job ∈ s.releaseJobs c, r.sessionId ∈ job.left ∧ ⟨r.id,token⟩ ∈ job.retired := by
  have mem : r ∈ s.runs.rows.filter (leaseLapsed · (c.clock 0)) := List.mem_filter.mpr ⟨hr,lapsed⟩
  have retired := (reap_retires s age c.clock).1
  have here : r.sessionId ∈ (s.reapExpired age c.clock).retiredSessionIds := by
    rw [retired]
    exact List.mem_map_of_mem mem
  have retires : (s.reapExpired age c.clock).retiredSessionIds ≠ [] := List.ne_nil_of_mem here
  simp only [releaseJobs,hop,retires,if_false,List.mem_singleton,exists_eq_left]
  refine ⟨List.mem_eraseDups.mpr here,?_⟩
  exact List.mem_filterMap.mpr ⟨r,mem,by simp [held]⟩

variable {jobs : List ReleaseJob}

theorem single_append {more : List ReleaseJob}
    (single : ∀ (n m : Nat) (job job' : ReleaseJob) (threadRef : String), jobs[n]? = some job → jobs[m]? = some job' →
      threadRef ∈ job.left → threadRef ∈ job'.left → n = m)
    (short : more.length ≤ 1) (apart : ∀ job ∈ jobs, ∀ job' ∈ more, ∀ t ∈ job.left, t ∉ job'.left) (n m : Nat)
    (job job' : ReleaseJob) (threadRef : String) (hn : (jobs ++ more)[n]? = some job)
    (hm : (jobs ++ more)[m]? = some job') (ht : threadRef ∈ job.left) (ht' : threadRef ∈ job'.left) : n = m := by
  rw [List.getElem?_append] at hn hm
  split at hn <;> split at hm
  · exact single n m job job' threadRef hn hm ht ht'
  · exact absurd ht' (apart job (List.mem_of_getElem? hn) job' (List.mem_of_getElem? hm) _ ht)
  · exact absurd ht (apart job' (List.mem_of_getElem? hm) job (List.mem_of_getElem? hn) _ ht')
  · have hn' := (List.getElem?_eq_some_iff.mp hn).1
    have hm' := (List.getElem?_eq_some_iff.mp hm).1
    omega

theorem leaseLapsed_running {r : Run} {now : Int} (h : leaseLapsed r now = true) : r.status = .running := by
  simp only [leaseLapsed,Bool.and_eq_true,decide_eq_true_eq] at h
  exact h.1

theorem reap_keeps_or_retires {age : Option Int} {k : Claim} (sound : Memory.Sound w.runs)
    (hop : c.op = .reapExpired age) (live : w.runs.live k threadRef) (idle : ¬ w.pending threadRef) :
    ((w.step (.call c)).runs.live k threadRef ∧ ¬ (w.step (.call c)).pending threadRef) ∨
      ∃ job ∈ w.runs.releaseJobs c, threadRef ∈ job.left ∧ k ∈ job.retired := by
  obtain ⟨r,hr,hid,htoken,hthread⟩ := live
  by_cases lapsed : leaseLapsed r (c.clock 0) = true
  · obtain ⟨job,hjob,hleft,hretired⟩ := lapsed_in_job hop hr lapsed htoken
    refine .inr ⟨job,hjob,hthread ▸ hleft,?_⟩
    rw [hid] at hretired
    exact hretired
  · refine .inl ⟨⟨r,?_,hid,htoken,hthread⟩,?_⟩
    · have kept := (reap_retires w.runs age c.clock).2 r hr (by simpa using lapsed)
      simpa only [step,Memory.Store.step,exec,hop] using kept
    · intro hp
      rcases pending_append.mp hp with hold | ⟨job,hjob,hleft⟩
      · exact idle hold
      · obtain ⟨r',hr',lapsed',hs⟩ := (mem_releaseJobs hjob).2.2 threadRef hleft
        have same := sound.alone r hr r' hr' (hthread.trans hs.symm)
          (running_of_held sound hr htoken) (leaseLapsed_running lapsed')
        exact lapsed (same ▸ lapsed')

theorem idle_of_no_reap (notReap : ∀ age, c.op ≠ .reapExpired age) (idle : ¬ w.pending threadRef) :
    ¬ (w.step (.call c)).pending threadRef := by
  intro hp
  rcases pending_append.mp hp with hold | ⟨job,hjob,_⟩
  · exact idle hold
  · obtain ⟨age,hop⟩ := (mem_releaseJobs hjob).2.1
    exact notReap age hop

theorem tended_call (h : Tended maxClaims listeners past w) (c : Call)
    (fresh : FreshWorld (past ++ [.call c])) (orderly : w.Orderly (.call c)) :
    Tended maxClaims listeners (past ++ [.call c]) (w.step (.call c)) := by
  have hcalls : (past ++ [call c]).flatMap calls =
      past.flatMap calls ++ [c] := by simp [calls]
  have hfresh := fresh.runs
  rw [hcalls] at hfresh
  have sound := h.reached.sound
  have apart : ∀ job ∈ w.jobs, ∀ job' ∈ w.runs.releaseJobs c, ∀ t ∈ job.left, t ∉ job'.left := by
    intro job hjob job' hjob' t ht ht'
    obtain ⟨_,⟨age,hop⟩,lapsedOf⟩ := mem_releaseJobs hjob'
    obtain ⟨r,hr,lapsed,rfl⟩ := lapsedOf t ht'
    exact orderly.1 age hop r hr lapsed ⟨job,hjob,ht⟩
  have single := single_append h.single (releaseJobs_length w.runs c) apart
  refine ⟨?_,h.threads,?_,?_,single,?_,h.proper⟩
  · rw [hcalls]
    exact reached_step hfresh h.reached
  · intro session hs
    simpa [opens] using h.opened session hs
  · intro held hheld
    obtain ⟨k,threadRef,howner,hleads,hstate⟩ := h.held held hheld
    refine ⟨k,threadRef,howner,hleads,?_⟩
    rcases hstate with ⟨live,idle⟩ | ⟨job,hjob,hrest⟩
    · by_cases hreap : ∃ age, c.op = .reapExpired age
      · obtain ⟨age,hop⟩ := hreap
        rcases reap_keeps_or_retires sound hop live idle with kept | ⟨job,hjob,hrest⟩
        · exact .inl kept
        · exact .inr ⟨job,List.mem_append_right _ hjob,hrest⟩
      · have notReap : ∀ age, c.op ≠ .reapExpired age := fun age he => hreap ⟨age,he⟩
        refine .inl ⟨?_,idle_of_no_reap notReap idle⟩
        refine call_keeps_live sound (new_of_fresh hfresh h.reached) notReap (fun shows => ?_) live
        by_contra hbeat
        exact orderly.2 k.runId k.leaseToken shows (fun ttl he => hbeat ⟨ttl,he⟩) held hheld howner
    · exact .inr ⟨job,List.mem_append_left _ hjob,hrest⟩
  · intro job hjob sessionId ht
    rcases List.mem_append.mp hjob with hold | hnew
    · exact h.target job hold sessionId ht
    · rw [(mem_releaseJobs hnew).1] at ht
      cases ht

variable {n : Nat}

theorem set_cases (hn : jobs[n]? = some job) (job' : ReleaseJob) (j : Nat) :
    (jobs.set n job')[j]? = some job' ∧ n = j ∨ (jobs.set n job')[j]? = jobs[j]? ∧ n ≠ j := by
  have bound := (List.getElem?_eq_some_iff.mp hn).1
  by_cases hj : n = j
  · exact .inl ⟨by simp [hj,hj ▸ bound],hj⟩
  · exact .inr ⟨by simp [hj],hj⟩

theorem left_before_set {j : Nat} {job' x : ReleaseJob} (hn : jobs[n]? = some job) (sub : ∀ t ∈ job'.left, t ∈ job.left)
    (hx : (jobs.set n job')[j]? = some x) : ∃ y : ReleaseJob, jobs[j]? = some y ∧ ∀ t ∈ x.left, t ∈ y.left := by
  rcases set_cases hn job' j with ⟨he,rfl⟩ | ⟨he,_⟩
  · rw [he] at hx
    cases hx
    exact ⟨job,hn,sub⟩
  · rw [he] at hx
    exact ⟨x,hx,fun _ ht => ht⟩

variable (h : Tended maxClaims listeners past w)
include h

theorem tended_job {n : Nat} {job : ReleaseJob}
    (hn : w.jobs[n]? = some job) (job' : ReleaseJob) (retired : job'.retired = job.retired)
    (sub : ∀ t ∈ job'.left, t ∈ job.left) (leases : Table Sessions.HeldLease.sessionId)
    (fewer : ∀ held ∈ leases, held ∈ w.sessions.leases ∧
      ∀ t, w.leads t held.sessionId → t ∈ job.left → t ∈ job'.left)
    (target : ∀ sessionId, job'.target = some sessionId →
      ∃ threadRef rest, job'.left = threadRef :: rest ∧ w.leads threadRef sessionId)
    (released : List ForcedRelease)
    (proper : ∀ f ∈ released, ∃ k ∈ f.retired, f.onBehalf = some k) :
    Tended maxClaims listeners (past ++ [.advance n]) {w with
        sessions := {w.sessions with leases := leases}
        jobs := w.jobs.set n job'
        released := released} := by
  have earlier := set_cases hn job'
  refine ⟨by simpa [calls] using h.reached,h.threads,
    by simpa [opens] using h.opened,?_,?_,?_,proper⟩
  · intro held hheld
    obtain ⟨hold,hkeep⟩ := fewer held hheld
    obtain ⟨k,threadRef,howner,hleads,hstate⟩ := h.held held hold
    refine ⟨k,threadRef,howner,hleads,?_⟩
    rcases hstate with ⟨live,idle⟩ | ⟨x,hx,hleft,hk⟩
    · refine .inl ⟨live,?_⟩
      rintro ⟨x,hx,hleft⟩
      obtain ⟨j,hj⟩ := List.mem_iff_getElem?.mp hx
      obtain ⟨y,hy,hsub⟩ := left_before_set hn sub hj
      exact idle ⟨y,List.mem_of_getElem? hy,hsub _ hleft⟩
    · right
      obtain ⟨j,hj⟩ := List.mem_iff_getElem?.mp hx
      rcases earlier j with ⟨he,rfl⟩ | ⟨he,_⟩
      · have same : x = job := Option.some.inj (hj.symm.trans hn)
        subst same
        exact ⟨job',List.mem_of_getElem? he,hkeep _ hleads hleft,retired ▸ hk⟩
      · exact ⟨x,List.mem_of_getElem? (he.trans hj),hleft,hk⟩
  · intro a b x y t hx hy ht ht'
    obtain ⟨x',hx',hsub⟩ := left_before_set hn sub hx
    obtain ⟨y',hy',hsub'⟩ := left_before_set hn sub hy
    exact h.single a b x' y' t hx' hy' (hsub t ht) (hsub' t ht')
  · intro x hx sessionId ht
    obtain ⟨j,hj⟩ := List.mem_iff_getElem?.mp hx
    rcases earlier j with ⟨he,rfl⟩ | ⟨he,_⟩
    · rw [he] at hj
      cases hj
      exact target sessionId ht
    · exact h.target x (List.mem_of_getElem? (he.symm.trans hj)) sessionId ht

theorem forced_release_proper (hn : w.jobs[n]? = some job)
    (ht : job.target = some sessionId) {held : Sessions.HeldLease}
    (hheld : w.sessions.leases.find? sessionId = some held) : ∃ k ∈ job.retired, w.ownerOf sessionId = some k := by
  obtain ⟨mem,hid⟩ := find?_eq_some.mp hheld
  obtain ⟨threadRef,rest,hleft,hleads⟩ := h.target job (List.mem_of_getElem? hn) sessionId ht
  obtain ⟨k,t,howner,hleads',hstate⟩ := h.held held mem
  have here : threadRef ∈ job.left := by simp [hleft]
  have same : t = threadRef := leads_inj h (hid ▸ hleads') hleads
  subst same
  rcases hstate with ⟨_,idle⟩ | ⟨x,hx,hxleft,hk⟩
  · exact absurd ⟨job,List.mem_of_getElem? hn,here⟩ idle
  · obtain ⟨j,hj⟩ := List.mem_iff_getElem?.mp hx
    have hjn := h.single j n x job t hj hn hxleft here
    rw [hjn,hn] at hj
    cases hj
    exact ⟨k,hk,hid ▸ howner⟩

theorem tended_advance (n : Nat) : Tended maxClaims listeners (past ++ [.advance n]) (w.step (.advance n)) := by
  have idle := tended_same h (.advance n) rfl rfl
  simp only [step]
  cases hn : w.jobs[n]? with
  | none => exact idle
  | some job =>
    have self := List.mem_of_getElem? hn
    simp only [advance]
    cases ht : job.target with
    | some sessionId =>
      obtain ⟨threadRef,rest,hleft,hleads⟩ := h.target job self sessionId ht
      refine tended_job h hn ⟨job.retired,job.left.tail,none⟩ rfl
        (fun t => List.mem_of_mem_tail) (w.sessions.leases.erase sessionId) ?_
        (fun _ hnone => by cases hnone) _ ?_
      · intro held hheld
        obtain ⟨hold,hne⟩ := mem_erase.mp hheld
        refine ⟨hold,fun t hl hin => ?_⟩
        rw [hleft] at hin ⊢
        rcases List.mem_cons.mp hin with rfl | hin
        · unfold leads at hl hleads
          rw [hleads] at hl
          exact absurd (Option.some.inj hl).symm hne
        · exact hin
      · intro f hf
        rcases List.mem_append.mp hf with hf | hf
        · exact h.proper f hf
        · cases hheld : w.sessions.leases.find? sessionId with
          | none => simp [hheld] at hf
          | some =>
            simp only [hheld,Option.map_some,Option.toList_some,List.mem_singleton] at hf
            rw [hf]
            exact forced_release_proper h hn ht hheld
    | none =>
      cases hleft : job.left with
      | nil => exact idle
      | cons threadRef rest =>
        simp only
        cases hget : w.sessions.getByThread threadRef with
        | some session =>
          refine tended_job h hn ⟨job.retired,threadRef :: rest,some session.id⟩ rfl
            (fun t ht => hleft ▸ ht) w.sessions.leases (fun held hm => ⟨hm,fun t _ hin => hleft ▸ hin⟩)
            ?_ w.released h.proper
          intro sessionId hs
          cases hs
          exact ⟨threadRef,rest,rfl,leads_of_getByThread hget⟩
        | none =>
          refine tended_job h hn ⟨job.retired,rest,none⟩ rfl
            (fun t ht => hleft ▸ List.mem_cons_of_mem _ ht) w.sessions.leases ?_
            (fun _ hs => by cases hs) w.released h.proper
          intro held hm
          refine ⟨hm,fun t hl hin => ?_⟩
          rw [hleft] at hin
          rcases List.mem_cons.mp hin with rfl | hin
          · obtain ⟨x,hx,_⟩ := getByThread_of_leads h hl
            rw [hget] at hx
            cases hx
          · exact hin

theorem tended_step (a : WorldAct) (fresh : FreshWorld (past ++ [a])) (orderly : w.Orderly a) :
    Tended maxClaims listeners (past ++ [a]) (w.step a) := by
  cases a with
  | call c => exact tended_call h c fresh orderly
  | openSession req uuid clock => exact tended_openSession h req uuid clock fresh
  | acquire => exact tended_acquire h orderly
  | release lease => exact tended_release h lease
  | append => exact tended_append h ..
  | advance n => exact tended_advance h n

end

theorem tended_start (maxClaims : Option Int) (listeners : List Listener) (ttl : Option Int) :
    Tended maxClaims listeners [] (start maxClaims listeners ttl) where
  reached := reached_run maxClaims listeners [] List.nodup_nil
  threads := nofun
  opened := nofun
  held := nofun
  single n m job job' t hn := by simp [start] at hn
  target job hjob := by cases hjob
  proper f hf := by cases hf

theorem freshWorld_closed (past : List WorldAct) (a : WorldAct) (h : FreshWorld (past ++ [a])) :
    FreshWorld past where
  runs := by
    have hruns := h.runs
    rw [List.flatMap_append] at hruns
    exact freshIds_append hruns
  sessions := by
    have hs := h.sessions
    rw [List.flatMap_append] at hs
    exact (List.nodup_append.mp hs).1
  real hm := h.real (by rw [List.flatMap_append]; exact List.mem_append_left _ hm)

theorem tended_run (maxClaims : Option Int) (listeners : List Listener) (ttl : Option Int)
    (acts : List WorldAct) (fresh : FreshWorld acts)
    (orderly : Along step World.Orderly (start maxClaims listeners ttl) acts) :
    Tended maxClaims listeners acts (run step (start maxClaims listeners ttl) acts) := by
  induction acts using List.reverseRecOn with
  | nil => exact tended_start maxClaims listeners ttl
  | append_singleton past a ih =>
    obtain ⟨hpast,hlast⟩ := (along_append _ past [a]).mp orderly
    rw [run_append]
    exact tended_step (ih (freshWorld_closed past a fresh) hpast) a fresh hlast.1

theorem forced_releases_only_retired (maxClaims : Option Int) (listeners : List Listener)
    (ttl : Option Int) (acts : List WorldAct) (fresh : FreshWorld acts)
    (orderly : Along step World.Orderly (start maxClaims listeners ttl) acts) :
    ∀ f ∈ (run step (start maxClaims listeners ttl) acts).released, ∃ k ∈ f.retired, f.onBehalf = some k :=
  (tended_run maxClaims listeners ttl acts fresh orderly).proper

def crashedTurn : List WorldAct :=
  [.call ⟨.enqueue (drillInput "T1" none) "r1",fun _ => 0⟩,
   .openSession ⟨"T1",.dm,"personal:U1",none,none⟩ "S1" (fun _ => 0),
   .call ⟨.claim "w1" 10 "t1",fun _ => 1⟩,
   .acquire "S1" (some .turn) (some ⟨"r1","t1"⟩) "l1" (fun _ => 2)]

def reapedTurn : List WorldAct :=
  crashedTurn ++ [.call ⟨.reapExpired none,fun _ => 99⟩,.advance 0,.advance 0]

theorem forced_releases_only_retired_crashed_turn : FreshWorld reapedTurn ∧
    (run step (start none [] none) reapedTurn).released.length = 1 ∧
    ∀ f ∈ (run step (start none [] none) reapedTurn).released, ∃ k ∈ f.retired, f.onBehalf = some k := by
  have fresh : FreshWorld reapedTurn := ⟨by unfold FreshIds; decide,by decide,by decide⟩
  refine ⟨fresh,by decide,forced_releases_only_retired none [] none reapedTurn fresh ?_⟩
  have plain {w : World} {c : Call} (reap : ∀ age, c.op ≠ .reapExpired age)
      (shows : c.op.presents = none) : w.Orderly (.call c) :=
    ⟨fun age he => absurd he (reap age),fun id token he => by rw [shows] at he; cases he⟩
  refine ⟨plain (by simp) rfl,trivial,plain (by simp) rfl,?_,?_,trivial,trivial,trivial⟩
  · refine ⟨⟨"r1","t1"⟩,"T1",rfl,⟨_,mem_of_find? (k := "r1") rfl,rfl,rfl,rfl⟩,rfl,?_⟩
    rintro ⟨job,hjob,_⟩
    cases hjob
  · refine ⟨?_,fun id token he => by cases he⟩
    rintro _ _ r _ _ ⟨job,hjob,_⟩
    cases hjob

def reclaimedTurn : List WorldAct :=
  crashedTurn ++ [.release ⟨"S1","l1"⟩,.call ⟨.reapExpired none,fun _ => 99⟩,
    .call ⟨.claim "w2" 1000 "t2",fun _ => 100⟩,.advance 0,
    .acquire "S1" (some .turn) (some ⟨"r1","t2"⟩) "l2" (fun _ => 101),.advance 0]

theorem forced_release_takes_reclaimed_lease : FreshWorld reclaimedTurn ∧
    (run step (start none [] none) reclaimedTurn).runs.runs.rows.map Run.leaseToken = [some "t2"] ∧
    ¬ ∀ f ∈ (run step (start none [] none) reclaimedTurn).released, ∃ k ∈ f.retired, f.onBehalf = some k := by
  refine ⟨⟨by unfold FreshIds; decide,by decide,by decide⟩,by decide,by decide⟩

end CompanyBrain.Runs
