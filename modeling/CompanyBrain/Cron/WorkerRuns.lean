import CompanyBrain.Cron.SlotOrder
import Mathlib.Data.List.Perm.Subperm

namespace CompanyBrain.Crons

open Foundations Table

def DistinctTimes (cal : Calendar) (jobs : Nat → CronFireJob) (s : System) : Action → Prop
  | .claim w => ∀ read time c, s.phase w = .checked read time →
      s.store.find? (jobs w).cronId = some c → isCalendarSchedule c.schedule = true →
      (s.store.claimSlot cal (jobs w).cronId (jobs w).scheduledAt time).2 = true →
      ∀ d ∈ s.claims (jobs w).cronId, d.time = time → (jobs d.worker).scheduledAt = (jobs w).scheduledAt
  | _ => True

section

variable {k : Watch} {chain : List SlotClaim} {s : System} {w : Nat}

theorem clock_change {store : Store} {id : String} {f : Cron → Cron}
    (hid : ∀ c, (f c).id = c.id) (hclock : ∀ c, (f c).clock = c.clock) (j : String) :
    ((store.change id f).find? j).map Cron.clock = (store.find? j).map Cron.clock := by
  rw [find?_change hid]
  split
  next hj =>
    rw [hj,Option.map_map]
    congr 1
    exact funext hclock
  · rfl

theorem clock_recordOutcome (store : Store) (id : String) (entry : Option CronFireLogEntry) (j : String) :
    ((store.recordOutcome id entry).find? j).map Cron.clock = (store.find? j).map Cron.clock := by
  cases entry with
  | none => rfl
  | some entry => apply clock_change <;> exact fun _ => rfl

@[simp] theorem System.to_phase_self (p : Phase) : (s.to w p).phase w = p := if_pos rfl

theorem System.to_phase_other (p : Phase) {v : Nat} (hv : v ≠ w) : (s.to w p).phase v = s.phase v := if_neg hv

variable {p : Phase}

theorem calm_to {store : Store} (clock : (store.find? k.id).map Cron.clock = (s.store.find? k.id).map Cron.clock)
    (onward : (k.jobs w).cronId = k.id → k.Onward s w p) : k.Calm w s ({s with store := store}.to w p) where
  clock := clock
  claims := rfl
  others _ hv := System.to_phase_other p hv
  onward mine := by
    rw [System.to_phase_self]
    exact onward mine

theorem onward_same {p q : Phase} (phase : s.phase w = q) (snapshot : p.snapshot = q.snapshot)
    (claimedAt : p.claimedAt = q.claimedAt) (tried : q.tried → p.tried) : k.Onward s w p where
  snapshot _ _ h := .inl (by rw [phase,← snapshot]; exact h)
  claimedAt _ h := by rw [phase,← claimedAt]; exact h
  tried h := tried (phase ▸ h)

theorem onward_ended : k.Onward s w .ended where
  snapshot := by simp [Phase.snapshot]
  claimedAt := by simp [Phase.claimedAt]
  tried _ := rfl

theorem onward_fired {read : Cron} {time : Int} (phase : s.phase w = .ran read time) : k.Onward s w (.fired time) where
  snapshot := by simp [Phase.snapshot]
  claimedAt _ h := by rw [phase]; exact h
  tried _ := rfl

theorem checkJob_cases (cal : Calendar) (store : Store) (job : CronFireJob) (time : Int) :
    checkJob cal store job time = .ended ∨
      ∃ c, checkJob cal store job time = .checked c time ∧ store.find? job.cronId = some c ∧
        slotOf cal c = some job.scheduledAt ∧ job.scheduledAt ≤ time := by
  unfold checkJob
  split
  · exact .inl rfl
  next c found =>
    split
    · exact .inl rfl
    · split
      next slot due =>
        split
        · exact .inl rfl
        next same =>
          rw [not_not] at same
          split
          · exact .inl rfl
          next timely =>
            refine .inr ⟨c,rfl,found,?_,same ▸ not_lt.mp timely⟩
            rw [slotOf,due,same]
            rfl
      · exact .inl rfl

theorem onward_checkJob {time : Int} (phase : s.phase w = .ready) (mine : (k.jobs w).cronId = k.id) :
    k.Onward s w (checkJob k.cal s.store (k.jobs w) time) := by
  rcases checkJob_cases k.cal s.store (k.jobs w) time with ended | ⟨c,checked,found,slot,due⟩
  · rw [ended]
    exact onward_ended
  · rw [checked]
    refine ⟨fun read time' snap => ?_,by simp [Phase.claimedAt],fun h => ?_⟩
    · cases snap
      exact .inr ⟨mine ▸ found,slot,due⟩
    · rw [phase] at h
      cases h

section

variable (inv : k.Chained chain s)
include inv

theorem Watch.Chained.onward {store : Store}
    (clock : (store.find? k.id).map Cron.clock = (s.store.find? k.id).map Cron.clock)
    (onward : (k.jobs w).cronId = k.id → k.Onward s w p) :
    ∃ chain', k.Chained chain' ({s with store := store}.to w p) :=
  ⟨chain,inv.calm (calm_to clock onward)⟩

theorem chained_claim (guard : DistinctTimes k.cal k.jobs s (.claim w)) :
    ∃ chain', k.Chained chain' (s.exec k.cal k.jobs (.claim w)) := by
  simp only [System.exec]
  split
  next read time phase =>
    rcases claimSlot_cases k.cal s.store (k.jobs w).cronId (k.jobs w).scheduledAt time with
      ⟨c,c',found,claimed,done⟩ | ⟨_,refused⟩
    · rw [done]
      have claims := claimed_spec claimed
      have key : c'.id = (k.jobs w).cronId := (claimed_id claimed).trans (key_of_find? found)
      have others : ∀ p : Phase, ∀ v, v ≠ w →
          (({s with store := s.store.set c'}.withClaim (k.jobs w).cronId ⟨w,time⟩).to w p).phase v =
            s.phase v := fun p v hv => System.to_phase_other p hv
      by_cases mine : (k.jobs w).cronId = k.id
      · refine ⟨chain ++ [⟨w,time⟩],inv.claim mine phase (mine ▸ found) claims ?_ ?_ ?_
          (System.to_phase_self _) (others _)⟩
        · intro d hd same
          cases kind : isCalendarSchedule k.schedule with
          | true =>
            have scheduled := (inv.record c (mine ▸ found)).1
            have slot := guard read time c phase found (scheduled ▸ kind) (by rw [done]) d (mine ▸ hd) same
            simp only [Watch.after,Watch.slotAt,slot,same]
          | false =>
            simp only [Watch.after,same]
            exact afterClaim_interval kind _
        · exact (find?_set s.store c' k.id).trans (if_pos (key.trans mine).symm)
        · exact if_pos mine.symm
      · refine ⟨chain,inv.calm ⟨?_,?_,others _,fun h => absurd h mine⟩⟩
        · refine congrArg _ ((find?_set s.store c' k.id).trans (if_neg ?_))
          rw [key]
          exact Ne.symm mine
        · exact if_neg (Ne.symm mine)
    · rw [refused]
      exact inv.onward rfl fun _ => onward_ended
  · exact ⟨chain,inv⟩

theorem chained_unclaim : ∃ chain', k.Chained chain' (s.exec k.cal k.jobs (.unclaim w)) := by
  simp only [System.exec]
  split
  next read time phase =>
    by_cases mine : (k.jobs w).cronId = k.id ∧ ∃ c, s.store.find? k.id = some c ∧ c.lastFiredAt = some time
    · obtain ⟨mine,c,found,stamp⟩ := mine
      have claimed : (s.phase w).claimedAt = some time := by
        rw [phase]
        rfl
      obtain ⟨earlier,rfl⟩ := inv.claim_is_last mine claimed found stamp
      refine ⟨earlier,inv.undo mine phase found ?_ rfl (System.to_phase_self _)
        fun v hv => System.to_phase_other _ hv⟩
      have restores := find?_unclaim s.store k.id (k.jobs w).scheduledAt time read.lastFiredAt
      rw [found,Option.map_some,restored,if_neg (not_not.mpr stamp),← mine] at restores
      rw [← mine]
      exact restores
    · refine inv.onward (congrArg _ ?_) fun _ => onward_ended
      refine find?_unclaim_other (fun same c found stamp => mine ⟨same.symm,c,?_,stamp⟩) _ _
      rw [same]
      exact found
  · exact ⟨chain,inv⟩

theorem chained_exec (a : Action) (guard : DistinctTimes k.cal k.jobs s a) :
    ∃ chain', k.Chained chain' (s.exec k.cal k.jobs a) := by
  cases a with
  | read =>
    simp only [System.exec]
    split
    next phase => exact inv.onward rfl (onward_checkJob phase)
    · exact ⟨chain,inv⟩
  | claim => exact chained_claim inv guard
  | run =>
    simp only [System.exec]
    split
    next phase => exact inv.onward (clock_recordOutcome ..) fun _ => onward_same phase rfl rfl id
    · exact ⟨chain,inv⟩
  | refuse =>
    simp only [System.exec]
    split
    next phase =>
      exact inv.onward (by apply clock_change <;> exact fun _ => rfl) fun _ => onward_same phase rfl rfl id
    · exact ⟨chain,inv⟩
  | fail =>
    simp only [System.exec]
    split
    next phase => exact inv.onward (clock_recordOutcome ..) fun _ => onward_same phase rfl rfl id
    next phase => exact inv.onward rfl fun _ => onward_same phase rfl rfl id
    next phase => exact inv.onward rfl fun _ => onward_same phase rfl rfl id
    · exact ⟨chain,inv⟩
  | settle =>
    simp only [System.exec]
    split
    next phase =>
      split
      · exact inv.onward (by apply clock_change <;> exact fun _ => rfl) fun _ => onward_fired phase
      · exact inv.onward rfl fun _ => onward_fired phase
    next phase =>
      exact inv.onward (by apply clock_change <;> exact fun _ => rfl) fun _ => onward_same phase rfl rfl id
    · exact ⟨chain,inv⟩
  | unclaim => exact chained_unclaim inv

end

theorem chained_start {store : Store} (start : ∀ c, store.find? k.id = some c → c.schedule = k.schedule ∧
      c.createdAt = k.createdAt ∧ c.lastFiredAt = k.lastFiredAt ∧ slotOf k.cal c = k.slot) :
    k.Chained [] (System.start store) where
  record c hc := ⟨(start c hc).1,(start c hc).2.1⟩
  linked := trivial
  made := by simp
  due c x hc hx := (start c hc).2.2.2.symm.trans hx
  stamped c hc := .inl ⟨(start c hc).2.2.1,rfl⟩
  reads := by simp [System.start,Phase.snapshot]
  kept := by simp [System.start,Phase.claimedAt]
  tried := by simp [System.start]
  single := List.nodup_nil
  timely := by simp [System.start]
  apart := by simp [System.start]
  ordered := .nil

theorem exists_chained (cal : Calendar) (jobs : Nat → CronFireJob) (store : Store) (id : String) :
    ∃ k : Watch, k.cal = cal ∧ k.jobs = jobs ∧ k.id = id ∧ k.Chained [] (System.start store) := by
  cases found : store.find? id with
  | none =>
    refine ⟨⟨cal,jobs,id,⟨none,none,none,none⟩,0,none,none⟩,rfl,rfl,rfl,?_⟩
    exact chained_start (by simp [found])
  | some c =>
    refine ⟨⟨cal,jobs,id,c.schedule,c.createdAt,c.lastFiredAt,slotOf cal c⟩,rfl,rfl,rfl,?_⟩
    exact chained_start (by simp [found])

theorem claimed_of_holds (holds : p.holds) : ∃ time, p.claimedAt = some time := by
  cases p <;> first | exact ⟨_,rfl⟩ | cases holds

theorem claimed_of_succeeded (succeeded : p.succeeded) : ∃ time, p.claimedAt = some time := by
  cases p <;> first | exact ⟨_,rfl⟩ | cases succeeded

variable (inv : k.Chained chain s)
include inv

theorem Watch.Chained.exclusive {v w : Nat} (hv : (k.jobs v).cronId = k.id) (hw : (k.jobs w).cronId = k.id)
    (same : (k.jobs v).scheduledAt = (k.jobs w).scheduledAt) (holds : (s.phase v).holds)
    (holds' : (s.phase w).holds) : v = w := by
  obtain ⟨t,ht⟩ := claimed_of_holds holds
  obtain ⟨t',ht'⟩ := claimed_of_holds holds'
  have increasing := linked_increasing chain inv.later inv.linked
  have equal := eq_of_slot_eq increasing (inv.kept v t hv ht) (inv.kept w t' hw ht') same
  exact congrArg SlotClaim.worker equal

theorem Watch.Chained.succeeded_kept {c : SlotClaim}
    (hc : c ∈ s.claims k.id) (succeeded : (s.phase c.worker).succeeded) : c ∈ chain := by
  obtain ⟨time,claimed⟩ := claimed_of_succeeded succeeded
  have kept := inv.kept c.worker time (inv.tried c hc).1 claimed
  have same := List.inj_on_of_nodup_map inv.single hc (inv.made _ kept) rfl
  rw [same]
  exact kept

theorem Watch.Chained.increasing : (claimedSlots k.jobs s k.id Phase.succeeded).Pairwise (· < ·) := by
  refine List.pairwise_map.mpr (List.pairwise_filter.mpr ?_)
  refine inv.ordered.imp_of_mem fun {a b} ha hb below succeeded succeeded' => ?_
  exact below (inv.succeeded_kept ha succeeded) (inv.succeeded_kept hb succeeded')

theorem Watch.Chained.oneShot (once : isOneShot k.schedule) :
    (claimedSlots k.jobs s k.id Phase.succeeded).length ≤ 1 := by
  have short : chain.length ≤ 1 := linked_short inv.linked fun _ _ => afterClaim_oneShot once
  have nodup := (inv.single.of_map).filter fun c => (s.phase c.worker).succeeded
  have kept : (s.claims k.id).filter (fun c => (s.phase c.worker).succeeded) ⊆ chain := by
    intro c hc
    obtain ⟨hc,succeeded⟩ := List.mem_filter.mp hc
    exact inv.succeeded_kept hc succeeded
  rw [claimedSlots,List.length_map]
  exact (List.subperm_of_subset nodup kept).length_le.trans short

theorem slotsInOrder_of_chained : SlotsInOrder k.jobs k.id s where
  exclusive _ _ hv hw same holds holds' := inv.exclusive hv hw same holds holds'
  increasing := inv.increasing
  oneShot c found once := inv.oneShot ((inv.record c found).1 ▸ once)

end

theorem worker_slots_in_order (cal : Calendar) (jobs : Nat → CronFireJob) (store : Store) (actions : List Action)
    (distinct : Along (System.exec cal jobs) (DistinctTimes cal jobs) (System.start store) actions) (id : String) :
    SlotsInOrder jobs id (run (System.exec cal jobs) (System.start store) actions) := by
  obtain ⟨k,rfl,rfl,rfl,start⟩ := exists_chained cal jobs store id
  have step : ∀ s a, DistinctTimes k.cal k.jobs s a → (∃ chain, k.Chained chain s) →
      ∃ chain, k.Chained chain (s.exec k.cal k.jobs a) := by
    rintro s a guard ⟨chain,inv⟩
    exact chained_exec inv a guard
  obtain ⟨chain,inv⟩ := run_along step (System.start store) actions distinct ⟨[],start⟩
  exact slotsInOrder_of_chained inv

def everyMinute : Calendar where
  nextRun _ asked := .ok (some ((asked / 60000+1) * 60000))
  validTimezone _ := true
  later := by
    intro schedule asked next h
    cases Except.ok.inj h
    omega

def tickReport : Cron where
  id := "cron_tick"
  enabled := true
  createdAt := 0
  lastFiredAt := none
  schedule := ⟨some "* * * * *",some "UTC",none,none⟩
  nextFireAt := some 60000
  archived := false
  title := none
  action := some "post the report"
  message := none
  destination := none
  recipientConsent := none
  runAs := none
  members := none
  fireLog := []

def tickJobs (w : Nat) : CronFireJob := ⟨"cron_tick",if w % 2 = 0 then 60000 else 120000⟩

def tickStart : System := System.start (set empty tickReport)

def catchUp : List Action :=
  [.read 0 300000,.claim 0,.read 1 300000,.claim 1,.fail 0 none,.unclaim 0,
    .read 2 300001,.claim 2,.read 3 300002,.claim 3]

theorem same_time_claims_break_order :
    ((run (System.exec everyMinute tickJobs) tickStart catchUp).phase 1).holds = true ∧
      ((run (System.exec everyMinute tickJobs) tickStart catchUp).phase 3).holds = true ∧
      ¬SlotsInOrder tickJobs "cron_tick" (run (System.exec everyMinute tickJobs) tickStart catchUp) := by
  have first : ((run (System.exec everyMinute tickJobs) tickStart catchUp).phase 1).holds = true := by
    decide +kernel
  have second : ((run (System.exec everyMinute tickJobs) tickStart catchUp).phase 3).holds = true := by
    decide +kernel
  refine ⟨first,second,fun inOrder => ?_⟩
  exact absurd (inOrder.exclusive 1 3 rfl rfl rfl first second) (by decide)

def spacedCatchUp : List Action :=
  [.read 0 300000,.claim 0,.read 1 300001,.claim 1,.fail 0 none,.unclaim 0,.run 1 none,.settle 1]

theorem worker_slots_in_order_spaced : SlotsInOrder tickJobs "cron_tick"
      (run (System.exec everyMinute tickJobs) tickStart spacedCatchUp) := by
  refine worker_slots_in_order everyMinute tickJobs _ spacedCatchUp ?_ "cron_tick"
  refine ⟨trivial,?_,trivial,?_,trivial,trivial,trivial,trivial,trivial⟩
  · intro read time c phase found kind ok d hd
    cases hd
  · intro read time c phase found kind ok d hd same
    have claims : d = ⟨0,300000⟩ := List.mem_singleton.mp hd
    have now : ((run (System.exec everyMinute tickJobs) tickStart
        [.read 0 300000,.claim 0,.read 1 300001]).phase 1).snapshot.map Prod.snd = some 300001 := by
      decide +kernel
    have read_at := congrArg (fun p => p.snapshot.map Prod.snd) phase
    have later : 300001 = time := Option.some_inj.mp (now.symm.trans read_at)
    rw [claims,← later] at same
    exact absurd same (by decide)

end CompanyBrain.Crons
