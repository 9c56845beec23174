import CompanyBrain.Cron.Workers
import CompanyBrain.Foundations.LinkedChain

namespace CompanyBrain.Crons

open Foundations

def Cron.clock (c : Cron) : CronSchedule × Int × Option Int × Option Int :=
  (c.schedule,c.createdAt,c.lastFiredAt,c.nextFireAt)

def claimable : Except String (Option Int) → Option Int
  | .ok slot => slot
  | .error _ => none

def slotOf (cal : Calendar) (c : Cron) : Option Int := claimable (nextSlot cal c)

def afterClaim (cal : Calendar) (schedule : CronSchedule) (createdAt scheduledAt time : Int) : Option Int :=
  match advanceNextFireAt cal schedule (if isCalendarSchedule schedule then scheduledAt else time) with
  | .ok next => claimable (recoverNextFireAt cal schedule createdAt (some time) next)
  | .error _ => none

theorem claimable_some {slot : Except String (Option Int)} {x : Int}
    (h : claimable slot = some x) : slot = .ok (some x) := by
  cases slot with
  | ok => exact congrArg Except.ok h
  | error => cases h

section

variable {cal : Calendar} {schedule : CronSchedule} {createdAt scheduledAt time x : Int}

variable {c : Cron}

theorem slotOf_congr {d : Cron} (h : c.clock = d.clock) : slotOf cal c = slotOf cal d := by
  simp only [Cron.clock,Prod.mk.injEq] at h
  simp only [slotOf,nextSlot,h]

theorem slotOf_claimed {c' : Cron} (h : Claims cal scheduledAt time c c') :
    slotOf cal c' = afterClaim cal c.schedule c.createdAt scheduledAt time := by
  rw [afterClaim,h.advanced,slotOf,nextSlot,h.record]

theorem slotOf_restored {prior : Option Int}
    (h : slotOf cal {c with lastFiredAt := prior, nextFireAt := some scheduledAt} = some x) : x = scheduledAt := by
  have recovered := recover_some (claimable_some h)
  exact Option.some_inj.mp recovered

theorem recover_calendar {next : Option Int} (calendar : isCalendarSchedule schedule)
    (h : recoverNextFireAt cal schedule createdAt (some time) next = .ok (some x)) :
    next = some x ∨ (next = none ∧ time < x) := by
  cases next with
  | some => exact .inl (recover_some h).symm
  | none =>
    right
    rw [recoverNextFireAt,if_pos calendar] at h
    exact ⟨rfl,cal.later schedule time x h⟩

theorem recover_interval {next : Option Int} (interval : isCalendarSchedule schedule = false)
    (h : recoverNextFireAt cal schedule createdAt (some time) next = .ok (some x)) :
    next = some x ∨ (next = none ∧ ∃ everyMs, schedule.everyMs = some everyMs ∧ time < x) := by
  cases next with
  | some => exact .inl (recover_some h).symm
  | none =>
    right
    rw [recoverNextFireAt,interval] at h
    obtain ⟨everyMs,positive,h⟩ := bind_ok h
    obtain ⟨rfl,above⟩ := finitePositiveMs_ok positive
    obtain ⟨e,he,rfl⟩ := Option.map_eq_some_iff.mp (Except.ok.inj h)
    exact ⟨rfl,e,he,by have := above e he; omega⟩

theorem afterClaim_later (due : scheduledAt ≤ time)
    (h : afterClaim cal schedule createdAt scheduledAt time = some x) : scheduledAt < x := by
  unfold afterClaim at h
  split at h
  next next advanced =>
    have recovered := claimable_some h
    cases kind : isCalendarSchedule schedule with
    | true =>
      rw [if_pos kind,advanceNextFireAt,if_pos kind] at advanced
      rcases recover_calendar kind recovered with rfl | ⟨_,above⟩
      · exact cal.later schedule scheduledAt x advanced
      · omega
    | false =>
      rw [advanceNextFireAt,kind] at advanced
      obtain ⟨everyMs,positive,advanced⟩ := bind_ok advanced
      obtain ⟨rfl,above⟩ := finitePositiveMs_ok positive
      rcases recover_interval kind recovered with rfl | ⟨_,_,_,above⟩
      · obtain ⟨e,he,rfl⟩ := Option.map_eq_some_iff.mp (Except.ok.inj advanced)
        have := above e he
        omega
      · omega
  · cases h

theorem afterClaim_interval (interval : isCalendarSchedule schedule = false) (scheduledAt' : Int) :
    afterClaim cal schedule createdAt scheduledAt time = afterClaim cal schedule createdAt scheduledAt' time := by
  simp only [afterClaim,interval,Bool.false_eq_true,if_false]

theorem afterClaim_oneShot (once : isOneShot schedule) : afterClaim cal schedule createdAt scheduledAt time = none := by
  obtain ⟨every,cron⟩ := Bool.and_eq_true_iff.mp once
  rw [Option.isNone_iff_eq_none] at every cron
  simp [afterClaim,advanceNextFireAt,recoverNextFireAt,isCalendarSchedule,finitePositiveMs,
    every,cron,claimable,bind,Except.bind]

end

structure Watch where
  cal : Calendar
  jobs : Nat → CronFireJob
  id : String
  schedule : CronSchedule
  createdAt : Int
  lastFiredAt : Option Int
  slot : Option Int

namespace Watch

def slotAt (k : Watch) (c : SlotClaim) : Int := (k.jobs c.worker).scheduledAt

def after (k : Watch) (c : SlotClaim) : Option Int :=
  afterClaim k.cal k.schedule k.createdAt (k.slotAt c) c.time

def tip (k : Watch) (chain : List SlotClaim) : Option Int :=
  Foundations.tip k.after k.slot chain

def Known (k : Watch) (claims : List SlotClaim) (stamp slot : Option Int) : Prop :=
  (stamp = k.lastFiredAt ∧ slot = k.slot) ∨ ∃ c ∈ claims, stamp = some c.time ∧ slot = k.after c

structure Chained (k : Watch) (chain : List SlotClaim) (s : System) : Prop where
  record : ∀ c, s.store.find? k.id = some c → c.schedule = k.schedule ∧ c.createdAt = k.createdAt
  linked : Linked k.slotAt k.after k.slot chain
  made : ∀ c ∈ chain, c ∈ s.claims k.id
  due : ∀ c x, s.store.find? k.id = some c → slotOf k.cal c = some x → k.tip chain = some x
  stamped : ∀ c, s.store.find? k.id = some c → k.Known (s.claims k.id) c.lastFiredAt (k.tip chain)
  reads : ∀ w read time, (k.jobs w).cronId = k.id → (s.phase w).snapshot = some (read,time) →
    k.Known (s.claims k.id) read.lastFiredAt (some (k.jobs w).scheduledAt) ∧ (k.jobs w).scheduledAt ≤ time
  kept : ∀ w time, (k.jobs w).cronId = k.id → (s.phase w).claimedAt = some time → ⟨w,time⟩ ∈ chain
  tried : ∀ c ∈ s.claims k.id, (k.jobs c.worker).cronId = k.id ∧ (s.phase c.worker).tried
  single : ((s.claims k.id).map SlotClaim.worker).Nodup
  timely : ∀ c ∈ s.claims k.id, k.slotAt c ≤ c.time
  apart : ∀ c ∈ s.claims k.id, ∀ d ∈ s.claims k.id, c.time = d.time → k.after c = k.after d
  ordered : (s.claims k.id).Pairwise fun a b => a ∈ chain → b ∈ chain → k.slotAt a < k.slotAt b

structure Onward (k : Watch) (s : System) (w : Nat) (p : Phase) : Prop where
  snapshot : ∀ read time, p.snapshot = some (read,time) → (s.phase w).snapshot = some (read,time) ∨
      (s.store.find? k.id = some read ∧ slotOf k.cal read = some (k.jobs w).scheduledAt ∧
        (k.jobs w).scheduledAt ≤ time)
  claimedAt : ∀ time, p.claimedAt = some time → (s.phase w).claimedAt = some time
  tried : (s.phase w).tried → p.tried

structure Calm (k : Watch) (w : Nat) (s s' : System) : Prop where
  clock : (s'.store.find? k.id).map Cron.clock = (s.store.find? k.id).map Cron.clock
  claims : s'.claims k.id = s.claims k.id
  others : ∀ v, v ≠ w → s'.phase v = s.phase v
  onward : (k.jobs w).cronId = k.id → k.Onward s w (s'.phase w)

end Watch

section

variable {k : Watch} {chain : List SlotClaim} {s s' : System} {w : Nat}

theorem Watch.Known.mono {claims claims' : List SlotClaim} {stamp slot : Option Int}
    (known : k.Known claims stamp slot) (more : ∀ c ∈ claims, c ∈ claims') : k.Known claims' stamp slot := by
  rcases known with start | ⟨c,hc,at_c⟩
  · exact .inl start
  · exact .inr ⟨c,more c hc,at_c⟩

theorem Watch.Chained.later (inv : k.Chained chain s) : ∀ c ∈ chain, ∀ x, k.after c = some x → k.slotAt c < x := by
  intro c hc x hx
  exact afterClaim_later (inv.timely c (inv.made c hc)) hx

theorem Watch.Calm.find (calm : k.Calm w s s') {c' : Cron} (hc' : s'.store.find? k.id = some c') :
    ∃ c, s.store.find? k.id = some c ∧ c.clock = c'.clock := by
  have same := calm.clock
  rw [hc'] at same
  exact Option.map_eq_some_iff.mp same.symm

theorem Watch.Calm.phase (calm : k.Calm w s s') (v : Nat)
    (mine : (k.jobs v).cronId = k.id) : k.Onward s v (s'.phase v) := by
  by_cases hv : v = w
  · subst hv
    exact calm.onward mine
  · rw [calm.others v hv]
    exact ⟨fun _ _ h => .inl h,fun _ h => h,fun h => h⟩

theorem Watch.Chained.calm (inv : k.Chained chain s) (calm : k.Calm w s s') : k.Chained chain s' := by
  constructor
  case record =>
    intro c' hc'
    obtain ⟨c,hc,same⟩ := calm.find hc'
    have kept := inv.record c hc
    simp only [Cron.clock,Prod.mk.injEq] at same
    rw [← same.1,← same.2.1]
    exact kept
  case linked => exact inv.linked
  case made =>
    rw [calm.claims]
    exact inv.made
  case due =>
    intro c' x hc' hx
    obtain ⟨c,hc,same⟩ := calm.find hc'
    exact inv.due c x hc ((slotOf_congr same).trans hx)
  case stamped =>
    intro c' hc'
    obtain ⟨c,hc,same⟩ := calm.find hc'
    have known := inv.stamped c hc
    simp only [Cron.clock,Prod.mk.injEq] at same
    rw [calm.claims,← same.2.2.1]
    exact known
  case reads =>
    intro v read time mine snap
    rw [calm.claims]
    rcases (calm.phase v mine).snapshot read time snap with old | ⟨found,slot,due⟩
    · exact inv.reads v read time mine old
    · have tip := inv.due read _ found slot
      exact ⟨tip ▸ inv.stamped read found,due⟩
  case kept =>
    intro v time mine claimed
    exact inv.kept v time mine ((calm.phase v mine).claimedAt time claimed)
  case tried =>
    rw [calm.claims]
    intro c hc
    have mine := (inv.tried c hc).1
    exact ⟨mine,(calm.phase c.worker mine).tried (inv.tried c hc).2⟩
  case single =>
    rw [calm.claims]
    exact inv.single
  case timely =>
    rw [calm.claims]
    exact inv.timely
  case apart =>
    rw [calm.claims]
    exact inv.apart
  case ordered =>
    rw [calm.claims]
    exact inv.ordered

variable {read : Cron} {time : Int}

theorem Watch.Chained.untried (inv : k.Chained chain s) (phase : s.phase w = .checked read time) :
    ∀ d ∈ s.claims k.id, d.worker ≠ w := by
  intro d hd same
  have tried := (inv.tried d hd).2
  rw [same,phase] at tried
  cases tried

variable {new : SlotClaim}

theorem Watch.Chained.single_claim (inv : k.Chained chain s) (fresh : ∀ d ∈ s.claims k.id, d.worker ≠ new.worker) :
    ((s.claims k.id ++ [new]).map SlotClaim.worker).Nodup := by
  rw [List.map_append]
  refine inv.single.append (List.nodup_singleton new.worker) ?_
  intro v hv hw
  obtain ⟨d,hd,rfl⟩ := List.mem_map.mp hv
  exact fresh d hd (List.mem_singleton.mp hw)

theorem Watch.Chained.apart_claim (inv : k.Chained chain s)
    (distinct : ∀ d ∈ s.claims k.id, d.time = new.time → k.after d = k.after new) :
    ∀ d ∈ s.claims k.id ++ [new], ∀ e ∈ s.claims k.id ++ [new], d.time = e.time → k.after d = k.after e := by
  refine forall_snoc (fun d hd => forall_snoc (inv.apart d hd) (distinct d hd))
    (forall_snoc (fun e he same => ?_) fun _ => rfl)
  exact (distinct e he same.symm).symm

theorem Watch.Chained.ordered_claim (inv : k.Chained chain s) (fresh : ∀ d ∈ s.claims k.id, d.worker ≠ new.worker)
    (tip : k.tip chain = some (k.slotAt new)) : (s.claims k.id ++ [new]).Pairwise fun a b =>
      a ∈ chain ++ [new] → b ∈ chain ++ [new] → k.slotAt a < k.slotAt b := by
  have old : ∀ d ∈ s.claims k.id, d ∈ chain ++ [new] → d ∈ chain := by
    intro d hd kept
    rcases List.mem_append.mp kept with kept | last
    · exact kept
    · exact absurd (congrArg SlotClaim.worker (List.mem_singleton.mp last)) (fresh d hd)
  refine List.pairwise_append.mpr ⟨?_,List.pairwise_singleton _ _,?_⟩
  · refine inv.ordered.imp_of_mem fun {a b} ha hb below ha' hb' => ?_
    exact below (old a ha ha') (old b hb hb')
  · intro d hd e he hd' _
    rw [List.mem_singleton.mp he]
    exact slot_lt_tip chain inv.later inv.linked (old d hd hd') tip

variable {c : Cron}

theorem Watch.Chained.claim (inv : k.Chained chain s) (mine : (k.jobs w).cronId = k.id) {c' : Cron}
    (phase : s.phase w = .checked read time) (found : s.store.find? k.id = some c)
    (claims : Claims k.cal (k.jobs w).scheduledAt time c c')
    (distinct : ∀ d ∈ s.claims k.id, d.time = time → k.after d = k.after ⟨w,time⟩)
    (stored : s'.store.find? k.id = some c') (logged : s'.claims k.id = s.claims k.id ++ [⟨w,time⟩])
    (moved : s'.phase w = .firing read time) (others : ∀ v, v ≠ w → s'.phase v = s.phase v) :
    k.Chained (chain ++ [⟨w,time⟩]) s' := by
  have slot : slotOf k.cal c = some (k.slotAt ⟨w,time⟩) := by
    rw [slotOf,claims.due]
    rfl
  have tip : k.tip chain = some (k.slotAt ⟨w,time⟩) := inv.due c _ found slot
  have more : ∀ d ∈ s.claims k.id, d ∈ s'.claims k.id := by
    intro d hd
    rw [logged]
    exact List.mem_append_left _ hd
  have added : (⟨w,time⟩ : SlotClaim) ∈ s'.claims k.id := by simp [logged]
  obtain ⟨read_known,due⟩ := inv.reads w read time mine (by rw [phase]; rfl)
  obtain ⟨scheduled,created⟩ := inv.record c found
  have after : slotOf k.cal c' = k.after ⟨w,time⟩ := by
    rw [slotOf_claimed claims,scheduled]
    rfl
  constructor
  case record =>
    intro d hd
    rw [stored] at hd
    cases hd
    rw [claims.record]
    exact ⟨scheduled,created⟩
  case linked => exact (linked_snoc chain _).mpr ⟨inv.linked,tip⟩
  case made => exact forall_snoc (fun d hd => more d (inv.made d hd)) added
  case due =>
    intro d x hd hx
    rw [stored] at hd
    cases hd
    rw [Watch.tip,tip_snoc,← after]
    exact hx
  case stamped =>
    intro d hd
    rw [stored] at hd
    cases hd
    refine .inr ⟨⟨w,time⟩,added,?_,?_⟩
    · rw [claims.record]
    · rw [Watch.tip,tip_snoc]
  case reads =>
    intro v read' time' mine' snap
    by_cases hv : v = w
    · subst hv
      rw [moved] at snap
      cases snap
      exact ⟨read_known.mono more,due⟩
    · rw [others v hv] at snap
      obtain ⟨known,due'⟩ := inv.reads v read' time' mine' snap
      exact ⟨known.mono more,due'⟩
  case kept =>
    intro v time' mine' claimed
    by_cases hv : v = w
    · subst hv
      rw [moved] at claimed
      cases claimed
      simp
    · rw [others v hv] at claimed
      exact List.mem_append_left _ (inv.kept v time' mine' claimed)
  case tried =>
    rw [logged]
    refine forall_snoc (fun d hd => ?_) ⟨mine,by rw [moved]; rfl⟩
    rw [others d.worker (inv.untried phase d hd)]
    exact inv.tried d hd
  case single =>
    rw [logged]
    exact inv.single_claim (inv.untried phase)
  case timely =>
    rw [logged]
    exact forall_snoc inv.timely due
  case apart =>
    rw [logged]
    exact inv.apart_claim distinct
  case ordered =>
    rw [logged]
    exact inv.ordered_claim (inv.untried phase) tip

theorem Watch.Chained.claim_is_last (inv : k.Chained chain s) (mine : (k.jobs w).cronId = k.id)
    (claimed : (s.phase w).claimedAt = some time) (found : s.store.find? k.id = some c)
    (stamp : c.lastFiredAt = some time) : ∃ earlier, chain = earlier ++ [⟨w,time⟩] := by
  have kept := inv.kept w time mine claimed
  refine last_of_after_eq_tip inv.later inv.linked kept ?_
  rcases inv.stamped c found with ⟨_,start⟩ | ⟨d,hd,at_d,tip⟩
  · exact absurd start (tip_ne_start inv.later inv.linked (List.ne_nil_of_mem kept))
  · rw [stamp,Option.some_inj] at at_d
    exact (inv.apart _ (inv.made _ kept) d hd at_d).trans tip.symm

theorem Watch.Chained.undo {earlier : List SlotClaim} (inv : k.Chained (earlier ++ [⟨w,time⟩]) s)
    (mine : (k.jobs w).cronId = k.id) (phase : s.phase w = .failed read time) (found : s.store.find? k.id = some c)
    (stored : s'.store.find? k.id =
      some {c with lastFiredAt := read.lastFiredAt, nextFireAt := some (k.jobs w).scheduledAt})
    (logged : s'.claims k.id = s.claims k.id) (moved : s'.phase w = .ended)
    (others : ∀ v, v ≠ w → s'.phase v = s.phase v) : k.Chained earlier s' := by
  obtain ⟨linked,tip⟩ := (linked_snoc earlier _).mp inv.linked
  have known := (inv.reads w read time mine (by rw [phase]; rfl)).1
  constructor
  case record =>
    intro d hd
    rw [stored] at hd
    cases hd
    exact inv.record c found
  case linked => exact linked
  case made =>
    intro d hd
    rw [logged]
    exact inv.made d (List.mem_append_left _ hd)
  case due =>
    intro d x hd hx
    rw [stored] at hd
    cases hd
    rw [slotOf_restored hx]
    exact tip
  case stamped =>
    intro d hd
    rw [stored] at hd
    cases hd
    rw [logged]
    exact Eq.mpr (congrArg _ tip) known
  case reads =>
    intro v read' time' mine' snap
    rw [logged]
    by_cases hv : v = w
    · rw [hv,moved] at snap
      cases snap
    · rw [others v hv] at snap
      exact inv.reads v read' time' mine' snap
  case kept =>
    intro v time' mine' claimed
    by_cases hv : v = w
    · rw [hv,moved] at claimed
      cases claimed
    · rw [others v hv] at claimed
      rcases List.mem_append.mp (inv.kept v time' mine' claimed) with kept | last
      · exact kept
      · exact absurd (congrArg SlotClaim.worker (List.mem_singleton.mp last)) hv
  case tried =>
    intro d hd
    rw [logged] at hd
    refine ⟨(inv.tried d hd).1,?_⟩
    by_cases hw : d.worker = w
    · rw [hw,moved]
      rfl
    · rw [others d.worker hw]
      exact (inv.tried d hd).2
  case single =>
    rw [logged]
    exact inv.single
  case timely =>
    rw [logged]
    exact inv.timely
  case apart =>
    rw [logged]
    exact inv.apart
  case ordered =>
    rw [logged]
    refine inv.ordered.imp fun {a b} below ha hb => ?_
    exact below (List.mem_append_left _ ha) (List.mem_append_left _ hb)

end

end CompanyBrain.Crons
