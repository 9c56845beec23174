import CompanyBrain.Cron.CronStore
import CompanyBrain.Foundations.History

namespace CompanyBrain.Crons

open Foundations Table
open Triggers (Destination RecipientConsent)

inductive StoreOp where
  | create (c : Cron)
  | update (id : String) (patch : CronPatch) (now : Int)
  | delete (id : String)
  | setEnabled (id : String) (enabled : Bool)
  | setDestination (id : String) (destination : Option Destination)
  | setRecipientConsent (id : String) (consent : RecipientConsent)
  | recordFire (id : String) (entry : CronFireLogEntry)
  | markFired (read : Cron) (time : Int) (scheduledAt : Option Int)
  | claimSlot (id : String) (scheduledAt time : Int)
  | unclaimSlot (id : String) (scheduledAt time : Int) (prior : Option Int)

def StoreOp.exec (cal : Calendar) (store : Store) : StoreOp → Store
  | create c => store.create c
  | update id patch now => store.update cal id patch now
  | delete id => store.erase id
  | setEnabled id enabled => store.setEnabled id enabled
  | setDestination id destination => store.setDestination id destination
  | setRecipientConsent id consent => store.setRecipientConsent id consent
  | recordFire id entry => store.recordFire id entry
  | markFired read time scheduledAt => store.markFired cal read time scheduledAt
  | claimSlot id scheduledAt time => (store.claimSlot cal id scheduledAt time).1
  | unclaimSlot id scheduledAt time prior => store.unclaimSlot id scheduledAt time prior

inductive TimesWrite where
  | claim
  | edit
  | claimed (scheduledAt : Int)
  | unclaimed (scheduledAt : Int)
  | deleted
  | other
deriving DecidableEq

structure Since where
  edited : Bool
  claims : List Int
  last : TimesWrite
deriving DecidableEq

def Since.record (s : Since) (w : TimesWrite) : Since where
  edited := match w with
    | .edit => true
    | .deleted => false
    | _ => s.edited
  claims := match w with
    | .claimed scheduledAt => scheduledAt :: s.claims
    | .unclaimed scheduledAt => s.claims.erase scheduledAt
    | .deleted => []
    | _ => s.claims
  last := w

def editWrites (cal : Calendar) (patch : CronPatch) (now : Int) : Option TimesWrite :=
  match normalizedPatch cal patch now with
  | .ok (some _) => some .edit
  | _ => none

def claimWrites (cal : Calendar) (c : Cron) (scheduledAt time : Int) : Option TimesWrite :=
  match claimed cal scheduledAt time c with
  | .ok (some _) => some (.claimed scheduledAt)
  | _ => none

def timesWrite (cal : Calendar) (c : Cron) : StoreOp → Option TimesWrite
  | .create _ => none
  | .update id patch now => if id = c.id then editWrites cal patch now else none
  | .delete id => if id = c.id then some .deleted else none
  | .setEnabled _ _ => none
  | .setDestination _ _ => none
  | .setRecipientConsent _ _ => none
  | .recordFire _ _ => none
  | .markFired read _ _ => if read.id = c.id then some .other else none
  | .claimSlot id scheduledAt time => if id = c.id then claimWrites cal c scheduledAt time else none
  | .unclaimSlot id scheduledAt time _ =>
    if id = c.id ∧ c.lastFiredAt = some time then some (.unclaimed scheduledAt) else none

def sinceStep (cal : Calendar) (id : String) (s : Store × Since) (op : StoreOp) : Store × Since :=
  (op.exec cal s.1,
    match (s.1.find? id).bind fun c => timesWrite cal c op with
    | none => s.2
    | some w => s.2.record w)

def since (cal : Calendar) (id : String) (store : Store) (ops : List StoreOp) : Store × Since :=
  run (sinceStep cal id) (store,⟨false,[],.claim⟩) ops

def FiredAt (time : Int) (id : String) (store : Store) : Prop :=
  ∃ c, store.find? id = some c ∧ c.lastFiredAt = some time

section

variable {cal : Calendar} {id : String} {store : Store} {time : Int} {c : Cron}

variable {id' : String}

theorem firedAt_change {f : Cron → Cron} (hf : ∀ c, (f c).id = c.id) (hc : store.find? id = some c)
    (fired : c.lastFiredAt = some time) (same : id = id' → (f c).lastFiredAt = c.lastFiredAt) :
    FiredAt time id (store.change id' f) := by
  by_cases hid : id = id'
  · refine ⟨f c,?_,(same hid).trans fired⟩
    rw [find?_change hf,if_pos hid,← hid,hc]
    rfl
  · refine ⟨c,?_,fired⟩
    rw [find?_change hf,if_neg hid]
    exact hc

theorem firedAt_update (hc : store.find? id = some c) (fired : c.lastFiredAt = some time)
    (id' : String) (patch : CronPatch) (now : Int) :
    FiredAt time id (store.update cal id' patch now) := by
  cases hn : normalizedPatch cal patch now with
  | error =>
    rw [update_error store id' hn]
    exact ⟨c,hc,fired⟩
  | ok =>
    rw [update_ok store id' hn]
    exact firedAt_change (fun _ => rfl) hc fired (fun _ => rfl)

variable {time' : Int}

section

variable (hc : store.find? id = some c) (fired : c.lastFiredAt = some time)
include hc fired

theorem firedAt_claim {scheduledAt : Int} (none : timesWrite cal c (.claimSlot id' scheduledAt time') = none) :
    FiredAt time id (store.claimSlot cal id' scheduledAt time').1 := by
  rcases claimSlot_cases cal store id' scheduledAt time' with ⟨d,d',hd,hclaim,done⟩ | ⟨_,same⟩
  · have key : d'.id = id' := (claimed_id hclaim).trans (key_of_find? hd)
    have other : id' ≠ id := by
      rintro rfl
      rw [hc] at hd
      cases hd
      rw [timesWrite,if_pos (key_of_find? hc).symm,claimWrites,hclaim] at none
      cases none
    rw [done]
    refine ⟨c,?_,fired⟩
    refine (find?_set store d' id).trans ?_
    rw [key,if_neg (Ne.symm other)]
    exact hc
  · rw [same]
    exact ⟨c,hc,fired⟩

theorem firedAt_unclaim {scheduledAt : Int}
    {prior : Option Int} (none : timesWrite cal c (.unclaimSlot id' scheduledAt time' prior) = none) :
    FiredAt time id (store.unclaimSlot id' scheduledAt time' prior) := by
  refine firedAt_change restored_id hc fired fun hid => ?_
  have foreign : c.lastFiredAt ≠ some time' := by
    intro mine
    rw [timesWrite,if_pos ⟨hid.symm.trans (key_of_find? hc).symm,mine⟩] at none
    cases none
  rw [restored,if_pos foreign]

theorem firedAt_markFired {read : Cron}
    {scheduledAt : Option Int} (none : timesWrite cal c (.markFired read time' scheduledAt) = none) :
    FiredAt time id (store.markFired cal read time' scheduledAt) := by
  have other : id ≠ read.id := by
    intro hid
    rw [timesWrite,if_pos (hid.symm.trans (key_of_find? hc).symm)] at none
    cases none
  unfold Store.markFired
  simp only
  split
  · exact ⟨c,hc,fired⟩
  · exact firedAt_change (fun _ => rfl) hc fired (fun hid => absurd hid other)

end

theorem find?_create (hc : store.find? id = some c) (d : Cron) : (store.create d).find? id = some c := by
  unfold Store.create
  split
  · exact hc
  next new =>
    have other : id ≠ d.id := by
      rintro rfl
      rw [hc] at new
      cases new
    rw [find?_set,if_neg other]
    exact hc

theorem firedAt_exec (hc : store.find? id = some c) (fired : c.lastFiredAt = some time)
    {op : StoreOp} (none : timesWrite cal c op = none) : FiredAt time id (op.exec cal store) := by
  cases op with
  | create d => exact ⟨c,find?_create hc d,fired⟩
  | update => exact firedAt_update hc fired ..
  | delete id' =>
    have other : id ≠ id' := by
      intro hid
      rw [timesWrite,if_pos (hid.symm.trans (key_of_find? hc).symm)] at none
      cases none
    refine ⟨c,?_,fired⟩
    rw [StoreOp.exec,find?_erase,if_neg other]
    exact hc
  | setEnabled | setDestination | setRecipientConsent | recordFire =>
    exact firedAt_change (fun _ => rfl) hc fired (fun _ => rfl)
  | markFired => exact firedAt_markFired hc fired none
  | claimSlot => exact firedAt_claim hc fired none
  | unclaimSlot => exact firedAt_unclaim hc fired none

theorem editWrites_ne_claim (patch : CronPatch) (now : Int) : editWrites cal patch now ≠ some .claim := by
  unfold editWrites
  split <;> simp

theorem claimWrites_ne_claim (scheduledAt time : Int) : claimWrites cal c scheduledAt time ≠ some .claim := by
  unfold claimWrites
  split <;> simp

theorem timesWrite_ne_claim (op : StoreOp) : timesWrite cal c op ≠ some .claim := by
  cases op <;> simp [timesWrite,editWrites_ne_claim,claimWrites_ne_claim]

theorem firedAt_sinceStep {s : Store × Since} (op : StoreOp)
    (h : s.2.last = .claim → FiredAt time id s.1) (last : (sinceStep cal id s op).2.last = .claim) :
    FiredAt time id (sinceStep cal id s op).1 := by
  unfold sinceStep at last ⊢
  split at last
  next none =>
    obtain ⟨c,hc,fired⟩ := h last
    rw [hc] at none
    exact firedAt_exec hc fired none
  next w write =>
    obtain rfl : w = .claim := last
    obtain ⟨c,_,write⟩ := Option.bind_eq_some_iff.mp write
    exact absurd write (timesWrite_ne_claim op)

theorem firedAt_since (h : FiredAt time id store) (ops : List StoreOp) :
    (since cal id store ops).2.last = .claim → FiredAt time id (since cal id store ops).1 := by
  induction ops using List.reverseRecOn with
  | nil => exact fun _ => h
  | append_singleton _ op ih =>
    rw [since,run_append]
    exact firedAt_sinceStep op ih

end

structure UndoesClaim (id : String) (before : Cron) (scheduledAt : Int) (ops : List StoreOp)
    (s : Store × Since) (left : Store) : Prop where
  alone : ops = [] → left.find? id = some before
  undone : s.2.last = .claim → left.find? id = (s.1.find? id).map fun c =>
    {c with lastFiredAt := before.lastFiredAt, nextFireAt := before.nextFireAt}
  editKept : s.2.edited = true → left.find? id = s.1.find? id
  claimKept : ∀ scheduledAt' ∈ s.2.claims, scheduledAt' ≠ scheduledAt → left.find? id = s.1.find? id

def Superseded (scheduledAt : Int) (s : Since) : Prop :=
  s.edited = true ∨ ∃ scheduledAt' ∈ s.claims, scheduledAt' ≠ scheduledAt

structure SafeToUnclaim (id : String) (before : Cron) (scheduledAt time : Int) (prior : Option Int)
    (s : Store × Since) : Prop where
  exact : s.2.last = .claim → before.nextFireAt = some scheduledAt ∧ before.lastFiredAt = prior
  apart : Superseded scheduledAt s.2 → ∀ c, s.1.find? id = some c → c.lastFiredAt = some time →
    c.nextFireAt = some scheduledAt ∧ prior = some time

variable {time : Int}

theorem restored_same_iff {scheduledAt : Int} {prior : Option Int} {c : Cron} (h : c.lastFiredAt = some time) :
    restored scheduledAt time prior c = c ↔ c.nextFireAt = some scheduledAt ∧ prior = some time := by
  rw [restored,if_neg (not_not.mpr h)]
  constructor
  · intro same
    have last := congrArg Cron.lastFiredAt same
    have next := congrArg Cron.nextFireAt same
    exact ⟨next.symm,last.trans h⟩
  · rintro ⟨next,rfl⟩
    rw [← h,← next]

theorem unclaim_kept_iff (store : Store) (id : String) (scheduledAt time : Int) (prior : Option Int) :
    (store.unclaimSlot id scheduledAt time prior).find? id = store.find? id ↔
      ∀ c, store.find? id = some c → c.lastFiredAt = some time →
        c.nextFireAt = some scheduledAt ∧ prior = some time := by
  rw [find?_unclaim]
  cases store.find? id with
  | none => simp
  | some c =>
    by_cases mine : c.lastFiredAt = some time
    · simp [restored_same_iff mine,mine]
    · simp [restored_other mine,mine]

theorem unclaim_undone_iff {store : Store} {id : String} (fired : FiredAt time id store) (before : Cron)
    (scheduledAt : Int) (prior : Option Int) :
    ((store.unclaimSlot id scheduledAt time prior).find? id = (store.find? id).map fun c =>
      {c with lastFiredAt := before.lastFiredAt, nextFireAt := before.nextFireAt}) ↔
      before.nextFireAt = some scheduledAt ∧ before.lastFiredAt = prior := by
  obtain ⟨c,hc,mine⟩ := fired
  rw [find?_unclaim,hc,Option.map_some,Option.map_some,Option.some_inj,restored, if_neg (not_not.mpr mine)]
  constructor
  · intro same
    exact ⟨(congrArg Cron.nextFireAt same).symm,(congrArg Cron.lastFiredAt same).symm⟩
  · rintro ⟨next,last⟩
    rw [next,last]

theorem find?_claimSlot {cal : Calendar} {store : Store} {id : String} {before : Cron} {scheduledAt : Int}
    (found : store.find? id = some before) (claims : (store.claimSlot cal id scheduledAt time).2 = true) :
    ∃ c, (store.claimSlot cal id scheduledAt time).1.find? id = some c ∧ c.lastFiredAt = some time ∧
      {c with lastFiredAt := before.lastFiredAt, nextFireAt := before.nextFireAt} = before := by
  rcases claimSlot_cases cal store id scheduledAt time with ⟨c,c',hc,hclaim,done⟩ | ⟨_,same⟩
  · rw [found] at hc
    cases hc
    have key : c'.id = id := (claimed_id hclaim).trans (key_of_find? found)
    rw [done]
    refine ⟨c',?_,claimed_lastFiredAt hclaim,?_⟩
    · exact (find?_set store c' id).trans (if_pos key.symm)
    · rw [(claimed_spec hclaim).record]
  · rw [same] at claims
    cases claims

theorem unclaim_undoes_claim_iff {cal : Calendar} {store : Store} {id : String} {before : Cron}
    {scheduledAt time : Int} (found : store.find? id = some before)
    (claims : (store.claimSlot cal id scheduledAt time).2 = true) (prior : Option Int)
    (ops : List StoreOp) :
    let s := since cal id (store.claimSlot cal id scheduledAt time).1 ops
    UndoesClaim id before scheduledAt ops s (s.1.unclaimSlot id scheduledAt time prior) ↔
      SafeToUnclaim id before scheduledAt time prior s := by
  intro s
  obtain ⟨c₁,hc₁,mine,back⟩ := find?_claimSlot found claims
  have fired : s.2.last = .claim → FiredAt time id s.1 := firedAt_since ⟨c₁,hc₁,mine⟩ ops
  have kept := unclaim_kept_iff s.1 id scheduledAt time prior
  constructor
  · intro undoes
    refine ⟨fun last => ?_,?_⟩
    · exact (unclaim_undone_iff (fired last) before scheduledAt prior).mp (undoes.undone last)
    · rintro (edited | ⟨scheduledAt',since,other⟩)
      · exact kept.mp (undoes.editKept edited)
      · exact kept.mp (undoes.claimKept scheduledAt' since other)
  · intro safe
    have undone (last : s.2.last = .claim) :=
      (unclaim_undone_iff (fired last) before scheduledAt prior).mpr (safe.exact last)
    refine ⟨?_,undone,fun edited => ?_,fun scheduledAt' since other => ?_⟩
    · rintro rfl
      have start : s.1.find? id = some c₁ := hc₁
      rw [undone rfl,start,Option.map_some,back]
    · exact kept.mpr (safe.apart (.inl edited))
    · exact kept.mpr (safe.apart (.inr ⟨scheduledAt',since,other⟩))

def noCalendar : Calendar where
  nextRun _ _ := .ok none
  validTimezone _ := false
  later := by simp

def hourlyReport : Cron where
  id := "cron_report"
  enabled := true
  createdAt := 0
  lastFiredAt := none
  schedule := ⟨none,none,some 3600000,some 1000⟩
  nextFireAt := some 1000
  archived := false
  title := none
  action := some "post the report"
  message := none
  destination := none
  recipientConsent := none
  runAs := none
  members := none
  fireLog := []

def hourlyStore : Store := set empty hourlyReport

def postponed : CronPatch where
  title := none
  action := none
  message := none
  schedule := some ⟨none,none,some 3600000,some 900000⟩
  enabled := none
  archived := none
  destination := none
  members := none
  runAs := none

theorem unclaim_discards_edit : (hourlyStore.claimSlot noCalendar "cron_report" 1000 1500).2 = true ∧
      (let s := since noCalendar "cron_report" (hourlyStore.claimSlot noCalendar "cron_report" 1000 1500).1
        [.update "cron_report" postponed 2000]
      (s.1.find? "cron_report").bind Cron.nextFireAt = some 900000 ∧
      ((s.1.unclaimSlot "cron_report" 1000 1500 none).find? "cron_report").bind Cron.nextFireAt =
        some 1000 ∧
      ¬UndoesClaim "cron_report" hourlyReport 1000 [.update "cron_report" postponed 2000] s
        (s.1.unclaimSlot "cron_report" 1000 1500 none)) := by
  refine ⟨by decide +kernel,by decide +kernel,by decide +kernel,fun undoes => ?_⟩
  have kept := undoes.editKept (by decide +kernel)
  exact absurd kept (by decide +kernel)

def failedFire : List StoreOp :=
  [.recordFire "cron_report" ⟨"cron:cron_report:1000","thread",1500,some 1000,some "failed",none,none,none⟩]

theorem unclaim_undoes_claim_recorded :
    let s := since noCalendar "cron_report"
      (hourlyStore.claimSlot noCalendar "cron_report" 1000 1500).1 failedFire
    UndoesClaim "cron_report" hourlyReport 1000 failedFire s
      (s.1.unclaimSlot "cron_report" 1000 1500 none) := by
  have found : hourlyStore.find? "cron_report" = some hourlyReport := by decide +kernel
  have alone : (since noCalendar "cron_report"
      (hourlyStore.claimSlot noCalendar "cron_report" 1000 1500).1 failedFire).2 = ⟨false,[],.claim⟩ := by
    decide +kernel
  refine (unclaim_undoes_claim_iff found (by decide +kernel) none failedFire).mpr ⟨fun _ => ⟨rfl,rfl⟩,?_⟩
  rw [alone]
  rintro (edited | ⟨scheduledAt',since,_⟩)
  · cases edited
  · cases since

end CompanyBrain.Crons
