import CompanyBrain.Cron.Schedule
import CompanyBrain.Foundations.Table
import CompanyBrain.Resolution.AudienceFloor
import CompanyBrain.Triggers.TriggerStore
import Mathlib.Data.List.Sort

namespace CompanyBrain.Crons

open Foundations
open Resolution (Principal)
open Triggers (Destination RecipientConsent RunAs)

structure CronFireLogEntry where
  fireKey : String
  threadRef : String
  firedAt : Int
  scheduledAt : Option Int
  status : Option String
  note : Option String
  reply : Option String
  sessionId : Option String
deriving DecidableEq

structure Cron where
  id : String
  enabled : Bool
  createdAt : Int
  lastFiredAt : Option Int
  schedule : CronSchedule
  nextFireAt : Option Int
  archived : Bool
  title : Option String
  action : Option String
  message : Option String
  destination : Option Destination
  recipientConsent : Option RecipientConsent
  runAs : Option RunAs
  members : Option (List Principal)
  fireLog : List CronFireLogEntry
deriving DecidableEq

abbrev Store := Table Cron.id

structure CronPatch where
  title : Option String
  action : Option String
  message : Option String
  schedule : Option CronSchedule
  enabled : Option Bool
  archived : Option Bool
  destination : Option Destination
  members : Option (List Principal)
  runAs : Option RunAs

def takeUnits : Nat → Text → Text
  | 0, _ => []
  | _, [] => []
  | n+1, c :: t =>
    if c.toNat < 0x10000 then c :: takeUnits n t
    else if n = 0 then ['�'] else c :: takeUnits (n - 1) t

def normalizeTitle (title : String) : Option String :=
  let trimmed := collapseSpaces (trim title.toList)
  if trimmed = [] then none
  else if 80 < utf16Length trimmed then some (String.ofList (takeUnits 79 trimmed ++ "...".toList))
  else some (String.ofList trimmed)

section

variable (cal : Calendar) (store : Store) (id : String) (scheduledAt time : Int)

def Store.change (f : Cron → Cron) : Store :=
  match store.find? id with
  | none => store
  | some c => store.set (f c)

def patched (patch : CronPatch) (normalized : Option NormalizedSchedule) (c : Cron) : Cron :=
  {c with
    title := match patch.title with
      | some title => normalizeTitle title
      | none => c.title
    action := patch.action.or c.action
    message := patch.message.or c.message
    schedule := (normalized.map NormalizedSchedule.schedule).getD c.schedule
    nextFireAt := match normalized with
      | some n => n.nextFireAt
      | none => c.nextFireAt
    enabled := if patch.archived = some true then false else patch.enabled.getD c.enabled
    archived := patch.archived.getD c.archived
    destination := patch.destination.or c.destination
    members := patch.members.or c.members
    runAs := patch.runAs.or c.runAs}

def normalizedPatch (patch : CronPatch) (now : Int) : Except String (Option NormalizedSchedule) :=
  match patch.schedule with
  | none => .ok none
  | some schedule => (normalizeSchedule cal schedule now).map some

def Store.update (patch : CronPatch) (now : Int) : Store :=
  match normalizedPatch cal patch now with
  | .error _ => store
  | .ok normalized => store.change id (patched patch normalized)

def Store.setEnabled (enabled : Bool) : Store :=
  store.change id fun c =>
    {c with enabled := enabled, archived := if enabled then false else c.archived}

def Store.setDestination (destination : Option Destination) : Store :=
  store.change id fun c => {c with destination := destination}

def Store.setRecipientConsent (consent : RecipientConsent) : Store :=
  store.change id fun c => {c with recipientConsent := some consent}

def mergedEntry (old : Option CronFireLogEntry) (entry : CronFireLogEntry) : CronFireLogEntry :=
  {entry with
    scheduledAt := entry.scheduledAt.or (old.bind CronFireLogEntry.scheduledAt)
    status := entry.status.or (old.bind CronFireLogEntry.status)
    note := entry.note.or (old.bind CronFireLogEntry.note)
    reply := entry.reply.or (old.bind CronFireLogEntry.reply)
    sessionId := entry.sessionId.or (old.bind CronFireLogEntry.sessionId)}

def addEntry (entry : CronFireLogEntry) (c : Cron) : Cron :=
  let log := c.fireLog.foldl (fun rows e => Table.setRows CronFireLogEntry.fireKey e rows) []
  let old := log.find? (·.fireKey = entry.fireKey)
  let added := Table.setRows CronFireLogEntry.fireKey (mergedEntry old entry) log
  {c with fireLog := added.insertionSort fun a b => a.firedAt ≤ b.firedAt}

def Store.recordFire (entry : CronFireLogEntry) : Store :=
  store.change id (addEntry entry)

def Store.markFired (read : Cron) (time : Int) (scheduledAt : Option Int) : Store :=
  let advanceFrom := if isCalendarSchedule read.schedule then scheduledAt.getD time else time
  match advanceNextFireAt cal read.schedule advanceFrom with
  | .error _ => store
  | .ok next => store.change read.id fun c => {c with lastFiredAt := some time, nextFireAt := next}

def nextSlot (c : Cron) : Except String (Option Int) :=
  recoverNextFireAt cal c.schedule c.createdAt c.lastFiredAt c.nextFireAt

def claimed (c : Cron) : Except String (Option Cron) :=
  if c.archived || !c.enabled then .ok none
  else do
    let slot ← nextSlot cal c
    if slot ≠ some scheduledAt then .ok none
    else
      let advanceFrom := if isCalendarSchedule c.schedule then scheduledAt else time
      let next ← advanceNextFireAt cal c.schedule advanceFrom
      .ok (some {c with lastFiredAt := some time, nextFireAt := next})

def Store.claimSlot : Store × Bool :=
  match store.find? id with
  | none => (store,false)
  | some c =>
    match claimed cal scheduledAt time c with
    | .ok (some c') => (store.set c',true)
    | _ => (store,false)

def restored (priorLastFiredAt : Option Int) (c : Cron) : Cron :=
  if c.lastFiredAt ≠ some time then c
  else {c with lastFiredAt := priorLastFiredAt, nextFireAt := some scheduledAt}

def Store.unclaimSlot (priorLastFiredAt : Option Int) : Store :=
  store.change id (restored scheduledAt time priorLastFiredAt)

def Store.create (c : Cron) : Store :=
  match store.find? c.id with
  | some _ => store
  | none => store.set c

end

structure Claims (cal : Calendar) (scheduledAt time : Int) (c c' : Cron) : Prop where
  active : c.archived = false ∧ c.enabled = true
  due : nextSlot cal c = .ok (some scheduledAt)
  advanced : advanceNextFireAt cal c.schedule
    (if isCalendarSchedule c.schedule then scheduledAt else time) = .ok c'.nextFireAt
  record : c' = {c with lastFiredAt := some time, nextFireAt := c'.nextFireAt}

variable {cal : Calendar} {c' c : Cron} {scheduledAt time : Int}

section

variable (h : claimed cal scheduledAt time c = .ok (some c'))
include h

theorem claimed_spec : Claims cal scheduledAt time c c' := by
  unfold claimed at h
  split at h
  · cases h
  next active =>
    obtain ⟨slot,due,h⟩ := bind_ok h
    split at h
    · cases h
    next same =>
      obtain ⟨next,advanced,h⟩ := bind_ok h
      cases h
      rw [not_not] at same
      rw [same] at due
      exact ⟨by simpa using active,due,advanced,rfl⟩

theorem claimed_id : c'.id = c.id := by
  rw [(claimed_spec h).record]

theorem claimed_lastFiredAt : c'.lastFiredAt = some time := by
  rw [(claimed_spec h).record]

end

theorem restored_id {prior : Option Int} (c : Cron) : (restored scheduledAt time prior c).id = c.id := by
  unfold restored
  split <;> rfl

theorem claimSlot_cases (cal : Calendar) (store : Store) (id : String) (scheduledAt time : Int) :
    (∃ c c', store.find? id = some c ∧ claimed cal scheduledAt time c = .ok (some c') ∧
      store.claimSlot cal id scheduledAt time = (store.set c',true)) ∨
    ((∀ c, store.find? id = some c → ∀ c', claimed cal scheduledAt time c ≠ .ok (some c')) ∧
      store.claimSlot cal id scheduledAt time = (store,false)) := by
  unfold Store.claimSlot
  cases hc : store.find? id with
  | none => exact .inr ⟨by simp,rfl⟩
  | some c =>
    simp only
    split
    next c' hclaim => exact .inl ⟨c,c',rfl,hclaim,rfl⟩
    next refused =>
      refine .inr ⟨?_,rfl⟩
      rintro _ ⟨⟩ c' hclaim
      exact refused c' hclaim

theorem update_ok {patch : CronPatch} {now : Int} {normalized : Option NormalizedSchedule} (store : Store) (id : String)
    (h : normalizedPatch cal patch now = .ok normalized) :
    store.update cal id patch now = store.change id (patched patch normalized) := by
  rw [Store.update,h]

theorem update_error {patch : CronPatch} {now : Int} {e : String} (store : Store) (id : String)
    (h : normalizedPatch cal patch now = .error e) : store.update cal id patch now = store := by
  rw [Store.update,h]

theorem find?_change {store : Store} {id : String} {f : Cron → Cron} (hf : ∀ c, (f c).id = c.id) (k : String) :
    (store.change id f).find? k = if k = id then (store.find? id).map f else store.find? k := by
  unfold Store.change
  split
  next h =>
    split
    next hk =>
      rw [hk,h]
      rfl
    · rfl
  next c h =>
    have key : (f c).id = id := (hf c).trans (Table.key_of_find? h)
    rw [Table.find?_set,key,h,Option.map_some]

theorem restored_other {prior : Option Int} (h : c.lastFiredAt ≠ some time) :
    restored scheduledAt time prior c = c := by
  rw [restored,if_pos h]

theorem find?_unclaim (store : Store) (id : String) (scheduledAt time : Int) (prior : Option Int) :
    (store.unclaimSlot id scheduledAt time prior).find? id =
      (store.find? id).map (restored scheduledAt time prior) := by
  rw [Store.unclaimSlot,find?_change restored_id,if_pos rfl]

theorem find?_unclaim_other {store : Store} {id : String} {j : String}
    (other : j = id → ∀ c, store.find? id = some c → c.lastFiredAt ≠ some time) (scheduledAt : Int)
    (prior : Option Int) :
    (store.unclaimSlot id scheduledAt time prior).find? j = store.find? j := by
  by_cases hj : j = id
  · rw [hj,find?_unclaim]
    cases found : store.find? id with
    | none => rfl
    | some c => rw [Option.map_some,restored_other (other hj c found)]
  · rw [Store.unclaimSlot,find?_change restored_id,if_neg hj]

end CompanyBrain.Crons
