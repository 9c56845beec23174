import CompanyBrain.Foundations.Fallible
import CompanyBrain.Foundations.JsText

namespace CompanyBrain.Crons

open Foundations

structure CronSchedule where
  cron : Option String
  timezone : Option String
  everyMs : Option Int
  firstFireAt : Option Int
deriving DecidableEq

structure Calendar where
  nextRun : CronSchedule → Int → Except String (Option Int)
  validTimezone : String → Bool
  later : ∀ schedule asked next, nextRun schedule asked = .ok (some next) → asked < next

def defaultCronTimezone : String := "America/Los_Angeles"

def dayMs : Int := 24 * 60 * 60 * 1000

def isCalendarSchedule (schedule : CronSchedule) : Bool := schedule.cron.isSome

def isSafeInteger (n : Int) : Bool := n.natAbs ≤ 9007199254740991

def finiteEpochMs (value : Option Int) (name : String) : Except String (Option Int) :=
  if value.all isSafeInteger then .ok value
  else .error (name ++ " must be a finite integer timestamp in ms")

def finitePositiveMs (value : Option Int) (name : String) : Except String (Option Int) :=
  if value.all fun n => isSafeInteger n && decide (0 < n) then .ok value
  else .error (name ++ " must be a positive integer number of ms")

def collapseSpaces : Text → Text
  | [] => []
  | c :: t =>
    if isJsSpace c then
      if t.head?.any isJsSpace then collapseSpaces t else ' ' :: collapseSpaces t
    else c :: collapseSpaces t

def normalizeTimezone (cal : Calendar) (input : Option String) : Except String String :=
  let given := trim ((input.map String.toList).getD [])
  let tz := if given = [] then defaultCronTimezone else String.ofList given
  if cal.validTimezone tz then .ok tz else .error ("invalid IANA timezone: " ++ tz)

def normalizeCronExpression (input : String) : Except String String :=
  let cron := collapseSpaces (trim input.toList)
  if cron.count ' ' + 1 ≠ 5 then .error "schedule.cron must be a 5-field cron expression"
  else .ok (String.ofList cron)

structure NormalizedSchedule where
  schedule : CronSchedule
  nextFireAt : Option Int

def dailyInDisguise : String :=
  "schedule.everyMs >= 24h is almost always a clock-time schedule in disguise — it anchors to an " ++
    "arbitrary epoch, has no timezone, and drifts with DST. Use \x7bcron,timezone\x7d for daily/weekly/monthly " ++
    "runs (e.g. \x7b cron: \"30 7 * * 1-5\", timezone: \"America/Los_Angeles\" \x7d). Reserve everyMs for " ++
    "genuine sub-day polling where wall-clock time does not matter."

def normalizeCalendar (cal : Calendar) (input : CronSchedule) (cron : String) (now : Int) :
    Except String NormalizedSchedule :=
  if trim cron.toList = [] then .error "schedule.cron must be a non-empty string"
  else if input.everyMs.isSome || input.firstFireAt.isSome then
    .error "schedule.cron cannot be combined with everyMs or firstFireAt"
  else do
    let expression ← normalizeCronExpression cron
    let timezone ← normalizeTimezone cal input.timezone
    let schedule : CronSchedule := ⟨some expression,some timezone,none,none⟩
    match ← cal.nextRun schedule now with
    | none => .error "schedule.cron has no future fire time"
    | some next => .ok ⟨schedule,some next⟩

def normalizeSchedule (cal : Calendar) (input : CronSchedule) (now : Int) : Except String NormalizedSchedule :=
  match input.cron with
  | some cron => normalizeCalendar cal input cron now
  | none =>
    if input.timezone.isSome then .error "schedule.timezone requires schedule.cron"
    else if input.everyMs.any (dayMs ≤ ·) then .error dailyInDisguise
    else do
      let everyMs ← finitePositiveMs input.everyMs "schedule.everyMs"
      let asked ← finiteEpochMs input.firstFireAt "schedule.firstFireAt"
      let firstFireAt := asked.getD (now + everyMs.getD 0)
      .ok ⟨⟨none,none,everyMs,some firstFireAt⟩,some firstFireAt⟩

def recoverNextFireAt (cal : Calendar) (schedule : CronSchedule) (createdAt : Int)
    (lastFiredAt nextFireAt : Option Int) : Except String (Option Int) :=
  match nextFireAt with
  | some next => finiteEpochMs (some next) "nextFireAt"
  | none =>
    if isCalendarSchedule schedule then cal.nextRun schedule (lastFiredAt.getD createdAt)
    else
      match lastFiredAt with
      | none => do
        let first ← finiteEpochMs schedule.firstFireAt "schedule.firstFireAt"
        .ok (some (first.getD createdAt))
      | some last => do
        let everyMs ← finitePositiveMs schedule.everyMs "schedule.everyMs"
        .ok (everyMs.map (last + ·))

def advanceNextFireAt (cal : Calendar) (schedule : CronSchedule) (firedAt : Int) : Except String (Option Int) :=
  if isCalendarSchedule schedule then cal.nextRun schedule firedAt
  else do
    let everyMs ← finitePositiveMs schedule.everyMs "schedule.everyMs"
    .ok (everyMs.map (firedAt + ·))

theorem finiteEpochMs_ok {value result : Option Int} {name : String}
    (h : finiteEpochMs value name = .ok result) : result = value := by
  unfold finiteEpochMs at h
  split at h
  · exact (Except.ok.inj h).symm
  · cases h

theorem finitePositiveMs_ok {value result : Option Int} {name : String}
    (h : finitePositiveMs value name = .ok result) : result = value ∧ ∀ n ∈ value, 0 < n := by
  unfold finitePositiveMs at h
  split at h
  next valid =>
    refine ⟨(Except.ok.inj h).symm,fun n hn => ?_⟩
    rw [Option.mem_def.mp hn] at valid
    simpa using (Bool.and_eq_true_iff.mp valid).2
  · cases h

theorem recover_some {cal : Calendar} {schedule : CronSchedule} {createdAt next : Int} {lastFiredAt slot : Option Int}
    (h : recoverNextFireAt cal schedule createdAt lastFiredAt (some next) = .ok slot) :
    slot = some next := finiteEpochMs_ok h

end CompanyBrain.Crons
