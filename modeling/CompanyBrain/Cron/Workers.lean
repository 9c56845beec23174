import CompanyBrain.Cron.CronStore
import CompanyBrain.Foundations.History

namespace CompanyBrain.Crons

open Foundations

structure CronFireJob where
  cronId : String
  scheduledAt : Int

inductive Phase where
  | ready
  | checked (read : Cron) (time : Int)
  | firing (read : Cron) (time : Int)
  | ran (read : Cron) (time : Int)
  | refused (read : Cron) (time : Int)
  | failed (read : Cron) (time : Int)
  | fired (time : Int)
  | ended

namespace Phase

def snapshot : Phase → Option (Cron × Int)
  | checked read time => some (read,time)
  | firing read time => some (read,time)
  | ran read time => some (read,time)
  | refused read time => some (read,time)
  | failed read time => some (read,time)
  | _ => none

def claimedAt : Phase → Option Int
  | firing _ time => some time
  | ran _ time => some time
  | refused _ time => some time
  | failed _ time => some time
  | fired time => some time
  | _ => none

def holds : Phase → Bool
  | firing _ _ => true
  | ran _ _ => true
  | refused _ _ => true
  | failed _ _ => true
  | _ => false

def succeeded : Phase → Bool
  | ran _ _ => true
  | fired _ => true
  | _ => false

def tried : Phase → Bool
  | ready => false
  | checked _ _ => false
  | _ => true

end Phase

structure SlotClaim where
  worker : Nat
  time : Int

structure System where
  store : Store
  phase : Nat → Phase
  claims : String → List SlotClaim

def System.start (store : Store) : System := ⟨store,fun _ => .ready,fun _ => []⟩

inductive Action where
  | read (w : Nat) (time : Int)
  | claim (w : Nat)
  | run (w : Nat) (entry : Option CronFireLogEntry)
  | refuse (w : Nat) (entry : CronFireLogEntry)
  | fail (w : Nat) (entry : Option CronFireLogEntry)
  | settle (w : Nat)
  | unclaim (w : Nat)

def isOneShot (schedule : CronSchedule) : Bool :=
  schedule.everyMs.isNone && schedule.cron.isNone

def checkJob (cal : Calendar) (store : Store) (job : CronFireJob) (time : Int) : Phase :=
  match store.find? job.cronId with
  | none => .ended
  | some c =>
    if c.archived || !c.enabled then .ended
    else
      match nextSlot cal c with
      | .ok (some slot) =>
        if slot ≠ job.scheduledAt then .ended
        else if time < slot then .ended
        else .checked c time
      | _ => .ended

def Store.recordOutcome (store : Store) (id : String) : Option CronFireLogEntry → Store
  | none => store
  | some entry => store.recordFire id entry

def System.to (s : System) (w : Nat) (p : Phase) : System :=
  {s with phase := fun v => if v = w then p else s.phase v}

def System.withClaim (s : System) (id : String) (claim : SlotClaim) : System :=
  {s with claims := fun k => if k = id then s.claims k ++ [claim] else s.claims k}

def System.exec (cal : Calendar) (jobs : Nat → CronFireJob) (s : System) : Action → System
  | .read w time =>
    match s.phase w with
    | .ready => s.to w (checkJob cal s.store (jobs w) time)
    | _ => s
  | .claim w =>
    match s.phase w with
    | .checked read time =>
      match s.store.claimSlot cal (jobs w).cronId (jobs w).scheduledAt time with
      | (store,true) =>
        ({s with store := store}.withClaim (jobs w).cronId ⟨w,time⟩).to w (.firing read time)
      | (_,false) => s.to w .ended
    | _ => s
  | .run w entry =>
    match s.phase w with
    | .firing read time =>
      {s with store := s.store.recordOutcome (jobs w).cronId entry}.to w (.ran read time)
    | _ => s
  | .refuse w entry =>
    match s.phase w with
    | .firing read time =>
      {s with store := s.store.recordFire (jobs w).cronId entry}.to w (.refused read time)
    | _ => s
  | .fail w entry =>
    match s.phase w with
    | .firing read time =>
      {s with store := s.store.recordOutcome (jobs w).cronId entry}.to w (.failed read time)
    | .ran read time => s.to w (.failed read time)
    | .refused read time => s.to w (.failed read time)
    | _ => s
  | .settle w =>
    match s.phase w with
    | .ran read time =>
      if isOneShot read.schedule then
        {s with store := s.store.setEnabled (jobs w).cronId false}.to w (.fired time)
      else s.to w (.fired time)
    | .refused read time =>
      {s with store := s.store.setEnabled (jobs w).cronId false}.to w (.failed read time)
    | _ => s
  | .unclaim w =>
    match s.phase w with
    | .failed read time =>
      let job := jobs w
      let store := s.store.unclaimSlot job.cronId job.scheduledAt time read.lastFiredAt
      {s with store := store}.to w .ended
    | _ => s

def claimedSlots (jobs : Nat → CronFireJob) (s : System) (id : String) (p : Phase → Bool) : List Int :=
  ((s.claims id).filter fun c => p (s.phase c.worker)).map fun c => (jobs c.worker).scheduledAt

structure SlotsInOrder (jobs : Nat → CronFireJob) (id : String) (s : System) : Prop where
  exclusive : ∀ v w, (jobs v).cronId = id → (jobs w).cronId = id →
    (jobs v).scheduledAt = (jobs w).scheduledAt → (s.phase v).holds → (s.phase w).holds → v = w
  increasing : (claimedSlots jobs s id Phase.succeeded).Pairwise (· < ·)
  oneShot : ∀ c, s.store.find? id = some c → isOneShot c.schedule →
    (claimedSlots jobs s id Phase.succeeded).length ≤ 1

end CompanyBrain.Crons
