import CompanyBrain.Delivery.DeliveryStore
import Mathlib.Data.List.Sort

namespace CompanyBrain.Deliveries

open Foundations

structure DeliveryRow where
  delivery : Delivery
  claimExpiresAt : Option Int

def DeliveryRow.id (r : DeliveryRow) : Nat := r.delivery.id

structure Claim where
  type : String
  ttlMs : Int
  began : Int
  todo : List Nat
  locked : List Nat
  marked : List (Nat × Int)

structure PostgresDeliveries where
  clock : Int
  issued : Nat
  rows : Table DeliveryRow.id
  lockedBy : Nat → Option Nat
  claims : Nat → Option Claim
  handed : List HandOut

def createPostgresDeliveryStore (clock : Int) : PostgresDeliveries :=
  ⟨clock,0,Table.empty,fun _ => none,fun _ => none,[]⟩

def DeliveryRow.claimable (type : String) (reading : Int) (r : DeliveryRow) : Bool :=
  r.delivery.deliveredAt = none && !r.delivery.shadow && r.delivery.destination.type = type &&
    r.claimExpiresAt.all (· ≤ reading)

namespace PostgresDeliveries

variable (s : PostgresDeliveries)

def byKey (idempotencyKey : String) : Option DeliveryRow :=
  s.rows.rows.find? fun r => r.delivery.idempotencyKey = idempotencyKey

def insert (d : Delivery) : PostgresDeliveries :=
  {s with issued := s.issued+1, rows := s.rows.set ⟨d,none⟩}

-- An UPDATE of a row that a claim has locked waits, and so does not happen yet.
def change (id : Nat) (f : Delivery → Delivery) : PostgresDeliveries :=
  match s.rows.find? id, s.lockedBy id with
  | some r, none => {s with rows := s.rows.set {r with delivery := f r.delivery}}
  | _, _ => s

def enqueue (input : EnqueueInput) : PostgresDeliveries × Except String Delivery :=
  match s.byKey input.idempotencyKey with
  | none =>
    let delivery := newDelivery s.issued input s.clock
    (s.insert delivery,.ok delivery)
  | some _ =>
    match s.byKey input.idempotencyKey with
    | some existing => (s,.ok existing.delivery)
    | none => (s,.error ("delivery enqueue lost a race for key " ++ input.idempotencyKey))

def ack (id : Nat) (time : Int) (slackApiMs : Option Int) : PostgresDeliveries :=
  s.change id fun d => d.acked time slackApiMs

def ackByKey (idempotencyKey : String) (time : Int) : PostgresDeliveries :=
  match s.byKey idempotencyKey with
  | none => s.insert (tombstone s.issued idempotencyKey time)
  | some r => s.change r.id fun d => d.marked time

def setEditRefByKey (idempotencyKey editRef : String) : PostgresDeliveries :=
  match s.byKey idempotencyKey with
  | none => s
  | some r => s.change r.id fun d => d.edited editRef

def recordRecipientThread (id : Nat) (recipientThreadRef : String) (time : Int) : PostgresDeliveries :=
  s.change id fun d => d.threaded recipientThreadRef time

def setClaim (i : Nat) (c : Option Claim) : PostgresDeliveries :=
  {s with claims := Function.update s.claims i c}

def candidates (type : String) : List Nat :=
  ((s.rows.rows.filter (DeliveryRow.claimable type s.clock)).insertionSort
    fun r r' => r.delivery.createdAt ≤ r'.delivery.createdAt).map DeliveryRow.id

def beginClaim (i : Nat) (type : String) (ttlMs : Int) : PostgresDeliveries :=
  match s.claims i with
  | none => s.setClaim i (some ⟨type,ttlMs,s.clock,s.candidates type,[],[]⟩)
  | some _ => s

-- SKIP LOCKED passes over a row that is held; a row that is free is tested again in its latest version.
def lockNext (i : Nat) (reading : Int) : PostgresDeliveries :=
  match s.claims i with
  | some ⟨type,ttlMs,began,id :: todo,locked,marked⟩ =>
    if began ≤ reading ∧ reading ≤ s.clock then
      if s.lockedBy id = none ∧ (s.rows.find? id).any (DeliveryRow.claimable type reading) then
        {s.setClaim i (some ⟨type,ttlMs,began,todo,id :: locked,marked⟩) with
          lockedBy := Function.update s.lockedBy id (some i)}
      else s.setClaim i (some ⟨type,ttlMs,began,todo,locked,marked⟩)
    else s
  | _ => s

def markNext (i : Nat) : PostgresDeliveries :=
  match s.claims i with
  | some ⟨type,ttlMs,began,todo,id :: locked,marked⟩ =>
    s.setClaim i (some ⟨type,ttlMs,began,todo,locked,(id,s.clock) :: marked⟩)
  | _ => s

def writeClaim (ttlMs : Int) (s : PostgresDeliveries) (mark : Nat × Int) : PostgresDeliveries :=
  match s.rows.find? mark.1 with
  | some r =>
    {s with
      rows := s.rows.set {r with claimExpiresAt := some (mark.2 + ttlMs)}
      handed := s.handed ++ [⟨mark.1,r.delivery.idempotencyKey,mark.2,ttlMs⟩]}
  | none => s

def endClaim (i : Nat) : PostgresDeliveries :=
  {s.setClaim i none with lockedBy := fun id => if s.lockedBy id = some i then none else s.lockedBy id}

def commitClaim (i : Nat) : PostgresDeliveries :=
  match s.claims i with
  | some ⟨_,ttlMs,_,[],[],marked⟩ => (marked.foldl (writeClaim ttlMs) s).endClaim i
  | _ => s

end PostgresDeliveries

inductive PostgresStep where
  | enqueue (input : EnqueueInput)
  | beginClaim (i : Nat) (type : String) (ttlMs : Int)
  | lockNext (i : Nat) (reading : Int)
  | markNext (i : Nat)
  | commitClaim (i : Nat)
  | abortClaim (i : Nat)
  | ack (id : Nat) (time : Int) (slackApiMs : Option Int)
  | ackByKey (idempotencyKey : String) (time : Int)
  | setEditRefByKey (idempotencyKey editRef : String)
  | recordRecipientThread (id : Nat) (recipientThreadRef : String) (time : Int)
  | tick (ms : Nat)

def PostgresDeliveries.step (s : PostgresDeliveries) : PostgresStep → PostgresDeliveries
  | .enqueue input => (s.enqueue input).1
  | .beginClaim i type ttlMs => s.beginClaim i type ttlMs
  | .lockNext i reading => s.lockNext i reading
  | .markNext i => s.markNext i
  | .commitClaim i => s.commitClaim i
  | .abortClaim i => s.endClaim i
  | .ack id time slackApiMs => s.ack id time slackApiMs
  | .ackByKey idempotencyKey time => s.ackByKey idempotencyKey time
  | .setEditRefByKey idempotencyKey editRef => s.setEditRefByKey idempotencyKey editRef
  | .recordRecipientThread id recipientThreadRef time => s.recordRecipientThread id recipientThreadRef time
  | .tick ms => {s with clock := s.clock + ms}

def DeliveryRow.entry (r : DeliveryRow) : Entry := r.delivery.entry r.claimExpiresAt

def PostgresDeliveries.view (s : PostgresDeliveries) : Outbox where
  clock := s.clock
  entries id := (s.rows.find? id).map DeliveryRow.entry
  handed := s.handed

def PostgresDeliveries.unlocked (s : PostgresDeliveries) (id : Nat) : Option DeliveryRow :=
  (s.rows.find? id).filter fun r => s.lockedBy r.id = none

def ackedByStep (s : PostgresDeliveries) : PostgresStep → Option String
  | .ack id _ _ => (s.unlocked id).map fun r => r.delivery.idempotencyKey
  | .ackByKey idempotencyKey _ =>
    match s.byKey idempotencyKey with
    | some r => (s.unlocked r.id).map fun r => r.delivery.idempotencyKey
    | none => some idempotencyKey
  | .recordRecipientThread id _ _ =>
    ((s.unlocked id).filter fun r => r.delivery.destination.type = "principal").map fun r => r.delivery.idempotencyKey
  | _ => none

end CompanyBrain.Deliveries
