import CompanyBrain.Delivery.Outbox
import CompanyBrain.Foundations.Table

namespace CompanyBrain.Deliveries

open Foundations

structure Destination where
  type : String
  target : String
  editRef : Option String

structure Delivery where
  id : Nat
  destination : Destination
  text : String
  idempotencyKey : String
  createdAt : Int
  deliveredAt : Option Int
  shadow : Bool
  recipientThreadRef : Option String
  deliverLatencyMs : Option Int
  slackApiMs : Option Int

structure EnqueueInput where
  destination : Destination
  text : String
  idempotencyKey : String
  shadow : Bool

-- `randomUUID` is modelled by a counter; `handed` records what `claimPending` returned.
structure DeliveryStore where
  clock : Int
  issued : Nat
  deliveries : Table Delivery.id
  byKey : String → Option Nat
  claimedUntil : Nat → Option Int
  handed : List HandOut

def createDeliveryStore (clock : Int) : DeliveryStore := ⟨clock,0,Table.empty,fun _ => none,fun _ => none,[]⟩

def newDelivery (id : Nat) (input : EnqueueInput) (createdAt : Int) : Delivery :=
  ⟨id,input.destination,input.text,input.idempotencyKey,createdAt,none,input.shadow,none,none,none⟩

def tombstone (id : Nat) (idempotencyKey : String) (time : Int) : Delivery :=
  ⟨id,⟨"ack-tombstone","",none⟩,"",idempotencyKey,time,some time,false,none,none,none⟩

def Delivery.acked (d : Delivery) (time : Int) (slackApiMs : Option Int) : Delivery :=
  if d.deliveredAt = none then
    {d with
      deliveredAt := some time
      deliverLatencyMs := some (max 0 (time - d.createdAt))
      slackApiMs := slackApiMs.or d.slackApiMs}
  else d

def Delivery.marked (d : Delivery) (time : Int) : Delivery :=
  if d.deliveredAt = none then {d with deliveredAt := some time} else d

def Delivery.edited (d : Delivery) (editRef : String) : Delivery :=
  if d.deliveredAt = none then {d with destination := {d.destination with editRef := some editRef}} else d

def Delivery.threaded (d : Delivery) (recipientThreadRef : String) (time : Int) : Delivery :=
  if d.destination.type = "principal" then
    Delivery.marked {d with recipientThreadRef := some recipientThreadRef} time
  else d

namespace DeliveryStore

variable (s : DeliveryStore)

def insert (d : Delivery) : DeliveryStore :=
  {s with
    issued := s.issued+1
    deliveries := s.deliveries.set d
    byKey := Function.update s.byKey d.idempotencyKey (some d.id)}

def change (id : Nat) (f : Delivery → Delivery) : DeliveryStore :=
  match s.deliveries.find? id with
  | some d => {s with deliveries := s.deliveries.set (f d)}
  | none => s

def enqueue (input : EnqueueInput) : DeliveryStore × Option Delivery :=
  match s.byKey input.idempotencyKey with
  | some id => (s,s.deliveries.find? id)
  | none =>
    let delivery := newDelivery s.issued input s.clock
    (s.insert delivery,some delivery)

def claimable (type : String) (now : Int) (d : Delivery) : Bool :=
  d.deliveredAt = none && !d.shadow && d.destination.type = type && (s.claimedUntil d.id).getD 0 ≤ now

def claim (ttlMs now : Int) (s : DeliveryStore) (d : Delivery) : DeliveryStore :=
  {s with
    claimedUntil := Function.update s.claimedUntil d.id (some (now + ttlMs))
    handed := s.handed ++ [⟨d.id,d.idempotencyKey,now,ttlMs⟩]}

def claimPending (type : String) (ttlMs : Int) : DeliveryStore × List Delivery :=
  let rows := s.deliveries.rows.filter (s.claimable type s.clock)
  (rows.foldl (claim ttlMs s.clock) s,rows)

def ack (id : Nat) (time : Int) (slackApiMs : Option Int) : DeliveryStore :=
  s.change id fun d => d.acked time slackApiMs

def ackByKey (idempotencyKey : String) (time : Int) : DeliveryStore :=
  match s.byKey idempotencyKey with
  | some id => s.change id fun d => d.marked time
  | none => s.insert (tombstone s.issued idempotencyKey time)

def setEditRefByKey (idempotencyKey editRef : String) : DeliveryStore :=
  match s.byKey idempotencyKey with
  | some id => s.change id fun d => d.edited editRef
  | none => s

def recordRecipientThread (id : Nat) (recipientThreadRef : String) (time : Int) : DeliveryStore :=
  s.change id fun d => d.threaded recipientThreadRef time

end DeliveryStore

inductive DeliveryCall where
  | enqueue (input : EnqueueInput)
  | claimPending (type : String) (ttlMs : Int)
  | ack (id : Nat) (time : Int) (slackApiMs : Option Int)
  | ackByKey (idempotencyKey : String) (time : Int)
  | setEditRefByKey (idempotencyKey editRef : String)
  | recordRecipientThread (id : Nat) (recipientThreadRef : String) (time : Int)
  | tick (ms : Nat)

def DeliveryStore.step (s : DeliveryStore) : DeliveryCall → DeliveryStore
  | .enqueue input => (s.enqueue input).1
  | .claimPending type ttlMs => (s.claimPending type ttlMs).1
  | .ack id time slackApiMs => s.ack id time slackApiMs
  | .ackByKey idempotencyKey time => s.ackByKey idempotencyKey time
  | .setEditRefByKey idempotencyKey editRef => s.setEditRefByKey idempotencyKey editRef
  | .recordRecipientThread id recipientThreadRef time => s.recordRecipientThread id recipientThreadRef time
  | .tick ms => {s with clock := s.clock + ms}

def Delivery.entry (d : Delivery) (leasedUntil : Option Int) : Entry :=
  ⟨d.idempotencyKey,d.shadow,d.deliveredAt,leasedUntil⟩

def DeliveryStore.view (s : DeliveryStore) : Outbox where
  clock := s.clock
  entries id := (s.deliveries.find? id).map fun d => d.entry (s.claimedUntil id)
  handed := s.handed

def ackedByCall (s : DeliveryStore) : DeliveryCall → Option String
  | .ack id _ _ => (s.deliveries.find? id).map Delivery.idempotencyKey
  | .ackByKey idempotencyKey _ => some idempotencyKey
  | .recordRecipientThread id _ _ =>
    ((s.deliveries.find? id).filter fun d => d.destination.type = "principal").map Delivery.idempotencyKey
  | _ => none

structure Revises (f : Delivery → Delivery) : Prop where
  id : ∀ d, (f d).id = d.id
  key : ∀ d, (f d).idempotencyKey = d.idempotencyKey
  shadow : ∀ d, (f d).shadow = d.shadow
  delivered : ∀ d, (f d).deliveredAt = d.deliveredAt ∨ (d.deliveredAt = none ∧ ∃ t, (f d).deliveredAt = some t)

theorem revises_acked (time : Int) (slackApiMs : Option Int) : Revises fun d => d.acked time slackApiMs := by
  constructor <;> intro d <;> simp only [Delivery.acked] <;> split
  any_goals rfl
  next waiting => exact .inr ⟨waiting,time,rfl⟩
  · exact .inl rfl

theorem revises_marked (time : Int) : Revises fun d => d.marked time := by
  constructor <;> intro d <;> simp only [Delivery.marked] <;> split
  any_goals rfl
  next waiting => exact .inr ⟨waiting,time,rfl⟩
  · exact .inl rfl

theorem revises_edited (editRef : String) : Revises fun d => d.edited editRef := by
  constructor <;> intro d <;> simp only [Delivery.edited] <;> split
  any_goals rfl
  all_goals exact .inl rfl

theorem revises_threaded (recipientThreadRef : String) (time : Int) :
    Revises fun d => d.threaded recipientThreadRef time := by
  have marked := revises_marked time
  constructor <;> intro d <;> simp only [Delivery.threaded] <;> split
  any_goals rfl
  · exact marked.id {d with recipientThreadRef := some recipientThreadRef}
  · exact marked.key {d with recipientThreadRef := some recipientThreadRef}
  · exact marked.shadow {d with recipientThreadRef := some recipientThreadRef}
  · exact marked.delivered {d with recipientThreadRef := some recipientThreadRef}
  · exact .inl rfl

theorem acked_delivered (d : Delivery) (time : Int) (slackApiMs : Option Int) :
    ∃ t, (d.acked time slackApiMs).deliveredAt = some t := by
  unfold Delivery.acked
  split
  · exact ⟨time,rfl⟩
  next delivered => exact Option.ne_none_iff_exists'.mp delivered

theorem marked_delivered (d : Delivery) (time : Int) : ∃ t, (d.marked time).deliveredAt = some t := by
  unfold Delivery.marked
  split
  · exact ⟨time,rfl⟩
  next delivered => exact Option.ne_none_iff_exists'.mp delivered

theorem threaded_delivered {d : Delivery} (principal : d.destination.type = "principal") (ref : String) (time : Int) :
    ∃ t, (d.threaded ref time).deliveredAt = some t := by
  rw [Delivery.threaded,if_pos principal]
  exact marked_delivered _ time

end CompanyBrain.Deliveries
