import CompanyBrain.Delivery.DeliveryStore

namespace CompanyBrain.Deliveries

open Foundations Table Function

structure StoreOk (s : DeliveryStore) : Prop where
  indexed : ∀ k id, s.byKey k = some id ↔ ∃ d ∈ s.deliveries, d.id = id ∧ d.idempotencyKey = k
  issued : ∀ d ∈ s.deliveries, d.id < s.issued
  unclaimed : ∀ id, s.issued ≤ id → s.claimedUntil id = none
  past : ∀ h ∈ s.handed, h.time ≤ s.clock

open DeliveryStore (view claim step change ackByKey enqueue claimable)

section

variable {s : DeliveryStore} {d : Delivery}

theorem view_eq_some {id : Nat} {e : Entry} : s.view.entries id = some e ↔
    ∃ d ∈ s.deliveries, d.id = id ∧ d.entry (s.claimedUntil id) = e := by
  simp only [view,Option.map_eq_some_iff,find?_eq_some,and_assoc]

theorem view_set (s : DeliveryStore) (d : Delivery) :
    ({s with deliveries := s.deliveries.set d} : DeliveryStore).view =
      s.view.put d.id (d.entry (s.claimedUntil d.id)) := by
  refine Outbox.ext rfl (funext fun id => ?_) rfl
  simp only [view,Outbox.put,find?_set]
  by_cases own : id = d.id
  · subst own
    simp
  · simp [own]

theorem put_same {o : Outbox} {id : Nat} {e : Entry} (here : o.entries id = some e) : o.put id e = o := by
  rw [Outbox.put,← here,update_eq_self]

theorem storeOk_create (clock : Int) : StoreOk (createDeliveryStore clock) where
  indexed k id := by simp [createDeliveryStore]
  issued _ mem := nomatch mem
  unclaimed _ _ := rfl
  past _ mem := nomatch mem

variable {f : Delivery → Delivery}

theorem mem_set_revised (revises : Revises f) {x : Delivery} :
    x ∈ s.deliveries.set (f d) ↔ x = f d ∨ (x ∈ s.deliveries ∧ x.id ≠ d.id) := by
  rw [mem_set,revises.id]

variable (ok : StoreOk s)
include ok

theorem storeOk_revised (revises : Revises f) (mem : d ∈ s.deliveries) :
    StoreOk {s with deliveries := s.deliveries.set (f d)} where
  indexed k id := by
    rw [ok.indexed k id]
    constructor
    · rintro ⟨x,inside,here,key⟩
      by_cases own : x.id = d.id
      · obtain rfl := eq_of_key inside mem own
        exact ⟨f x,mem_set_self _ _,(revises.id x).trans here,(revises.key x).trans key⟩
      · exact ⟨x,(mem_set_revised revises).mpr (.inr ⟨inside,own⟩),here,key⟩
    · rintro ⟨x,inside,here,key⟩
      rcases (mem_set_revised revises).mp inside with rfl | ⟨old,_⟩
      · exact ⟨d,mem,(revises.id d).symm.trans here,(revises.key d).symm.trans key⟩
      · exact ⟨x,old,here,key⟩
  issued x inside := by
    rcases (mem_set_revised revises).mp inside with rfl | ⟨old,_⟩
    · exact revises.id d ▸ ok.issued d mem
    · exact ok.issued x old
  unclaimed := ok.unclaimed
  past := ok.past

omit ok in
theorem moves_put_revised {o : Outbox} (revises : Revises f) (lease : Option Int)
    (here : o.entries d.id = some (d.entry lease)) : Outbox.Moves o (o.put d.id ((f d).entry lease)) := by
  have entry : (f d).entry lease = {d.entry lease with deliveredAt := (f d).deliveredAt} := by
    simp [Delivery.entry,revises.key,revises.shadow]
  rw [entry]
  rcases revises.delivered d with same | ⟨waiting,t,delivered⟩
  · rw [same]
    exact (put_same here).symm ▸ .refl
  · rw [delivered]
    exact .single (.deliver d.id _ t here waiting)

theorem change_ok (revises : Revises f) (id : Nat) :
    StoreOk (s.change id f) ∧ Outbox.Moves s.view (s.change id f).view := by
  unfold change
  split
  next d found =>
    have mem := mem_of_find? found
    refine ⟨storeOk_revised ok revises mem,?_⟩
    rw [view_set,revises.id]
    exact moves_put_revised revises _ (view_eq_some.mpr ⟨d,mem,rfl,rfl⟩)
  · exact ⟨ok,.refl⟩

theorem insert_ok (fresh : s.byKey d.idempotencyKey = none) (id : d.id = s.issued) :
    StoreOk (s.insert d) ∧ Outbox.Moves s.view (s.insert d).view := by
  have unknown (x : Delivery) (mem : x ∈ s.deliveries) : x.idempotencyKey ≠ d.idempotencyKey := by
    intro same
    rw [(ok.indexed d.idempotencyKey x.id).mpr ⟨x,mem,rfl,same⟩] at fresh
    cases fresh
  have unused (x : Delivery) (mem : x ∈ s.deliveries) : x.id ≠ d.id := by
    have := ok.issued x mem
    omega
  have members (x : Delivery) : x ∈ s.deliveries.set d ↔ x = d ∨ x ∈ s.deliveries := by
    rw [mem_set]
    exact or_congr_right ⟨fun h => h.1,fun mem => ⟨mem,unused x mem⟩⟩
  constructor
  · refine ⟨fun k i => ?_,fun x mem => ?_,fun i le => ok.unclaimed i (by simp [DeliveryStore.insert] at le; omega),
      ok.past⟩
    · simp only [DeliveryStore.insert]
      by_cases own : k = d.idempotencyKey
      · subst own
        rw [update_self]
        constructor
        · rintro ⟨⟩
          exact ⟨d,mem_set_self _ _,rfl,rfl⟩
        · rintro ⟨x,mem,rfl,same⟩
          rcases (members x).mp mem with rfl | mem
          · rfl
          · exact absurd same (unknown x mem)
      · rw [update_of_ne own,ok.indexed k i]
        constructor
        · rintro ⟨x,mem,rest⟩
          exact ⟨x,(members x).mpr (.inr mem),rest⟩
        · rintro ⟨x,mem,here,key⟩
          rcases (members x).mp mem with rfl | mem
          · exact absurd key.symm own
          · exact ⟨x,mem,here,key⟩
    · simp only [DeliveryStore.insert] at mem ⊢
      rcases (members x).mp mem with rfl | mem
      · omega
      · have := ok.issued x mem
        omega
  · have shown : (s.insert d).view = s.view.put d.id (d.entry (s.claimedUntil d.id)) := view_set s d
    rw [shown]
    refine .single (.add d.id _ ?_ fun i e' here => ?_)
    · simp only [view,Option.map_eq_none_iff]
      exact find?_eq_none.mpr unused
    · obtain ⟨x,mem,_,rfl⟩ := view_eq_some.mp here
      exact unknown x mem

theorem claim_ok (ttlMs : Int) (mem : d ∈ s.deliveries) (visible : d.shadow = false)
    (waiting : d.deliveredAt = none) (lapsed : ∀ u, s.claimedUntil d.id = some u → u ≤ s.clock) :
    StoreOk (s.claim ttlMs s.clock d) ∧ Outbox.Moves s.view (s.claim ttlMs s.clock d).view := by
  constructor
  · refine ⟨ok.indexed,ok.issued,fun i le => ?_,fun h inside => ?_⟩
    · have := ok.issued d mem
      simp only [claim] at le ⊢
      rw [update_of_ne (by omega)]
      exact ok.unclaimed i le
    · rcases List.mem_append.mp inside with inside | inside
      · exact ok.past h inside
      · obtain rfl := List.mem_singleton.mp inside
        exact Int.le_refl _
  · have here : s.view.entries d.id = some (d.entry (s.claimedUntil d.id)) := view_eq_some.mpr ⟨d,mem,rfl,rfl⟩
    have shown : (s.claim ttlMs s.clock d).view =
        (s.view.put d.id {d.entry (s.claimedUntil d.id) with leasedUntil := some (s.clock + ttlMs)}).hand
          ⟨d.id,d.idempotencyKey,s.clock,ttlMs⟩ := by
      refine Outbox.ext rfl (funext fun id => ?_) rfl
      simp only [view,claim,Outbox.put,Outbox.hand]
      by_cases own : id = d.id
      · subst own
        simp [find?_eq_some.mpr ⟨mem,rfl⟩,Delivery.entry]
      · simp [update_of_ne own]
    rw [shown]
    exact .single (.lease d.id _ s.clock ttlMs here visible waiting lapsed fun h inside _ => ok.past h inside)

omit ok in
theorem claims_ok (ttlMs : Int) (rows : List Delivery) (ok : StoreOk s) (nodup : (rows.map Delivery.id).Nodup)
    (ready : ∀ d ∈ rows, d ∈ s.deliveries ∧ d.shadow = false ∧ d.deliveredAt = none ∧
      ∀ u, s.claimedUntil d.id = some u → u ≤ s.clock) : StoreOk (rows.foldl (claim ttlMs s.clock) s) ∧
      Outbox.Moves s.view (rows.foldl (claim ttlMs s.clock) s).view := by
  induction rows generalizing s with
  | nil => exact ⟨ok,.refl⟩
  | cons d _ ih =>
    obtain ⟨fresh,nodup⟩ := List.nodup_cons.mp nodup
    obtain ⟨mem,visible,waiting,lapsed⟩ := ready d (.head _)
    obtain ⟨ok',moves⟩ := claim_ok ok ttlMs mem visible waiting lapsed
    obtain ⟨last,rest⟩ := ih (s := s.claim ttlMs s.clock d) ok' nodup fun x inside => by
      obtain ⟨mem,visible,waiting,lapsed⟩ := ready x (.tail d inside)
      have other : x.id ≠ d.id := fun same => fresh (same ▸ List.mem_map_of_mem inside)
      refine ⟨mem,visible,waiting,fun u is => lapsed u ?_⟩
      simpa [claim,update_of_ne other] using is
    exact ⟨last,moves.trans rest⟩

theorem step_ok (call : DeliveryCall) :
    StoreOk (s.step call) ∧ Outbox.Moves s.view (s.step call).view := by
  cases call with
  | enqueue =>
    rw [step,enqueue]
    split
    · exact ⟨ok,.refl⟩
    next fresh => exact insert_ok ok fresh rfl
  | claimPending _ ttlMs =>
    refine claims_ok ttlMs _ ok (s.deliveries.nodup.sublist (List.filter_sublist.map _)) fun d inside => ?_
    obtain ⟨mem,ready⟩ := List.mem_filter.mp inside
    simp only [claimable,Bool.and_eq_true,decide_eq_true_iff,Bool.not_eq_true'] at ready
    obtain ⟨⟨⟨waiting,visible⟩,_⟩,lapsed⟩ := ready
    refine ⟨mem,visible,waiting,fun u is => ?_⟩
    rw [is] at lapsed
    exact lapsed
  | ack id time slackApiMs => exact change_ok ok (revises_acked time slackApiMs) id
  | ackByKey _ time =>
    rw [step,ackByKey]
    split
    · exact change_ok ok (revises_marked time) _
    next fresh => exact insert_ok ok fresh rfl
  | setEditRefByKey _ editRef =>
    rw [step,DeliveryStore.setEditRefByKey]
    split
    · exact change_ok ok (revises_edited editRef) _
    · exact ⟨ok,.refl⟩
  | recordRecipientThread id ref time => exact change_ok ok (revises_threaded ref time) id
  | tick ms =>
    refine ⟨⟨ok.indexed,ok.issued,ok.unclaimed,fun h mem => ?_⟩,.single (.tick ms)⟩
    have := ok.past h mem
    simp only [step]
    omega

omit ok in
theorem change_delivers {id : Nat} (revises : Revises f) (found : s.deliveries.find? id = some d)
    (delivered : ∃ t, (f d).deliveredAt = some t) : (s.change id f).view.handed = s.view.handed ∧
      ∃ id' e t, (s.change id f).view.entries id' = some e ∧ e.key = d.idempotencyKey ∧ e.deliveredAt = some t := by
  obtain ⟨t,delivered⟩ := delivered
  rw [change,found]
  exact ⟨rfl,(f d).id,_,t,view_eq_some.mpr ⟨f d,mem_set_self _ _,rfl,rfl⟩,revises.key d,delivered⟩

theorem ackByKey_delivers (key : String) (time : Int) :
    (s.ackByKey key time).view.handed = s.view.handed ∧
      ∃ id e t, (s.ackByKey key time).view.entries id = some e ∧ e.key = key ∧ e.deliveredAt = some t := by
  unfold ackByKey
  split
  next id known =>
    obtain ⟨d,mem,rfl,rfl⟩ := (ok.indexed key id).mp known
    exact change_delivers (revises_marked time) (find?_eq_some.mpr ⟨mem,rfl⟩) (marked_delivered d time)
  · exact ⟨rfl,s.issued,_,time,view_eq_some.mpr ⟨tombstone s.issued key time,mem_set_self _ _,rfl,rfl⟩,rfl,rfl⟩

theorem acked_delivers {call : DeliveryCall} {k : String} (acks : ackedByCall s call = some k) :
    (s.step call).view.handed = s.view.handed ∧
      ∃ id e t, (s.step call).view.entries id = some e ∧ e.key = k ∧ e.deliveredAt = some t := by
  cases call with
  | ack id time slackApiMs =>
    obtain ⟨d,found,rfl⟩ := Option.map_eq_some_iff.mp acks
    exact change_delivers (revises_acked time slackApiMs) found (acked_delivered d time slackApiMs)
  | ackByKey _ time =>
    cases acks
    exact ackByKey_delivers ok _ time
  | recordRecipientThread id ref time =>
    obtain ⟨d,found,rfl⟩ := Option.map_eq_some_iff.mp acks
    obtain ⟨found,principal⟩ := Option.filter_eq_some_iff.mp found
    exact change_delivers (revises_threaded ref time) found (threaded_delivered (of_decide_eq_true principal) ref time)
  | enqueue | claimPending | setEditRefByKey | tick => cases acks

end

theorem deliveryStore_disciplined (clock : Int) :
    Disciplined step view ackedByCall (createDeliveryStore clock) :=
  disciplined_of_moves (storeOk_create clock) (Outbox.sound_empty clock) (fun _ a ok => step_ok ok a)
    fun _ _ _ ok acks => acked_delivers ok acks

end CompanyBrain.Deliveries
