import CompanyBrain.Delivery.HandOuts
import CompanyBrain.Delivery.PostgresDeliveryStore

namespace CompanyBrain.Deliveries

open Foundations Table Function

namespace PostgresDeliveries

def Due (s : PostgresDeliveries) (id : Nat) (time : Int) : Prop :=
  ∃ r, s.rows.find? id = some r ∧ r.delivery.shadow = false ∧ r.delivery.deliveredAt = none ∧
    ∀ u, r.claimExpiresAt = some u → u ≤ time

structure RowsOk (s : PostgresDeliveries) : Prop where
  keys : ∀ r ∈ s.rows, ∀ r' ∈ s.rows, r.delivery.idempotencyKey = r'.delivery.idempotencyKey → r = r'
  issued : ∀ r ∈ s.rows, r.id < s.issued
  past : ∀ h ∈ s.handed, h.time ≤ s.clock

structure MarkOk (s : PostgresDeliveries) (mark : Nat × Int) : Prop where
  due : s.Due mark.1 mark.2
  read : mark.2 ≤ s.clock
  latest : ∀ h ∈ s.handed, h.id = mark.1 → h.time ≤ mark.2

structure ClaimOk (s : PostgresDeliveries) (i : Nat) (c : Claim) : Prop where
  nodup : (c.locked ++ c.marked.map Prod.fst).Nodup
  held : ∀ id ∈ c.locked ++ c.marked.map Prod.fst, s.lockedBy id = some i
  locked : ∀ id ∈ c.locked, s.Due id s.clock
  marked : ∀ mark ∈ c.marked, s.MarkOk mark

structure Ok (s : PostgresDeliveries) : Prop extends RowsOk s where
  claims : ∀ i c, s.claims i = some c → ClaimOk s i c

structure Apart (touched : Nat → Prop) (s s' : PostgresDeliveries) : Prop where
  clock : s.clock ≤ s'.clock
  lockedBy : ∀ id, ¬touched id → s'.lockedBy id = s.lockedBy id
  rows : ∀ id, ¬touched id → s'.rows.find? id = s.rows.find? id
  handed : ∀ h ∈ s'.handed, ¬touched h.id → h ∈ s.handed

variable {s s' s'' : PostgresDeliveries} {touched : Nat → Prop} {i : Nat} {c : Claim} {id : Nat}

theorem Apart.refl (touched : Nat → Prop) (s : PostgresDeliveries) : Apart touched s s :=
  ⟨le_rfl,fun _ _ => rfl,fun _ _ => rfl,fun _ mem _ => mem⟩

theorem Apart.trans (first : Apart touched s s') (second : Apart touched s' s'') : Apart touched s s'' where
  clock := le_trans first.clock second.clock
  lockedBy id free := (second.lockedBy id free).trans (first.lockedBy id free)
  rows id free := (second.rows id free).trans (first.rows id free)
  handed h mem free := first.handed h (second.handed h mem free) free

theorem Apart.widen {touched' : Nat → Prop} (apart : Apart touched s s') (wider : ∀ id, touched id → touched' id) :
    Apart touched' s s' where
  clock := apart.clock
  lockedBy id free := apart.lockedBy id fun bad => free (wider id bad)
  rows id free := apart.rows id fun bad => free (wider id bad)
  handed h mem free := apart.handed h mem fun bad => free (wider h.id bad)

theorem Due.apart (apart : Apart touched s s') (free : ¬touched id) {time time' : Int} (le : time ≤ time')
    (due : s.Due id time) : s'.Due id time' := by
  obtain ⟨r,found,visible,waiting,lapsed⟩ := due
  exact ⟨r,(apart.rows id free).trans found,visible,waiting,fun u is => le_trans (lapsed u is) le⟩

theorem Due.found {time : Int} (due : s.Due id time) : s.rows.find? id ≠ none := by
  obtain ⟨r,found,_⟩ := due
  rw [found]
  exact Option.some_ne_none r

theorem MarkOk.apart (apart : Apart touched s s') {mark : Nat × Int} (free : ¬touched mark.1) (ok : s.MarkOk mark) :
    s'.MarkOk mark where
  due := ok.due.apart apart free le_rfl
  read := le_trans ok.read apart.clock
  latest h mem own := ok.latest h (apart.handed h mem (own ▸ free)) own

theorem ClaimOk.found (ok : ClaimOk s i c) (mem : id ∈ c.locked ++ c.marked.map Prod.fst) : s.rows.find? id ≠ none := by
  rcases List.mem_append.mp mem with mem | mem
  · exact (ok.locked id mem).found
  · obtain ⟨mark,inside,rfl⟩ := List.mem_map.mp mem
    exact (ok.marked mark inside).due.found

theorem ClaimOk.apart (apart : Apart touched s s')
    (free : ∀ id, touched id → s.lockedBy id = some i → s.rows.find? id = none) (ok : ClaimOk s i c) :
    ClaimOk s' i c := by
  have untouched (id : Nat) (mem : id ∈ c.locked ++ c.marked.map Prod.fst) : ¬touched id := fun bad =>
    ok.found mem (free id bad (ok.held id mem))
  refine ⟨ok.nodup,fun id mem => (apart.lockedBy id (untouched id mem)).trans (ok.held id mem),?_,?_⟩
  · intro id mem
    exact (ok.locked id mem).apart apart (untouched id (List.mem_append_left _ mem)) apart.clock
  · intro mark mem
    exact (ok.marked mark mem).apart apart
      (untouched mark.1 (List.mem_append_right _ (List.mem_map_of_mem mem)))

theorem Ok.apart (ok : Ok s) (rows : RowsOk s') (apart : Apart touched s s')
    (claims : ∀ i c, s'.claims i = some c → ClaimOk s' i c ∨
      (s.claims i = some c ∧ ∀ id, touched id → s.lockedBy id = some i → s.rows.find? id = none)) : Ok s' where
  toRowsOk := rows
  claims i c is := by
    rcases claims i c is with kept | ⟨old,free⟩
    · exact kept
    · exact (ok.claims i c old).apart apart free

theorem view_found {r : DeliveryRow} (found : s.rows.find? id = some r) : s.view.entries id = some r.entry := by
  simp only [view,found,Option.map_some]

theorem view_setRow (s : PostgresDeliveries) (r : DeliveryRow) :
    ({s with rows := s.rows.set r} : PostgresDeliveries).view = s.view.put r.id r.entry := by
  refine Outbox.ext rfl (funext fun id => ?_) rfl
  simp only [view,Outbox.put,find?_set]
  by_cases own : id = r.id
  · subst own
    simp
  · simp [own]

theorem apart_setRow (s : PostgresDeliveries) (r : DeliveryRow) :
    Apart (· = r.id) s {s with rows := s.rows.set r} where
  clock := le_rfl
  lockedBy _ _ := rfl
  rows id other := by
    rw [find?_set,if_neg other]
  handed _ mem _ := mem

theorem RowsOk.replace (ok : RowsOk s) {r r' : DeliveryRow} (mem : r ∈ s.rows) (same : r'.id = r.id)
    (key : r'.delivery.idempotencyKey = r.delivery.idempotencyKey) : RowsOk {s with rows := s.rows.set r'} := by
  have members (x : DeliveryRow) (inside : x ∈ s.rows.set r') :
      x = r' ∨ (x ∈ s.rows ∧ x.id ≠ r.id) := same ▸ mem_set.mp inside
  have distinct (x : DeliveryRow) (inside : x ∈ s.rows) (other : x.id ≠ r.id) :
      x.delivery.idempotencyKey ≠ r'.delivery.idempotencyKey := fun equal =>
    other (congrArg DeliveryRow.id (ok.keys x inside r mem (equal.trans key)))
  refine ⟨fun x inside y inside' equal => ?_,fun x inside => ?_,ok.past⟩
  · rcases members x inside with rfl | ⟨old,other⟩ <;> rcases members y inside' with rfl | ⟨old',other'⟩
    · rfl
    · exact absurd equal.symm (distinct y old' other')
    · exact absurd equal (distinct x old other)
    · exact ok.keys x old y old' equal
  · rcases members x inside with rfl | ⟨old,_⟩
    · exact same ▸ ok.issued r mem
    · exact ok.issued x old

theorem change_ok {f : Delivery → Delivery} (ok : Ok s) (revises : Revises f) (id : Nat) :
    Ok (s.change id f) ∧ Outbox.Moves s.view (s.change id f).view := by
  unfold change
  split
  next r found free =>
    obtain ⟨mem,rfl⟩ := find?_eq_some.mp found
    have same : DeliveryRow.id {r with delivery := f r.delivery} = r.id := revises.id r.delivery
    constructor
    · refine ok.apart (ok.replace mem same (revises.key r.delivery)) (apart_setRow s _) fun i c is => .inr ⟨is,?_⟩
      rintro id rfl held
      rw [same,free] at held
      cases held
    · rw [view_setRow,same]
      exact moves_put_revised revises r.claimExpiresAt (view_found found)
  · exact ⟨ok,.refl⟩

variable {k : String}

theorem byKey_none (unknown : s.byKey k = none) (r : DeliveryRow) (mem : r ∈ s.rows) :
    r.delivery.idempotencyKey ≠ k := by
  simpa using List.find?_eq_none.mp unknown r mem

theorem insert_ok {d : Delivery} (ok : Ok s) (fresh : s.byKey d.idempotencyKey = none) (new : d.id = s.issued) :
    Ok (s.insert d) ∧ Outbox.Moves s.view (s.insert d).view := by
  have unused (r : DeliveryRow) (mem : r ∈ s.rows) : r.id ≠ d.id := by
    have := ok.issued r mem
    omega
  have absent : s.rows.find? d.id = none := find?_eq_none.mpr unused
  have members (r : DeliveryRow) (mem : r ∈ s.rows.set ⟨d,none⟩) : r = ⟨d,none⟩ ∨ r ∈ s.rows :=
    (mem_set.mp mem).imp_right And.left
  constructor
  · have apart : Apart (· = d.id) s (s.insert d) :=
      ⟨le_rfl,fun _ _ => rfl,(apart_setRow s ⟨d,none⟩).rows,fun _ mem _ => mem⟩
    refine ok.apart ⟨?_,?_,ok.past⟩ apart fun i c is => .inr ⟨is,?_⟩
    · intro r mem r' mem' same
      rcases members r mem with rfl | mem <;> rcases members r' mem' with rfl | mem'
      · rfl
      · exact absurd same.symm (byKey_none fresh r' mem')
      · exact absurd same (byKey_none fresh r mem)
      · exact ok.keys r mem r' mem' same
    · intro r mem
      simp only [insert]
      rcases members r mem with rfl | mem
      · simp only [DeliveryRow.id]
        omega
      · have := ok.issued r mem
        omega
    · rintro id rfl _
      exact absent
  · have shown : (s.insert d).view = s.view.put d.id (d.entry none) := view_setRow s ⟨d,none⟩
    rw [shown]
    refine .single (.add d.id _ (by simp [view,absent]) fun id e here => ?_)
    obtain ⟨r,found,rfl⟩ := Option.map_eq_some_iff.mp here
    exact byKey_none fresh r (mem_of_find? found)

theorem claims_setClaim {j : Nat} {x : Option Claim} {c : Claim} (is : (s.setClaim i x).claims j = some c) :
    (j = i ∧ x = some c) ∨ (j ≠ i ∧ s.claims j = some c) := by
  simp only [setClaim,update_apply] at is
  split at is
  next own => exact .inl ⟨own,is⟩
  next other => exact .inr ⟨other,is⟩

theorem setClaim_ok (ok : Ok s) (kept : ClaimOk s i c) : Ok (s.setClaim i (some c)) where
  keys := ok.keys
  issued := ok.issued
  past := ok.past
  claims j x is := by
    have same : ∀ {j x}, ClaimOk s j x → ClaimOk (s.setClaim i (some c)) j x := fun {j x} claim =>
      ⟨claim.nodup,claim.held,claim.locked,fun mark mem => ⟨(claim.marked mark mem).due,
        (claim.marked mark mem).read,(claim.marked mark mem).latest⟩⟩
    rcases claims_setClaim is with ⟨rfl,new⟩ | ⟨_,old⟩
    · cases new
      exact same kept
    · exact same (ok.claims j x old)

theorem beginClaim_ok (ok : Ok s) (i : Nat) (type : String) (ttlMs : Int) : Ok (s.beginClaim i type ttlMs) := by
  unfold beginClaim
  split
  · exact setClaim_ok ok ⟨List.nodup_nil,by simp,by simp,by simp⟩
  · exact ok

theorem due_of_claimable {type : String} {reading : Int} (le : reading ≤ s.clock)
    (ready : (s.rows.find? id).any (DeliveryRow.claimable type reading)) : s.Due id s.clock := by
  obtain ⟨r,found,ready⟩ := (Option.any_eq_true _ _).mp ready
  simp only [DeliveryRow.claimable,Bool.and_eq_true,decide_eq_true_iff,Bool.not_eq_true'] at ready
  obtain ⟨⟨⟨waiting,visible⟩,_⟩,lapsed⟩ := ready
  refine ⟨r,found,visible,waiting,fun u is => ?_⟩
  rw [is,Option.all_some,decide_eq_true_iff] at lapsed
  exact le_trans lapsed le

theorem lock_ok (ok : Ok s) (free : s.lockedBy id = none) (due : s.Due id s.clock)
    (kept : ClaimOk s i c) (todo : List Nat) :
    Ok {s.setClaim i (some {c with todo := todo, locked := id :: c.locked}) with
      lockedBy := update s.lockedBy id (some i)} := by
  have other (j : Nat) (id' : Nat) (held : s.lockedBy id' = some j) : id' ≠ id := by
    rintro rfl
    rw [free] at held
    cases held
  have apart : Apart (· = id) s {s.setClaim i (some {c with todo := todo, locked := id :: c.locked}) with
      lockedBy := update s.lockedBy id (some i)} :=
    ⟨le_rfl,fun id' ne => update_of_ne ne _ _,fun _ _ => rfl,fun _ mem _ => mem⟩
  have untouched (j : Nat) (id' : Nat) (own : id' = id) (held : s.lockedBy id' = some j) :
      s.rows.find? id' = none := absurd own (other j id' held)
  refine ok.apart ⟨ok.keys,ok.issued,ok.past⟩ apart fun j x is => ?_
  rcases claims_setClaim is with ⟨rfl,new⟩ | ⟨_,old⟩
  · cases new
    have kept' := kept.apart apart (untouched j)
    refine .inl ⟨?_,?_,?_,kept'.marked⟩
    · exact List.nodup_cons.mpr ⟨fun mem => other j id (kept.held id mem) rfl,kept.nodup⟩
    · exact List.forall_mem_cons.mpr ⟨update_self ..,kept'.held⟩
    · exact List.forall_mem_cons.mpr ⟨due,kept'.locked⟩
  · exact .inr ⟨old,untouched j⟩

theorem lockNext_ok (ok : Ok s) (i : Nat) (reading : Int) : Ok (s.lockNext i reading) := by
  unfold lockNext
  split
  next type ttlMs began id todo locked marked is =>
    have kept := ok.claims i _ is
    split
    next window =>
      split
      next ready => exact lock_ok ok ready.1 (due_of_claimable window.2 ready.2) kept todo
      · exact setClaim_ok ok ⟨kept.nodup,kept.held,kept.locked,kept.marked⟩
    · exact ok
  · exact ok

theorem markNext_ok (ok : Ok s) (i : Nat) : Ok (s.markNext i) := by
  unfold markNext
  split
  next type ttlMs began todo id locked marked is =>
    have kept := ok.claims i _ is
    have moved : (locked ++ id :: marked.map Prod.fst).Perm (id :: (locked ++ marked.map Prod.fst)) :=
      List.perm_middle
    refine setClaim_ok ok ⟨moved.nodup_iff.mpr kept.nodup,fun id' mem => kept.held id' (moved.mem_iff.mp mem),
      fun id' mem => kept.locked id' (.tail id mem),List.forall_mem_cons.mpr ⟨?_,kept.marked⟩⟩
    exact ⟨kept.locked id (.head _),le_rfl,fun h inside _ => ok.past h inside⟩
  · exact ok

theorem writeClaim_found {mark : Nat × Int} {r : DeliveryRow} (ttlMs : Int)
    (found : s.rows.find? mark.1 = some r) : writeClaim ttlMs s mark = {s with
      rows := s.rows.set {r with claimExpiresAt := some (mark.2 + ttlMs)}
      handed := s.handed ++ [⟨mark.1,r.delivery.idempotencyKey,mark.2,ttlMs⟩]} := by
  rw [writeClaim,found]

theorem writeClaim_ok (rows : RowsOk s) (ttlMs : Int) {mark : Nat × Int} (ok : s.MarkOk mark) :
    RowsOk (writeClaim ttlMs s mark) ∧ Apart (· = mark.1) s (writeClaim ttlMs s mark) ∧
      (writeClaim ttlMs s mark).claims = s.claims ∧ Outbox.Moves s.view (writeClaim ttlMs s mark).view := by
  obtain ⟨r,found,visible,waiting,lapsed⟩ := ok.due
  obtain ⟨mem,own⟩ := find?_eq_some.mp found
  have written : RowsOk {s with rows := s.rows.set {r with claimExpiresAt := some (mark.2 + ttlMs)}} :=
    rows.replace mem rfl rfl
  have lease := Outbox.Move.lease mark.1 r.entry mark.2 ttlMs (view_found found) visible waiting lapsed ok.latest
  rw [writeClaim_found ttlMs found]
  refine ⟨⟨written.keys,written.issued,forall_snoc rows.past ok.read⟩,?_,rfl,.single ?_⟩
  · refine ⟨le_rfl,fun _ _ => rfl,?_,forall_snoc (fun h inside _ => inside) fun other => absurd rfl other⟩
    exact own ▸ (apart_setRow s {r with claimExpiresAt := some (mark.2 + ttlMs)}).rows
  · have shown := view_setRow s {r with claimExpiresAt := some (mark.2 + ttlMs)}
    have same : DeliveryRow.id {r with claimExpiresAt := some (mark.2 + ttlMs)} = mark.1 := own
    rw [same] at shown
    have handed (t : PostgresDeliveries) (h : HandOut) :
      ({t with handed := t.handed ++ [h]} : PostgresDeliveries).view =
        t.view.hand h := rfl
    have leased := handed {s with rows := s.rows.set {r with claimExpiresAt := some (mark.2 + ttlMs)}}
    rw [shown] at leased
    rw [leased]
    exact lease

theorem writeClaims_ok (ttlMs : Int) (marked : List (Nat × Int)) (rows : RowsOk s)
    (nodup : (marked.map Prod.fst).Nodup) (ok : ∀ mark ∈ marked, s.MarkOk mark) :
    RowsOk (marked.foldl (writeClaim ttlMs) s) ∧ Apart (· ∈ marked.map Prod.fst) s (marked.foldl (writeClaim ttlMs) s) ∧
      (marked.foldl (writeClaim ttlMs) s).claims = s.claims ∧
      Outbox.Moves s.view (marked.foldl (writeClaim ttlMs) s).view := by
  induction marked generalizing s with
  | nil => exact ⟨rows,Apart.refl _ s,rfl,.refl⟩
  | cons mark _ ih =>
    obtain ⟨fresh,nodup⟩ := List.nodup_cons.mp nodup
    obtain ⟨rows',apart,claims,moves⟩ := writeClaim_ok rows ttlMs (ok mark (.head _))
    obtain ⟨last,apart',claims',rest⟩ := ih rows' nodup fun x mem =>
      (ok x (.tail mark mem)).apart apart fun same => fresh (same ▸ List.mem_map_of_mem mem)
    refine ⟨last,?_,claims'.trans claims,moves.trans rest⟩
    exact (apart.widen fun id own => own ▸ (.head _)).trans
      (apart'.widen fun id mem => List.mem_cons_of_mem mark.1 mem)

theorem endClaim_ok (ok : Ok s) (rows : RowsOk s') (apart : Apart (fun id => s.lockedBy id = some i) s s')
    (claims : s'.claims = s.claims) : Ok (s'.endClaim i) := by
  have released (id : Nat) (other : s.lockedBy id ≠ some i) : (s'.endClaim i).lockedBy id = s.lockedBy id := by
    simp only [endClaim,apart.lockedBy id other,if_neg other]
  have apart' : Apart (fun id => s.lockedBy id = some i) s (s'.endClaim i) :=
    ⟨apart.clock,released,apart.rows,apart.handed⟩
  refine ok.apart ⟨rows.keys,rows.issued,rows.past⟩ apart' fun j c is => .inr ?_
  rcases claims_setClaim is with ⟨_,new⟩ | ⟨other,old⟩
  · cases new
  · refine ⟨claims ▸ old,fun id mine held => absurd ?_ other⟩
    exact Option.some.inj (held.symm.trans mine)

theorem commitClaim_ok (ok : Ok s) (i : Nat) : Ok (s.commitClaim i) ∧ Outbox.Moves s.view (s.commitClaim i).view := by
  unfold commitClaim
  split
  next type ttlMs began marked is =>
    have kept := ok.claims i _ is
    obtain ⟨rows,apart,claims,moves⟩ := writeClaims_ok ttlMs marked ok.toRowsOk kept.nodup kept.marked
    exact ⟨endClaim_ok ok rows (apart.widen kept.held) claims,moves⟩
  · exact ⟨ok,.refl⟩

theorem view_beginClaim (s : PostgresDeliveries) (i : Nat) (type : String) (ttlMs : Int) :
    (s.beginClaim i type ttlMs).view = s.view := by
  unfold beginClaim
  split <;> rfl

theorem view_lockNext (s : PostgresDeliveries) (i : Nat) (reading : Int) : (s.lockNext i reading).view = s.view := by
  unfold lockNext
  split
  · split
    · split <;> rfl
    · rfl
  · rfl

theorem view_markNext (s : PostgresDeliveries) (i : Nat) : (s.markNext i).view = s.view := by
  unfold markNext
  split <;> rfl

theorem step_ok (ok : Ok s) (call : PostgresStep) : Ok (s.step call) ∧ Outbox.Moves s.view (s.step call).view := by
  cases call with
  | enqueue =>
    rw [step,enqueue]
    split
    next fresh => exact insert_ok ok fresh rfl
    · split <;> exact ⟨ok,.refl⟩
  | beginClaim i type ttlMs => exact ⟨beginClaim_ok ok i type ttlMs,(view_beginClaim s i type ttlMs).symm ▸ .refl⟩
  | lockNext i reading => exact ⟨lockNext_ok ok i reading,(view_lockNext s i reading).symm ▸ .refl⟩
  | markNext i => exact ⟨markNext_ok ok i,(view_markNext s i).symm ▸ .refl⟩
  | commitClaim i => exact commitClaim_ok ok i
  | abortClaim => exact ⟨endClaim_ok ok ok.toRowsOk (Apart.refl _ s) rfl,.refl⟩
  | ack id time slackApiMs => exact change_ok ok (revises_acked time slackApiMs) id
  | ackByKey _ time =>
    rw [step,ackByKey]
    split
    next fresh => exact insert_ok ok fresh rfl
    · exact change_ok ok (revises_marked time) _
  | setEditRefByKey _ editRef =>
    rw [step,setEditRefByKey]
    split
    · exact ⟨ok,.refl⟩
    · exact change_ok ok (revises_edited editRef) _
  | recordRecipientThread id ref time => exact change_ok ok (revises_threaded ref time) id
  | tick ms =>
    have apart : Apart (fun _ => False) s (s.step (.tick ms)) :=
      ⟨by simp only [step]; omega,fun _ _ => rfl,fun _ _ => rfl,fun _ mem _ => mem⟩
    refine ⟨ok.apart ⟨ok.keys,ok.issued,fun h mem => ?_⟩ apart fun i c is => .inr ⟨is,fun _ bad => bad.elim⟩,
      .single (.tick ms)⟩
    exact le_trans (ok.past h mem) apart.clock

theorem ok_create (clock : Int) : Ok (createPostgresDeliveryStore clock) where
  keys _ mem := nomatch mem
  issued _ mem := nomatch mem
  past _ mem := nomatch mem
  claims _ _ is := by cases is

theorem change_delivers {f : Delivery → Delivery} {r : DeliveryRow} (revises : Revises f)
    (found : s.unlocked id = some r)
    (delivered : ∃ t, (f r.delivery).deliveredAt = some t) : (s.change id f).view.handed = s.view.handed ∧
      ∃ id' e t, (s.change id f).view.entries id' = some e ∧ e.key = r.delivery.idempotencyKey ∧
        e.deliveredAt = some t := by
  obtain ⟨t,delivered⟩ := delivered
  obtain ⟨here,free⟩ := Option.filter_eq_some_iff.mp found
  obtain rfl := key_of_find? here
  have same : DeliveryRow.id {r with delivery := f r.delivery} = r.id := revises.id _
  simp only [change,here,of_decide_eq_true free]
  exact ⟨rfl,r.id,_,t,view_found (find?_set_key _ same),revises.key r.delivery,delivered⟩

theorem acked_delivers {call : PostgresStep} (acks : ackedByStep s call = some k) :
    (s.step call).view.handed = s.view.handed ∧
      ∃ id e t, (s.step call).view.entries id = some e ∧ e.key = k ∧ e.deliveredAt = some t := by
  cases call with
  | ack id time slackApiMs =>
    obtain ⟨r,found,rfl⟩ := Option.map_eq_some_iff.mp acks
    exact change_delivers (revises_acked time slackApiMs) found (acked_delivered r.delivery time slackApiMs)
  | ackByKey key time =>
    rw [ackedByStep] at acks
    rw [step,ackByKey]
    cases known : s.byKey key with
    | none =>
      simp only [known] at acks
      cases acks
      have found : (s.insert (tombstone s.issued k time)).rows.find? s.issued =
          some ⟨tombstone s.issued k time,none⟩ := find?_set_key _ rfl
      exact ⟨rfl,s.issued,_,time,view_found found,rfl,rfl⟩
    | some r =>
      simp only [known] at acks
      obtain ⟨r',found,rfl⟩ := Option.map_eq_some_iff.mp acks
      exact change_delivers (revises_marked time) found (marked_delivered r'.delivery time)
  | recordRecipientThread id ref time =>
    obtain ⟨r,found,rfl⟩ := Option.map_eq_some_iff.mp acks
    obtain ⟨found,principal⟩ := Option.filter_eq_some_iff.mp found
    exact change_delivers (revises_threaded ref time) found (threaded_delivered (of_decide_eq_true principal) ref time)
  | enqueue | beginClaim | lockNext | markNext | commitClaim | abortClaim | setEditRefByKey | tick => cases acks

end PostgresDeliveries

theorem postgresDeliveries_disciplined (clock : Int) :
    Disciplined PostgresDeliveries.step PostgresDeliveries.view ackedByStep (createPostgresDeliveryStore clock) :=
  disciplined_of_moves (PostgresDeliveries.ok_create clock) (Outbox.sound_empty clock)
    (fun _ a ok => PostgresDeliveries.step_ok ok a) fun _ _ _ _ acks => PostgresDeliveries.acked_delivers acks

theorem deliveries_disciplined (clock : Int) :
    Disciplined DeliveryStore.step DeliveryStore.view ackedByCall (createDeliveryStore clock) ∧
      Disciplined PostgresDeliveries.step PostgresDeliveries.view ackedByStep (createPostgresDeliveryStore clock) :=
  ⟨deliveryStore_disciplined clock,postgresDeliveries_disciplined clock⟩

def greeting : EnqueueInput := ⟨⟨"slack","C1",none⟩,"hello","k",false⟩

def handedOnce : List DeliveryCall := [.enqueue greeting,.claimPending "slack" 10]

theorem acked_not_handed_again :
    let before := run DeliveryStore.step (createDeliveryStore 0) handedOnce
    let later := run DeliveryStore.step (createDeliveryStore 0)
      (handedOnce ++ .ack 0 5 none :: [.tick 20,.claimPending "slack" 10])
    before.handed.map HandOut.key = ["k"] ∧
      later.view.handed.filter (fun h => h.key = "k") = before.view.handed.filter (fun h => h.key = "k") := by
  have acks : ackedByCall (run DeliveryStore.step (createDeliveryStore 0) handedOnce) (.ack 0 5 none) = some "k" := by
    decide +kernel
  exact ⟨by decide +kernel,((deliveries_disciplined 0).1.acknowledged _ _ _ "k" acks).1⟩

end CompanyBrain.Deliveries
