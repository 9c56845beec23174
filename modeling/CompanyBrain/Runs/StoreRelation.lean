import CompanyBrain.Runs.Fencing
import CompanyBrain.Runs.MemoryInvariant
import Mathlib.Data.List.Basic

namespace CompanyBrain.Runs

open Foundations Pg Runs.Memory.Store Table Runs.Memory

namespace Pg

def sweepOne (maxClaims : Option Int) (now : Int) (maxAgeMs : Option Int) (clock : Clock)
    (acc : Db × Tally) (run : Run) : Db × Tally :=
  let r := acc.1.reapRetire maxClaims run now maxAgeMs (clock (acc.2.events.length+1))
  (r.db,acc.2.count run r)

def Flow.drain (clock : Clock) (db : Db) : Flow → Db × Reply
  | .answered reply => (db,reply)
  | .lookup dedupKey => (db,db.selectByKey dedupKey)
  | .failing maxClaims run error retry =>
    let r := db.retire maxClaims run error retry ⟨none,true⟩ (clock 0)
    (r.db,.requeued r.requeued)
  | .sweeping maxClaims now maxAgeMs left tally =>
    let acc := left.foldl (sweepOne maxClaims now maxAgeMs clock) (db,tally)
    (acc.1,.reaped acc.2.requeued acc.2.parked)
  | .settling _ next => next.drain clock db

def Db.exec (maxClaims : Option Int) (plan : Planner) (db : Db) (c : Call) : Db × Reply :=
  let o := db.start maxClaims plan c
  o.flow.drain c.clock o.db

end Pg

structure Agrees (maxClaims : Option Int) (s : Memory.Store) (db : Pg.Db) : Prop where
  cap : s.maxClaims = maxClaims
  runs : s.runs.rows = db.runs.rows.map rowToRun
  keyed : ∀ row ∈ db.runs, ∀ k, row.idempotencyKey = some k → s.byKey.find? k = some (k,row.id)
  back : ∀ k p, s.byKey.find? k = some p → ∃ row ∈ db.runs, row.id = p.2 ∧ row.idempotencyKey = some k
  keys : ∀ row ∈ db.runs, row.idempotencyKey ≠ some ""
  ids : ∀ row ∈ db.runs, row.id ≠ ""
  ledger : ∀ runId attempt callIndex, s.begin runId attempt callIndex = db.begin runId attempt callIndex

section

variable {maxClaims : Option Int} {s : Memory.Store} {db : Pg.Db}

theorem agrees_create (maxClaims : Option Int) (listeners : List Listener) :
    Agrees maxClaims (create maxClaims listeners) Pg.Db.empty where
  cap := rfl
  runs := rfl
  keyed row h := absurd h (not_mem_empty row)
  back k p h := by simp [create] at h
  keys row h := absurd h (not_mem_empty row)
  ids row h := absurd h (not_mem_empty row)
  ledger _ _ _ := rfl

variable {row : Pg.Row}

section

variable (h : Agrees maxClaims s db)
include h

theorem mem_runs (mem : row ∈ db.runs) : rowToRun row ∈ s.runs := by
  rw [← mem_rows,h.runs]
  exact List.mem_map_of_mem mem

theorem find_run (id : String) : s.runs.find? id = (db.runs.find? id).map rowToRun :=
  find?_map (fun _ => rfl) h.runs id

theorem agrees_map {s' : Memory.Store} {db' : Pg.Db}
    (f : Pg.Row → Pg.Row) (hid : ∀ row ∈ db.runs, (f row).id = row.id)
    (hkey : ∀ row ∈ db.runs, (f row).idempotencyKey = row.idempotencyKey)
    (runs : s'.runs.rows = (db.runs.rows.map f).map rowToRun)
    (rows : db'.runs.rows = db.runs.rows.map f) (cap : s'.maxClaims = s.maxClaims)
    (byKey : s'.byKey = s.byKey) (ledger : s'.ledger = s.ledger)
    (toolCalls : db'.toolCalls = db.toolCalls) : Agrees maxClaims s' db' := by
  have from_old {row : Pg.Row} (mem : row ∈ db'.runs) : ∃ old ∈ db.runs, f old = row := by
    rw [← mem_rows,rows] at mem
    exact List.mem_map.mp mem
  refine ⟨cap.trans h.cap,rows ▸ runs,?_,?_,?_,?_,?_⟩
  · intro row mem k hk
    obtain ⟨old,hold,rfl⟩ := from_old mem
    rw [byKey,hid old hold]
    exact h.keyed old hold k ((hkey old hold).symm.trans hk)
  · intro k p hp
    rw [byKey] at hp
    obtain ⟨old,hold,hoid,hok⟩ := h.back k p hp
    refine ⟨f old,?_,(hid old hold).trans hoid,(hkey old hold).trans hok⟩
    rw [← mem_rows,rows]
    exact List.mem_map_of_mem hold
  · intro row mem
    obtain ⟨old,hold,rfl⟩ := from_old mem
    rw [hkey old hold]
    exact h.keys old hold
  · intro row mem
    obtain ⟨old,hold,rfl⟩ := from_old mem
    rw [hid old hold]
    exact h.ids old hold
  · intro r a i
    have hl := h.ledger r a i
    unfold begin Pg.Db.begin at hl ⊢
    rw [ledger,toolCalls]
    exact hl

theorem agrees_set (mem : row ∈ db.runs) (row' : Pg.Row) (hid : row'.id = row.id)
    (hkey : row'.idempotencyKey = row.idempotencyKey) :
    Agrees maxClaims (s.put (rowToRun row')) {db with runs := db.runs.set row'} := by
  have rows := set_rows_of_mem mem hid.symm
  have runs := set_rows_of_mem (a := rowToRun row') (mem_runs h mem) hid.symm
  refine agrees_map h (fun r => if r.id = row'.id then row' else r) ?_ ?_ ?_ rows rfl rfl rfl rfl
  · intro r _
    by_cases hk : r.id = row'.id <;> simp [hk]
  · intro r hr
    by_cases hk : r.id = row'.id
    · have same := eq_of_key hr mem (hk.trans hid)
      simp only [hk,if_true]
      rw [hkey,same]
    · simp [hk]
  · rw [put_runs,runs,h.runs,List.map_map,List.map_map]
    apply List.map_congr_left
    intro r _
    have hrid : (rowToRun r).id = r.id := rfl
    have hrid' : (rowToRun row').id = row'.id := rfl
    by_cases hk : r.id = row'.id <;> simp [hrid,hrid',hk]

theorem agrees_settle (run : Run) : Agrees maxClaims (s.settle run) db := by
  unfold settle
  split
  · exact ⟨h.cap,h.runs,h.keyed,h.back,h.keys,h.ids,h.ledger⟩
  · exact h

theorem update_agrees (id : String) {guard : Pg.Row → Bool}
    {f : Pg.Row → Pg.Row} {P : Run → Prop} [DecidablePred P] {g : Run → Run}
    (hguard : ∀ row, guard row = true ↔ P (rowToRun row))
    (hf : ∀ row, rowToRun (f row) = g (rowToRun row))
    (note : Memory.Store → Run → Memory.Store)
    (hnote : ∀ s db run, Agrees maxClaims s db → Agrees maxClaims (note s run) db)
    (hid : ∀ row, (f row).id = row.id)
    (hkey : ∀ row, (f row).idempotencyKey = row.idempotencyKey) :
    let m : Memory.Store × Bool := match s.runs.find? id with
      | none => (s,false)
      | some run => if P run then (note (s.put (g run)) (g run),true) else (s,false)
    let u := db.update id guard f
    m.2 = decide (u.2 > 0) ∧ Agrees maxClaims m.1 u.1 := by
  unfold Pg.Db.update
  rw [find_run h id]
  cases hf' : db.runs.find? id with
  | none => exact ⟨rfl,h⟩
  | some row =>
    obtain ⟨mem,_⟩ := find?_eq_some.mp hf'
    simp only [Option.map_some]
    by_cases hp : P (rowToRun row)
    · simp only [hp,(hguard row).mpr hp]
      refine ⟨rfl,hnote _ _ _ ?_⟩
      rw [← hf row]
      exact agrees_set h mem (f row) (hid row) (hkey row)
    · have hg : guard row = false := by
        rw [← Bool.not_eq_true,hguard row]
        exact hp
      simp only [hp,hg]
      exact ⟨rfl,h⟩

end

theorem heldRunning_iff {token : String} (row : Pg.Row) : heldRunning token row = true ↔
      (rowToRun row).status = .running ∧ (rowToRun row).leaseToken = some token := by
  have hr : (rowToRun row).status = row.status := rfl
  have ht : (rowToRun row).leaseToken = row.leaseToken := rfl
  rw [hr,ht]
  constructor
  · intro h
    exact ⟨heldRunning_running h,heldRunning_token h⟩
  · rintro ⟨running,held⟩
    simp [heldRunning,sqlEq,running,held]

theorem heartbeat_agrees (h : Agrees maxClaims s db) (id token : String) (ttl t : Int) :
    let m := s.heartbeat id token ttl (fun _ => t)
    let u := db.heartbeat id token ttl t
    m.2 = decide (u.2 > 0) ∧ Agrees maxClaims m.1 u.1 :=
  update_agrees h id heldRunning_iff (fun _ => rfl) (fun s _ => s) (fun _ _ _ h => h)
    (fun _ => rfl) (fun _ => rfl)

theorem releaseLease_agrees (h : Agrees maxClaims s db) (id token : String) :
    let m := s.releaseLease id token
    let u := db.releaseLease id token
    m.2 = decide (u.2 > 0) ∧ Agrees maxClaims m.1 u.1 :=
  update_agrees h id heldRunning_iff (fun _ => rfl) (fun s _ => s) (fun _ _ _ h => h)
    (fun _ => rfl) (fun _ => rfl)

theorem sqlEq_token {token : String} (row : Pg.Row) : sqlEq row.leaseToken (some token) = true ↔
      (rowToRun row).leaseToken = some token := by
  have ht : (rowToRun row).leaseToken = row.leaseToken := rfl
  rw [sqlEq_iff]
  constructor
  · rintro ⟨t,held,shown⟩
    exact held.trans shown.symm
  · exact fun held => ⟨token,held,rfl⟩

theorem complete_agrees (h : Agrees maxClaims s db) (id token : String) (result : TurnResult) (t : Int) :
    let m := s.complete id token result (fun _ => t)
    let u := db.complete id token result t
    m.2 = decide (u.2 > 0) ∧ Agrees maxClaims m.1 u.1 :=
  update_agrees h id sqlEq_token (fun _ => rfl) settle
    (fun _ _ run h => agrees_settle h run) (fun _ => rfl) (fun _ => rfl)

theorem retireGuard_eq (opts : RetireOptions) (leased : row.status = .running → row.leaseToken.isSome = true) :
    retireGuard (rowToRun row) opts.ifExpiredAt row = !retireBlocked (rowToRun row) opts := by
  have hr : (rowToRun row).status = row.status := rfl
  have ht : (rowToRun row).leaseToken = row.leaseToken := rfl
  have he : (rowToRun row).leaseExpiresAt = row.leaseExpiresAt := rfl
  unfold retireGuard retireBlocked
  rw [hr,ht,he]
  by_cases running : row.status = .running
  · obtain ⟨token,held⟩ := Option.isSome_iff_exists.mp (leased running)
    cases opts.ifExpiredAt with
    | none => simp [held,sqlEq]
    | some now =>
      cases row.leaseExpiresAt with
      | none => simp [sqlLe]
      | some e =>
        simp only [held,sqlEq,sqlLe]
        by_cases hle : e ≤ now
        · simp [hle]
        · simp [Int.not_le.mp hle]
  · simp [running]

section

variable (h : Agrees maxClaims s db)
include h

theorem retire_agrees (mem : row ∈ db.runs)
    (leased : row.status = .running → row.leaseToken.isSome = true) (error : String) (retry : Bool)
    (opts : RetireOptions) (t : Int) : let m := s.retire (rowToRun row) error retry opts t
    let r := db.retire maxClaims (rowToRun row) error retry opts t
    m.2.1 = r.requeued ∧ m.2.2 = r.applied ∧ Agrees maxClaims m.1 r.db := by
  have hfind : db.runs.find? (rowToRun row).id = some row := find?_eq_some.mpr ⟨mem,rfl⟩
  have hguard := retireGuard_eq opts leased
  unfold retire Pg.Db.retire Pg.Db.update
  rw [hfind,h.cap]
  cases hb : retireBlocked (rowToRun row) opts with
  | true =>
    simp only [hguard,hb,if_true]
    split <;> exact ⟨rfl,rfl,h⟩
  | false =>
    simp only [hguard,hb]
    by_cases again : requeues maxClaims (rowToRun row) retry opts.countsAsError = true
    · have again' : retries maxClaims (unleased (rowToRun row) opts.countsAsError) retry = true := again
      simp only [again,again']
      refine ⟨rfl,rfl,?_⟩
      exact agrees_set h mem (requeuedRow opts.countsAsError row) rfl rfl
    · have again' : ¬ retries maxClaims (unleased (rowToRun row) opts.countsAsError) retry = true := again
      simp only [again,again',Bool.false_eq_true,if_false]
      refine ⟨trivial,rfl,agrees_settle ?_ _⟩
      exact agrees_set h mem (parkedRow _ t opts.countsAsError row) rfl rfl

theorem fail_agrees (sound : Memory.Sound s) (plan : Pg.Planner)
    (id token error : String) (retry : Bool) (t : Int) :
    let m := s.exec ⟨.fail id token error retry,fun _ => t⟩
    let u := db.exec maxClaims plan ⟨.fail id token error retry,fun _ => t⟩
    m.2 = u.2 ∧ Agrees maxClaims m.1 u.1 := by
  simp only [exec,fail,Pg.Db.exec,Pg.Db.start,Pg.Db.failRead,Pg.Db.getRun,find_run h id]
  cases hf : db.runs.find? id with
  | none => exact ⟨rfl,h⟩
  | some row =>
    have mem := mem_of_find? hf
    simp only [Option.map_some]
    by_cases held : (rowToRun row).leaseToken = some token
    · obtain ⟨hreq,_,hag⟩ := retire_agrees h mem
        (fun running => (sound.token _ (mem_runs h mem)).mpr running) error retry ⟨none,true⟩ t
      simp only [held,Option.filter_some]
      exact ⟨congrArg Reply.requeued hreq,hag⟩
    · simp only [held,Option.filter_some]
      exact ⟨rfl,h⟩

theorem any_rows (p : Run → Bool) : s.runs.rows.any p = db.runs.rows.any (fun row => p (rowToRun row)) := by
  rw [h.runs,List.any_map]
  rfl

theorem sessionRunning_eq (sessionId : String) : s.sessionHasRunning sessionId = db.sessionRunning sessionId :=
  any_rows h _

theorem claimable_eq (row : Pg.Row) : s.claimable (rowToRun row) = db.claimable row := by
  unfold claimable Pg.Db.claimable
  rw [sessionRunning_eq h]
  rfl

end

theorem running_index_kept {db : Pg.Db} (row' : Pg.Row) (free : db.claimable row = true)
    (hs : row'.sessionId = row.sessionId) : db.breaksRunningIndex row' = false := by
  simp only [Pg.Db.claimable,Pg.Db.sessionRunning,Bool.and_eq_true,Bool.not_eq_true', List.any_eq_false] at free
  simp only [Pg.Db.breaksRunningIndex,List.any_eq_false]
  intro r hr hbreak
  refine free.2 r hr ?_
  simp only [Bool.and_eq_true,decide_eq_true_eq] at hbreak ⊢
  exact ⟨hbreak.1.2.trans hs,hbreak.2⟩

theorem lease_agrees (h : Agrees maxClaims s db) (mem : row ∈ db.runs) (free : db.claimable row = true) (w : String)
    (ttl : Int) (uuid : String) (t : Int) : let m := s.lease (rowToRun row) w ttl uuid (fun _ => t)
    let u := db.lease (some row) w ttl uuid t
    m.2 = u.2 ∧ Agrees maxClaims m.1 u.1 := by
  have kept := running_index_kept (leasedRow w ttl uuid t row) free rfl
  simp only [Pg.Db.lease,kept]
  exact ⟨rfl,agrees_set h mem (leasedRow w ttl uuid t row) rfl rfl⟩

theorem claimById_agrees (h : Agrees maxClaims s db) (id w : String) (ttl : Int) (uuid : String) (t : Int) :
    let m := s.claimById id w ttl uuid (fun _ => t)
    let u := db.claimById id w ttl uuid t
    m.2 = u.2 ∧ Agrees maxClaims m.1 u.1 := by
  simp only [claimById,Pg.Db.claimById,Pg.Db.pendingById,find_run h id]
  cases hf : db.runs.find? id with
  | none => exact ⟨rfl,h⟩
  | some row =>
    simp only [Option.map_some,claimable_eq h row,Option.filter_some]
    by_cases free : db.claimable row = true
    · simp only [free]
      exact lease_agrees h (mem_of_find? hf) free w ttl uuid t
    · simp only [free]
      exact ⟨rfl,h⟩

def UniqueOldest (s : Memory.Store) : Prop :=
  ∀ r ∈ s.runs, ∀ r' ∈ s.runs, s.claimable r = true → s.claimable r' = true →
    (∀ q ∈ s.runs, s.claimable q = true → r.createdAt ≤ q.createdAt) →
    r'.createdAt = r.createdAt → r' = r

theorem head_insertionSort {α : Type} (age : α → Int) {as : List α} {a : α}
    (h : (as.insertionSort (fun x y => age x ≤ age y)).head? = some a) :
    a ∈ as ∧ ∀ b ∈ as, age a ≤ age b := by
  have sorted := List.pairwise_insertionSort (fun x y => age x ≤ age y) as
  have mem := List.mem_of_mem_head? (Option.mem_def.mpr h)
  rw [List.mem_insertionSort] at mem
  refine ⟨mem,?_⟩
  intro b hb
  rw [← List.mem_insertionSort (fun x y => age x ≤ age y)] at hb
  cases hs : as.insertionSort (fun x y => age x ≤ age y) with
  | nil => simp [hs] at hb
  | cons =>
    rw [hs] at h hb sorted
    cases h
    rcases List.mem_cons.mp hb with rfl | hb
    · exact le_rfl
    · exact List.rel_of_pairwise_cons sorted hb

theorem claimable_rows (h : Agrees maxClaims s db) :
    s.runs.rows.filter s.claimable = (db.runs.rows.filter db.claimable).map rowToRun := by
  rw [h.runs,List.filter_map]
  congr 1
  apply List.filter_congr
  intro row _
  exact claimable_eq h row

theorem head_insertionSort_none {α : Type} (age : α → Int) {as : List α} :
    (as.insertionSort (fun x y => age x ≤ age y)).head? = none ↔ as = [] := by
  rw [List.head?_eq_none_iff,← List.length_eq_zero_iff,List.length_insertionSort,List.length_eq_zero_iff]

theorem nextPending_none {db : Pg.Db} {plan : Pg.Planner} :
    db.nextPending plan = none ↔ db.runs.rows.filter db.claimable = [] := by
  rw [Pg.Db.nextPending,head_insertionSort_none Pg.Row.createdAt,← List.length_eq_zero_iff,
    (plan.perm _).length_eq,List.length_eq_zero_iff]

variable (h : Agrees maxClaims s db)
include h

theorem claim_agrees (plan : Pg.Planner) (unique : UniqueOldest s)
    (w : String) (ttl : Int) (uuid : String) (t : Int) :
    let m := s.claim w ttl uuid (fun _ => t)
    let u := db.claim plan w ttl uuid t
    m.2 = u.2 ∧ Agrees maxClaims m.1 u.1 := by
  simp only [claim,Pg.Db.claim]
  cases hm : ((s.runs.rows.filter s.claimable).insertionSort (fun a b => a.createdAt ≤ b.createdAt)).head? with
  | none =>
    have hnil := (head_insertionSort_none Run.createdAt).mp hm
    rw [claimable_rows h,List.map_eq_nil_iff] at hnil
    rw [nextPending_none.mpr hnil]
    exact ⟨rfl,h⟩
  | some =>
    obtain ⟨hrun,oldest⟩ := head_insertionSort Run.createdAt hm
    cases hp : db.nextPending plan with
    | none =>
      rw [claimable_rows h,nextPending_none.mp hp] at hrun
      cases hrun
    | some row =>
      obtain ⟨mem,free⟩ := nextPending_mem hp
      have first := (head_insertionSort Pg.Row.createdAt hp).2
      obtain ⟨row',hrow',rfl⟩ := List.mem_map.mp (claimable_rows h ▸ hrun)
      obtain ⟨mem',free'⟩ := List.mem_filter.mp hrow'
      have le := oldest (rowToRun row) (claimable_rows h ▸ List.mem_map_of_mem (List.mem_filter.mpr ⟨mem,free⟩))
      have ge : row.createdAt ≤ row'.createdAt := first row' ((plan.perm _).mem_iff.mpr hrow')
      have same : rowToRun row = rowToRun row' :=
        unique _ (mem_runs h mem') _ (mem_runs h mem) ((claimable_eq h row').trans free')
          ((claimable_eq h row).trans free)
          (fun q hq fq => oldest q (List.mem_filter.mpr ⟨hq,fq⟩)) (Int.le_antisymm ge le)
      simp only [← same]
      exact lease_agrees h mem free w ttl uuid t

theorem existing_none {dedupKey : Option String} (hk : dedupKey ≠ some "") :
    db.runs.rows.any (fun r => sqlEq r.idempotencyKey dedupKey) = false → s.existing dedupKey = none := by
  intro hany
  cases dedupKey with
  | none => rfl
  | some k =>
    cases hb : s.byKey.find? k with
    | none => simp [existing,hb,truthy]
    | some p =>
      obtain ⟨row,mem,_,hrk⟩ := h.back k p hb
      have := List.any_eq_false.mp hany row mem
      simp [hrk,sqlEq] at this

theorem existing_some {dedupKey : Option String} (mem : row ∈ db.runs)
    (heq : sqlEq row.idempotencyKey dedupKey = true) : s.existing dedupKey = some (rowToRun row) := by
  obtain ⟨k,hrk,rfl⟩ := sqlEq_iff.mp heq
  have hkey : some k ≠ some "" := hrk ▸ h.keys row mem
  have hid : some row.id ≠ some "" := fun he => h.ids row mem (Option.some.inj he)
  have hfind := find?_eq_some.mpr ⟨mem,rfl⟩
  simp [existing,truthy_eq hkey,h.keyed row mem k hrk,truthy_eq hid,find_run h,hfind]

theorem agrees_insert (input : EnqueueInput) (uuid : String) (t : Int)
    (hk : input.dedupKey ≠ some "") (hu : uuid ≠ "") (new : db.runs.find? uuid = none)
    (fresh : ∀ row ∈ db.runs, ∀ k, row.idempotencyKey = some k → input.dedupKey ≠ some k) :
    Agrees maxClaims {s.put (newRun input uuid t) with
        byKey := match truthy input.dedupKey with
          | some key => s.byKey.set (key,uuid)
          | none => s.byKey}
      {db with runs := db.runs.set (insertedRow input uuid t)} := by
  have newRun : s.runs.find? uuid = none := by rw [find_run h,new]; rfl
  rw [truthy_eq hk]
  refine ⟨h.cap,?_,?_,?_,?_,?_,h.ledger⟩
  · simp only [put_runs]
    rw [set_rows_of_new newRun,set_rows_of_new new,List.map_append,h.runs]
    rfl
  · intro row mem k hrk
    rcases mem_set.mp mem with rfl | ⟨mem,_⟩
    · have hd : input.dedupKey = some k := hrk
      simp only [hd,find?_set]
      rfl
    · have hold := h.keyed row mem k hrk
      have hne := fresh row mem k hrk
      cases hd : input.dedupKey with
      | none => exact hold
      | some k' =>
        have hkk : k ≠ k' := fun he => hne (by rw [hd,he])
        simpa [find?_set,hkk] using hold
  · intro k p hp
    have old (hp : s.byKey.find? k = some p) : ∃ row ∈ db.runs.set (insertedRow input uuid t),
        row.id = p.2 ∧ row.idempotencyKey = some k := by
      exact exists_set (h.back k p hp) fun row mem same => absurd same (find?_eq_none.mp new row mem)
    cases hd : input.dedupKey with
    | none =>
      simp only [hd] at hp
      exact old hp
    | some =>
      simp only [hd,find?_set] at hp
      split at hp
      next hkk =>
        cases hp
        exact ⟨insertedRow input uuid t,mem_set_self _ _,rfl,hd.trans (hkk ▸ rfl)⟩
      · exact old hp
  · exact forall_set hk h.keys
  · exact forall_set hu h.ids

theorem enqueue_agrees (plan : Pg.Planner) (input : EnqueueInput)
    (uuid : String) (t : Int) (hk : input.dedupKey ≠ some "") (hu : uuid ≠ "")
    (new : s.runs.find? uuid = none) :
    let m := s.exec ⟨.enqueue input uuid,fun _ => t⟩
    let u := db.exec maxClaims plan ⟨.enqueue input uuid,fun _ => t⟩
    m.2 = u.2 ∧ Agrees maxClaims m.1 u.1 := by
  have new' : db.runs.find? uuid = none := by
    rw [find_run h] at new
    exact Option.map_eq_none_iff.mp new
  simp only [exec,enqueue,Pg.Db.exec,Pg.Db.start,Pg.Db.insertRun]
  cases hany : db.runs.rows.any (fun r => sqlEq r.idempotencyKey input.dedupKey) with
  | true =>
    obtain ⟨row,hfind⟩ := Option.isSome_iff_exists.mp
      ((List.find?_isSome).mpr
        (List.any_eq_true.mp hany))
    have mem : row ∈ db.runs := List.mem_of_find?_eq_some hfind
    have heq := List.find?_some hfind
    simp only [existing_some h mem heq,insertedRow,hany,if_true,Pg.Flow.drain,Pg.Db.selectByKey,hfind]
    exact ⟨rfl,h⟩
  | false =>
    have fresh : ∀ row ∈ db.runs, ∀ k, row.idempotencyKey = some k → input.dedupKey ≠ some k := by
      intro row mem k hrk hd
      have := List.any_eq_false.mp hany row mem
      simp [hrk,hd,sqlEq] at this
    simp only [existing_none h hk hany,insertedRow,hany,new']
    exact ⟨rfl,agrees_insert h input uuid t hk hu new' fresh⟩

end

end CompanyBrain.Runs
