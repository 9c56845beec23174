import CompanyBrain.Runs.StoreRelation
import CompanyBrain.Foundations.JsText

namespace CompanyBrain.Runs

open Foundations Runs.Memory Pg.Db Pg.Tally

section

variable {maxClaims : Option Int} {s : Memory.Store} {db : Pg.Db}

section

variable (maxClaims : Option Int) (t : Int) (maxAgeMs : Option Int) (row : Pg.Row)

def retiredRow : Pg.Row :=
  let run := Pg.rowToRun row
  let old := tooOld run t maxAgeMs
  if Pg.requeues maxClaims run (!old) false then Pg.requeuedRow false row
  else Pg.parkedRow (failedResult row.sessionId
    (Pg.parkReason maxClaims run (reapReason old) (!old) false)) t false row

theorem retiredRow_id (age : Option Int) (row : Pg.Row) : (retiredRow maxClaims t age row).id = row.id := by
  simp only [retiredRow]
  split <;> rfl

def reapRequeues : Bool :=
  Pg.requeues maxClaims (Pg.rowToRun row) (!tooOld (Pg.rowToRun row) t maxAgeMs) false

def lapsedRow : Bool :=
  row.status = .running && Pg.sqlLe row.leaseExpiresAt (some t)

theorem lapsedRow_eq : leaseLapsed (Pg.rowToRun row) t = lapsedRow t row := by
  have he : (Pg.rowToRun row).leaseExpiresAt = row.leaseExpiresAt := rfl
  unfold leaseLapsed lapsedRow
  rw [he]
  cases row.leaseExpiresAt <;> rfl

end

variable {t : Int}

theorem retireGuard_of_lapsed {row : Pg.Row} (lapsed : lapsedRow t row = true) (leased : row.leaseToken.isSome = true) :
    Pg.retireGuard (Pg.rowToRun row) (some t) row = true := by
  have ht : (Pg.rowToRun row).leaseToken = row.leaseToken := rfl
  obtain ⟨token,held⟩ := Option.isSome_iff_exists.mp leased
  simp only [lapsedRow,Bool.and_eq_true] at lapsed
  simp [Pg.retireGuard,ht,held,Pg.sqlEq,lapsed.1,lapsed.2]

theorem reapRetire_lapsed {db : Pg.Db} (maxClaims : Option Int) {row : Pg.Row} (age : Option Int) (mem : row ∈ db.runs)
    (lapsed : lapsedRow t row = true) (leased : row.leaseToken.isSome = true) :
    db.reapRetire maxClaims (Pg.rowToRun row) t age t =
      ⟨{db with runs := db.runs.set (retiredRow maxClaims t age row)},
        reapRequeues maxClaims t age row,true⟩ := by
  have hfind : db.runs.find? (Pg.rowToRun row).id = some row := Table.find?_eq_some.mpr ⟨mem,rfl⟩
  have hguard := retireGuard_of_lapsed lapsed leased
  unfold reapRetire retire update retiredRow reapRequeues
  rw [hfind]
  simp only [hguard]
  by_cases again : Pg.requeues maxClaims (Pg.rowToRun row) (!tooOld (Pg.rowToRun row) t age) false = true
  · simp only [again]
    rfl
  · simp only [again]
    rfl

structure Due (t : Int) (db : Pg.Db) (rows : List Pg.Row) : Prop where
  mem : ∀ row ∈ rows, row ∈ db.runs
  lapsed : ∀ row ∈ rows, lapsedRow t row = true
  leased : ∀ row ∈ rows, row.leaseToken.isSome = true
  nodup : (rows.map Pg.Row.id).Nodup

theorem Due.perm {rows rows' : List Pg.Row} (due : Due t db rows) (perm : rows'.Perm rows) : Due t db rows' :=
  ⟨fun r hr => due.mem r (perm.mem_iff.mp hr),fun r hr => due.lapsed r (perm.mem_iff.mp hr),
    fun r hr => due.leased r (perm.mem_iff.mp hr),(perm.map Pg.Row.id).nodup_iff.mpr due.nodup⟩

variable {rows : List Pg.Row}

theorem Due.tail (maxClaims : Option Int) (age : Option Int) {row : Pg.Row}
    (due : Due t db (row :: rows)) : Due t {db with runs := db.runs.set (retiredRow maxClaims t age row)} rows := by
  obtain ⟨mem,lapsed,leased,nodup⟩ := due
  rw [List.map_cons,List.nodup_cons] at nodup
  refine ⟨fun r hr => ?_,fun r hr => lapsed r (by simp [hr]),fun r hr => leased r (by simp [hr]),nodup.2⟩
  refine Table.mem_set.mpr (.inr ⟨mem r (by simp [hr]),fun hk => nodup.1 ?_⟩)
  rw [retiredRow_id] at hk
  exact hk ▸ List.mem_map_of_mem hr

theorem sweep_rows (maxClaims : Option Int) (age : Option Int) {db : Pg.Db} (tally : Pg.Tally)
    (due : Due t db rows) :
    let acc := (rows.map Pg.rowToRun).foldl (Pg.sweepOne maxClaims t age (fun _ => t)) (db,tally)
    acc.1 = ⟨rows.foldl (fun u row => u.set (retiredRow maxClaims t age row)) db.runs,db.toolCalls⟩ ∧
    acc.2.requeued = tally.requeued + rows.countP (reapRequeues maxClaims t age) ∧
    acc.2.parked = tally.parked + rows.countP (fun row => !reapRequeues maxClaims t age row) := by
  induction rows generalizing db tally with
  | nil => exact ⟨rfl,rfl,rfl⟩
  | cons row _ ih =>
    have hstep := reapRetire_lapsed maxClaims age (due.mem row (by simp)) (due.lapsed row (by simp))
      (due.leased row (by simp))
    obtain ⟨hdb,hreq,hpark⟩ := ih (tally.add (Pg.rowToRun row) (reapRequeues maxClaims t age row))
      (due.tail maxClaims age)
    simp only [List.map_cons,List.foldl_cons,Pg.sweepOne,hstep]
    refine ⟨hdb,hreq.trans ?_,hpark.trans ?_⟩
    · cases hr : reapRequeues maxClaims t age row with
      | true => simp [add,hr,Nat.add_assoc,Nat.add_comm 1]
      | false => simp [add,hr]
    · cases hr : reapRequeues maxClaims t age row with
      | true => simp [add,hr]
      | false => simp [add,hr,Nat.add_assoc,Nat.add_comm 1]

theorem sweep_agrees (age : Option Int) (w : Memory.Sweep) {db : Pg.Db} (tally : Pg.Tally)
    (h : Agrees maxClaims w.store db) (counts : w.requeued = tally.requeued ∧ w.parked = tally.parked)
    (due : Due t db rows) :
    let m := (rows.map Pg.Row.id).foldl (fun w id => w.reap t age (fun _ => t) id) w
    let acc := (rows.map Pg.rowToRun).foldl (Pg.sweepOne maxClaims t age (fun _ => t)) (db,tally)
    Agrees maxClaims m.store acc.1 ∧ m.requeued = acc.2.requeued ∧ m.parked = acc.2.parked := by
  induction rows generalizing w db tally with
  | nil => exact ⟨h,counts⟩
  | cons row _ ih =>
    have here := due.mem row (by simp)
    have leased := due.leased row (by simp)
    have hstep := reapRetire_lapsed maxClaims age here (due.lapsed row (by simp)) leased
    have hfind : w.store.runs.find? row.id = some (Pg.rowToRun row) := by
      rw [find_run h,Table.find?_eq_some.mpr ⟨here,rfl⟩]
      rfl
    obtain ⟨hreq,happ,hag⟩ := retire_agrees h here (fun _ => leased)
      (reapReason (tooOld (Pg.rowToRun row) t age)) (!tooOld (Pg.rowToRun row) t age)
      ⟨some t,false⟩ t
    have hstep' := hstep
    unfold reapRetire at hstep'
    rw [hstep'] at hreq happ hag
    simp only [List.map_cons,List.foldl_cons,Pg.sweepOne,hstep,count]
    refine ih _ _ ?_ ?_ (due.tail maxClaims age)
    · simp only [Memory.Sweep.reap,hfind,happ]
      exact hag
    · simp only [Memory.Sweep.reap,hfind,happ,hreq,if_true,add,counts.1,counts.2]
      exact ⟨trivial,trivial⟩

theorem sweep_order (maxClaims : Option Int) (age : Option Int) {rows rows' : List Pg.Row} (perm : rows'.Perm rows)
    {db : Pg.Db} (due : Due t db rows) :
    let sweep := fun rows : List Pg.Row => (rows.map Pg.rowToRun).foldl
      (Pg.sweepOne maxClaims t age (fun _ => t)) (db,zero)
    (sweep rows').1 = (sweep rows).1 ∧ (sweep rows').2.requeued = (sweep rows).2.requeued ∧
      (sweep rows').2.parked = (sweep rows).2.parked := by
  have due' := due.perm perm
  obtain ⟨hdb,hreq,hpark⟩ := sweep_rows maxClaims age .zero due
  obtain ⟨hdb',hreq',hpark'⟩ := sweep_rows maxClaims age .zero due'
  have tables : rows'.foldl (fun u row => u.set (retiredRow maxClaims t age row)) db.runs =
      rows.foldl (fun u row => u.set (retiredRow maxClaims t age row)) db.runs := by
    apply Table.ext
    rw [Table.foldl_set_rows _ (retiredRow_id maxClaims t age) rows db.runs due.mem due.nodup,
      Table.foldl_set_rows _ (retiredRow_id maxClaims t age) rows' db.runs due'.mem due'.nodup]
    simp only [(perm.map Pg.Row.id).mem_iff]
  refine ⟨?_,?_,?_⟩
  · exact hdb'.trans ((congrArg (mk · db.toolCalls) tables).trans hdb.symm)
  · rw [hreq',hreq,perm.countP_eq]
  · rw [hpark',hpark,perm.countP_eq]

theorem reap_agrees (h : Agrees maxClaims s db) (sound : Memory.Sound s) (plan : Pg.Planner)
    (age : Option Int) (t : Int) :
    let m := s.exec ⟨.reapExpired age,fun _ => t⟩
    let u := db.exec maxClaims plan ⟨.reapExpired age,fun _ => t⟩
    m.2 = u.2 ∧ Agrees maxClaims m.1 u.1 := by
  have expired : s.expired t = (db.runs.rows.filter (lapsedRow t)).map Pg.Row.id := by
    unfold Memory.Store.expired
    rw [h.runs,List.filter_map,List.map_map]
    have hcomp : (leaseLapsed · t) ∘ Pg.rowToRun = lapsedRow t := funext (lapsedRow_eq t)
    rw [hcomp]
    rfl
  have due : Due t db (db.runs.rows.filter (lapsedRow t)) := by
    refine ⟨fun row hr => (List.mem_filter.mp hr).1,fun row hr => (List.mem_filter.mp hr).2,fun row hr => ?_,
      db.runs.nodup.sublist (List.filter_sublist.map Pg.Row.id)⟩
    obtain ⟨mem,lapsed⟩ := List.mem_filter.mp hr
    have running := (Bool.and_eq_true _ _ ▸ lapsed : _ ∧ _).1
    exact (sound.token _ (mem_runs h mem)).mpr (of_decide_eq_true running)
  obtain ⟨hag,hreq,hpark⟩ := sweep_agrees age ⟨s,0,0,[],[]⟩ zero h ⟨rfl,rfl⟩ due
  obtain ⟨hdb,hreq',hpark'⟩ := sweep_order maxClaims age (plan.perm (db.runs.rows.filter (lapsedRow t))) due
  simp only [Memory.Store.exec,Memory.Store.reapExpired,expired]
  refine ⟨?_,?_⟩
  · refine (congrArg₂ Reply.reaped (hreq.trans hreq'.symm) (hpark.trans hpark'.symm)).trans ?_
    rfl
  · exact hdb ▸ hag

theorem colon_notMem_toString (n : Nat) : ':' ∉ (toString n).toList := by
  intro h
  rw [Nat.toString_eq_repr,Nat.toList_repr] at h
  have digit := Nat.isDigit_of_mem_toDigits (by decide) (by decide) h
  exact absurd digit (by decide)

theorem append_colon_inj {xs ys : List Char} {m n : Nat}
    (h : xs ++ ':' :: (toString m).toList = ys ++ ':' :: (toString n).toList) :
    xs = ys ∧ m = n := by
  have hrev := congrArg List.reverse h
  simp only [List.reverse_append,List.reverse_cons,List.append_assoc,List.singleton_append] at hrev
  obtain ⟨hdigits,hxs⟩ := cut_inj (by simpa using colon_notMem_toString m)
    (by simpa using colon_notMem_toString n) hrev
  have digits := List.reverse_injective hdigits
  rw [Nat.toString_eq_repr,Nat.toString_eq_repr,Nat.toList_repr,Nat.toList_repr] at digits
  refine ⟨List.reverse_injective hxs,?_⟩
  simpa using congrArg (fun ds => Nat.ofDigitChars 10 ds 0) digits

theorem ledgerKey_toList (r : String) (a i : Nat) : (ledgerKey r a i).toList =
    (r.toList ++ ':' :: (toString a).toList) ++ ':' :: (toString i).toList := by
  have colon : ":".toList = [':'] := rfl
  simp [ledgerKey]

theorem ledgerKey_inj {r r' : String} {a a' i i' : Nat}
    (h : ledgerKey r a i = ledgerKey r' a' i') : (r,a,i) = (r',a',i') := by
  have hl := congrArg String.toList h
  rw [ledgerKey_toList,ledgerKey_toList] at hl
  obtain ⟨hfront,hi⟩ := append_colon_inj hl
  obtain ⟨hr,ha⟩ := append_colon_inj hfront
  rw [String.toList_injective hr,ha,hi]

theorem record_agrees (h : Agrees maxClaims s db) (r : String) (a i : Nat) (output : String)
    (t : Int) (same : s.begin r a i = none ∨ s.begin r a i = some output) :
    Agrees maxClaims (s.record r a i output) (db.record r a i output t) := by
  have hruns : (db.record r a i output t).runs = db.runs := by
    unfold record
    split <;> rfl
  refine ⟨h.cap,hruns ▸ h.runs,hruns ▸ h.keyed,hruns ▸ h.back,hruns ▸ h.keys,hruns ▸ h.ids,?_⟩
  intro r' a' i'
  have before := h.ledger r a i
  have hmem : (s.record r a i output).begin r' a' i' =
      if (r',a',i') = (r,a,i) then some output else s.begin r' a' i' := by
    simp only [Memory.Store.record,Memory.Store.begin,Table.find?_set]
    by_cases hk : (r',a',i') = (r,a,i)
    · cases hk
      simp
    · have hkey : ledgerKey r' a' i' ≠ ledgerKey r a i := fun he => hk (ledgerKey_inj he)
      simp only [hk,hkey,if_false]
  rw [hmem,h.ledger r' a' i']
  unfold record
  cases hf : db.toolCalls.find? (r,a,i) with
  | none =>
    simp only [Option.isSome_none,Bool.false_eq_true,if_false,begin,Table.find?_set,Pg.ToolCall.key]
    by_cases hk : (r',a',i') = (r,a,i) <;> simp [hk]
  | some call =>
    simp only [Option.isSome_some,if_true]
    split
    next hk =>
      cases hk
      have stored : db.begin r a i = some call.output := by simp [begin,hf]
      rw [before,stored] at same
      rcases same with hn | hs
      · cases hn
      · rw [stored,hs]
    · rfl

structure Request where
  op : Op
  reading : Int
  plan : Pg.Planner

def Request.call (q : Request) : Call := ⟨q.op,fun _ => q.reading⟩

def memoryExec (s : Memory.Store) (q : Request) : Memory.Store × Reply := s.exec q.call

def postgresExec (maxClaims : Option Int) (db : Pg.Db) (q : Request) : Pg.Db × Reply :=
  db.exec maxClaims q.plan q.call

def Comparable (s : Memory.Store) (q : Request) : Prop :=
  match q.op with
  | .enqueue input _ => input.dedupKey ≠ some ""
  | .claim _ _ _ => UniqueOldest s
  | .record runId attempt callIndex output =>
    s.begin runId attempt callIndex = none ∨ s.begin runId attempt callIndex = some output
  | _ => True

theorem exec_agrees (h : Agrees maxClaims s db) (sound : Memory.Sound s) (q : Request)
    (new : Memory.Call.newTo s q.call) (real : "" ∉ q.op.drawn) (hq : Comparable s q) :
    (memoryExec s q).2 = (postgresExec maxClaims db q).2 ∧
      Agrees maxClaims (memoryExec s q).1 (postgresExec maxClaims db q).1 := by
  obtain ⟨op,t,plan⟩ := q
  have asReply {m : Memory.Store × Bool} {u : Pg.Db × Nat}
      (hp : m.2 = decide (u.2 > 0) ∧ Agrees maxClaims m.1 u.1) :
      Reply.flag m.2 = Reply.flag (u.2 > 0) ∧ Agrees maxClaims m.1 u.1 :=
    ⟨congrArg Reply.flag hp.1,hp.2⟩
  cases op with
  | enqueue input uuid =>
    have hu : uuid ≠ "" := fun he => real (he ▸ List.mem_singleton.mpr rfl)
    exact enqueue_agrees h plan input uuid t hq hu (new input uuid rfl)
  | claim w ttl uuid =>
    obtain ⟨hrun,hag⟩ := claim_agrees h plan hq w ttl uuid t
    exact ⟨congrArg Reply.claimed hrun,hag⟩
  | claimById id w ttl uuid =>
    obtain ⟨hrun,hag⟩ := claimById_agrees h id w ttl uuid t
    exact ⟨congrArg Reply.claimed hrun,hag⟩
  | heartbeat id token ttl => exact asReply (heartbeat_agrees h id token ttl t)
  | releaseLease id token => exact asReply (releaseLease_agrees h id token)
  | complete id token result =>
    obtain ⟨hflag,hag⟩ := complete_agrees h id token result t
    simp only [Request.call,postgresExec,exec,start]
    by_cases hc : (db.complete id token result t).2 > 0
    · simp only [hc]
      exact ⟨congrArg Reply.flag (hflag.trans (decide_eq_true hc)),hag⟩
    · simp only [hc]
      exact ⟨congrArg Reply.flag (hflag.trans (decide_eq_false hc)),hag⟩
  | fail id token error retry => exact fail_agrees h sound plan id token error retry t
  | reapExpired age => exact reap_agrees h sound plan age t
  | begin id attempt index => exact ⟨congrArg Reply.began (h.ledger id attempt index),h⟩
  | record id attempt index output =>
    exact ⟨rfl,record_agrees h id attempt index output t hq⟩

end

theorem after_memoryExec (s : Memory.Store) (requests : List Request) :
    after memoryExec s requests = run Memory.Store.step s (requests.map Request.call) := by
  simp only [run,List.foldl_map]
  rfl

structure Sequenced (maxClaims : Option Int) (listeners : List Listener) (requests : List Request) : Prop where
  fresh : FreshIds (requests.map Request.call)
  real : "" ∉ drawn (requests.map Request.call)
  comparable : Along (fun s q => (memoryExec s q).1) Comparable (create maxClaims listeners) requests

theorem drawn_snoc (past : List Request) (q : Request) :
    drawn ((past ++ [q]).map Request.call) = drawn (past.map Request.call) ++ q.op.drawn := by
  simp [drawn,Request.call]

theorem sequenced_closed {maxClaims : Option Int} {listeners : List Listener}
    (past : List Request) (q : Request) (h : Sequenced maxClaims listeners (past ++ [q])) :
    Sequenced maxClaims listeners past where
  fresh := by
    have hfresh := h.fresh
    rw [List.map_append] at hfresh
    exact freshIds_closed _ _ hfresh
  real hm := h.real (drawn_snoc past q ▸ List.mem_append_left _ hm)
  comparable := ((along_append _ past [q]).mp h.comparable).1

theorem sequenced_next {maxClaims : Option Int} {listeners : List Listener}
    (past : List Request) (q : Request) (h : Sequenced maxClaims listeners (past ++ [q]))
    (hag : Agrees maxClaims (after memoryExec (create maxClaims listeners) past)
      (after (postgresExec maxClaims) empty past)) :
    let s := after memoryExec (create maxClaims listeners) past
    let db := after (postgresExec maxClaims) empty past
    (memoryExec s q).2 = (postgresExec maxClaims db q).2 ∧
      Agrees maxClaims (memoryExec s q).1 (postgresExec maxClaims db q).1 := by
  have hfresh := h.fresh
  rw [List.map_append] at hfresh
  have reached := reached_run maxClaims listeners _ (freshIds_closed _ _ hfresh)
  have new := new_of_fresh hfresh reached
  rw [← after_memoryExec] at reached new
  have hq := ((along_append _ past [q]).mp h.comparable).2.1
  refine exec_agrees hag reached.sound q new (fun hm => h.real ?_) hq
  exact drawn_snoc past q ▸ List.mem_append_right _ hm

theorem stores_agree (maxClaims : Option Int) (listeners : List Listener) (requests : List Request)
    (fresh : FreshIds (requests.map Request.call))
    (real : "" ∉ drawn (requests.map Request.call))
    (comparable : Along (fun s q => (memoryExec s q).1) Comparable (create maxClaims listeners) requests) :
    let s := after memoryExec (create maxClaims listeners) requests
    let db := after (postgresExec maxClaims) empty requests
    outputs memoryExec (create maxClaims listeners) requests = outputs (postgresExec maxClaims) empty requests ∧
    (∀ id, s.runs.find? id = db.getRun id) ∧
    (∀ runId attempt callIndex, s.begin runId attempt callIndex = db.begin runId attempt callIndex) := by
  obtain ⟨hout,hag⟩ := outputs_agree sequenced_closed (agrees_create maxClaims listeners)
    sequenced_next requests ⟨fresh,real,comparable⟩
  exact ⟨hout,find_run hag,hag.ledger⟩

def agreeingRequests : List Request :=
  [⟨.enqueue ⟨"s1",⟨"go",.direct⟩,some "k1",none⟩ "r1",0,Pg.scanOrder⟩,
   ⟨.enqueue ⟨"s1",⟨"again",.direct⟩,some "k1",none⟩ "r2",1,Pg.scanOrder⟩,
   ⟨.claimById "r1" "w1" 10 "t1",2,Pg.scanOrder⟩,
   ⟨.record "r1" 1 0 "out",3,Pg.scanOrder⟩,
   ⟨.reapExpired none,20,Pg.scanOrder⟩]

theorem stores_agree_dedup_and_reap : FreshIds (agreeingRequests.map Request.call) ∧
    outputs memoryExec (create none []) agreeingRequests =
      outputs (postgresExec none) empty agreeingRequests := by
  have fresh : FreshIds (agreeingRequests.map Request.call) := by unfold FreshIds; decide
  refine ⟨fresh,(stores_agree none [] agreeingRequests fresh (by decide) ?_).1⟩
  simp [agreeingRequests,Along,Comparable]
  exact .inl rfl

def newestFirst : Pg.Planner := ⟨List.reverse,List.reverse_perm⟩

def recordedTwice : List Request :=
  [⟨.record "r1" 1 0 "first",0,Pg.scanOrder⟩,⟨.record "r1" 1 0 "second",1,Pg.scanOrder⟩,
   ⟨.begin "r1" 1 0,2,Pg.scanOrder⟩]

def emptyKeyTwice : List Request :=
  [⟨.enqueue ⟨"s1",⟨"go",.direct⟩,some "",none⟩ "r1",0,Pg.scanOrder⟩,
   ⟨.enqueue ⟨"s2",⟨"go",.direct⟩,some "",none⟩ "r2",1,Pg.scanOrder⟩]

def tiedClaim : List Request :=
  [⟨.enqueue ⟨"s1",⟨"go",.direct⟩,none,none⟩ "r1",0,Pg.scanOrder⟩,
   ⟨.enqueue ⟨"s2",⟨"go",.direct⟩,none,none⟩ "r2",0,Pg.scanOrder⟩,
   ⟨.claim "w1" 10 "t1",1,newestFirst⟩]

theorem stores_differ : (FreshIds (recordedTwice.map Request.call) ∧
      outputs memoryExec (create none []) recordedTwice ≠ outputs (postgresExec none) empty recordedTwice) ∧
    (FreshIds (emptyKeyTwice.map Request.call) ∧ outputs memoryExec (create none []) emptyKeyTwice ≠
        outputs (postgresExec none) empty emptyKeyTwice) ∧
    (FreshIds (tiedClaim.map Request.call) ∧ outputs memoryExec (create none []) tiedClaim ≠
        outputs (postgresExec none) empty tiedClaim) := by
  unfold FreshIds
  decide

end CompanyBrain.Runs
