import CompanyBrain.Runs.MemoryInvariant
import Mathlib.Data.List.Infix

namespace CompanyBrain.Runs.Memory

open Foundations Table

def Reply.enqueuedId (sessionId : String) : Reply → Option String
  | .enqueued ⟨run,false⟩ => if run.sessionId = sessionId then some run.id else none
  | _ => none

def Reply.claimedId (sessionId : String) : Reply → Option String
  | .claimed (some run) => if run.sessionId = sessionId then some run.id else none
  | _ => none

def firsts (ids : List String) : List String :=
  ids.foldl (fun seen id => if id ∈ seen then seen else seen ++ [id]) []

def enqueuedIn (sessionId : String) (replies : List Reply) : List String :=
  replies.filterMap (Reply.enqueuedId sessionId)

def firstClaimedIn (sessionId : String) (replies : List Reply) : List String :=
  firsts (replies.filterMap (Reply.claimedId sessionId))

def finishedIn (sessionId : String) (s : Store) : List String :=
  (s.emitted.filter fun e => e.2.sessionId = sessionId).map Prod.fst

def Op.isClaimById : Op → Bool
  | .claimById _ _ _ _ => true
  | _ => false

structure NeverBack (calls : List Call) : Prop where
  across : calls.Pairwise fun a b => ∀ i j, a.clock i ≤ b.clock j
  within : ∀ c ∈ calls, ∀ i j, i ≤ j → c.clock i ≤ c.clock j

theorem filter_initial {α : Type} {p : α → Bool} {l : List α} (closed : l.Pairwise fun a b => p b → p a) :
    l.filter p <+: l := by
  induction l with
  | nil => exact List.prefix_rfl
  | cons a l ih =>
    obtain ⟨first,rest⟩ := List.pairwise_cons.mp closed
    cases ha : p a with
    | true =>
      rw [List.filter_cons_of_pos ha]
      exact (List.prefix_cons_inj a).mpr (ih rest)
    | false =>
      have none : (a :: l).filter p = [] := by
        refine List.filter_eq_nil_iff.mpr fun b mem pb => ?_
        rcases List.mem_cons.mp mem with rfl | mem
        · rw [ha] at pb
          cases pb
        · rw [first b mem pb] at ha
          cases ha
      rw [none]
      exact List.nil_prefix

theorem firsts_snoc (ids : List String) (id : String) :
    firsts (ids ++ [id]) = if id ∈ firsts ids then firsts ids else firsts ids ++ [id] := by
  rw [firsts,List.foldl_append]
  rfl

def Untouched (r : Run) : Prop := r.status = .pending ∧ r.attempts = 0

def Turn (a b : Run) : Prop := a.sessionId = b.sessionId → isTerminal a.status = true ∨ Untouched b

def idsIn (sessionId : String) (p : Run → Bool) (rows : List Run) : List String :=
  (rows.filter fun r => r.sessionId = sessionId && p r).map Run.id

def tried (r : Run) : Bool := 0 < r.attempts

structure Ordered (s : Store) : Prop where
  inTurn : s.runs.rows.Pairwise Turn
  aged : s.runs.rows.Pairwise fun a b => a.createdAt ≤ b.createdAt
  attempted : ∀ r ∈ s.runs, r.status = .pending ∨ tried r = true
  finished : ∀ sessionId, finishedIn sessionId s = idsIn sessionId (fun r => isTerminal r.status) s.runs.rows

structure InOrder (past : List Call) (enqueued claimed : String → List String) (s : Store) : Prop where
  ordered : Ordered s
  stamped : ∀ r ∈ s.runs, ∃ c ∈ past, r.createdAt = c.clock 0
  enqueued : ∀ sessionId, enqueued sessionId = idsIn sessionId (fun _ => true) s.runs.rows
  claimed : ∀ sessionId, claimed sessionId = idsIn sessionId tried s.runs.rows

structure Edit (s t : Store) (pre post : List Run) (run run' : Run) : Prop where
  before : s.runs.rows = pre ++ run :: post
  now : t.runs.rows = pre ++ run' :: post
  id : run'.id = run.id
  session : run'.sessionId = run.sessionId
  created : run'.createdAt = run.createdAt
  attempts : run.attempts ≤ run'.attempts
  attempted : run'.status = .pending ∨ tried run' = true
  live : isTerminal run.status = false
  left : ∀ a ∈ pre, a.sessionId = run.sessionId → isTerminal a.status = true
  emitted : ∀ sessionId, finishedIn sessionId t = finishedIn sessionId s ++
    if run.sessionId = sessionId ∧ isTerminal run'.status = true then [run.id] else []

section

variable {s t : Store} {pre post : List Run} {run run' : Run} {past : List Call} {enqueued claimed : String →
    List String}

theorem right_untouched (turns : (pre ++ run :: post).Pairwise Turn) (live : isTerminal run.status = false) :
    ∀ b ∈ post, b.sessionId = run.sessionId → Untouched b := by
  intro b hb same
  have split := (List.pairwise_append.mp turns).2.1
  rcases (List.pairwise_cons.mp split).1 b hb same.symm with dead | untouched
  · rw [live] at dead
    cases dead
  · exact untouched

section

variable (edit : Edit s t pre post run run')
include edit

theorem Edit.idsIn_eq (ordered : Ordered s) {p : Run → Bool}
    (keeps : p run → p run') (untouched : p run = false → ∀ r, Untouched r → p r = false) (sessionId : String) :
    idsIn sessionId p t.runs.rows = idsIn sessionId p s.runs.rows ++
      if run.sessionId = sessionId ∧ p run = false ∧ p run' = true then [run.id] else [] := by
  rw [edit.before,edit.now]
  by_cases mine : run.sessionId = sessionId
  · cases was : p run with
    | true => simp [idsIn,edit.session,edit.id,mine,was,keeps was]
    | false =>
      have turns := ordered.inTurn
      rw [edit.before] at turns
      have none : post.filter (fun r => r.sessionId = sessionId && p r) = [] := by
        refine List.filter_eq_nil_iff.mpr fun b hb both => ?_
        obtain ⟨same,pb⟩ := Bool.and_eq_true_iff.mp both
        have new := right_untouched turns edit.live b hb ((of_decide_eq_true same).trans mine.symm)
        rw [untouched was b new] at pb
        cases pb
      cases is : p run' <;> simp [idsIn,edit.session,edit.id,mine,was,is,none]
  · simp [idsIn,edit.session,mine]

theorem Edit.inTurn (ordered : Ordered s) : t.runs.rows.Pairwise Turn := by
  have turns := ordered.inTurn
  rw [edit.before] at turns
  have right := right_untouched turns edit.live
  rw [edit.now]
  simp only [List.pairwise_append,List.pairwise_cons,List.mem_cons,forall_eq_or_imp] at turns ⊢
  obtain ⟨inPre,⟨-,inPost⟩,across⟩ := turns
  refine ⟨inPre,⟨fun b hb same => .inr (right b hb (same.symm.trans edit.session)),inPost⟩,fun a ha => ?_⟩
  exact ⟨fun same => .inl (edit.left a ha (same.trans edit.session)),(across a ha).2⟩

theorem Edit.mem {r : Run} (mem : r ∈ t.runs) : r = run' ∨ r ∈ s.runs := by
  rw [← mem_rows,edit.now] at mem
  rw [← mem_rows,edit.before]
  simp only [List.mem_append,List.mem_cons] at mem ⊢
  rcases mem with left | rfl | right
  · exact .inr (.inl left)
  · exact .inl rfl
  · exact .inr (.inr (.inr right))

theorem Edit.ordered (ordered : Ordered s) : Ordered t := by
  refine ⟨edit.inTurn ordered,?_,fun r mem => ?_,fun sessionId => ?_⟩
  · have aged := ordered.aged
    rw [edit.before] at aged
    rw [edit.now]
    simpa only [List.pairwise_append,List.pairwise_cons,List.mem_cons,forall_eq_or_imp,edit.created] using aged
  · rcases edit.mem mem with rfl | old
    · exact edit.attempted
    · exact ordered.attempted r old
  · have ids := edit.idsIn_eq ordered (p := fun r => isTerminal r.status) (fun dead => by simp [edit.live] at dead)
      (fun _ r new => by simp [new.1,isTerminal]) sessionId
    rw [edit.emitted,ids,ordered.finished]
    simp [edit.live]

end

section

variable (inOrder : InOrder past enqueued claimed s)
include inOrder

theorem InOrder.edit (edit : Edit s t pre post run run') :
    InOrder past enqueued
      (fun i => claimed i ++ if run.sessionId = i ∧ tried run = false ∧ tried run' = true then [run.id] else []) t := by
  have ordered := inOrder.ordered
  refine ⟨edit.ordered ordered,fun r mem => ?_,fun i => ?_,fun i => ?_⟩
  · rcases edit.mem mem with rfl | old
    · rw [edit.created]
      refine inOrder.stamped run ?_
      rw [← mem_rows,edit.before]
      exact List.mem_append_right _ (.head _)
    · exact inOrder.stamped r old
  · rw [inOrder.enqueued,edit.idsIn_eq ordered (fun _ => rfl) (fun never => by cases never)]
    simp
  · have keeps : tried run = true → tried run' = true := fun was =>
      decide_eq_true (lt_of_lt_of_le (of_decide_eq_true was) edit.attempts)
    rw [inOrder.claimed,edit.idsIn_eq ordered keeps fun _ r new => by simp [tried,new.2]]

theorem InOrder.same (edit : Edit s t pre post run run')
    (attempts : run'.attempts = run.attempts) : InOrder past enqueued claimed t := by
  have next := inOrder.edit edit
  have as_before : tried run' = tried run := by rw [tried,tried,attempts]
  simpa [as_before] using next

omit inOrder in
theorem put_rows (split : s.runs.rows = pre ++ run :: post) (id : run'.id = run.id) :
    (s.put run').runs.rows = pre ++ run' :: post := by
  have mem : run ∈ s.runs := by
    rw [← mem_rows,split]
    exact List.mem_append_right _ (.head _)
  have once := s.runs.nodup
  rw [split,List.map_append,List.map_cons,List.nodup_append,List.nodup_cons] at once
  have keep (l : List Run) (other : ∀ r ∈ l, r.id ≠ run'.id) :
      l.map (fun r => if r.id = run'.id then run' else r) = l := by
    refine (List.map_congr_left fun r hr => ?_).trans (List.map_id l)
    exact if_neg (other r hr)
  have apart : ∀ r ∈ pre, r.id ≠ run'.id := fun r hr same =>
    once.2.2 r.id (List.mem_map_of_mem hr) run.id (.head _) (same.trans id)
  have apart' : ∀ r ∈ post, r.id ≠ run'.id := fun r hr same =>
    once.2.1.1 (id ▸ same ▸ List.mem_map_of_mem hr)
  rw [put_runs,set_rows_of_mem mem id.symm,split,List.map_append,List.map_cons,if_pos id.symm,keep pre apart,
    keep post apart']

structure SameRun (run run' : Run) : Prop where
  id : run'.id = run.id
  session : run'.sessionId = run.sessionId
  created : run'.createdAt = run.createdAt
  attempts : run'.attempts = run.attempts

omit inOrder in
theorem edit_running (ordered : Ordered s) (mem : run ∈ s.runs) (running : run.status = .running)
    (same : SameRun run run') (runs : t.runs = (s.put run').runs)
    (emitted : ∀ sessionId, finishedIn sessionId t = finishedIn sessionId s ++
      if run.sessionId = sessionId ∧ isTerminal run'.status = true then [run.id] else []) :
    ∃ pre post, Edit s t pre post run run' := by
  obtain ⟨pre,post,split⟩ := List.append_of_mem (mem_rows.mpr mem)
  have turns := ordered.inTurn
  rw [split] at turns
  have touched : ¬ Untouched run := fun untouched => by simp [untouched.1] at running
  have was : tried run = true := (ordered.attempted run mem).resolve_left (by simp [running])
  refine ⟨pre,post,split,by rw [runs,put_rows split same.id],same.id,same.session,same.created,
    same.attempts.ge,.inr ?_,isTerminal_eq_false (.inr running),fun a ha mine => ?_,emitted⟩
  · rw [tried,same.attempts]
    exact was
  · exact ((List.pairwise_append.mp turns).2.2 a ha run (.head _) mine).resolve_right touched

theorem InOrder.put (mem : run ∈ s.runs) (running : run.status = .running)
    (same : SameRun run run') (live : isTerminal run'.status = false) : InOrder past enqueued claimed (s.put run') := by
  obtain ⟨pre,post,edit⟩ := edit_running inOrder.ordered mem running same rfl fun i => by
    simp [live,finishedIn,Store.put]
  exact inOrder.same edit same.attempts

theorem InOrder.settle (mem : run ∈ s.runs) (running : run.status = .running)
    (same : SameRun run run') (dead : isTerminal run'.status) :
    InOrder past enqueued claimed ((s.put run').settle run') := by
  obtain ⟨pre,post,edit⟩ := edit_running inOrder.ordered mem running same (settle_runs (s.put run') run') fun i => by
    simp only [finishedIn,Store.settle,dead,if_true,List.filter_append,List.map_append]
    congr 1
    by_cases mine : run.sessionId = i <;> simp [mine,same.session,same.id]
  exact inOrder.same edit same.attempts

end

theorem move_inOrder {op : Op} (move : Move op s t) (noClaim : op.isClaim = false)
    (noEnqueue : ∀ input uuid, op ≠ .enqueue input uuid) (sound : Sound s) (inOrder : InOrder past enqueued claimed s) :
    InOrder past enqueued claimed t := by
  cases move with
  | added input uuid => exact absurd rfl (noEnqueue input uuid)
  | leased _ _ _ _ claims =>
    rw [noClaim] at claims
    cases claims
  | beat _ _ _ mem running =>
    exact inOrder.put mem running ⟨rfl,rfl,rfl,rfl⟩ (isTerminal_eq_false (.inr running))
  | released _ mem running | requeued _ mem running => exact inOrder.put mem running ⟨rfl,rfl,rfl,rfl⟩ rfl
  | completed _ _ _ mem held =>
    exact inOrder.settle mem (running_of_held sound mem held) ⟨rfl,rfl,rfl,rfl⟩ rfl
  | parked _ _ mem running => exact inOrder.settle mem running ⟨rfl,rfl,rfl,rfl⟩ rfl
  | recorded =>
    obtain ⟨⟨inTurn,aged,attempted,finished⟩,stamped,enqueued,claimed⟩ := inOrder
    exact ⟨⟨inTurn,aged,attempted,finished⟩,stamped,enqueued,claimed⟩

theorem claim_head (ordered : Ordered s)
    (head : ((s.runs.rows.filter s.claimable).insertionSort fun a b => a.createdAt ≤ b.createdAt).head? = some run) :
    ∃ pre post, s.runs.rows = pre ++ run :: post ∧ ∀ a ∈ pre, s.claimable a = false := by
  have sorted : (s.runs.rows.filter s.claimable).Pairwise fun a b => a.createdAt ≤ b.createdAt := ordered.aged.filter _
  rw [sorted.insertionSort_eq,List.head?_filter,List.find?_eq_some_iff_append] at head
  obtain ⟨-,pre,post,split,blocked⟩ := head
  exact ⟨pre,post,split,fun a ha => by simpa using blocked a ha⟩

theorem left_of_claimed (split : s.runs.rows = pre ++ run :: post) (free : s.claimable run)
    (blocked : ∀ a ∈ pre, s.claimable a = false) : ∀ a ∈ pre, a.sessionId = run.sessionId → isTerminal a.status := by
  intro a ha same
  have mem : a ∈ s.runs := by
    rw [← mem_rows,split]
    exact List.mem_append_left _ ha
  have idle := (claimable_iff.mp free).2
  have waits : a.status ≠ .pending := by
    intro pending
    have claimable : s.claimable a = true :=
      claimable_iff.mpr ⟨pending,fun r hr mine => idle r hr (mine.trans same)⟩
    rw [blocked a ha] at claimable
    cases claimable
  have stopped := idle a mem same
  cases status : a.status with
  | pending => exact absurd status waits
  | running => exact absurd status stopped
  | done | failed => rfl

theorem edit_claim (ordered : Ordered s) (w : String) (ttl : Int) (uuid : String) (clock : Clock)
    (head : ((s.runs.rows.filter s.claimable).insertionSort fun a b => a.createdAt ≤ b.createdAt).head? = some run) :
    ∃ pre post, Edit s (s.lease run w ttl uuid clock).1 pre post run (leased run w ttl uuid clock) := by
  obtain ⟨pre,post,split,blocked⟩ := claim_head ordered head
  have free := (claim_head_mem head).2
  refine ⟨pre,post,split,put_rows split rfl,rfl,rfl,rfl,Nat.le_succ _,.inr (decide_eq_true (Nat.succ_pos _)),
    isTerminal_eq_false (.inl (claimable_iff.mp free).1),left_of_claimed split free blocked,fun i => ?_⟩
  simp [leased,isTerminal]
  rfl

theorem InOrder.later (inOrder : InOrder past enqueued claimed s) (c : Call) :
    InOrder (past ++ [c]) enqueued claimed s :=
  {inOrder with stamped := fun r mem => (inOrder.stamped r mem).imp fun _ h => ⟨List.mem_append_left _ h.1,h.2⟩}

end

def RepliesInOrder (past : List Call) (replies : List Reply) : Store → Prop :=
  InOrder past (enqueuedIn · replies) (firstClaimedIn · replies)

section

variable {past : List Call} {replies : List Reply} {s t : Store} {c : Call} {reply : Reply}

theorem firstClaimedIn_snoc (sessionId : String) (replies : List Reply) (reply : Reply) :
    firstClaimedIn sessionId (replies ++ [reply]) = firstClaimedIn sessionId replies ++
      (Reply.claimedId sessionId reply).toList.filter (· ∉ firstClaimedIn sessionId replies) := by
  rw [firstClaimedIn,List.filterMap_append]
  cases h : Reply.claimedId sessionId reply with
  | none => simp [h,firstClaimedIn]
  | some id =>
    rw [List.filterMap_cons_some h,List.filterMap_nil,firsts_snoc]
    by_cases seen : id ∈ firstClaimedIn sessionId replies <;> simp_all [firstClaimedIn]

theorem inOrder_quiet (inOrder : RepliesInOrder past replies t)
    (noEnqueue : ∀ sessionId, Reply.enqueuedId sessionId reply = none)
    (noClaim : ∀ sessionId, Reply.claimedId sessionId reply = none) :
    RepliesInOrder (past ++ [c]) (replies ++ [reply]) t := by
  have next := InOrder.later inOrder c
  refine {next with enqueued := fun i => ?_, claimed := fun i => ?_}
  · rw [← inOrder.enqueued]
    simp [noEnqueue,enqueuedIn]
  · rw [← inOrder.claimed,firstClaimedIn_snoc,noClaim]
    simp

theorem inOrder_other (sound : Sound s) (new : Call.newTo s c) (inOrder : RepliesInOrder past replies s)
    (noClaim : c.op.isClaim = false) (noEnqueue : ∀ input uuid, c.op ≠ .enqueue input uuid) :
    RepliesInOrder (past ++ [c]) (replies ++ [(s.exec c).2]) (s.step c) := by
  have moved := moves_induct (P := fun t => Sound t ∧ RepliesInOrder past replies t)
    (fun move h => ⟨move_sound move h.1,move_inOrder move noClaim noEnqueue h.1 h.2⟩) (step_moves new) ⟨sound,inOrder⟩
  refine inOrder_quiet moved.2 (fun i => ?_) (fun i => ?_)
  · obtain ⟨op,clock⟩ := c
    cases op <;> first | rfl | exact absurd rfl (noEnqueue _ _)
  · obtain ⟨op,clock⟩ := c
    cases op <;> first | rfl | cases noClaim

theorem mem_idsIn {p : Run → Bool} {run : Run} (mem : run ∈ s.runs) {sessionId : String}
    (mine : run.sessionId = sessionId) : run.id ∈ idsIn sessionId p s.runs.rows ↔ p run := by
  rw [idsIn,List.mem_map]
  constructor
  · rintro ⟨r,hr,id⟩
    obtain ⟨hr,both⟩ := List.mem_filter.mp hr
    rw [← eq_of_key hr mem id]
    exact (Bool.and_eq_true_iff.mp both).2
  · intro was
    exact ⟨run,List.mem_filter.mpr ⟨mem,by simp [mine,was]⟩,rfl⟩

theorem inOrder_claim (inOrder : RepliesInOrder past replies s) (w : String) (ttl : Int) (uuid : String)
    (clock : Clock) :
    RepliesInOrder (past ++ [⟨.claim w ttl uuid,clock⟩])
      (replies ++ [.claimed (s.claim w ttl uuid clock).2]) (s.claim w ttl uuid clock).1 := by
  simp only [Store.claim]
  split
  · exact inOrder_quiet inOrder (fun _ => rfl) fun _ => rfl
  next run head =>
    have mem := (claim_head_mem head).1
    obtain ⟨pre,post,edit⟩ := edit_claim inOrder.ordered w ttl uuid clock head
    have next := (inOrder.edit edit).later ⟨.claim w ttl uuid,clock⟩
    refine {next with enqueued := fun i => ?_, claimed := fun i => ?_}
    · rw [← next.enqueued]
      simp [Reply.enqueuedId,enqueuedIn]
    · rw [← next.claimed,firstClaimedIn_snoc,inOrder.claimed]
      by_cases mine : run.sessionId = i
      · have seen := mem_idsIn (p := tried) mem mine
        cases was : tried run <;> simp_all [Reply.claimedId,Store.lease,leased,tried]
      · simp [Reply.claimedId,Store.lease,leased,mine]

theorem inOrder_enqueue (inOrder : RepliesInOrder past replies s) (input : EnqueueInput) (uuid : String) (clock : Clock)
    (new : s.runs.find? uuid = none) (later : ∀ c ∈ past, c.clock 0 ≤ clock 0) :
    RepliesInOrder (past ++ [⟨.enqueue input uuid,clock⟩])
      (replies ++ [.enqueued (s.enqueue input uuid clock).2]) (s.enqueue input uuid clock).1 := by
  unfold Store.enqueue
  split
  · exact inOrder_quiet inOrder (fun _ => rfl) fun _ => rfl
  · dsimp only
    have rows : (s.put (newRun input uuid (clock 0))).runs.rows = s.runs.rows ++ [newRun input uuid (clock 0)] :=
      set_rows_of_new new
    have ids (i : String) (p : Run → Bool) : idsIn i p (s.put (newRun input uuid (clock 0))).runs.rows =
        idsIn i p s.runs.rows ++
          if input.sessionId = i ∧ p (newRun input uuid (clock 0)) = true then [uuid] else [] := by
      rw [idsIn,idsIn]
      by_cases mine : input.sessionId = i <;> cases h : p (newRun input uuid (clock 0)) <;> simp_all [newRun]
    have ordered := inOrder.ordered
    refine ⟨⟨?_,?_,fun r mem => ?_,fun i => ?_⟩,fun r mem => ?_,fun i => ?_,fun i => ?_⟩
    · rw [rows,List.pairwise_append]
      refine ⟨ordered.inTurn,List.pairwise_singleton _ _,fun a _ b hb _ => .inr ?_⟩
      rw [List.mem_singleton.mp hb]
      exact ⟨rfl,rfl⟩
    · rw [rows,List.pairwise_append]
      refine ⟨ordered.aged,List.pairwise_singleton _ _,fun a ha b hb => ?_⟩
      obtain ⟨c,hc,created⟩ := inOrder.stamped a ha
      rw [List.mem_singleton.mp hb,created]
      exact later c hc
    · rcases mem_set.mp mem with rfl | ⟨old,_⟩
      · exact .inl rfl
      · exact ordered.attempted r old
    · rw [ids]
      exact (ordered.finished i).trans (by simp [newRun,isTerminal])
    · rcases mem_set.mp mem with rfl | ⟨old,_⟩
      · exact ⟨_,List.mem_append_right _ (List.mem_singleton_self _),rfl⟩
      · exact (inOrder.later _).stamped r old
    · rw [ids,← inOrder.enqueued]
      by_cases mine : input.sessionId = i <;> simp [Reply.enqueuedId,newRun,mine,enqueuedIn]
    · rw [ids,← inOrder.claimed,firstClaimedIn_snoc]
      simp [Reply.claimedId,newRun,tried]

theorem neverBack_closed (past : List Call) (c : Call) (h : NeverBack (past ++ [c])) :
    NeverBack past ∧ ∀ a ∈ past, a.clock 0 ≤ c.clock 0 := by
  obtain ⟨across,_,last⟩ := List.pairwise_append.mp h.across
  exact ⟨⟨across,fun a ha => h.within a (List.mem_append_left _ ha)⟩,
    fun a ha => last a ha c (List.mem_singleton_self c) 0 0⟩

theorem inOrder_run (maxClaims : Option Int) (listeners : List Listener) (calls : List Call) (fresh : FreshIds calls)
    (byClaim : ∀ c ∈ calls, Op.isClaimById c.op = false) (clock : NeverBack calls) :
    RepliesInOrder calls (outputs Store.exec (create maxClaims listeners) calls)
      (after Store.exec (create maxClaims listeners) calls) := by
  induction calls using List.reverseRecOn with
  | nil =>
    refine ⟨⟨.nil,.nil,?_,fun _ => rfl⟩,?_,fun _ => rfl,fun _ => rfl⟩
    · intro r hr
      exact absurd hr (not_mem_empty r)
    · intro r hr
      exact absurd hr (not_mem_empty r)
  | append_singleton past c ih =>
    have before := freshIds_closed past c fresh
    obtain ⟨clockBefore,later⟩ := neverBack_closed past c clock
    have inOrder := ih before (fun a ha => byClaim a (List.mem_append_left _ ha)) clockBefore
    have reached : Reached maxClaims listeners past (after Store.exec (create maxClaims listeners) past) :=
      reached_run maxClaims listeners past before
    have new := new_of_fresh fresh reached
    have mine := byClaim c (List.mem_append_right _ (List.mem_singleton_self c))
    rw [after_snoc,outputs_snoc]
    obtain ⟨op,readings⟩ := c
    cases op with
    | enqueue input uuid => exact inOrder_enqueue inOrder input uuid readings (new input uuid rfl) later
    | claim w ttl uuid => exact inOrder_claim inOrder w ttl uuid readings
    | claimById => cases mine
    | _ => exact inOrder_other reached.sound new inOrder rfl (by simp)

theorem session_prefix {p : Run → Bool} (ordered : Ordered s) (sessionId : String)
    (terminal : ∀ r ∈ s.runs, isTerminal r.status → p r) (untouched : ∀ r, Untouched r → p r = false) :
    idsIn sessionId p s.runs.rows <+: idsIn sessionId (fun _ => true) s.runs.rows := by
  have split : s.runs.rows.filter (fun r => r.sessionId = sessionId && p r) =
      (s.runs.rows.filter fun r => r.sessionId = sessionId && true).filter p := by
    rw [List.filter_filter]
    exact List.filter_congr fun r _ => by simp [Bool.and_comm]
  rw [idsIn,split]
  refine List.IsPrefix.map Run.id (filter_initial ?_)
  refine (ordered.inTurn.filter _).imp_of_mem fun {a b} ha hb turn pb => ?_
  obtain ⟨mem,mine⟩ := List.mem_filter.mp ha
  have mine' := (List.mem_filter.mp hb).2
  simp only [Bool.and_true,decide_eq_true_eq] at mine mine'
  rcases turn (mine.trans mine'.symm) with dead | fresh
  · exact terminal a mem dead
  · rw [untouched b fresh] at pb
    cases pb

end

theorem sessions_in_order (maxClaims : Option Int) (listeners : List Listener) (calls : List Call)
    (fresh : FreshIds calls) (byClaim : ∀ c ∈ calls, Op.isClaimById c.op = false) (clock : NeverBack calls)
    (sessionId : String) :
    let replies := outputs Store.exec (create maxClaims listeners) calls
    let s := after Store.exec (create maxClaims listeners) calls
    firstClaimedIn sessionId replies <+: enqueuedIn sessionId replies ∧
      finishedIn sessionId s <+: enqueuedIn sessionId replies ∧
      ∀ r ∈ s.runs, r.sessionId = sessionId → (isTerminal r.status = true ↔ r.id ∈ finishedIn sessionId s) := by
  have inOrder := inOrder_run maxClaims listeners calls fresh byClaim clock
  have ordered := inOrder.ordered
  dsimp only
  rw [inOrder.claimed,inOrder.enqueued,ordered.finished]
  refine ⟨?_,?_,fun r hr mine => (mem_idsIn (p := fun r => isTerminal r.status) hr mine).symm⟩
  · refine session_prefix ordered sessionId (fun r hr dead => ?_) fun r h => by simp [tried,h.2]
    have notPending : r.status ≠ .pending := fun pending => by simp [pending,isTerminal] at dead
    exact (ordered.attempted r hr).resolve_left notPending
  · exact session_prefix ordered sessionId (fun _ _ dead => dead) fun r h => by simp [h.1,isTerminal]

def retriedFirst : List Call :=
  [⟨.enqueue (drillInput "s1" none) "r1",fun _ => 0⟩,⟨.enqueue (drillInput "s1" none) "r2",fun _ => 0⟩,
   ⟨.claim "w1" 10 "t1",fun _ => 1⟩,⟨.fail "r1" "t1" "boom" true,fun _ => 2⟩,⟨.claim "w2" 10 "t2",fun _ => 3⟩,
   ⟨.complete "r1" "t2" ⟨.ok,none,some "done",none⟩,fun _ => 4⟩,⟨.claim "w1" 10 "t3",fun _ => 5⟩]

def retriedReplies : List Reply := outputs Store.exec (create none []) retriedFirst

def retriedStore : Store := after Store.exec (create none []) retriedFirst

theorem sessions_in_order_retried :
    firstClaimedIn "s1" retriedReplies = ["r1","r2"] ∧ finishedIn "s1" retriedStore = ["r1"] ∧
      firstClaimedIn "s1" retriedReplies <+: enqueuedIn "s1" retriedReplies ∧
      finishedIn "s1" retriedStore <+: enqueuedIn "s1" retriedReplies := by
  have clock : NeverBack retriedFirst := by
    constructor
    · simp [retriedFirst]
    · simp [retriedFirst]
  obtain ⟨claimed,finished,_⟩ :=
    sessions_in_order none [] retriedFirst (by unfold FreshIds; decide) (by decide) clock "s1"
  exact ⟨by decide,by decide,claimed,finished⟩

end CompanyBrain.Runs.Memory
