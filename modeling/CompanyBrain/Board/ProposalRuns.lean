import CompanyBrain.Board.ProposalNodes

namespace CompanyBrain.Board

open Foundations Table

structure ProposalRef where
  uid : Nat
  id : String
  deriving DecidableEq

def Proposal.ref (p : Proposal) : ProposalRef := ⟨p.uid,p.id⟩

section

variable (ref : ProposalRef) (pool : DeskPool)

def statusOf (desk : Desk) : Option ProposalStatus :=
  (getProposal desk ref.uid ref.id).map Proposal.status

def settles (t : Flow) : Bool :=
  match t.label with
  | some (.settle p) => p.ref = ref
  | _ => false

def changesAt (t : Flow) (before after : Desk) : Bool :=
  match t.label with
  | some (.write p) => p.ref = ref && liveOf p after ≠ liveOf p before
  | _ => false

structure Trail where
  pool : DeskPool
  pending : List Nat
  changed : Bool
  owed : Bool

def Trail.start : Trail := ⟨Pool.idle Desk.empty,[],false,false⟩

def changes (a : DeskStep) : Bool :=
  match a with
  | .run i | .lose i => changesAt ref (pool.threads i) pool.shared (deskSystem.step pool a).shared
  | _ => false

def stillPending (pending : List Nat) : DeskStep → List Nat
  | .spawn i _ | .run i | .fail i | .lose i =>
    if settles ref (pool.threads i) then i :: pending.filter (· ≠ i) else pending.filter (· ≠ i)
  | .env _ => pending

def Trail.next (t : Trail) (a : DeskStep) : Trail :=
  let pool := deskSystem.step t.pool a
  {pool := pool
   pending := stillPending ref pool t.pending a
   changed := t.changed || changes ref t.pool a
   owed := (t.owed || changes ref t.pool a) && statusOf ref pool.shared ≠ some .applied}

structure Settled (ref : ProposalRef) (t : Trail) : Prop where
  becomesApplied : t.pending = [] → t.owed = false
  neverElse : t.pending = [] → t.changed = true →
    statusOf ref t.pool.shared = some .applied ∨ statusOf ref t.pool.shared = some .reverted

def inHand (desk : Desk) : Prop :=
  ∃ status, statusOf ref desk = some status ∧ (status ∈ LIVE ∨ status = .applied)

end

structure Undisturbed (ref : ProposalRef) (t : Trail) (a : DeskStep) : Prop where
  inHand : (t.next ref a).pending ≠ [] → inHand ref (t.next ref a).pool.shared
  moved : ∀ i ∈ t.pending, (a = .fail i ∨ a = .lose i) →
    statusOf ref (t.next ref a).pool.shared = some .applied
  answered : ∀ i, a = .lose i → changes ref t.pool a = false

structure Kept (ref : ProposalRef) (s s' : Desk) : Prop where
  applied : statusOf ref s = some .applied →
    statusOf ref s' = some .applied ∨ statusOf ref s' = some .reverted
  reverted : statusOf ref s = some .reverted → statusOf ref s' = some .reverted

section

variable {ref : ProposalRef}

theorem Kept.refl (s : Desk) : Kept ref s s := ⟨.inl,id⟩

variable {s : Desk}

theorem kept_of_status {s' : Desk} (same : statusOf ref s' = statusOf ref s) : Kept ref s s' := by
  constructor
  · intro h
    exact .inl (same.trans h)
  · intro h
    exact same.trans h

variable {p : Proposal}

theorem getProposal_eq_some {desk : Desk} {uid : Nat} {id : String} :
    getProposal desk uid id = some p ↔ p ∈ desk.proposals ∧ p.id = id ∧ p.uid = uid := by
  simp [getProposal,find?_eq_some,and_assoc]

theorem statusOf_set {desk : Desk} (mem : p ∈ desk.proposals) (q : Proposal) (id : q.id = p.id) (uid : q.uid = p.uid) :
    statusOf ref {desk with proposals := desk.proposals.set q} =
      if p.ref = ref then some q.status else statusOf ref desk := by
  have found : desk.proposals.find? p.id = some p := find?_eq_some.mpr ⟨mem,rfl⟩
  obtain ⟨refUid,refId⟩ := ref
  simp only [statusOf,getProposal,find?_set,id,Proposal.ref]
  by_cases same : refId = p.id
  · subst same
    by_cases here : p.uid = refUid
    · simp [uid,here]
    · simp [Option.filter,found,uid,here]
  · simp [same,Ne.symm same]

theorem statusOf_move (uid : Nat) (id : String) (source : List ProposalStatus) (patch : Patch) (time : Nat)
    (desk : Desk) : statusOf ref (moveProposal uid id source patch time desk).1 =
      if (⟨uid,id⟩ : ProposalRef) = ref ∧ ∃ status ∈ source, statusOf ref desk = some status then
        some patch.status
      else statusOf ref desk := by
  unfold moveProposal
  split
  next p found =>
    obtain ⟨mem,rfl,rfl⟩ := getProposal_eq_some.mp found
    have status : statusOf p.ref desk = some p.status := by
      rw [statusOf,Proposal.ref,found]
      rfl
    by_cases here : p.ref = ref
    · subst here
      split
      next allowed =>
        rw [statusOf_set mem (patchedProposal patch time p) rfl rfl,if_pos rfl,
          if_pos ⟨rfl,p.status,allowed,status⟩]
        rfl
      next refused =>
        rw [if_neg]
        rintro ⟨_,st,hst,same⟩
        rw [status] at same
        exact refused (Option.some.inj same ▸ hst)
    · have elsewhere : ¬((⟨p.uid,p.id⟩ : ProposalRef) = ref ∧
          ∃ status ∈ source, statusOf ref desk = some status) := fun h => here h.1
      split
      · rw [statusOf_set mem (patchedProposal patch time p) rfl rfl,if_neg here]
      · rfl
  next missing =>
    rw [if_neg]
    rintro ⟨rfl,st,_,same⟩
    rw [statusOf,missing] at same
    cases same

theorem statusOf_refresh (uid : Nat) (id : String) (current : Option Text) (desk : Desk) :
    statusOf ref (refreshProposalBase uid id current desk).1 = statusOf ref desk := by
  unfold refreshProposalBase
  split
  next p found =>
    obtain ⟨mem,rfl,rfl⟩ := getProposal_eq_some.mp found
    rw [statusOf_set mem {p with current := current} rfl rfl]
    split
    next here =>
      rw [statusOf,← here,Proposal.ref,found]
      rfl
    · rfl
  · rfl

variable {time : Nat}

theorem kept_move {uid : Nat} {id : String} {source : List ProposalStatus} {patch : Patch}
    (legal : (.applied ∉ source ∨ patch.status = .reverted) ∧ .reverted ∉ source) (desk : Desk) :
    Kept ref desk (moveProposal uid id source patch time desk).1 := by
  constructor
  · intro applied
    rw [statusOf_move]
    split
    next moved =>
      obtain ⟨_,st,hst,same⟩ := moved
      rw [applied] at same
      rcases legal.1 with outside | reverts
      · exact absurd (Option.some.inj same ▸ hst) outside
      · exact .inr (congrArg some reverts)
    · exact .inl applied
  · intro reverted
    rw [statusOf_move,if_neg,reverted]
    rintro ⟨_,st,hst,same⟩
    rw [reverted] at same
    exact legal.2 (Option.some.inj same ▸ hst)

theorem kept_nextQueued (uid : Nat) (locked : List String) (time : Nat) (desk : Desk) :
    Kept ref desk (nextQueuedProposal uid locked time desk).1 := by
  simp only [nextQueuedProposal]
  split
  next p found =>
    have mem := List.mem_of_head? found
    rw [List.mem_mergeSort,List.mem_filter] at mem
    obtain ⟨mem,queued⟩ := mem
    simp only [Bool.and_eq_true,decide_eq_true_eq] at queued
    have status (here : p.ref = ref) : statusOf ref desk = some .queued := by
      rw [statusOf,← here,Proposal.ref,getProposal_eq_some.mpr ⟨mem,rfl,rfl⟩]
      exact congrArg some queued.1.2
    constructor
    · intro applied
      rw [statusOf_set mem {p with status := .testing, testedAt := some time} rfl rfl]
      split
      next here =>
        rw [status here] at applied
        cases applied
      · exact .inl applied
    · intro reverted
      rw [statusOf_set mem {p with status := .testing, testedAt := some time} rfl rfl]
      split
      next here =>
        rw [status here] at reverted
        cases reverted
      · exact reverted
  · exact .refl desk

theorem kept_settleStale (uid : Option Nat) (cutoff : Nat) (desk : Desk) :
    Kept ref desk (settleStaleTesting uid cutoff desk).1 := by
  have after : statusOf ref (settleStaleTesting uid cutoff desk).1 =
      (getProposal desk ref.uid ref.id).map fun p => (settledTest uid cutoff p).status := by
    rw [statusOf,getProposal,settleStaleTesting,find?_update,getProposal]
    cases desk.proposals.find? ref.id with
    | none => rfl
    | some p =>
      have uid_eq : (settledTest uid cutoff p).uid = p.uid := by
        unfold settledTest
        split <;> rfl
      by_cases here : p.uid = ref.uid <;> simp [Option.filter,uid_eq]
  have same (p : Proposal) (found : getProposal desk ref.uid ref.id = some p) (done : p.status ≠ .testing) :
      statusOf ref (settleStaleTesting uid cutoff desk).1 = some p.status := by
    rw [after,found,Option.map_some,settledTest,if_neg fun h => done h.2.1]
  constructor
  · intro applied
    obtain ⟨p,found,status⟩ := Option.map_eq_some_iff.mp applied
    rw [same p found (by rw [status]; decide),status]
    exact .inl rfl
  · intro reverted
    obtain ⟨p,found,status⟩ := Option.map_eq_some_iff.mp reverted
    rw [same p found (by rw [status]; decide),status]

theorem putEntry_failed {brain : Brain} {input : PutEntry} (failed : (putEntry brain input time).2.isOk = false) :
    (putEntry brain input time).1 = brain := by
  have put := putEntry_put brain input time
  generalize (putEntry brain input time).1 = brain', (putEntry brain input time).2 = result at put failed
  cases put with
  | failed => rfl
  | same | changed | created => cases failed

theorem kept_clerical {f : Desk → Desk} (clerical : Clerical f) (s : Desk) : Kept ref s (f s) := by
  cases clerical with
  | move _ _ _ _ _ unsettled => exact kept_move ⟨.inl unsettled.1,unsettled.2⟩ s
  | refresh uid id current => exact kept_of_status (statusOf_refresh uid id current s)
  | claim uid locked time => exact kept_nextQueued uid locked time s
  | settle uid cutoff => exact kept_settleStale uid cutoff s

variable {act : Desk → Desk} {next : Desk → Flow} {error : Flow}

theorem kept_node {l : Label} (node : Node l act next error) (s : Desk) : Kept ref s (act s) := by
  cases node with
  | read | settleClock | compare | version | closeClock => exact .refl s
  | clerical _ _ _ clerical => exact kept_clerical clerical s
  | write | forget | restore => exact kept_of_status rfl
  | settle => exact kept_move ⟨.inl (by decide),by decide⟩ s
  | close => exact kept_move ⟨.inr rfl,by decide⟩ s

theorem statusOf_settle (here : p.ref = ref) {versionId : Option Nat} {created : Bool} (hand : inHand ref s) :
    statusOf ref (moveProposal p.uid p.id LIVE (settlePatch versionId created) time s).1 = some .applied := by
  obtain ⟨status,same,live | rfl⟩ := hand
  · rw [statusOf_move,if_pos ⟨here,status,live,same⟩]
    rfl
  · rw [statusOf_move]
    split
    · rfl
    · exact same

theorem settles_node (node : Node (.settle p) act next error) (here : p.ref = ref) (s : Desk) :
    settles ref (next s) ∨ (inHand ref s → statusOf ref (act s) = some .applied) := by
  cases node with
  | settleClock => exact .inl (by simpa [settles,Task.call,Task.label] using here)
  | settle => exact .inr fun hand => statusOf_settle here hand

theorem write_node (node : Node (.write p) act next error) (here : p.ref = ref)
    (changed : liveOf p (act s) ≠ liveOf p s) : settles ref (next s) := by
  cases node with
  | write _ author =>
    dsimp only at changed ⊢
    cases result : (put (applyInput p author) s).2 with
    | ok => simpa [afterWrite,settles,move,Task.read,Task.label] using here
    | refused | emptyName | tooLong | entryQuota =>
      have failed : (putEntry s.brain (applyInput p author) s.clock).2.isOk = false := by
        rw [show (putEntry s.brain (applyInput p author) s.clock).2 = _ from result]
        rfl
      have same : (put (applyInput p author) s).1 = s := by rw [put,putEntry_failed failed]
      rw [same] at changed
      exact absurd rfl changed

theorem kept_event (e : DeskEvent) (desk : Desk) : Kept ref desk (e.apply desk) := by
  cases e with
  | tick | put | delete => exact kept_of_status rfl
  | propose lower p =>
    have known {status : ProposalStatus} (was : statusOf ref desk = some status) :
        statusOf ref (addProposal lower desk p).1 = some status := by
      obtain ⟨q,found,rfl⟩ := Option.map_eq_some_iff.mp was
      simp only [addProposal]
      split
      · exact was
      split
      · exact was
      split
      · exact was
      split
      · exact was
      split
      · exact was
      next fresh =>
        have other : ref.id ≠ p.id := by
          intro same
          obtain ⟨mem,id,_⟩ := getProposal_eq_some.mp found
          exact fresh (by rw [← same,find?_eq_some.mpr ⟨mem,id⟩]; rfl)
        rw [statusOf,getProposal,find?_set,if_neg (by exact other)]
        exact was
    exact ⟨fun h => .inl (known h),known⟩

variable {pool : DeskPool} {a : DeskStep}

theorem kept_step {pool' : DeskPool} (stepped : deskSystem.Stepped pool a pool')
    (nodes : ∀ i, (pool.threads i).All Node) : Kept ref pool.shared pool'.shared := by
  cases stepped with
  | idle | spawn | fail => exact .refl _
  | run _ _ _ _ _ here | lose _ _ _ _ _ here => exact kept_node (node_of_thread nodes here) _
  | env e => exact kept_event e _

structure TrailInv (ref : ProposalRef) (t : Trail) : Prop where
  nodes : ∀ i, (t.pool.threads i).All Node
  pending : ∀ i ∈ t.pending, settles ref (t.pool.threads i) = true
  hand : t.pending ≠ [] → inHand ref t.pool.shared
  owed : t.owed = true → t.pending ≠ []
  changed : t.changed = true → t.pending ≠ [] ∨
    statusOf ref t.pool.shared = some .applied ∨ statusOf ref t.pool.shared = some .reverted

def actor : DeskStep → Option Nat
  | .spawn i _ | .run i | .fail i | .lose i => some i
  | .env _ => none

theorem mem_stillPending {pending : List Nat} {j : Nat} : j ∈ stillPending ref pool pending a ↔
      (j ∈ pending ∧ actor a ≠ some j) ∨ (actor a = some j ∧ settles ref (pool.threads j)) := by
  have touched (i : Nat) :
      j ∈ (if settles ref (pool.threads i) then i :: pending.filter (· ≠ i) else pending.filter (· ≠ i)) ↔
        (j ∈ pending ∧ some i ≠ some j) ∨ (some i = some j ∧ settles ref (pool.threads j) = true) := by
    by_cases same : i = j
    · subst same
      split <;> simp_all
    · split <;> simp [same,Ne.symm same]
  cases a with
  | spawn i | run i | fail i | lose i => exact touched i
  | env => simp [stillPending,actor]

theorem threads_other {pool' : DeskPool} (stepped : deskSystem.Stepped pool a pool') {j : Nat}
    (other : actor a ≠ some j) : pool'.threads j = pool.threads j := by
  have apart {i : Nat} (h : some i ≠ some j) : j ≠ i := fun same => h (congrArg some same.symm)
  cases stepped with
  | idle | env => rfl
  | spawn | run | fail | lose => exact Pool.set_other _ _ _ (apart other)

theorem settles_label {t : Flow} (h : settles ref t) : ∃ p, t.label = some (.settle p) ∧ p.ref = ref := by
  unfold settles at h
  split at h
  next p here => exact ⟨p,here,by simpa using h⟩
  · cases h

section Step

variable {t : Trail} {a : DeskStep}

variable (inv : TrailInv ref t) (undisturbed : Undisturbed ref t a)
include inv undisturbed

theorem pending_or_applied {j : Nat} (mem : j ∈ t.pending) :
    j ∈ (t.next ref a).pending ∨ statusOf ref (t.next ref a).pool.shared = some .applied := by
  have stepped := deskSystem.step_stepped t.pool a
  by_cases other : actor a ≠ some j
  · exact .inl (mem_stillPending.mpr (.inl ⟨mem,other⟩))
  rw [not_not] at other
  obtain ⟨p,label,here⟩ := settles_label (inv.pending j mem)
  have still (h : settles ref ((t.next ref a).pool.threads j) = true) :
      j ∈ (t.next ref a).pending := mem_stillPending.mpr (.inr ⟨other,h⟩)
  generalize same : deskSystem.step t.pool a = pool' at stepped
  cases stepped with
  | idle =>
    refine .inl (still ?_)
    change settles ref ((deskSystem.step t.pool a).threads j) = true
    rw [same]
    exact inv.pending j mem
  | spawn _ _ free =>
    cases other
    rw [free] at label
    cases label
  | run i _ _ _ _ thread =>
    obtain rfl := Option.some.inj other
    have node := node_of_thread inv.nodes thread
    rw [thread] at label
    cases label
    rcases settles_node node here t.pool.shared with again | moves
    · refine .inl (still ?_)
      change settles ref ((deskSystem.step t.pool (.run i)).threads i) = true
      rw [same,Pool.set_self]
      exact again
    · right
      change statusOf ref (deskSystem.step t.pool (.run i)).shared = some .applied
      rw [same]
      exact moves (inv.hand (List.ne_nil_of_mem mem))
  | fail i =>
    obtain rfl := Option.some.inj other
    exact .inr (undisturbed.moved i mem (.inl rfl))
  | lose i =>
    obtain rfl := Option.some.inj other
    exact .inr (undisturbed.moved i mem (.inr rfl))
  | env => cases other

theorem pending_of_changes (changed : changes ref t.pool a) : (t.next ref a).pending ≠ [] := by
  cases a with
  | run i =>
    have labelled : ∃ p, (t.pool.threads i).label = some (.write p) ∧ p.ref = ref ∧
        liveOf p (deskSystem.step t.pool (.run i)).shared ≠ liveOf p t.pool.shared := by
      change changesAt ref _ _ _ = true at changed
      unfold changesAt at changed
      split at changed
      next p label =>
        simp only [Bool.and_eq_true,decide_eq_true_eq] at changed
        exact ⟨p,label,changed⟩
      · cases changed
    obtain ⟨p,label,here,moved⟩ := labelled
    have stepped := deskSystem.step_stepped t.pool (.run i)
    generalize same : deskSystem.step t.pool (.run i) = pool' at stepped moved
    cases stepped with
    | idle => exact absurd rfl moved
    | run _ _ _ next _ thread =>
      have node := node_of_thread inv.nodes thread
      rw [thread] at label
      cases label
      have settling := write_node node here moved
      have mem : i ∈ (t.next ref (.run i)).pending := by
        change i ∈ stillPending ref (deskSystem.step t.pool (.run i)) t.pending (.run i)
        rw [mem_stillPending,same,Pool.set_self]
        exact .inr ⟨rfl,settling⟩
      exact List.ne_nil_of_mem mem
  | lose i =>
    rw [undisturbed.answered i rfl] at changed
    cases changed
  | spawn | fail | env => cases changed

theorem trailInv_next : TrailInv ref (t.next ref a) where
  nodes := System.all_stepped all_flow (deskSystem.step_stepped t.pool a) inv.nodes
  pending := by
    intro j mem
    rcases mem_stillPending.mp mem with ⟨old,other⟩ | ⟨_,settling⟩
    · change settles ref ((deskSystem.step t.pool a).threads j) = true
      rw [threads_other (deskSystem.step_stepped t.pool a) other]
      exact inv.pending j old
    · exact settling
  hand := undisturbed.inHand
  owed := by
    intro owed
    simp only [Trail.next,Bool.and_eq_true,Bool.or_eq_true,decide_eq_true_eq] at owed
    obtain ⟨was | now,unapplied⟩ := owed
    · obtain ⟨j,mem⟩ := List.exists_mem_of_ne_nil _ (inv.owed was)
      rcases pending_or_applied inv undisturbed mem with still | applied
      · exact List.ne_nil_of_mem still
      · exact absurd applied unapplied
    · exact pending_of_changes inv undisturbed now
  changed := by
    intro changed
    rcases Bool.or_eq_true_iff.mp changed with was | now
    · have kept : Kept ref t.pool.shared (t.next ref a).pool.shared :=
        kept_step (deskSystem.step_stepped t.pool a) inv.nodes
      rcases inv.changed was with pending | applied | reverted
      · obtain ⟨j,mem⟩ := List.exists_mem_of_ne_nil _ pending
        rcases pending_or_applied inv undisturbed mem with still | applied
        · exact .inl (List.ne_nil_of_mem still)
        · exact .inr (.inl applied)
      · exact .inr (kept.applied applied)
      · exact .inr (.inr (kept.reverted reverted))
    · exact .inl (pending_of_changes inv undisturbed now)

end Step

theorem TrailInv.start (ref : ProposalRef) : TrailInv ref Trail.start where
  nodes := fun _ => trivial
  pending := nofun
  hand := fun h => absurd rfl h
  owed := by intro h; cases h
  changed := by intro h; cases h

theorem TrailInv.settled {t : Trail} (inv : TrailInv ref t) : Settled ref t where
  becomesApplied := by
    intro none
    by_contra owed
    exact inv.owed (by simpa using owed) none
  neverElse := fun none changed => (inv.changed changed).resolve_left fun pending => pending none

end

theorem changed_by_applied_proposal (ref : ProposalRef) (actions : List DeskStep)
    (undisturbed : Along (Trail.next ref) (Undisturbed ref) Trail.start actions) :
    Settled ref (run (Trail.next ref) Trail.start actions) :=
  (run_along (fun _ _ undisturbed inv => trailInv_next inv undisturbed) Trail.start actions undisturbed
    (TrailInv.start ref)).settled

def answered : DeskStep → Bool
  | .fail _ | .lose _ => false
  | _ => true

def calm (ref : ProposalRef) (t : Trail) (a : DeskStep) : Prop :=
  answered a = true ∧ ((t.next ref a).pending = [] ∨
    (statusOf ref (t.next ref a).pool.shared).any (fun status => status ∈ LIVE || status = .applied) = true)

instance (ref : ProposalRef) (t : Trail) (a : DeskStep) : Decidable (calm ref t a) :=
  inferInstanceAs (Decidable (_ ∧ _))

theorem undisturbed_of_calm {ref : ProposalRef} {t : Trail} {a : DeskStep} (h : calm ref t a) :
    Undisturbed ref t a where
  inHand := by
    intro pending
    have allowed := h.2.resolve_left pending
    cases same : statusOf ref (t.next ref a).pool.shared with
    | none =>
      rw [same] at allowed
      cases allowed
    | some status =>
      rw [same] at allowed
      exact ⟨status,same,by simpa using allowed⟩
  moved := by
    rintro i _ (rfl | rfl) <;> cases h.1
  answered := by
    rintro i rfl
    cases h.1

def shipProposal : NewProposal :=
  ⟨"p1",1,.skill,"Ship".toList,"Faster.".toList,"Run every test.".toList,"reflector".toList⟩

def cautious : Oracle := ⟨id,.pass,false⟩

def untilWaiting : List DeskStep :=
  .env (.propose id shipProposal) :: .spawn 0 (.decide cautious 1 "p1" .test) :: List.replicate 8 (.run 0)

def acceptedAlone : List DeskStep :=
  untilWaiting ++ .spawn 1 (.decide cautious 1 "p1" .accept) :: List.replicate 4 (.run 1)

theorem accepted_alone_applied : Settled ⟨1,"p1"⟩ (run (Trail.next ⟨1,"p1"⟩) Trail.start acceptedAlone) ∧
      (run (Trail.next ⟨1,"p1"⟩) Trail.start acceptedAlone).changed = true ∧
      statusOf ⟨1,"p1"⟩ (run (Trail.next ⟨1,"p1"⟩) Trail.start acceptedAlone).pool.shared = some .applied := by
  have undisturbed : Along (Trail.next ⟨1,"p1"⟩) (calm ⟨1,"p1"⟩) Trail.start acceptedAlone := by
    decide +kernel
  exact ⟨changed_by_applied_proposal _ _ (along_mono (fun _ _ => undisturbed_of_calm) _ _ undisturbed),
    by decide +kernel,by decide +kernel⟩

def acceptedAndRejected : List DeskStep :=
  untilWaiting ++
    [.spawn 1 (.decide cautious 1 "p1" .accept),.run 1,.spawn 2 (.decide cautious 1 "p1" .reject),.run 2,
      .run 1,.run 2,.run 2,.run 1,.run 1]

theorem rejected_proposal_changed_entry :
    statusOf ⟨1,"p1"⟩ (run (Trail.next ⟨1,"p1"⟩) Trail.start acceptedAndRejected).pool.shared = some .rejected ∧
      liveBody (run (Trail.next ⟨1,"p1"⟩) Trail.start acceptedAndRejected).pool.shared.brain .skill 1
        "Ship".toList = some "Run every test.".toList ∧
      ¬Settled ⟨1,"p1"⟩ (run (Trail.next ⟨1,"p1"⟩) Trail.start acceptedAndRejected) := by
  refine ⟨by decide +kernel,by decide +kernel,fun settled => ?_⟩
  have owed := settled.becomesApplied (by decide +kernel)
  exact absurd owed (by decide +kernel)

end CompanyBrain.Board
