import CompanyBrain.Board.ProposalRuns

namespace CompanyBrain.Board

open Foundations Table

structure Clean (body : Text) : Prop where
  cleaned : cleanBody body = body
  short : utf16Length body ≤ MAX_ENTRY_BODY

structure BrainOk (brain : Brain) : Prop where
  entries : ∀ e ∈ brain.entries, Clean e.body
  versions : ∀ v ∈ brain.versions, Clean v.body
  fresh : ∀ v ∈ brain.versions, v.id < brain.nextVersion

structure DeskOk (desk : Desk) : Prop where
  brain : BrainOk desk.brain
  proposals : ∀ p ∈ desk.proposals, Clean p.proposed

def ApplyExact (pool : DeskPool) (a : DeskStep) : Prop :=
  ∀ i p, (a = .run i ∨ a = .lose i) → (pool.threads i).label = some (.write p) →
    (deskSystem.step pool a).shared.brain ≠ pool.shared.brain → liveOf p pool.shared = p.current

def undoes : Label → Option Proposal
  | .forget p => some p
  | .restore p _ => some p
  | _ => none

def RevertExact (pool : DeskPool) (a : DeskStep) : Prop :=
  ∀ i l p, (a = .run i ∨ a = .lose i) → (pool.threads i).label = some l → undoes l = some p →
    liveOf p pool.shared = some p.proposed

def reverting : Label → Option Proposal
  | .version p => some p
  | l => undoes l

def Unraced (pool : DeskPool) (a : DeskStep) : Prop :=
  ∀ j l p, actor a ≠ some j → (pool.threads j).label = some l → reverting l = some p →
    liveOf p (deskSystem.step pool a).shared = liveOf p pool.shared

section

variable {brain brain' : Brain}

theorem clean_cleanBody (body : Text) : Clean (cleanBody body) :=
  ⟨cleanText_cleanText body MAX_ENTRY_BODY,utf16Length_takeUnits MAX_ENTRY_BODY _⟩

variable (ok : BrainOk brain)
include ok

theorem brainOk_saveVersion {e : Entry} (mem : e ∈ brain.entries) (cause : Option String)
    (time : Nat) : BrainOk (saveVersion brain e cause time) where
  entries := ok.entries
  versions := forall_snoc ok.versions (ok.entries e mem)
  fresh := forall_snoc (fun v old => Nat.lt_succ_of_lt (ok.fresh v old)) (Nat.lt_succ_self _)

theorem brainOk_set {row : Entry} (clean : Clean row.body) :
    BrainOk {brain with entries := brain.entries.set row} where
  entries := forall_set clean ok.entries
  versions := ok.versions
  fresh := ok.fresh

theorem brainOk_put {input : PutEntry} {time : Nat} {result : PutEntryResult}
    (put : Put brain input time brain' result) : BrainOk brain' := by
  cases put with
  | failed => exact ok
  | same _ next | created next => exact brainOk_set ok (clean_cleanBody next)
  | changed _ next found =>
    exact brainOk_set (brainOk_saveVersion ok (mem_of_find? found) input.cause time)
      (clean_cleanBody next)

theorem brainOk_delete (kind : EntryKind) (ownerUid : Nat) (name : Text)
    (keepHistory : Bool) (time : Nat) : BrainOk (deleteEntry brain kind ownerUid name keepHistory time).1 := by
  have kept : BrainOk (forgetVersions brain ⟨kind,ownerUid,cleanLine name MAX_ENTRY_NAME⟩ keepHistory time) := by
    unfold forgetVersions
    split
    · exact ⟨ok.entries,fun v hv => ok.versions v (List.mem_of_mem_filter hv),
        fun v hv => ok.fresh v (List.mem_of_mem_filter hv)⟩
    · split
      next entry found => exact brainOk_saveVersion ok (mem_of_find? found) _ time
      · exact ok
  exact ⟨fun e he => kept.entries e (mem_erase.mp he).1,kept.versions,kept.fresh⟩

end

section

variable {s : Desk}

theorem deskOk_put (ok : DeskOk s) (input : PutEntry) : DeskOk (put input s).1 :=
  ⟨brainOk_put ok.brain (putEntry_put s.brain input s.clock),ok.proposals⟩

theorem deskOk_set (ok : DeskOk s) {p q : Proposal} (mem : p ∈ s.proposals) (same : q.proposed = p.proposed) :
    DeskOk {s with proposals := s.proposals.set q} where
  brain := ok.brain
  proposals := forall_set (same ▸ ok.proposals p mem) ok.proposals

theorem deskOk_move (ok : DeskOk s) (uid : Nat) (id : String) (source : List ProposalStatus) (patch : Patch)
    (time : Nat) : DeskOk (moveProposal uid id source patch time s).1 := by
  unfold moveProposal
  split
  next p found =>
    split
    · exact deskOk_set ok (getProposal_eq_some.mp found).1 rfl
    · exact ok
  · exact ok

theorem deskOk_clerical (ok : DeskOk s) {f : Desk → Desk} (clerical : Clerical f) : DeskOk (f s) := by
  cases clerical with
  | move => exact deskOk_move ok ..
  | refresh =>
    simp only [refreshProposalBase]
    split
    next p found => exact deskOk_set ok (getProposal_eq_some.mp found).1 rfl
    · exact ok
  | claim =>
    simp only [nextQueuedProposal]
    split
    next p found =>
      have mem := List.mem_of_head? found
      rw [List.mem_mergeSort] at mem
      exact deskOk_set ok (List.mem_of_mem_filter mem) rfl
    · exact ok
  | settle uid cutoff =>
    refine ⟨ok.brain,fun q hq => ?_⟩
    obtain ⟨p,mem,rfl⟩ := List.mem_map.mp hq
    have same : (settledTest uid cutoff p).proposed = p.proposed := by
      unfold settledTest
      split <;> rfl
    rw [same]
    exact ok.proposals p mem

theorem deskOk_node {l : Label} {act : Desk → Desk} {next : Desk → Flow} {error : Flow}
    (node : Node l act next error) (ok : DeskOk s) : DeskOk (act s) := by
  cases node with
  | read | settleClock | compare | version | closeClock => exact ok
  | clerical _ _ _ clerical => exact deskOk_clerical ok clerical
  | write | restore => exact deskOk_put ok _
  | forget => exact ⟨brainOk_delete ok.brain _ _ _ _ _,ok.proposals⟩
  | settle | close => exact deskOk_move ok _ _ _ _ _

theorem deskOk_event (ok : DeskOk s) (e : DeskEvent) : DeskOk (e.apply s) := by
  cases e with
  | tick => exact ⟨ok.brain,ok.proposals⟩
  | put input => exact deskOk_put ok input
  | delete => exact ⟨brainOk_delete ok.brain _ _ _ _ _,ok.proposals⟩
  | propose lower p =>
    change DeskOk (addProposal lower s p).1
    simp only [addProposal]
    split
    · exact ok
    split
    · exact ok
    split
    · exact ok
    split
    · exact ok
    split
    · exact ok
    · exact ⟨ok.brain,forall_set (clean_cleanBody p.proposed) ok.proposals⟩

theorem deskOk_empty : DeskOk Desk.empty where
  brain := ⟨fun _ h => (nomatch h),fun _ h => (nomatch h),fun _ h => nomatch h⟩
  proposals := fun _ h => nomatch h

theorem deskOk_run (actions : List DeskStep) : DeskOk (run deskSystem.step (Pool.idle Desk.empty) actions).shared := by
  induction actions using List.reverseRecOn with
  | nil => exact deskOk_empty
  | append_singleton actions a ih =>
    rw [run_append]
    have nodes : ∀ i, ((run deskSystem.step (Pool.idle Desk.empty) actions).threads i).All Node :=
      System.all_run all_flow Desk.empty actions
    change DeskOk (deskSystem.step (run deskSystem.step (Pool.idle Desk.empty) actions) a).shared
    rcases System.step_shared nodes a with same | ⟨e,_,same⟩ | ⟨_,_,_,_,_,_,_,node,same⟩ <;> rw [same]
    · exact ih
    · exact deskOk_event ih e
    · exact deskOk_node node ih

end

section

variable {s : Desk}

variable {act : Desk → Desk} {next : Desk → Flow} {error : Flow} {p : Proposal}

theorem write_exact (node : Node (.write p) act next error) (changed : (act s).brain ≠ s.brain) :
    liveOf p s = p.current := by
  cases node with
  | write _ author =>
    have written := putEntry_put s.brain (applyInput p author) s.clock
    change (putEntry s.brain (applyInput p author) s.clock).1 ≠ s.brain at changed
    have based {current : Option Text} {body : Text}
        (given : (if current = p.current then some p.proposed else none) = some body) :
        current = p.current := by
      split at given
      · assumption
      · cases given
    have live : liveOf p s = (s.brain.entries.find? (applyInput p author).key).map Entry.body := rfl
    generalize (putEntry s.brain (applyInput p author) s.clock).1 = brain',
      (putEntry s.brain (applyInput p author) s.clock).2 = result at written changed
    cases written with
    | failed => exact absurd rfl changed
    | same _ _ found given | changed _ _ found given =>
      rw [live,found]
      exact based given
    | created _ fresh given =>
      rw [live,fresh]
      exact based given

variable {l : Label}

theorem reverting_of_starts {t : Flow} (starts : Starts t) (label : t.label = some l) : reverting l = none := by
  unfold Starts at starts
  rw [label] at starts
  cases l with
  | other | write | compare => rfl
  | settle | version | restore | forget | close => exact starts.elim

theorem closeRevert_label (label : (closeRevert p).label = some l) : reverting l = none := by
  cases label
  rfl

theorem reverting_next {l' : Label} (node : Node l act next error) (label : (next s).label = some l')
    (reverts : reverting l' = some p) : act s = s ∧ (liveOf p s = some p.proposed ∨ reverting l = some p) := by
  have never (none : reverting l' = none) : act s = s ∧ (liveOf p s = some p.proposed ∨ reverting l = some p) := by
    rw [none] at reverts
    cases reverts
  cases node with
  | read _ _ _ starts | clerical _ _ _ _ starts | settle _ _ _ _ _ _ starts =>
    exact never (reverting_of_starts (starts _) label)
  | write q author _ _ starts =>
    refine never ?_
    cases result : (put (applyInput q author) s).2 with
    | ok | refused =>
      dsimp only at label
      rw [result] at label
      cases label
      rfl
    | emptyName | tooLong | entryQuota =>
      dsimp only at label
      rw [result] at label
      exact reverting_of_starts (starts none) label
  | settleClock | closeClock =>
    cases label
    exact never rfl
  | compare q =>
    refine ⟨rfl,.inl ?_⟩
    dsimp only at label
    unfold afterCompare at label
    split at label
    · cases label
    next same =>
      have here : q = p := by
        split at label
        · cases label
          exact Option.some.inj reverts
        · split at label
          · rw [closeRevert_label label] at reverts
            cases reverts
          · cases label
            exact Option.some.inj reverts
      exact here ▸ not_not.mp same
  | forget => exact never (closeRevert_label label)
  | version q versionId =>
    refine ⟨rfl,.inr ?_⟩
    dsimp only at label
    cases found : entryVersion s.brain q.uid versionId with
    | none =>
      rw [found] at label
      cases label
    | some =>
      rw [found] at label
      cases label
      exact reverts
  | restore =>
    dsimp only at label
    split at label
    · exact never (closeRevert_label label)
    · cases label
  | close => cases label

theorem starts_error (node : Node l act next error) : Starts error := by
  cases node with
  | read | clerical | write | settleClock | settle => assumption
  | compare | forget | version | restore | closeClock | close => trivial

end

def Holding (pool : DeskPool) : Prop :=
  ∀ j l p, (pool.threads j).label = some l → reverting l = some p → liveOf p pool.shared = some p.proposed

theorem holding_stepped {pool pool' : DeskPool} {a : DeskStep} (stepped : deskSystem.Stepped pool a pool')
    (nodes : ∀ i, (pool.threads i).All Node)
    (unraced : ∀ j l p, actor a ≠ some j → (pool.threads j).label = some l → reverting l = some p →
      liveOf p pool'.shared = liveOf p pool.shared) (holding : Holding pool) : Holding pool' := by
  intro j l p label reverts
  by_cases other : actor a ≠ some j
  · rw [threads_other stepped other] at label
    rw [unraced j l p other label reverts]
    exact holding j l p label reverts
  rw [not_not] at other
  have failed {s : Desk} {error : Flow} (starts : Starts error)
      (here : ((pool.set s j error).threads j).label = some l) : False := by
    rw [Pool.set_self] at here
    rw [reverting_of_starts starts here] at reverts
    cases reverts
  cases stepped with
  | idle => exact holding j l p label reverts
  | spawn i program =>
    cases other
    refine (failed ?_ label).elim
    cases program <;> trivial
  | run i l' _ _ _ here =>
    obtain rfl := Option.some.inj other
    rw [Pool.set_self] at label
    obtain ⟨same,live | was⟩ := reverting_next (node_of_thread nodes here) label reverts
    · rw [same]
      exact live
    · rw [same]
      exact holding i l' p (by rw [here]; rfl) was
  | fail _ _ _ _ _ here | lose _ _ _ _ _ here =>
    cases other
    exact (failed (starts_error (node_of_thread nodes here)) label).elim
  | env => cases other

theorem apply_exact_along (actions : List DeskStep) :
    Along deskSystem.step ApplyExact (Pool.idle Desk.empty) actions := by
  have precise (pool : DeskPool) (a : DeskStep) (nodes : ∀ i, (pool.threads i).All Node) : ApplyExact pool a := by
    intro i p acts label changed
    rcases System.step_shared nodes a with same | ⟨_,rfl,_⟩ | ⟨j,l,_,_,_,runs,here,node,same⟩
    · rw [same] at changed
      exact absurd rfl changed
    · simp at acts
    · obtain rfl : j = i := by rcases runs with rfl | rfl <;> simpa using acts
      cases here.symm.trans label
      rw [same] at changed
      exact write_exact node changed
  refine along_of_inv (fun pool a nodes => precise pool a nodes) ?_ _ actions fun _ => trivial
  exact fun pool a nodes => System.all_stepped all_flow (deskSystem.step_stepped pool a) nodes

theorem revert_exact_along (actions : List DeskStep)
    (unraced : Along deskSystem.step Unraced (Pool.idle Desk.empty) actions) :
    Along deskSystem.step RevertExact (Pool.idle Desk.empty) actions := by
  refine along_under (fun pool => (∀ i, (pool.threads i).All Node) ∧ Holding pool) ?_ ?_ _ actions
    ⟨fun _ => trivial,fun _ _ _ label => by cases label⟩ unraced
  · rintro pool a ⟨_,holding⟩ _ i l p _ label reverts
    refine holding i l p label ?_
    cases l with
    | forget | restore => exact reverts
    | other | write | settle | compare | version | close => cases reverts
  · rintro pool a ⟨nodes,holding⟩ unraced
    exact ⟨System.all_stepped all_flow (deskSystem.step_stepped pool a) nodes,
      holding_stepped (deskSystem.step_stepped pool a) nodes unraced holding⟩

end CompanyBrain.Board
