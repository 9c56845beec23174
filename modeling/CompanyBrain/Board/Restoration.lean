import CompanyBrain.Board.Reverts

namespace CompanyBrain.Board

open Foundations Task Pool Desk Table

structure Quiet (p : Proposal) (s s' : Desk) : Prop where
  brain : s'.brain = s.brain
  row : getProposal s' p.uid p.id = getProposal s p.uid p.id

structure SameChange (p row : Proposal) : Prop where
  kind : row.kind = p.kind
  name : row.name = p.name
  proposed : row.proposed = p.proposed

inductive Undo (brain : Brain) (p row : Proposal) : Option Text → Prop
  | created (created : row.appliedCreated = true) : Undo brain p row none
  | unchanged (created : row.appliedCreated = false) (version : row.appliedVersion = none) :
      Undo brain p row (some p.proposed)
  | version (id : Nat) (v : EntryVersion) (created : row.appliedCreated = false)
      (version : row.appliedVersion = some id) (found : entryVersion brain p.uid id = some v) :
      Undo brain p row (some v.body)

structure AppliedOver (p : Proposal) (before : Option Text) (s : Desk) (row : Proposal) : Prop where
  found : getProposal s p.uid p.id = some row
  same : SameChange p row
  status : row.status = .applied
  live : liveOf p s = some p.proposed
  named : cleanLine p.name MAX_ENTRY_NAME ≠ []
  undo : Undo s.brain p row before

section

variable {p row : Proposal} {s s' : Desk} {before : Option Text}

theorem Quiet.refl (p : Proposal) (s : Desk) : Quiet p s s := ⟨rfl,rfl⟩

theorem Quiet.trans {s'' : Desk} (h : Quiet p s s') (h' : Quiet p s' s'') : Quiet p s s'' :=
  ⟨h'.brain.trans h.brain,h'.row.trans h.row⟩

theorem Quiet.live (h : Quiet p s s') : liveOf p s' = liveOf p s := by
  rw [liveOf,h.brain]
  rfl

theorem AppliedOver.quiet (h : AppliedOver p before s row) (quiet : Quiet p s s') : AppliedOver p before s' row where
  found := quiet.row.trans h.found
  same := h.same
  status := h.status
  live := quiet.live.trans h.live
  named := h.named
  undo := quiet.brain.symm ▸ h.undo

variable {source : List ProposalStatus}

theorem ran_move {l : Label} {uid : Nat} {id : String} {patch : Patch} {error : Flow} {next : Option Proposal → Flow}
    (ran : Task.Ran (Quiet p) (move l uid id source patch error next) s s') :
    ∃ time s₁, Quiet p s s₁ ∧ Task.Ran (Quiet p) (next (moveProposal uid id source patch time s₁).2)
      (moveProposal uid id source patch time s₁).1 s' := by
  obtain ⟨s₁,first,ran⟩ := ran_read.mp ran
  obtain ⟨s₂,second,ran⟩ := ran_call.mp ran
  exact ⟨s₁.clock,s₂,first.trans second,ran⟩

theorem moveProposal_brain (uid : Nat) (id : String) (source : List ProposalStatus) (patch : Patch)
    (time : Nat) (s : Desk) : (moveProposal uid id source patch time s).1.brain = s.brain := by
  unfold moveProposal
  split
  · split <;> rfl
  · rfl

theorem getProposal_move {patch : Patch} {time : Nat} (found : getProposal s p.uid p.id = some row)
    (allowed : row.status ∈ source) : getProposal (moveProposal p.uid p.id source patch time s).1 p.uid p.id =
      some (patchedProposal patch time row) := by
  obtain ⟨_,id,uid⟩ := getProposal_eq_some.mp found
  simp only [moveProposal,found,allowed]
  exact getProposal_eq_some.mpr ⟨mem_set_self _ _,id,uid⟩

theorem kind_ne_memory (kind : ProposalKind) : kind.entry ≠ .memory := by
  cases kind <;> decide

theorem entryVersion_saved {brain : Brain} (ok : BrainOk brain) (entry : Entry) (cause : Option String) (time : Nat) :
    entryVersion (saveVersion brain entry cause time) entry.key.ownerUid brain.nextVersion =
      some ⟨brain.nextVersion,entry.key,entry.body,entry.author,cause,time⟩ := by
  have older : brain.versions.find? (fun v => v.key.ownerUid = entry.key.ownerUid && v.id = brain.nextVersion) =
      none := by
    rw [List.find?_eq_none]
    intro v hv same
    simp only [Bool.and_eq_true,decide_eq_true_eq] at same
    exact Nat.lt_irrefl _ (same.2 ▸ ok.fresh v hv)
  rw [entryVersion,saveVersion,List.find?_append,older]
  simp

theorem putEntry_restores {brain : Brain} {v : EntryVersion} (time : Nat)
    (named : cleanLine p.name MAX_ENTRY_NAME ≠ []) (clean : Clean v.body)
    (present : (brain.entries.find? (restoreInput p v).key).isSome) : (putEntry brain (restoreInput p v) time).2.isOk ∧
      ((putEntry brain (restoreInput p v) time).1.entries.find? (restoreInput p v).key).map Entry.body =
        some v.body := by
  obtain ⟨entry,found⟩ := Option.isSome_iff_exists.mp present
  have given : nextBody (restoreInput p v) (some entry.body) = some v.body := by
    have disowned : disownMemory p.kind.entry v.body = v.body := if_neg (kind_ne_memory p.kind)
    exact congrArg some disowned
  have key : entry.key = (restoreInput p v).key := key_of_find? found
  have stored (body : Text) : (updatedEntry (restoreInput p v) entry body time).key = (restoreInput p v).key :=
    key
  have cleaned : cleanText v.body MAX_ENTRY_BODY = v.body := clean.cleaned
  have named' : (restoreInput p v).key.name ≠ [] := named
  unfold putEntry
  rw [if_neg named']
  simp only [found,Option.map_some,given,if_neg (Nat.not_lt.mpr clean.short),cleaned]
  split
  all_goals
    refine ⟨rfl,?_⟩
    rw [find?_set_key _ (stored v.body)]
    rfl

variable {versionId : Option Nat}

theorem settled_applied {time : Nat} {created : Bool}
    (found : getProposal s p.uid p.id = some row) (live : row.status ∈ LIVE) (same : SameChange p row)
    (written : liveOf p s = some p.proposed) (named : cleanLine p.name MAX_ENTRY_NAME ≠ [])
    (undo : Undo s.brain p (patchedProposal (settlePatch versionId created) time row) before) :
    AppliedOver p before (moveProposal p.uid p.id LIVE (settlePatch versionId created) time s).1
      (patchedProposal (settlePatch versionId created) time row) where
  found := getProposal_move found live
  same := ⟨same.kind,same.name,same.proposed⟩
  status := rfl
  live := by
    rw [liveOf,moveProposal_brain]
    exact written
  named := named
  undo := by
    rw [moveProposal_brain]
    exact undo

variable {author : String}

theorem proposed_given {current : Option Text} {next : Text}
    (given : nextBody (applyInput p author) current = some next) : next = p.proposed := by
  change (if current = p.current then some p.proposed else none) = some next at given
  split at given
  · exact (Option.some.inj given).symm
  · cases given

theorem write_undoable {entry : Entry} {created : Bool} (ok : BrainOk s.brain)
    (clean : cleanBody p.proposed = p.proposed) (time : Nat) (row : Proposal)
    (result : (putEntry s.brain (applyInput p author) s.clock).2 = .ok entry created versionId) :
    (putEntry s.brain (applyInput p author) s.clock).1.entries.find? (applyInput p author).key = some entry ∧
      entry.body = p.proposed ∧ cleanLine p.name MAX_ENTRY_NAME ≠ [] ∧
      Undo (putEntry s.brain (applyInput p author) s.clock).1 p
        (patchedProposal (settlePatch versionId created) time row) (liveOf p s) := by
  have written := putEntry_put s.brain (applyInput p author) s.clock
  rw [result] at written
  have before : liveOf p s = (s.brain.entries.find? (applyInput p author).key).map Entry.body := rfl
  generalize (putEntry s.brain (applyInput p author) s.clock).1 = brain' at written ⊢
  cases written with
  | failed _ failed => cases failed
  | same old _ was given unchanged named =>
    obtain rfl := proposed_given given
    have key : old.key = (applyInput p author).key := key_of_find? was
    refine ⟨find?_set_key _ key,clean,named,?_⟩
    rw [before,was,Option.map_some,unchanged,clean]
    exact .unchanged rfl rfl
  | changed old _ was given _ named =>
    obtain rfl := proposed_given given
    have key : old.key = (applyInput p author).key := key_of_find? was
    refine ⟨find?_set_key _ key,clean,named,?_⟩
    have saved := entryVersion_saved ok old (applyInput p author).cause s.clock
    rw [key] at saved
    rw [before,was]
    exact Undo.version s.brain.nextVersion ⟨s.brain.nextVersion,(applyInput p author).key,old.body,
      old.author,(applyInput p author).cause,s.clock⟩ rfl rfl saved
  | created _ fresh given named =>
    obtain rfl := proposed_given given
    refine ⟨find?_set_key _ rfl,clean,named,?_⟩
    rw [before,fresh]
    exact .created rfl

theorem apply_settles {entry : Entry} {created : Bool} (ok : BrainOk s.brain)
    (clean : Clean row.proposed) (found : getProposal s p.uid p.id = some row) (live : row.status ∈ LIVE)
    (same : SameChange p row) (result : (put (applyInput p author) s).2 = .ok entry created versionId)
    (ran : Task.Ran (Quiet p) (afterWrite p .done (fun _ => .done) (.ok entry created versionId))
      (put (applyInput p author) s).1 s') :
    BrainOk s'.brain ∧ ∃ row', AppliedOver p (liveOf p s) s' row' := by
  obtain ⟨time,s₁,quiet,ran⟩ := ran_move ran
  have quiet' := ran_done.mp ran
  refine ⟨?_,?_⟩
  · rw [quiet'.brain,moveProposal_brain,quiet.brain]
    exact brainOk_put ok (putEntry_put s.brain _ s.clock)
  have clean : cleanBody p.proposed = p.proposed := by
    rw [← same.proposed]
    exact clean.cleaned
  obtain ⟨stored,body,named,undo⟩ := write_undoable ok clean time row result
  have found₁ : getProposal s₁ p.uid p.id = some row := quiet.row.trans found
  have written : liveOf p s₁ = some p.proposed := by
    rw [quiet.live]
    change ((putEntry s.brain (applyInput p author) s.clock).1.entries.find? (applyInput p author).key).map _ = _
    rw [stored,Option.map_some,body]
  change Undo (put (applyInput p author) s).1.brain p _ _ at undo
  rw [← quiet.brain] at undo
  exact ⟨_,(settled_applied found₁ live same written named undo).quiet quiet'⟩

theorem Quiet.status (h : Quiet p s s') : statusOf p.ref s' = statusOf p.ref s :=
  congrArg (Option.map Proposal.status) h.row

theorem refresh_brain (uid : Nat) (id : String) (current : Option Text) (s : Desk) :
    (refreshProposalBase uid id current s).1.brain = s.brain := by
  unfold refreshProposalBase
  split <;> rfl

theorem apply_refused (status : statusOf p.ref s ≠ some .applied)
    (failed : (put (applyInput p author) s).2.isOk = false)
    (ran : Task.Ran (Quiet p) (afterWrite p .done (fun _ => .done) (put (applyInput p author) s).2)
      (put (applyInput p author) s).1 s') :
    liveOf p s' = liveOf p s ∧ statusOf p.ref s' ≠ some .applied := by
  have same : (put (applyInput p author) s).1 = s := by
    rw [put,putEntry_failed failed]
  rw [same] at ran
  cases result : (put (applyInput p author) s).2 with
  | ok =>
    rw [result] at failed
    cases failed
  | refused =>
    rw [result] at ran
    unfold afterWrite at ran
    obtain ⟨s₁,quiet₁,ran⟩ := ran_read.mp ran
    obtain ⟨s₂,quiet₂,ran⟩ := ran_call.mp ran
    obtain ⟨time,s₃,quiet₃,ran⟩ := ran_move ran
    have quiet₄ := ran_done.mp ran
    constructor
    · rw [liveOf,quiet₄.brain,moveProposal_brain,quiet₃.brain,refresh_brain,quiet₂.brain,quiet₁.brain]
      rfl
    · rw [quiet₄.status,statusOf_move]
      split
      · decide
      · rw [quiet₃.status,statusOf_refresh,quiet₂.status,quiet₁.status]
        exact status
  | emptyName | tooLong | entryQuota =>
    rw [result] at ran
    have quiet := ran_done.mp ran
    exact ⟨quiet.live,quiet.status.symm ▸ status⟩

theorem liveOf_same (same : SameChange p row) (uid : row.uid = p.uid) (s : Desk) : liveOf row s = liveOf p s := by
  rw [liveOf,liveOf,same.kind,same.name,uid]

theorem ran_closeRevert (ran : Task.Ran (Quiet p) (closeRevert row) s s') : s'.brain = s.brain := by
  obtain ⟨time,s₁,quiet,ran⟩ := ran_move ran
  rw [(ran_done.mp ran).brain,moveProposal_brain,quiet.brain]

theorem forget_live (p : Proposal) (s : Desk) : liveOf p (forget p s).1 = none := by
  rw [liveOf,liveBody,getEntry]
  simp only [forget,deleteEntry,find?_erase,if_true,Option.map_none]

theorem liveOf_brain (brain : s'.brain = s.brain) : liveOf p s' = liveOf p s := by
  rw [liveOf,brain]
  rfl

theorem ran_revert (ok : BrainOk s.brain) (applied : AppliedOver p before s row)
    (ran : Task.Ran (Quiet p) (revertProposal row) s s') : liveOf p s' = before := by
  obtain ⟨_,_,uid⟩ := getProposal_eq_some.mp applied.found
  have here := liveOf_same applied.same uid
  obtain ⟨s₁,quiet,ran⟩ := ran_read.mp ran
  have applied := applied.quiet quiet
  rw [← quiet.brain] at ok
  have live : liveOf row s₁ = some row.proposed := by
    rw [here,applied.live,applied.same.proposed]
  unfold afterCompare at ran
  rw [if_neg (not_not.mpr live)] at ran
  cases applied.undo with
  | created created =>
    rw [if_pos created] at ran
    obtain ⟨s₂,_,ran⟩ := ran_call.mp ran
    rw [liveOf_brain (ran_closeRevert ran),← here,forget_live]
  | unchanged created version =>
    rw [if_neg (by rw [created]; decide),version] at ran
    rw [liveOf_brain (ran_closeRevert ran),applied.live]
  | version id v created version found =>
    rw [if_neg (by rw [created]; decide),version] at ran
    obtain ⟨s₂,quiet₂,ran⟩ := ran_read.mp ran
    rw [show entryVersion s₂.brain row.uid id = some v by rw [quiet₂.brain,uid,found]] at ran
    unfold afterVersion at ran
    obtain ⟨s₃,quiet₃,ran⟩ := ran_call.mp ran
    have quiet := quiet₂.trans quiet₃
    have clean : Clean v.body := ok.versions v (List.mem_of_find?_eq_some found)
    have named : cleanLine row.name MAX_ENTRY_NAME ≠ [] := by
      rw [applied.same.name]
      exact applied.named
    have present : (s₃.brain.entries.find? (restoreInput row v).key).isSome = true := by
      have body : (s₃.brain.entries.find? (restoreInput row v).key).map Entry.body = some row.proposed := by
        change liveOf row s₃ = _
        rw [here,quiet.live,← here,live]
      rw [← Option.isSome_map,body]
      rfl
    obtain ⟨succeeds,restored⟩ := putEntry_restores s₃.clock named clean present
    change (put (restoreInput row v) s₃).2.isOk = true at succeeds
    rw [if_pos succeeds] at ran
    rw [liveOf_brain (ran_closeRevert ran),← here]
    exact restored

theorem apply_then_revert {o : Oracle} {s₁ s₂ : Desk} (ok : DeskOk s) (found : getProposal s p.uid p.id = some row)
    (live : row.status ∈ LIVE) (same : SameChange p row)
    (applies : Task.Ran (Quiet p) (applyProposal p author .done fun _ => .done) s s₁)
    (reverts : Task.Ran (Quiet p) (decideProposal o p.uid p.id .revert) s₁ s₂) : liveOf p s₂ = liveOf p s := by
  obtain ⟨s',quiet,applies⟩ := ran_call.mp applies
  rw [← quiet.live]
  have ok' : BrainOk s'.brain := quiet.brain.symm ▸ ok.brain
  have clean := ok.proposals row (getProposal_eq_some.mp found).1
  have found' : getProposal s' p.uid p.id = some row := quiet.row.trans found
  have unapplied : row.status ≠ .applied := by
    intro applied
    rw [applied] at live
    exact absurd live (by decide)
  obtain ⟨s₁',quiet₁,reverts⟩ := ran_read.mp reverts
  cases success : (put (applyInput p author) s').2.isOk with
  | false =>
    have status : statusOf p.ref s' ≠ some .applied := by
      rw [statusOf,Proposal.ref,found']
      exact fun applied => unapplied (Option.some.inj applied)
    obtain ⟨same,status⟩ := apply_refused status success applies
    rw [← same,← quiet₁.live]
    cases now : getProposal s₁' p.uid p.id with
    | none =>
      rw [now] at reverts
      exact (ran_done.mp reverts).live
    | some row' =>
      have other : row'.status ≠ .applied := by
        intro applied
        refine status ?_
        rw [← quiet₁.status,statusOf,Proposal.ref,now,Option.map_some,applied]
      rw [now] at reverts
      dsimp only at reverts
      rw [if_neg other] at reverts
      exact (ran_done.mp reverts).live
  | true =>
    cases result : (put (applyInput p author) s').2 with
    | ok =>
      rw [result] at applies
      obtain ⟨ok₁,row',applied⟩ := apply_settles ok' clean found' live same result applies
      have applied := applied.quiet quiet₁
      rw [applied.found] at reverts
      dsimp only at reverts
      rw [if_pos applied.status] at reverts
      exact ran_revert (quiet₁.brain.symm ▸ ok₁) applied reverts
    | refused | emptyName | tooLong | entryQuota =>
      rw [result] at success
      cases success

end

theorem proposals_replace_exactly (actions : List DeskStep) : Along deskSystem.step ApplyExact (idle empty) actions ∧
      (Along deskSystem.step Unraced (idle empty) actions → Along deskSystem.step RevertExact (idle empty) actions) ∧
      ∀ p row author o s₁ s₂,
        getProposal (run deskSystem.step (idle empty) actions).shared p.uid p.id = some row →
        row.status ∈ LIVE → SameChange p row →
        Task.Ran (Quiet p) (applyProposal p author .done fun _ => .done)
          (run deskSystem.step (idle empty) actions).shared s₁ →
        Task.Ran (Quiet p) (decideProposal o p.uid p.id .revert) s₁ s₂ →
        liveOf p s₂ = liveOf p (run deskSystem.step (idle empty) actions).shared :=
  ⟨apply_exact_along actions,revert_exact_along actions,fun _ _ _ _ _ _ found live same applies reverts =>
    apply_then_revert (deskOk_run actions) found live same applies reverts⟩

def unracedBelow (n : Nat) (pool : DeskPool) (a : DeskStep) : Bool :=
  (List.range n).all fun j => actor a = some j || (((pool.threads j).label.bind reverting).all fun p =>
      liveOf p (deskSystem.step pool a).shared = liveOf p pool.shared)

def spawnsBelow (n : Nat) : DeskStep → Bool
  | .spawn i _ => i < n
  | _ => true

theorem unraced_of_below (n : Nat) (actions : List DeskStep)
    (below : Along deskSystem.step (fun pool a => spawnsBelow n a ∧ unracedBelow n pool a)
      (idle empty) actions) : Along deskSystem.step Unraced (idle empty) actions := by
  refine along_under (fun pool => ∀ j, n ≤ j → pool.threads j = .done) ?_ ?_ _ actions (fun _ _ => rfl) below
  · rintro pool a idle ⟨_,unraced⟩ j l p other label reverts
    by_cases small : j < n
    · have here := List.all_eq_true.mp unraced j (List.mem_range.mpr small)
      rw [label,Option.bind_some,reverts] at here
      simpa [other] using here
    · rw [idle j (Nat.le_of_not_lt small)] at label
      cases label
  · rintro pool a idle ⟨spawns,_⟩ j large
    by_cases other : actor a = some j
    · have done := idle j large
      cases a with
      | spawn =>
        cases other
        exact absurd (of_decide_eq_true spawns) (Nat.not_lt.mpr large)
      | run | fail | lose =>
        cases other
        simp only [System.step,done]
      | env => cases other
    · rw [threads_other (deskSystem.step_stepped pool a) other]
      exact idle j large

def shipRow (status : ProposalStatus) : Proposal :=
  ⟨"p1",1,.skill,"Ship".toList,"Faster.".toList,none,"Run every test.".toList,status,true,"reflector",
    none,status = .applied,0,some 0⟩

def revertedAlone : List DeskStep :=
  acceptedAlone ++ .spawn 2 (.decide cautious 1 "p1" .revert) :: List.replicate 5 (.run 2)

theorem revert_alone_exact : Along deskSystem.step RevertExact (idle empty) revertedAlone ∧
      liveOf (shipRow .waiting) ((decideProposal cautious 1 "p1" .revert).finish
          ((applyProposal (shipRow .waiting) "web" .done fun _ => .done).finish
            (run deskSystem.step (idle empty) untilWaiting).shared)) =
        liveOf (shipRow .waiting) (run deskSystem.step (idle empty) untilWaiting).shared := by
  constructor
  · exact (proposals_replace_exactly revertedAlone).2.1 (unraced_of_below 3 _ (by decide +kernel))
  · exact (proposals_replace_exactly untilWaiting).2.2 (shipRow .waiting) (shipRow .waiting) "web" cautious _ _
      (by decide +kernel) (by decide) ⟨rfl,rfl,rfl⟩ (ran_finish (Quiet.refl _) _ _)
      (ran_finish (Quiet.refl _) _ _)

def editedDuringRevert : List DeskStep :=
  acceptedAlone ++ [.spawn 2 (.decide cautious 1 "p1" .revert),.run 2,.run 2,
    .env (.put ⟨.skill,1,"Ship".toList,.text "Ask Ana first.".toList,some (some "web"),none⟩)]

theorem revert_deletes_edit : liveBody (run deskSystem.step (idle empty) editedDuringRevert).shared.brain .skill 1
        "Ship".toList = some "Ask Ana first.".toList ∧
      liveBody (run deskSystem.step (idle empty) (editedDuringRevert ++ [.run 2])).shared.brain
        .skill 1 "Ship".toList = none ∧
      ¬Along deskSystem.step RevertExact (idle empty) (editedDuringRevert ++ [.run 2]) := by
  refine ⟨by decide +kernel,by decide +kernel,fun along => ?_⟩
  have last := ((along_append _ _ _).mp along).2.1
  have label : ((run deskSystem.step (idle empty) editedDuringRevert).threads 2).label =
      some (.forget (shipRow .applied)) := by decide +kernel
  have live := last 2 _ (shipRow .applied) (.inl rfl) label rfl
  exact absurd live (by decide +kernel)

end CompanyBrain.Board
