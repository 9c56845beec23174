import CompanyBrain.Board.Proposals

namespace CompanyBrain.Board

open Foundations

inductive Clerical : (Desk → Desk) → Prop
  | move (uid : Nat) (id : String) (source : List ProposalStatus) (patch : Patch) (time : Nat)
      (unsettled : .applied ∉ source ∧ .reverted ∉ source) :
      Clerical fun s => (moveProposal uid id source patch time s).1
  | refresh (uid : Nat) (id : String) (current : Option Text) :
      Clerical fun s => (refreshProposalBase uid id current s).1
  | claim (uid : Nat) (locked : List String) (time : Nat) :
      Clerical fun s => (nextQueuedProposal uid locked time s).1
  | settle (uid : Option Nat) (cutoff : Nat) : Clerical fun s => (settleStaleTesting uid cutoff s).1

def Starts (t : Flow) : Prop :=
  match t.label with
  | none | some .other | some (.write _) | some (.compare _) => True
  | _ => False

def settlePatch (versionId : Option Nat) (created : Bool) : Patch := ⟨.applied,none,some (versionId,created)⟩

inductive Node : Label → (Desk → Desk) → (Desk → Flow) → Flow → Prop
  | read {ρ : Type} (get : Desk → ρ) (next : ρ → Flow) (error : Flow) (starts : ∀ r, Starts (next r))
      (fails : Starts error) : Node .other id (fun s => next (get s)) error
  | clerical {ρ : Type} (act : Desk → Desk × ρ) (next : ρ → Flow) (error : Flow)
      (clerical : Clerical fun s => (act s).1) (starts : ∀ r, Starts (next r)) (fails : Starts error) :
      Node .other (fun s => (act s).1) (fun s => next (act s).2) error
  | write (p : Proposal) (author : String) (next : Option Proposal → Flow) (error : Flow)
      (starts : ∀ r, Starts (next r)) (fails : Starts error) :
      Node (.write p) (fun s => (put (applyInput p author) s).1)
        (fun s => afterWrite p error next (put (applyInput p author) s).2) error
  | settleClock (p : Proposal) (versionId : Option Nat) (created : Bool) (next : Option Proposal → Flow)
      (error : Flow) (fails : Starts error) :
      Node (.settle p) id (fun s => .call (.settle p)
        (moveProposal p.uid p.id LIVE (settlePatch versionId created) s.clock) error next) error
  | settle (p : Proposal) (versionId : Option Nat) (created : Bool) (time : Nat)
      (next : Option Proposal → Flow) (error : Flow) (starts : ∀ r, Starts (next r))
      (fails : Starts error) :
      Node (.settle p) (fun s => (moveProposal p.uid p.id LIVE (settlePatch versionId created) time s).1)
        (fun s => next (moveProposal p.uid p.id LIVE (settlePatch versionId created) time s).2) error
  | compare (p : Proposal) : Node (.compare p) id (fun s => afterCompare p (liveOf p s)) .done
  | forget (p : Proposal) :
      Node (.forget p) (fun s => (forget p s).1) (fun _ => closeRevert p) .done
  | version (p : Proposal) (versionId : Nat) :
      Node (.version p) id (fun s => afterVersion p (entryVersion s.brain p.uid versionId)) .done
  | restore (p : Proposal) (v : EntryVersion) :
      Node (.restore p v) (fun s => (put (restoreInput p v) s).1)
        (fun s => if (put (restoreInput p v) s).2.isOk then closeRevert p else .done) .done
  | closeClock (p : Proposal) :
      Node (.close p) id (fun s => .call (.close p)
        (moveProposal p.uid p.id [.applied] (.only .reverted) s.clock) .done fun _ => .done) .done
  | close (p : Proposal) (time : Nat) :
      Node (.close p) (fun s => (moveProposal p.uid p.id [.applied] (.only .reverted) time s).1)
        (fun _ => .done) .done

abbrev Sound (flow : Flow) : Prop := Starts flow ∧ flow.All Node

variable {error : Flow}

theorem all_read {ρ : Type} {get : Desk → ρ} {next : ρ → Flow} (herror : Sound error) (hnext : ∀ r, Sound (next r)) :
    Sound (Task.read .other get error next) :=
  ⟨trivial,.read get next error (fun r => (hnext r).1) herror.1,fun s => (hnext (get s)).2,herror.2⟩

theorem all_clerical {ρ : Type} {act : Desk → Desk × ρ} {next : ρ → Flow} (clerical : Clerical fun s => (act s).1)
    (herror : Sound error) (hnext : ∀ r, Sound (next r)) : Sound (Task.call .other act error next) :=
  ⟨trivial,.clerical act next error clerical (fun r => (hnext r).1) herror.1,fun s => (hnext (act s).2).2,
    herror.2⟩

theorem all_done : Sound .done := ⟨trivial,trivial⟩

variable {next : Option Proposal → Flow}

theorem all_move {uid : Nat} {id : String} {source : List ProposalStatus} {patch : Patch}
    (unsettled : .applied ∉ source ∧ .reverted ∉ source) (herror : Sound error) (hnext : ∀ r, Sound (next r)) :
    Sound (move .other uid id source patch error next) :=
  all_read herror fun _ => all_clerical (.move _ _ _ _ _ unsettled) herror hnext

section

variable (p : Proposal)
include p

theorem all_afterWrite (herror : Sound error) (hnext : ∀ r, Sound (next r)) (result : PutEntryResult) :
    (afterWrite p error next result).All Node := by
  cases result with
  | ok _ created versionId =>
    refine ⟨.settleClock p versionId created next error herror.1,fun s => ?_,herror.2⟩
    exact ⟨.settle p versionId created _ next error (fun r => (hnext r).1) herror.1,
      fun s => (hnext _).2,herror.2⟩
  | refused =>
    unfold afterWrite
    refine (all_read herror fun _ => all_clerical (.refresh _ _ _) herror fun _ => ?_).2
    exact all_move (by decide) herror hnext
  | emptyName | tooLong | entryQuota => exact (hnext none).2

theorem all_applyProposal (author : String) (herror : Sound error) (hnext : ∀ r, Sound (next r)) :
    Sound (applyProposal p author error next) :=
  ⟨trivial,.write p author next error (fun r => (hnext r).1) herror.1,
    fun _ => all_afterWrite p herror hnext _,herror.2⟩

theorem all_closeRevert : (closeRevert p).All Node :=
  ⟨.closeClock p,fun _ => ⟨.close p _,fun _ => trivial,trivial⟩,trivial⟩

theorem all_afterVersion (version : Option EntryVersion) : (afterVersion p version).All Node := by
  cases version with
  | none => trivial
  | some v =>
    refine ⟨.restore p v,fun s => ?_,trivial⟩
    dsimp only
    split
    · exact all_closeRevert p
    · trivial

theorem all_afterCompare (live : Option Text) : (afterCompare p live).All Node := by
  unfold afterCompare
  split
  · trivial
  · split
    · exact ⟨.forget p,fun _ => all_closeRevert p,trivial⟩
    · split
      · exact all_closeRevert p
      · exact ⟨.version p _,fun _ => all_afterVersion p _,trivial⟩

theorem all_revertProposal : Sound (revertProposal p) :=
  ⟨trivial,.compare p,fun s => all_afterCompare p (liveOf p s),trivial⟩

end

theorem all_testProposal (o : Oracle) (p : Proposal) : Sound (testProposal o p) := by
  have handler : Sound (move .other p.uid p.id [.testing] (.only .queued) .done fun _ => .done) :=
    all_move (by decide) all_done fun _ => all_done
  unfold testProposal
  refine all_read handler fun current => ?_
  split
  · refine all_clerical (.refresh _ _ _) handler fun _ => ?_
    exact all_move (by decide) handler fun _ => all_done
  · refine all_read handler fun verdict => ?_
    split
    · exact all_move (by decide) handler fun _ => all_done
    · refine all_read handler fun approval => all_move (by decide) handler fun tested => ?_
      split
      · split
        · exact all_done
        · exact all_applyProposal _ _ handler fun _ => all_done
      · exact all_done

theorem all_startTest (o : Oracle) {p : Proposal} (unsettled : p.status ≠ .applied ∧ p.status ≠ .reverted) :
    Sound (startTest o p) := by
  refine all_move ?_ all_done fun claimed => ?_
  · rw [List.mem_singleton,List.mem_singleton]
    exact ⟨unsettled.1.symm,unsettled.2.symm⟩
  · cases claimed with
    | none => exact all_done
    | some claimed => exact all_testProposal o claimed

theorem all_refreshed (p : Proposal) {next : Proposal → Flow} (hnext : ∀ q, Sound (next q)) :
    Sound (refreshed p next) :=
  all_read all_done fun _ => all_clerical (.refresh _ _ _) all_done fun _ => hnext _

theorem all_decideProposal (o : Oracle) (uid : Nat) (id : String) (decision : Decision) :
    Sound (decideProposal o uid id decision) := by
  refine all_read all_done fun found => ?_
  cases found with
  | none => exact all_done
  | some p =>
    cases decision with
    | accept =>
      dsimp only
      split
      · exact all_applyProposal p "web" all_done fun _ => all_done
      · split
        · exact all_refreshed p fun q => all_applyProposal q "web" all_done fun _ => all_done
        · exact all_done
    | reject =>
      dsimp only
      split
      next allowed =>
        refine all_move ⟨fun applied => ?_,fun reverted => ?_⟩ all_done fun _ => all_done
        · rw [← List.mem_singleton.mp applied] at allowed
          exact absurd allowed (by decide)
        · rw [← List.mem_singleton.mp reverted] at allowed
          exact absurd allowed (by decide)
      · exact all_done
    | revert =>
      dsimp only
      split
      · exact all_revertProposal p
      · exact all_done
    | test =>
      dsimp only
      split
      next allowed =>
        refine all_startTest o ⟨fun applied => ?_,fun reverted => ?_⟩
        · rw [applied] at allowed
          exact absurd allowed (by decide)
        · rw [reverted] at allowed
          exact absurd allowed (by decide)
      · split
        next stale => exact all_refreshed p fun _ => all_startTest o (by rw [stale]; decide)
        · exact all_done

theorem all_flow (request : Request) : request.flow.All Node := by
  cases request with
  | decide o uid id decision => exact (all_decideProposal o uid id decision).2
  | gate o uid locked =>
    refine (all_read all_done fun time => all_clerical (.claim uid locked time) all_done fun claimed => ?_).2
    cases claimed with
    | none => exact all_done
    | some p => exact all_testProposal o p
  | settle uid =>
    unfold Request.flow
    exact (all_read all_done fun time => all_clerical (.settle uid _) all_done fun _ => all_done).2

theorem node_of_thread {pool : DeskPool} (nodes : ∀ i, (pool.threads i).All Node) {i : Nat} {l : Label}
    {act : Desk → Desk} {next : Desk → Flow} (here : pool.threads i = .step l act next error) :
    Node l act next error := by
  have all := nodes i
  rw [here] at all
  exact all.1

end CompanyBrain.Board
