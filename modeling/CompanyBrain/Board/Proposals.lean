import CompanyBrain.Board.Entries
import CompanyBrain.Foundations.Interleaving

namespace CompanyBrain.Board

open Foundations

inductive ProposalKind where
  | skill | process | rule | role
deriving DecidableEq

def ProposalKind.entry : ProposalKind → EntryKind
  | .skill => .skill
  | .process => .process
  | .rule => .rule
  | .role => .role

inductive ProposalStatus where
  | queued | testing | waiting | applied | rejected | failedGate | reverted | stale
deriving DecidableEq

structure Proposal where
  id : String
  uid : Nat
  kind : ProposalKind
  name : Text
  reason : Text
  current : Option Text
  proposed : Text
  status : ProposalStatus
  needsApproval : Bool
  source : String
  appliedVersion : Option Nat
  appliedCreated : Bool
  createdAt : Nat
  testedAt : Option Nat
deriving DecidableEq

structure Desk where
  clock : Nat
  brain : Brain
  proposals : Table Proposal.id

def Desk.empty : Desk := ⟨0,Brain.empty,Table.empty⟩

def MAX_OPEN_PROPOSALS : Nat := 20
def MAX_OPEN_PROPOSALS_PER_SOURCE : Nat := 10
def RUN_STALE_MS : Nat := 6 * 60000

section

variable (uid : Option Nat) (cutoff : Nat) (p : Proposal)

def isOpen : Bool := p.status ∈ [ProposalStatus.queued,.testing,.waiting]

structure NewProposal where
  id : String
  uid : Nat
  kind : ProposalKind
  name : Text
  reason : Text
  proposed : Text
  source : Text

inductive AddProposalResult where
  | ok | tooMany | unchanged | ambiguous

def countProposals (desk : Desk) (test : Proposal → Bool) : Nat :=
  (desk.proposals.rows.filter test).length

def newProposal (p : NewProposal) (current : Option Text) (time : Nat) : Proposal :=
  ⟨p.id,p.uid,p.kind,cleanLine p.name MAX_ENTRY_NAME,cleanText p.reason 1000,current,
    cleanBody p.proposed,.queued,true,String.ofList (cleanLine p.source 80),none,false,time,none⟩

def addProposal (lower : Text → Text) (desk : Desk) (p : NewProposal) : Desk × Except String AddProposalResult :=
  let source := String.ofList (cleanLine p.source 80)
  let name := cleanLine p.name MAX_ENTRY_NAME
  let key : EntryKey := ⟨p.kind.entry,p.uid,name⟩
  let current := (desk.brain.entries.find? key).map Entry.body
  if MAX_OPEN_PROPOSALS ≤ countProposals desk (fun q => q.uid = p.uid && isOpen q) then (desk,.ok .tooMany)
  else if MAX_OPEN_PROPOSALS_PER_SOURCE ≤
      countProposals desk (fun q => q.uid = p.uid && q.source = source && isOpen q) then (desk,.ok .tooMany)
  else if desk.brain.entries.rows.any (fun e => looksLike lower key e.key && e.key.name ≠ name) then
    (desk,.ok .ambiguous)
  else if current.any (fun body => trim body = trim (cleanBody p.proposed)) then (desk,.ok .unchanged)
  else if (desk.proposals.find? p.id).isSome then (desk,.error "proposals_pkey")
  else ({desk with proposals := desk.proposals.set (newProposal p current desk.clock)},.ok .ok)

def getProposal (desk : Desk) (uid : Nat) (id : String) : Option Proposal :=
  (desk.proposals.find? id).filter fun p => p.uid = uid

structure Patch where
  status : ProposalStatus
  needsApproval : Option Bool
  applied : Option (Option Nat × Bool)

def Patch.only (status : ProposalStatus) : Patch := ⟨status,none,none⟩

def patchedProposal (patch : Patch) (time : Nat) (p : Proposal) : Proposal :=
  {p with
    status := patch.status
    needsApproval := patch.needsApproval.getD p.needsApproval
    appliedVersion := (patch.applied.map Prod.fst).getD p.appliedVersion
    appliedCreated := (patch.applied.map Prod.snd).getD p.appliedCreated
    testedAt := if patch.status = .testing then some time else p.testedAt}

def moveProposal (uid : Nat) (id : String) (source : List ProposalStatus) (patch : Patch) (time : Nat)
    (desk : Desk) : Desk × Option Proposal :=
  match getProposal desk uid id with
  | some p =>
    if p.status ∈ source then
      ({desk with proposals := desk.proposals.set (patchedProposal patch time p)},
        some (patchedProposal patch time p))
    else (desk,none)
  | none => (desk,none)

def refreshProposalBase (uid : Nat) (id : String) (current : Option Text) (desk : Desk) : Desk × Unit :=
  match getProposal desk uid id with
  | some p => ({desk with proposals := desk.proposals.set {p with current := current}},())
  | none => (desk,())

-- `locked` are the rows other transactions hold, which SKIP LOCKED passes over.
def nextQueuedProposal (uid : Nat) (locked : List String) (time : Nat) (desk : Desk) : Desk × Option Proposal :=
  let waiting := desk.proposals.rows.filter fun p => p.uid = uid && p.status = .queued && p.id ∉ locked
  match (waiting.mergeSort fun p q => p.createdAt ≤ q.createdAt).head? with
  | some p =>
    let claimed := {p with status := .testing, testedAt := some time}
    ({desk with proposals := desk.proposals.set claimed},some claimed)
  | none => (desk,none)

def settledTest : Proposal :=
  if uid.all (· = p.uid) ∧ p.status = .testing ∧ p.testedAt.any (· < cutoff) then {p with status := .queued}
  else p

theorem settledTest_id : (settledTest uid cutoff p).id = p.id := by
  unfold settledTest
  split <;> rfl

def settleStaleTesting (desk : Desk) : Desk × Unit :=
  ({desk with proposals := desk.proposals.update (settledTest uid cutoff) (settledTest_id uid cutoff)},())

inductive Label where
  | other
  | write (p : Proposal)
  | settle (p : Proposal)
  | compare (p : Proposal)
  | version (p : Proposal)
  | restore (p : Proposal) (v : EntryVersion)
  | forget (p : Proposal)
  | close (p : Proposal)
deriving DecidableEq

abbrev Flow := Task Desk Label

def move (l : Label) (uid : Nat) (id : String) (source : List ProposalStatus) (patch : Patch) (error : Flow)
    (next : Option Proposal → Flow) : Flow :=
  .read l Desk.clock error fun time => .call l (moveProposal uid id source patch time) error next

def liveOf (desk : Desk) : Option Text := liveBody desk.brain p.kind.entry p.uid p.name

def put (input : PutEntry) (desk : Desk) : Desk × PutEntryResult :=
  ({desk with brain := (putEntry desk.brain input desk.clock).1},(putEntry desk.brain input desk.clock).2)

def LIVE : List ProposalStatus := [.waiting,.testing,.failedGate,.stale]

def applyInput (author : String) : PutEntry :=
  ⟨p.kind.entry,p.uid,p.name,.revise fun current => if current = p.current then some p.proposed else none,
    some (some author),some ("proposal:" ++ p.id)⟩

def afterWrite (error : Flow) (next : Option Proposal → Flow) : PutEntryResult → Flow
  | .ok _ created versionId =>
    move (.settle p) p.uid p.id LIVE ⟨.applied,none,some (versionId,created)⟩ error next
  | .refused =>
    .read .other (liveOf p) error fun live =>
      .call .other (refreshProposalBase p.uid p.id live) error fun _ =>
        move .other p.uid p.id LIVE (.only .stale) error next
  | _ => next none

-- The routes call this with the uid the proposal was read under, which is `p.uid`.
def applyProposal (p : Proposal) (author : String) (error : Flow) (next : Option Proposal → Flow) : Flow :=
  .call (.write p) (put (applyInput p author)) error (afterWrite p error next)

def restoreInput (v : EntryVersion) : PutEntry :=
  ⟨p.kind.entry,p.uid,p.name,.text v.body,some v.author,some ("revert:" ++ p.id)⟩

def forget (desk : Desk) : Desk × Bool :=
  let (brain,removed) := deleteEntry desk.brain p.kind.entry p.uid p.name true desk.clock
  ({desk with brain := brain},removed)

def closeRevert : Flow :=
  move (.close p) p.uid p.id [.applied] (.only .reverted) .done fun _ => .done

def afterVersion : Option EntryVersion → Flow
  | none => .done
  | some v =>
    .call (.restore p v) (put (restoreInput p v)) .done fun restored =>
      if restored.isOk then closeRevert p else .done

def afterCompare (live : Option Text) : Flow :=
  if live ≠ some p.proposed then .done
  else if p.appliedCreated then .call (.forget p) (forget p) .done fun _ => closeRevert p
  else
    match p.appliedVersion with
    | none => closeRevert p
    | some versionId =>
      .read (.version p) (fun desk => entryVersion desk.brain p.uid versionId) .done (afterVersion p)

def revertProposal : Flow := .read (.compare p) (liveOf p) .done (afterCompare p)

structure Oracle where
  lower : Text → Text
  verdict : Verdict
  improve : Bool

def afterGate (approval : Bool) (handler : Flow) : Flow :=
  move .other p.uid p.id [.testing] ⟨if approval then .waiting else .testing,some approval,none⟩ handler
    fun tested =>
      match tested with
      | some tested => if approval then .done else applyProposal tested p.source handler fun _ => .done
      | none => .done

def testProposal (o : Oracle) (p : Proposal) : Flow :=
  let handler := move .other p.uid p.id [.testing] (.only .queued) .done fun _ => .done
  .read .other (liveOf p) handler fun current =>
    if current ≠ p.current then
      .call .other (refreshProposalBase p.uid p.id current) handler fun _ =>
        move .other p.uid p.id [.testing] (.only .stale) handler fun _ => .done
    else
      .read .other (fun _ => o.verdict) handler fun verdict =>
        if verdict = .fail then move .other p.uid p.id [.testing] (.only .failedGate) handler fun _ => .done
        else
          .read .other (fun desk => needsApproval o.lower desk.brain verdict o.improve p.uid p.kind.entry p.name)
            handler fun approval => afterGate p approval handler

inductive Decision where
  | accept | reject | revert | test

def refreshed (next : Proposal → Flow) : Flow :=
  .read .other (liveOf p) .done fun current =>
    .call .other (refreshProposalBase p.uid p.id current) .done fun _ => next {p with current := current}

end

def startTest (o : Oracle) (p : Proposal) : Flow :=
  move .other p.uid p.id [p.status] (.only .testing) .done fun claimed =>
    match claimed with
    | some claimed => testProposal o claimed
    | none => .done

def decideProposal (o : Oracle) (uid : Nat) (id : String) (decision : Decision) : Flow :=
  .read .other (fun desk => getProposal desk uid id) .done fun found =>
    match found with
    | none => .done
    | some p =>
      match decision with
      | .accept =>
        if p.status = .waiting then applyProposal p "web" .done fun _ => .done
        else if p.status ∈ [ProposalStatus.failedGate,.stale] then
          refreshed p fun p => applyProposal p "web" .done fun _ => .done
        else .done
      | .reject =>
        if p.status ∈ [ProposalStatus.waiting,.failedGate,.stale,.queued] then
          move .other p.uid p.id [p.status] (.only .rejected) .done fun _ => .done
        else .done
      | .revert => if p.status = .applied then revertProposal p else .done
      | .test =>
        if p.status ∈ [ProposalStatus.queued,.failedGate] then startTest o p
        else if p.status = .stale then refreshed p fun _ => startTest o p
        else .done

inductive Request where
  | decide (o : Oracle) (uid : Nat) (id : String) (decision : Decision)
  | gate (o : Oracle) (uid : Nat) (locked : List String)
  | settle (uid : Option Nat)

def Request.flow : Request → Flow
  | .decide o uid id decision => decideProposal o uid id decision
  | .gate o uid locked =>
    .read .other Desk.clock .done fun time =>
      .call .other (nextQueuedProposal uid locked time) .done fun claimed =>
        match claimed with
        | some p => testProposal o p
        | none => .done
  | .settle uid =>
    .read .other Desk.clock .done fun time =>
      .call .other (settleStaleTesting uid (time - RUN_STALE_MS)) .done fun _ => .done

inductive DeskEvent where
  | tick (n : Nat)
  | put (input : PutEntry)
  | delete (kind : EntryKind) (ownerUid : Nat) (name : Text) (keepHistory : Bool)
  | propose (lower : Text → Text) (p : NewProposal)

def DeskEvent.apply (e : DeskEvent) (desk : Desk) : Desk :=
  match e with
  | .tick n => {desk with clock := desk.clock + n}
  | .put input => (Board.put input desk).1
  | .delete kind ownerUid name keepHistory =>
    {desk with brain := (deleteEntry desk.brain kind ownerUid name keepHistory desk.clock).1}
  | .propose lower p => (addProposal lower desk p).1

def deskSystem : System Desk Label Request DeskEvent := ⟨Request.flow,DeskEvent.apply⟩

abbrev DeskPool := Pool Desk Label

abbrev DeskStep := PoolStep Request DeskEvent

end CompanyBrain.Board
