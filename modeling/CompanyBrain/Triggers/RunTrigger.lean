import CompanyBrain.Directory.Visibility
import CompanyBrain.Foundations.Emission
import CompanyBrain.Resolution.ContextFilter
import CompanyBrain.Triggers.TriggerStore

namespace CompanyBrain.Triggers

open Foundations Directory Emission
open Resolution (ScopeId ScopeKind parseScopeId)

inductive PrincipalType where
  | internal | guest
deriving DecidableEq

structure Member where
  id : String
  type : PrincipalType
  teamIds : Option (List String)

inductive TurnStatus where
  | ok | refused | failed | pendingApproval | queued | silent | react
deriving DecidableEq

def TurnStatus.text : TurnStatus → String
  | ok => "ok"
  | refused => "refused"
  | failed => "failed"
  | pendingApproval => "pending_approval"
  | queued => "queued"
  | silent => "silent"
  | react => "react"

structure OutgoingAttachment where
  name : String
  mimetype : String
  sizeBytes : Nat
  blobId : String
  artifactId : Option String
  artifactViewerId : Option String

structure TurnResult where
  status : TurnStatus
  sessionId : Option String
  reply : Option String
  reason : Option String
  attachments : List OutgoingAttachment
  sourceUserSeq : Option Nat
  sourceAssistantEntrySeq : Option Nat

structure AudienceMember where
  externalId : String
  teamIds : Option (List String)

inductive Conversation where
  | dm (threadRef : String)
  | channel (channelRef threadRef : String) (audience : Option (List AudienceMember))
  | group (channelRef threadRef : String) (audience : Option (List AudienceMember))

structure TurnRequest where
  surface : String
  actor : String
  conversation : Conversation
  text : String
  securityScreenData : Option String
  thinkingLevel : String
  fastMode : Bool
  readOnly : Bool
  turnWallClockMs : Option Int
  triggerDestination : Option Destination
  surfaceTools : Bool
  addressed : Bool
  ownerKeychainUnion : Bool
  idempotencyKey : String

structure DeliveryProvenance where
  trigger : String
  surface : String
  fireKey : String
  sourceScopeId : ScopeId
  sourceThreadRef : String
  sourceSessionId : Option String
  sourceUserSeq : Option Nat
  sourceAssistantEntrySeq : Option Nat

structure Delivery where
  destination : Destination
  text : String
  attachments : List OutgoingAttachment
  provenance : DeliveryProvenance
  idempotencyKey : String
  shadow : Bool

structure TriggerDeps where
  enqueue : Delivery → Except String Unit
  seen : String → Bool
  settle : String → Except String Unit
  refresh : Except String Unit
  classify : String → PrincipalType
  run : TurnRequest → Except String TurnResult
  currentScopeMembers : Option (ScopeId → Except String (Option (List Member)))
  directory : Option VisibilityDirectory

structure TriggerSpec where
  owner : String
  ownerScopeId : ScopeId
  input : String
  securityScreenData : Option String
  fireKey : String
  surface : String
  destination : Option Destination
  message : Option String
  threadRef : Option String
  runAs : Option RunAs
  members : Option (List Member)
  recipientConsent : Option RecipientConsent
  recipientConsentRequired : Option Bool
  shadow : Bool
  thinkingLevel : Option String
  readOnly : Bool
  turnWallClockMs : Option Int
  errorNotice : Option (String → String)

structure TriggerOutcome where
  authzFailed : Bool
  ran : Bool
  status : Option TurnStatus
  note : Option String
  reply : Option String
  sessionId : Option String

abbrev Step := Emission Delivery String

def isTriggerFailure (outcome : TriggerOutcome) : Bool :=
  outcome.ran && outcome.status.any fun status => status ≠ .ok && status ≠ .silent

section

variable (letters : Letters) (deps : TriggerDeps) (spec : TriggerSpec) (currentMembers : Option (List Member))

def deliveryProvenance (threadRef : String) (res : Option TurnResult) : DeliveryProvenance where
  trigger := spec.surface
  surface := spec.surface
  fireKey := spec.fireKey
  sourceScopeId := spec.ownerScopeId
  sourceThreadRef := threadRef
  sourceSessionId := truthy (res.bind TurnResult.sessionId)
  sourceUserSeq := res.bind TurnResult.sourceUserSeq
  sourceAssistantEntrySeq := res.bind TurnResult.sourceAssistantEntrySeq

def relayAttribution : Option String :=
  match spec.message, deps.directory with
  | some _, some dir =>
    match dir.get spec.owner with
    | .ok member => member
    | .error _ => none
  | _, _ => none

section

variable (actorId : String) (deliverable : Bool)

def actorMayReadScope (kind : Option ScopeKind) (ref : String) : Except String Bool :=
  if ref = "" then .ok false
  else if kind = some .personal then .ok (samePerson letters actorId ref)
  else
    match deps.directory with
    | none => .ok (kind ≠ some .group && kind ≠ some .channel)
    | some dir =>
      if kind = some .group then isVisible letters dir actorId (.group ref)
      else if kind ≠ some .channel then .ok true
      else
        match dir.channelPrivacy with
        | none => .ok false
        | some privacy => do
          match ← privacy ref with
          | none => .ok false
          | some isPrivate => isVisible letters dir actorId (.channel ref (some isPrivate))

def beforeColon (target : String) : String :=
  match cut ':' target.toList with
  | none => target
  | some (id,_) => String.ofList id

def destinationVisible (directory : Option VisibilityDirectory)
    (actorId : String) (destination : Destination) : Except String Bool :=
  match directory with
  | none => .ok true
  | some dir =>
    let id := beforeColon destination.target
    if destination.type = "slack" then
      match (truthy destination.audienceScopeId).map parseScopeId with
      | some (some .personal,ref) => isVisible letters dir actorId (.dm ref)
      | some (some .group,_) => isVisible letters dir actorId (.group id)
      | _ => isVisible letters dir actorId (.channel id none)
    else if destination.type = "group" then isVisible letters dir actorId (.group id)
    else .ok true

def actingPerson : Except String String :=
  let members := (currentMembers.or spec.members).getD []
  if spec.runAs = some .scopeFloor then
    let internalMembers := members.filter fun m =>
      m.type = .internal && deps.classify m.id = .internal
    match internalMembers with
    | [] => .error "scopeFloor cron has no internal members left"
    | first :: _ =>
      if internalMembers.any fun m => samePerson letters m.id spec.owner then .ok spec.owner
      else .ok first.id
  else if deps.classify spec.owner ≠ .internal then
    .error "owner is no longer an internal principal"
  else if spec.runAs = some .scopeShared &&
      currentMembers.any fun ms => !ms.any fun m => samePerson letters m.id spec.owner then
    .error "scopeShared owner is no longer a current scope member"
  else .ok spec.owner

def conversationOf (members : List Member) : Conversation :=
  let audience :=
    if (spec.runAs = some .scopeFloor || spec.runAs = some .scopeShared) && !members.isEmpty then
      some (members.map fun m => ⟨m.id,m.teamIds⟩)
    else none
  let threadRef := spec.threadRef.getD spec.fireKey
  match parseScopeId spec.ownerScopeId with
  | (some .channel,ref) => .channel ref threadRef audience
  | (some .group,ref) => .group ref threadRef audience
  | _ => .dm threadRef

def attributeRelay (text : String) (senderDisplayName : Option String) : String :=
  match senderDisplayName.map fun name => trim name.toList with
  | none => text
  | some [] => text
  | some who => String.ofList who ++ " asked me to pass on:\n" ++ text

def isThirdPartyRelay (destination : Destination) (attributeAs : Option String) : Bool :=
  if attributeAs.isNone then false
  else if destination.type = "group" then true
  else if destination.type ≠ "principal" then false
  else destination.onBehalfOf ≠ some destination.target

def enqueue (deps : TriggerDeps) (delivery : Delivery) : Step Unit := do
  emit delivery
  call (deps.enqueue delivery)

def reachEnqueue (input : Delivery) (attributeAs : Option String) : Step Unit :=
  if input.destination.react.isSome || input.destination.delete.isSome then
    enqueue deps {input with text := "", attachments := []}
  else
    let relayPrefixed :=
      if isThirdPartyRelay input.destination attributeAs then attributeRelay input.text attributeAs
      else input.text
    enqueue deps {input with text := relayPrefixed}

structure Notes where
  status : Option TurnStatus
  note : Option String
  reply : Option String
  sessionId : Option String

def consentNote : String :=
  if spec.recipientConsent.any fun c => decide (c.status = .declined) then
    "recipient turned this delivery off — skipped"
  else "awaiting the recipient's consent — delivery skipped"

def notVisibleNote : String := "destination is no longer visible to the cron owner — delivery skipped"

def consented : Bool :=
  recipientConsentSatisfied letters spec.recipientConsent
    (consentRequiredRecipient letters spec.owner (spec.recipientConsentRequired == some true) spec.destination)

def liveDelivery : Bool :=
  spec.surface = "monitor" && spec.destination.isSome && consented letters spec && deliverable

def deliver (notes : Notes) (destination : Destination) (send : Destination → Step Unit) : Step Notes :=
  if !consented letters spec then pure {notes with note := some (consentNote spec)}
  else if !deliverable then pure {notes with note := some notVisibleNote}
  else do
    send destination
    pure notes

def relayMessage (message : String) : Step Notes :=
  let notes : Notes := ⟨some .ok,none,none,none⟩
  match spec.destination with
  | none => pure notes
  | some destination =>
    deliver letters spec deliverable notes destination fun destination =>
      let threadRef := spec.threadRef.getD spec.fireKey
      let provenance := deliveryProvenance spec threadRef none
      reachEnqueue deps ⟨destination,message,[],provenance,spec.fireKey,spec.shadow⟩
        (truthy (relayAttribution deps spec))

def canReadHome : Except String Bool :=
  match currentMembers with
  | some members => .ok (members.any fun member => samePerson letters member.id actorId)
  | none =>
    if deps.directory.isNone then .ok true
    else
      let (kind,ref) := parseScopeId spec.ownerScopeId
      actorMayReadScope letters deps actorId kind ref

def turnRequest (members : List Member) (actorId : String) (live : Bool) : TurnRequest where
  surface := spec.surface
  actor := actorId
  conversation := conversationOf spec members
  text := spec.input
  securityScreenData := spec.securityScreenData
  thinkingLevel := (truthy spec.thinkingLevel).getD "xhigh"
  fastMode := false
  readOnly := spec.readOnly
  turnWallClockMs := spec.turnWallClockMs
  triggerDestination := spec.destination
  surfaceTools := live
  addressed := live
  ownerKeychainUnion := spec.runAs = some .scopeShared
  idempotencyKey := spec.fireKey

def turnNote (res : TurnResult) : String :=
  if res.status = .ok then "produced no reply"
  else
    match truthy res.reason with
    | some reason => res.status.text ++ ": " ++ reason
    | none => res.status.text

def deliverReply (res : TurnResult) : Step Notes :=
  let notes : Notes := ⟨some res.status,none,res.reply,res.sessionId⟩
  match spec.destination with
  | none => pure notes
  | some destination =>
    if liveDelivery letters spec deliverable then pure notes
    else deliver letters spec deliverable notes destination fun destination =>
      let threadRef := spec.threadRef.getD spec.fireKey
      let provenance := deliveryProvenance spec threadRef (some res)
      let text := res.reply.getD ""
      reachEnqueue deps ⟨destination,text,res.attachments,provenance,spec.fireKey,spec.shadow⟩ none

def settleTurn (res : TurnResult) : Step Notes :=
  let notes : Notes := ⟨some res.status,none,res.reply,res.sessionId⟩
  if res.status = .silent then pure notes
  else if res.status = .pendingApproval then
    let note := "hit a require_approval command — failed closed (no human at fire/event time)"
    pure {notes with note := some note}
  else if res.status = .ok && ((truthy res.reply).isSome || !res.attachments.isEmpty) then
    deliverReply letters deps spec deliverable res
  else pure {notes with note := some (turnNote res)}

def runTurn : Step Notes := do
  if ← call (canReadHome letters deps spec currentMembers actorId) then
    let members := (currentMembers.or spec.members).getD []
    let live := liveDelivery letters spec deliverable
    let res ← call (deps.run (turnRequest spec members actorId live))
    settleTurn letters deps spec deliverable res
  else
    let note := "the acting person is no longer a member of this trigger's home scope — run skipped"
    pure ⟨none,some note,none,none⟩

def guarded : Step Notes :=
  match spec.message with
  | some message => relayMessage letters deps spec deliverable message
  | none => runTurn letters deps spec currentMembers actorId deliverable

def once (key : String) (fn : Step Notes) : Step (Bool × Notes) :=
  if deps.seen key then pure (false,⟨none,none,none,none⟩)
  else do
    let notes ← fn
    call (deps.settle key)
    pure (true,notes)

def outcomeOf (ran : Bool) (notes : Notes) : TriggerOutcome :=
  ⟨false,ran,notes.status,truthy notes.note,notes.reply,truthy notes.sessionId⟩

def reportFailure (notes : Notes) (outcome : TriggerOutcome) : Step Unit :=
  match spec.errorNotice, spec.destination with
  | some errorNotice, some destination =>
    if consented letters spec && deliverable && isTriggerFailure outcome then
      let text := errorNotice (notes.note.getD ((notes.status.map TurnStatus.text).getD ""))
      let threadRef := spec.threadRef.getD spec.fireKey
      let provenance := deliveryProvenance spec threadRef none
      let key := spec.fireKey ++ ":err"
      enqueue deps ⟨destination,text,[],provenance,key,spec.shadow⟩
    else pure ()
  | _, _ => pure ()

def fireAs : Step TriggerOutcome := do
  let deliverable ← call (match spec.destination with
    | some destination => destinationVisible letters deps.directory actorId destination
    | none => .ok true)
  let fn := guarded letters deps spec currentMembers actorId deliverable
  let (ran,notes) ← once deps spec.fireKey fn
  let outcome := outcomeOf ran notes
  reportFailure letters deps spec deliverable notes outcome
  pure outcome

end

def runTrigger : Step TriggerOutcome := do
  call deps.refresh
  let currentMembers ← call (match deps.currentScopeMembers with
    | some current => current spec.ownerScopeId
    | none => .ok none)
  match actingPerson letters deps spec currentMembers with
  | .error note => pure ⟨true,false,none,some note,none,none⟩
  | .ok actorId => fireAs letters deps spec currentMembers actorId

end

end CompanyBrain.Triggers
