import CompanyBrain.Triggers.RunTrigger

namespace CompanyBrain.Triggers

open Foundations Foundations.Emission Directory

-- A trigger that runs as the scope's floor acts for a member who may not be the owner.
structure Safe (letters : Letters) (deps : TriggerDeps) (spec : TriggerSpec) (d : Delivery) : Prop where
  consent : spec.recipientConsentRequired = some true → d.destination.type = "principal" →
    samePerson letters d.destination.target spec.owner = false →
    ∃ c, spec.recipientConsent = some c ∧ c.status = .accepted ∧
      samePerson letters c.recipientId d.destination.target = true
  visible : spec.runAs ≠ some .scopeFloor →
    destinationVisible letters deps.directory spec.owner d.destination = .ok true

def ToNobody (spec : TriggerSpec) : Prop :=
  spec.recipientConsentRequired = some true ∧
    (∃ d, spec.destination = some d ∧ d.type = "principal" ∧ d.target = "") ∧
    (∀ c, spec.recipientConsent = some c → c.status = .accepted) ∧
    (spec.message.isSome ∨ spec.surface ≠ "monitor" ∨ spec.errorNotice.isSome)

structure Gated (letters : Letters) (deps : TriggerDeps) (spec : TriggerSpec) (actorId : String)
    (d : Delivery) : Prop where
  destination : spec.destination = some d.destination
  consented : consented letters spec = true
  visible : destinationVisible letters deps.directory actorId d.destination = .ok true
  reason : spec.message.isSome ∨ spec.surface ≠ "monitor" ∨ spec.errorNotice.isSome

section

variable {letters : Letters} {deps : TriggerDeps} {spec : TriggerSpec} {P : Delivery → Prop}
  {deliverable : Bool}

variable {d : Delivery}

theorem emits_enqueue (h : P d) : Emits P (enqueue deps d) :=
  emits_bind (emits_emit h) fun _ _ => emits_call _

theorem emits_reachEnqueue {input : Delivery} {attributeAs : Option String}
    (h : ∀ text attachments, P {input with text := text, attachments := attachments}) :
    Emits P (reachEnqueue deps input attributeAs) := by
  unfold reachEnqueue
  split
  · exact emits_enqueue (h _ _)
  · exact emits_enqueue (h _ input.attachments)

variable {destination : Destination}

theorem emits_deliver {notes : Notes} {send : Destination → Step Unit}
    (h : consented letters spec = true → deliverable = true → Emits P (send destination)) :
    Emits P (deliver letters spec deliverable notes destination send) := by
  unfold deliver
  split
  · exact emits_pure _
  next agreed =>
    split
    · exact emits_pure _
    next visible =>
      simp only [Bool.not_eq_true,Bool.not_eq_false'] at agreed visible
      exact emits_bind (h agreed visible) fun _ _ => emits_pure _

def Reaches (letters : Letters) (deps : TriggerDeps) (spec : TriggerSpec) (actorId : String)
    (deliverable : Bool) : Prop :=
  deliverable = true → ∀ destination, spec.destination = some destination →
    destinationVisible letters deps.directory actorId destination = .ok true

variable {actorId : String}

section

variable (reaches : Reaches letters deps spec actorId deliverable)
include reaches

theorem emits_relayMessage {message : String} (given : spec.message = some message) :
    Emits (Gated letters deps spec actorId) (relayMessage letters deps spec deliverable message) := by
  unfold relayMessage
  split
  · exact emits_pure _
  next destination found =>
    refine emits_deliver fun agreed visible => emits_reachEnqueue fun _ _ => ?_
    exact ⟨found,agreed,reaches visible destination found,.inl (by simp [given])⟩

theorem emits_deliverReply (res : TurnResult) :
    Emits (Gated letters deps spec actorId) (deliverReply letters deps spec deliverable res) := by
  unfold deliverReply
  split
  · exact emits_pure _
  next destination found =>
    split
    · exact emits_pure _
    next apart =>
      refine emits_deliver fun agreed visible => emits_reachEnqueue fun _ _ => ?_
      refine ⟨found,agreed,reaches visible destination found,.inr (.inl fun monitor => ?_)⟩
      exact apart (by simp [liveDelivery,monitor,found,agreed,visible])

theorem emits_settleTurn (res : TurnResult) :
    Emits (Gated letters deps spec actorId) (settleTurn letters deps spec deliverable res) := by
  unfold settleTurn
  split
  · exact emits_pure _
  · split
    · exact emits_pure _
    · split
      · exact emits_deliverReply reaches res
      · exact emits_pure _

variable (currentMembers : Option (List Member))

theorem emits_runTurn :
    Emits (Gated letters deps spec actorId) (runTurn letters deps spec currentMembers actorId deliverable) := by
  refine emits_bind (emits_call _) fun reads _ => ?_
  split
  · exact emits_bind (emits_call _) fun res _ => emits_settleTurn reaches res
  · exact emits_pure _

theorem emits_guarded :
    Emits (Gated letters deps spec actorId) (guarded letters deps spec currentMembers actorId deliverable) := by
  unfold guarded
  split
  next message given => exact emits_relayMessage reaches given
  · exact emits_runTurn reaches currentMembers

end

theorem emits_once {key : String} {fn : Step Notes} (h : Emits P fn) : Emits P (once deps key fn) := by
  unfold once
  split
  · exact emits_pure _
  · exact emits_bind h fun _ _ => emits_bind (emits_call _) fun _ _ => emits_pure _

theorem emits_reportFailure (reaches : Reaches letters deps spec actorId deliverable)
    (notes : Notes) (outcome : TriggerOutcome) :
    Emits (Gated letters deps spec actorId) (reportFailure letters deps spec deliverable notes outcome) := by
  unfold reportFailure
  split
  next errorNotice destination notice found =>
    split
    next checks =>
      obtain ⟨checks,_⟩ := Bool.and_eq_true_iff.mp checks
      obtain ⟨agreed,visible⟩ := Bool.and_eq_true_iff.mp checks
      refine emits_enqueue ⟨found,agreed,reaches visible destination found,?_⟩
      exact .inr (.inr (by simp [notice]))
    · exact emits_pure _
  · exact emits_pure _

theorem emits_fireAs (currentMembers : Option (List Member)) :
    Emits (Gated letters deps spec actorId) (fireAs letters deps spec currentMembers actorId) := by
  refine emits_bind (emits_call _) fun deliverable answer => ?_
  have reaches : Reaches letters deps spec actorId deliverable := by
    rintro rfl destination found
    rw [found] at answer
    exact answer
  refine emits_bind (emits_once (emits_guarded reaches currentMembers)) fun done _ => ?_
  exact emits_bind (emits_reportFailure reaches _ _) fun _ _ => emits_pure _

theorem actingPerson_owner {currentMembers : Option (List Member)} (h : spec.runAs ≠ some .scopeFloor)
    (acting : actingPerson letters deps spec currentMembers = .ok actorId) : actorId = spec.owner := by
  unfold actingPerson at acting
  rw [if_neg h] at acting
  split at acting
  · cases acting
  · split at acting
    · cases acting
    · exact (Except.ok.inj acting).symm

theorem emits_runTrigger (letters : Letters) (deps : TriggerDeps) (spec : TriggerSpec) :
    Emits (fun d => ∃ actorId, (spec.runAs ≠ some .scopeFloor → actorId = spec.owner) ∧
      Gated letters deps spec actorId d) (runTrigger letters deps spec) := by
  refine emits_bind (emits_call _) fun _ _ => emits_bind (emits_call _) fun currentMembers _ => ?_
  split
  · exact emits_pure _
  next actorId acting =>
    intro d hd
    exact ⟨actorId,fun owned => actingPerson_owner owned acting,emits_fireAs currentMembers d hd⟩

theorem consented_principal (standing : spec.recipientConsentRequired = some true)
    (found : spec.destination = some destination) (principal : destination.type = "principal")
    (other : samePerson letters destination.target spec.owner = false) (agreed : consented letters spec = true) :
    (∃ c, spec.recipientConsent = some c ∧ c.status = .accepted ∧
      samePerson letters c.recipientId destination.target = true) ∨
    (destination.target = "" ∧ ∀ c, spec.recipientConsent = some c → c.status = .accepted) := by
  have required : consentRequiredRecipient letters spec.owner
      (spec.recipientConsentRequired == some true) spec.destination = some destination.target := by
    simp [consentRequiredRecipient,standing,found,principal,other]
  rw [consented,required,recipientConsentSatisfied] at agreed
  split at agreed
  next empty =>
    refine .inr ⟨empty,fun c hc => ?_⟩
    simpa [hc] using agreed
  · left
    cases hc : spec.recipientConsent with
    | none =>
      rw [hc] at agreed
      cases agreed
    | some c =>
      rw [hc] at agreed
      obtain ⟨status,same⟩ := Bool.and_eq_true_iff.mp agreed
      exact ⟨c,rfl,of_decide_eq_true status,same⟩

theorem safe_of_gated (served : ¬ToNobody spec) (acting : spec.runAs ≠ some .scopeFloor → actorId = spec.owner)
    (gated : Gated letters deps spec actorId d) : Safe letters deps spec d := by
  refine ⟨?_,fun owned => acting owned ▸ gated.visible⟩
  intro standing principal other
  rcases consented_principal standing gated.destination principal other gated.consented with
    accepted | ⟨empty,others⟩
  · exact accepted
  · refine absurd ?_ served
    exact ⟨standing,⟨d.destination,gated.destination,principal,empty⟩,others,gated.reason⟩

theorem samePerson_to_empty (letters : Letters) (a : String) : samePerson letters a "" = false := by
  have blank : personKey letters "" = [] := by simp [personKey,trim]
  simp only [samePerson,blank]
  cases personKey letters a <;> simp

theorem unsafe_to_nobody (exposed : ToNobody spec) (gated : Gated letters deps spec actorId d) :
    ¬Safe letters deps spec d := by
  obtain ⟨standing,⟨destination,found,principal,empty⟩,_,_⟩ := exposed
  have same : d.destination = destination :=
    Option.some_inj.mp (gated.destination.symm.trans found)
  intro safe
  have consent := safe.consent
  rw [same,empty] at consent
  obtain ⟨c,_,_,person⟩ := consent standing principal (samePerson_empty letters _)
  rw [samePerson_to_empty] at person
  cases person

end

def ana : Member := ⟨"ana",.internal,none⟩

def probe (spec : TriggerSpec) : TriggerDeps where
  enqueue _ := .ok ()
  seen _ := false
  settle _ := .ok ()
  refresh := .ok ()
  classify _ := .internal
  run _ :=
    if spec.surface = "monitor" then .ok ⟨.failed,none,none,none,[],none,none⟩
    else .ok ⟨.ok,none,some "done",none,[],none,none⟩
  currentScopeMembers :=
    if spec.runAs = some .scopeFloor then some fun _ => .ok (some [ana]) else none
  directory := none

section

variable {letters : Letters} {spec : TriggerSpec}

def present (spec : TriggerSpec) : Option (List Member) :=
  if spec.runAs = some .scopeFloor then some [ana] else none

theorem probe_present : (match (probe spec).currentScopeMembers with
      | some current => current spec.ownerScopeId
      | none => .ok none) = .ok (present spec) := by
  unfold probe present
  by_cases floor : spec.runAs = some .scopeFloor
  · simp [floor]
  · simp [floor]

theorem samePerson_ana : samePerson letters "ana" "ana" = true := by
  have key : personKey letters "ana" = "ana".toList := by
    unfold personKey
    rw [if_neg (by decide)]
    decide
  simp [samePerson,key]

theorem probe_actor (letters : Letters) (spec : TriggerSpec) :
    ∃ actorId, actingPerson letters (probe spec) spec (present spec) = .ok actorId ∧
      canReadHome letters (probe spec) spec (present spec) actorId = .ok true := by
  by_cases floor : spec.runAs = some .scopeFloor
  · have here : present spec = some [ana] := if_pos floor
    by_cases own : samePerson letters "ana" spec.owner = true
    · refine ⟨spec.owner,?_,?_⟩
      · simp [actingPerson,here,ana,probe,own]
      · simp [canReadHome,here,ana,own]
    · refine ⟨"ana",?_,?_⟩
      · simp [actingPerson,floor,here,ana,probe,own]
      · simp [canReadHome,here,ana,samePerson_ana]
  · have here : present spec = none := if_neg floor
    refine ⟨spec.owner,?_,?_⟩
    · simp [actingPerson,floor,here,probe]
    · simp [canReadHome,here,probe]

theorem consented_to_nobody (exposed : ToNobody spec) : consented letters spec = true := by
  obtain ⟨standing,⟨destination,found,principal,empty⟩,accepted,_⟩ := exposed
  have required : consentRequiredRecipient letters spec.owner
      (spec.recipientConsentRequired == some true) spec.destination = some "" := by
    simp [consentRequiredRecipient,standing,found,principal,empty,samePerson_empty]
  rw [consented,required,recipientConsentSatisfied]
  cases hc : spec.recipientConsent with
  | none => rfl
  | some c => simpa using accepted c hc

theorem reachEnqueue_speaks (deps : TriggerDeps) (input : Delivery) (attributeAs : Option String) :
    (reachEnqueue deps input attributeAs).emitted ≠ [] := by
  have speaks (d : Delivery) : (enqueue deps d).emitted ≠ [] :=
    speaks_first _ (List.cons_ne_nil d [])
  unfold reachEnqueue
  split
  · exact speaks _
  · exact speaks _

theorem deliver_speaks {notes : Notes} {destination : Destination} {send : Destination → Step Unit}
    (agreed : consented letters spec = true) (speaks : (send destination).emitted ≠ []) :
    (deliver letters spec true notes destination send).emitted ≠ [] := by
  rw [deliver,agreed]
  exact speaks_first _ speaks

theorem guarded_speaks (exposed : ToNobody spec)
    (direct : spec.message.isSome ∨ spec.surface ≠ "monitor") {actorId : String}
    (reads : canReadHome letters (probe spec) spec (present spec) actorId = .ok true) :
    (guarded letters (probe spec) spec (present spec) actorId true).emitted ≠ [] := by
  have agreed : consented letters spec = true := consented_to_nobody exposed
  obtain ⟨_,⟨destination,found,_,_⟩,_,_⟩ := exposed
  unfold guarded
  split
  · rw [relayMessage,found]
    exact deliver_speaks agreed (reachEnqueue_speaks _ _ _)
  next unsaid =>
    have apart : spec.surface ≠ "monitor" := by simpa [unsaid] using direct
    refine speaks_then reads ?_
    have answer : ∀ req, (probe spec).run req =
        .ok ⟨.ok,none,some "done",none,[],none,none⟩ := fun _ => if_neg apart
    let members := ((present spec).or spec.members).getD []
    refine speaks_then (answer (turnRequest spec members actorId (liveDelivery letters spec true))) ?_
    have apartLive : liveDelivery letters spec true = false := by simp [liveDelivery,apart]
    rw [settleTurn,if_neg (by decide),if_neg (by decide),if_pos (by decide),deliverReply,found]
    simp only [apartLive,Bool.false_eq_true,if_false]
    exact deliver_speaks agreed (reachEnqueue_speaks _ _ _)

theorem probe_fails (monitor : spec.surface = "monitor") (unsaid : spec.message = none) {actorId : String}
    (reads : canReadHome letters (probe spec) spec (present spec) actorId = .ok true) :
    (once (probe spec) spec.fireKey (guarded letters (probe spec) spec (present spec) actorId true)).result =
        .ok (true,⟨some .failed,some "failed",none,none⟩) := by
  have answer : ∀ req, (probe spec).run req =
      .ok ⟨.failed,none,none,none,[],none,none⟩ := fun _ => if_pos monitor
  simp only [guarded,unsaid,runTurn,reads,answer]
  rfl

theorem reportFailure_speaks (exposed : ToNobody spec) (deps : TriggerDeps) (notice : spec.errorNotice.isSome) :
    (reportFailure letters deps spec true ⟨some .failed,some "failed",none,none⟩
      (outcomeOf true ⟨some .failed,some "failed",none,none⟩)).emitted ≠ [] := by
  have agreed : consented letters spec = true := consented_to_nobody exposed
  obtain ⟨_,⟨destination,found,_,_⟩,_,_⟩ := exposed
  obtain ⟨errorNotice,given⟩ := Option.isSome_iff_exists.mp notice
  rw [reportFailure,given,found]
  simp only [agreed]
  exact speaks_first _ (List.cons_ne_nil _ [])

theorem probe_speaks (letters : Letters) (exposed : ToNobody spec) :
    (runTrigger letters (probe spec) spec).emitted ≠ [] := by
  obtain ⟨actorId,acting,reads⟩ := probe_actor letters spec
  obtain ⟨_,⟨destination,found,_,_⟩,_,reason⟩ := id exposed
  refine speaks_then rfl (speaks_then probe_present ?_)
  rw [acting]
  refine speaks_then (by rw [found]; rfl) ?_
  by_cases direct : spec.message.isSome ∨ spec.surface ≠ "monitor"
  · refine speaks_first _ ?_
    exact speaks_first _ (guarded_speaks exposed direct reads)
  · simp only [not_or,not_not] at direct
    have notice : spec.errorNotice.isSome := by simpa [direct] using reason
    have unsaid : spec.message = none := by simpa using direct.1
    refine speaks_then (probe_fails direct.2 unsaid reads) ?_
    exact speaks_first _ (reportFailure_speaks exposed _ notice)

end

theorem standing_delivery_consented_iff (letters : Letters) (spec : TriggerSpec) :
    (∀ deps, ∀ d ∈ (runTrigger letters deps spec).emitted, Safe letters deps spec d) ↔ ¬ToNobody spec := by
  constructor
  · intro safe exposed
    obtain ⟨d,hd⟩ := List.exists_mem_of_ne_nil _ (probe_speaks letters exposed)
    obtain ⟨actorId,_,gated⟩ := emits_runTrigger letters (probe spec) spec d hd
    exact unsafe_to_nobody exposed gated (safe (probe spec) d hd)
  · intro served deps d hd
    obtain ⟨actorId,acting,gated⟩ := emits_runTrigger letters deps spec d hd
    exact safe_of_gated served acting gated

def asciiLetters : Letters := ⟨List.map Char.toLower⟩

def nobody : Destination := ⟨"principal","",none,none,none,none⟩

def standup : TriggerSpec where
  owner := "carol"
  ownerScopeId := "personal:carol"
  input := ""
  securityScreenData := none
  fireKey := "cron:standup:1000"
  surface := "cron"
  destination := some nobody
  message := some "standup in ten minutes"
  threadRef := none
  runAs := none
  members := none
  recipientConsent := none
  recipientConsentRequired := some true
  shadow := false
  thinkingLevel := none
  readOnly := false
  turnWallClockMs := none
  errorNotice := none

theorem standing_delivery_without_consent :
    ((runTrigger asciiLetters (probe standup) standup).emitted.map Delivery.destination) = [nobody] ∧
      ¬∀ d ∈ (runTrigger asciiLetters (probe standup) standup).emitted,
        Safe asciiLetters (probe standup) standup d := by
  have sent : (runTrigger asciiLetters (probe standup) standup).emitted.map Delivery.destination =
      [nobody] := by
    decide +kernel
  refine ⟨sent,fun safe => ?_⟩
  obtain ⟨d,hd,target⟩ := List.mem_map.mp (sent ▸ List.mem_singleton_self nobody)
  have principal : d.destination.type = "principal" := by rw [target]; rfl
  have other : samePerson asciiLetters d.destination.target standup.owner = false := by
    rw [target]
    decide +kernel
  obtain ⟨c,recorded,_⟩ := (safe d hd).consent rfl principal other
  cases recorded

end CompanyBrain.Triggers
