import CompanyBrain.Directory.Person

namespace CompanyBrain.Triggers

open Foundations Directory

inductive ConsentStatus where
  | pending | accepted | declined
deriving DecidableEq

structure RecipientConsent where
  recipientId : String
  status : ConsentStatus
  decidedAt : Option Int
deriving DecidableEq

inductive RunAs where
  | owner | scopeFloor | scopeShared
deriving DecidableEq

structure Reaction where
  messageTs : String
  emoji : String
deriving DecidableEq

structure Destination where
  type : String
  target : String
  audienceScopeId : Option String
  onBehalfOf : Option String
  react : Option Reaction
  delete : Option String
deriving DecidableEq

def consentRequiredRecipient (letters : Letters) (owner : String) (standing : Bool)
    (destination : Option Destination) : Option String :=
  if !standing then none
  else
    match destination with
    | none => none
    | some d =>
      if d.type = "principal" && !samePerson letters d.target owner then some d.target else none

-- The source tests the recipient for truth, so an empty recipient counts as none.
def recipientConsentSatisfied (letters : Letters) (consent : Option RecipientConsent)
    (requiredRecipient : Option String) : Bool :=
  if requiredRecipient.getD "" = "" then
    consent.all fun c => decide (c.status = .accepted)
  else
    consent.any fun c => decide (c.status = .accepted) &&
      samePerson letters c.recipientId (requiredRecipient.getD "")

end CompanyBrain.Triggers
