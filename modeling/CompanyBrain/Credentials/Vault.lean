import CompanyBrain.Credentials.Records
import CompanyBrain.Directory.Person
import CompanyBrain.Foundations.Programs
import CompanyBrain.Foundations.Table

namespace CompanyBrain.Credentials

open Foundations Function
open Directory (Letters samePerson)

inductive GrantMode where
  | once | standing
deriving DecidableEq

inductive GrantStatus where
  | active | revoked | used
deriving DecidableEq

structure GrantId where
  credentialId : CredId
  audienceScopeId : String
  createdAt : Int
  purpose : String
deriving DecidableEq

structure KeychainGrant where
  id : GrantId
  credentialId : CredId
  ownerId : String
  audienceScopeId : String
  mode : GrantMode
  purpose : String
  status : GrantStatus
  createdAt : Int
  expiresAt : Option Int
  revokedAt : Option Int
  usedAt : Option Int
  usedBy : Option String
  askId : Option String

inductive AskStatus where
  | pending | approved | declined | expired
deriving DecidableEq

def AskStatus.text : AskStatus → String
  | .pending => "pending"
  | .approved => "approved"
  | .declined => "declined"
  | .expired => "expired"

structure KeychainAsk where
  id : String
  credentialId : CredId
  ownerId : String
  requesterId : String
  requesterScopeId : String
  purpose : String
  requestedMode : Option GrantMode
  status : AskStatus
  createdAt : Int
  expiresAt : Int
  resolvedAt : Option Int
  grantId : Option GrantId
  note : Option String
  notifiedAt : Option Int

-- `grant` is the grant as the call read it, found unexpired at `testedAt`.
structure Offer where
  grant : KeychainGrant
  scopeId : String
  began : Option KeychainGrant
  beganAt : Int
  testedAt : Int
  approved : Nat
  era : Nat

namespace Offer

variable (o : Offer)

def grantId : GrantId := o.grant.id

def credentialId : CredId := o.grant.credentialId

def mode : GrantMode := o.grant.mode

end Offer

structure HandOut where
  offer : Offer
  era : Nat

-- What has happened, as the statements about the keychain speak of it; no program decides anything by it.
-- `eras` counts the removals of a credential, `approvals` is the count a grant was approved at, `stored` counts
-- the grants stored for a credential, `opened` is the grant that an approval of an ask has minted and not yet
-- written into the ask, `withdrawn` are the grants that a call has reported as revoked, `sets` counts the tokens
-- stored for a connector and `lineage` is the count that its present token goes back to.
structure Audit where
  handed : List HandOut
  approvals : GrantId → Nat
  eras : CredId → Nat
  stored : CredId → Nat
  minted : String → List GrantId
  opened : String → Option GrantId
  withdrawn : List GrantId
  sets : CredId → Nat
  lineage : CredId → Nat

def Audit.empty : Audit :=
  ⟨[],fun _ => 0,fun _ => 0,fun _ => 0,fun _ => [],fun _ => none,[],fun _ => 0,fun _ => 0⟩

-- `inflight` and `replies` are the refreshes that calls may join, by ticket.
structure Vault where
  clock : Int
  creds : Table KeychainCredential.id
  grants : Table KeychainGrant.id
  asks : Table KeychainAsk.id
  inflight : CredId → Option Nat
  tickets : Nat
  replies : Nat → Option (Option String)
  audit : Audit

def Vault.start (clock : Int) (creds : Table KeychainCredential.id) (grants : Table KeychainGrant.id)
    (asks : Table KeychainAsk.id) : Vault :=
  ⟨clock,creds,grants,asks,fun _ => none,0,fun _ => none,Audit.empty⟩

inductive Failure where
  | keychain (status : Nat) (message : String)
  | refresh (message : String)
  | store

structure AskPatch where
  status : AskStatus
  resolvedAt : Int
  grantId : Option GrantId
  note : Option String
  notifiedAt : Option Int

def AskPatch.apply (patch : AskPatch) (ask : KeychainAsk) : KeychainAsk :=
  {ask with
    status := patch.status
    resolvedAt := some patch.resolvedAt
    grantId := patch.grantId.or ask.grantId
    note := patch.note.or ask.note
    notifiedAt := patch.notifiedAt.or ask.notifiedAt}

structure Reading where
  grant : KeychainGrant
  approved : Nat
  era : Nat

def expired (expiresAt : Option Int) (now : Int) : Bool := expiresAt.any (· < now)

namespace Vault

variable (s : Vault)

def reading (grant : KeychainGrant) : Reading :=
  ⟨grant,s.audit.approvals grant.id,s.audit.eras grant.credentialId⟩

def putCred (rec : KeychainCredential) : Vault := {s with creds := s.creds.set rec}

def setToken (rec : KeychainCredential) : Vault :=
  {s with
    creds := s.creds.set rec
    audit := {s.audit with
      sets := update s.audit.sets rec.id (s.audit.sets rec.id+1)
      lineage := update s.audit.lineage rec.id (s.audit.sets rec.id+1)}}

def putRefreshed (rec : KeychainCredential) (sets : Nat) : Vault :=
  {s with
    creds := s.creds.set rec
    audit := {s.audit with lineage := update s.audit.lineage rec.id sets}}

def mergeRefresh (id : CredId) (refresh : CredentialRefresh) (updatedAt : Int) (sets : Nat) : Vault :=
  match s.creds.find? id with
  | some rec => s.putRefreshed {rec with refresh := some refresh, updatedAt := updatedAt} sets
  | none => s

def deleteCred (id : CredId) : Vault :=
  {s with
    creds := s.creds.erase id
    audit := {s.audit with eras := update s.audit.eras id (s.audit.eras id+1)}}

def putGrant (grant : KeychainGrant) (era : Nat) (approving : Option String) : Vault :=
  {s with
    grants := s.grants.set grant
    audit := {s.audit with
      approvals := update s.audit.approvals grant.id era
      stored := update s.audit.stored grant.credentialId (s.audit.stored grant.credentialId+1)
      minted := match approving with
        | some ask => update s.audit.minted ask (grant.id :: s.audit.minted ask)
        | none => s.audit.minted
      opened := match approving with
        | some ask => update s.audit.opened ask (some grant.id)
        | none => s.audit.opened}}

def setGrant (grant : KeychainGrant) : Vault := {s with grants := s.grants.set grant}

def mergeGrant (id : GrantId) (patch : KeychainGrant → KeychainGrant) : Vault :=
  match s.grants.find? id with
  | some grant => s.setGrant (patch grant)
  | none => s

def mergeAsk (id : String) (patch : AskPatch) : Vault :=
  match s.asks.find? id with
  | some ask => {s with asks := s.asks.set (patch.apply ask)}
  | none => s

def closeAsk (id : String) : Vault := {s with audit := {s.audit with opened := update s.audit.opened id none}}

def withdraw (ids : List GrantId) : Vault := {s with audit := {s.audit with withdrawn := s.audit.withdrawn ++ ids}}

def hand (offers : List Offer) : Vault :=
  {s with audit := {s.audit with
      handed := s.audit.handed ++ offers.map fun o => ⟨o,s.audit.eras o.credentialId⟩}}

def claim (offer : Offer) (usedAt : Int) (usedBy : String) : Vault × Except Failure Bool :=
  match s.grants.find? offer.grantId with
  | none => (s,.ok false)
  | some current =>
    if current.audienceScopeId ≠ offer.scopeId then
      (s,.error (.keychain 403 "grant is for a different conversation"))
    else if current.status = .revoked then (s,.error (.keychain 410 "grant was revoked"))
    else if current.status = .used then (s,.error (.keychain 410 "one-time grant already used"))
    else if expired current.expiresAt usedAt then (s,.error (.keychain 410 "grant is expired"))
    else
      (((s.setGrant {current with status := .used, usedAt := some usedAt, usedBy := some usedBy}).hand [offer]),
        .ok true)

def joinOrStart (id : CredId) : Vault × Option Nat × Nat :=
  match s.inflight id with
  | some ticket => (s,some ticket,ticket)
  | none =>
    ({s with inflight := update s.inflight id (some s.tickets), tickets := s.tickets+1},none,s.tickets)

def settle (id : CredId) (ticket : Nat) (reply : Option String) : Vault :=
  {s with
    inflight := update s.inflight id none
    replies := update s.replies ticket (some reply)}

end Vault

section

variable (s : Vault)

theorem Vault.mergeRefresh_cases (id : CredId) (refresh : CredentialRefresh) (updatedAt : Int) (sets : Nat) :
    s.mergeRefresh id refresh updatedAt sets = s ∨ ∃ rec put, s.creds.find? id = some rec ∧ put.id = id ∧
      s.mergeRefresh id refresh updatedAt sets = s.putRefreshed put sets := by
  unfold mergeRefresh
  cases found : s.creds.find? id with
  | none => exact .inl rfl
  | some rec =>
    have key : rec.id = id := Table.key_of_find? found
    exact .inr ⟨rec,{rec with refresh := some refresh, updatedAt := updatedAt},rfl,key,rfl⟩

theorem Vault.mergeGrant_cases (id : GrantId) (patch : KeychainGrant → KeychainGrant) :
    s.mergeGrant id patch = s ∨ ∃ g, s.grants.find? id = some g ∧ s.mergeGrant id patch = s.setGrant (patch g) := by
  unfold mergeGrant
  cases found : s.grants.find? id with
  | none => exact .inl rfl
  | some g => exact .inr ⟨g,rfl,rfl⟩

theorem Vault.mergeAsk_cases (id : String) (patch : AskPatch) :
    s.asks.find? id = none ∧ s.mergeAsk id patch = s ∨ ∃ ask, s.asks.find? id = some ask ∧
      s.mergeAsk id patch = {s with asks := s.asks.set (patch.apply ask)} := by
  unfold mergeAsk
  cases found : s.asks.find? id with
  | none => exact .inl ⟨rfl,rfl⟩
  | some ask => exact .inr ⟨ask,rfl,rfl⟩

theorem Vault.claim_cases (o : Offer) (usedAt : Int) (usedBy : String) :
    (s.claim o usedAt usedBy).1 = s ∨ ∃ g used, s.grants.find? o.grantId = some g ∧ g.status = .active ∧
      used = {g with status := .used, usedAt := some usedAt, usedBy := some usedBy} ∧
      (s.claim o usedAt usedBy).1 = (s.setGrant used).hand [o] := by
  unfold claim
  cases found : s.grants.find? o.grantId with
  | none => exact .inl rfl
  | some g =>
    dsimp only
    split
    · exact .inl rfl
    · split
      · exact .inl rfl
      next notRevoked =>
        split
        · exact .inl rfl
        next notUsed =>
          split
          · exact .inl rfl
          · refine .inr ⟨g,_,rfl,?_,rfl,rfl⟩
            cases status : g.status with
            | active => rfl
            | revoked => exact absurd status notRevoked
            | used => exact absurd status notUsed

theorem Vault.mergeRefresh_frame (id : CredId) (refresh : CredentialRefresh) (updatedAt : Int) (sets : Nat) :
    ∃ creds lineage, s.mergeRefresh id refresh updatedAt sets =
      {s with creds := creds, audit := {s.audit with lineage := lineage}} := by
  rcases s.mergeRefresh_cases id refresh updatedAt sets with same | ⟨_,_,_,_,is⟩
  · exact ⟨_,_,same⟩
  · exact ⟨_,_,is⟩

theorem Vault.mergeGrant_frame (id : GrantId) (patch : KeychainGrant → KeychainGrant) :
    ∃ grants, s.mergeGrant id patch = {s with grants := grants} := by
  rcases s.mergeGrant_cases id patch with same | ⟨_,_,is⟩
  · exact ⟨_,same⟩
  · exact ⟨_,is⟩

theorem Vault.mergeAsk_frame (id : String) (patch : AskPatch) :
    ∃ asks, s.mergeAsk id patch = {s with asks := asks} := by
  rcases s.mergeAsk_cases id patch with ⟨_,same⟩ | ⟨_,_,is⟩
  · exact ⟨_,same⟩
  · exact ⟨_,is⟩

theorem Vault.claim_frame (o : Offer) (usedAt : Int) (usedBy : String) :
    ∃ grants handed, (s.claim o usedAt usedBy).1 =
      {s with grants := grants, audit := {s.audit with handed := handed}} := by
  rcases s.claim_cases o usedAt usedBy with same | ⟨_,_,_,_,_,is⟩
  · exact ⟨_,_,same⟩
  · exact ⟨_,_,is⟩

end

inductive KeyLabel where
  | plain
  | writeAsk (rec : KeychainAsk) (patch : AskPatch)
  | putGrant (grant : KeychainGrant) (era : Nat) (approving : Option KeychainAsk)
  | handOut (offers : List Offer)
  | deleteCred (id : CredId) (stored : Nat)
  | refreshed (source target : CredId) (sets era : Nat)
  | refreshFailed (id : CredId) (sets era : Nat)
  | await (ticket : Nat)

abbrev Key := Prog Vault KeyLabel Failure

def lookup {α : Type} (read : Vault → α) : Key α := .get .plain .store read

def now : Key Int := lookup Vault.clock

def refuse (bad : Bool) (status : Nat) (message : String) : Key Unit :=
  if bad then throw (.keychain status message) else pure ()

def demand {α : Type} (found : Option α) (status : Nat) (message : String) : Key α :=
  match found with
  | some a => pure a
  | none => throw (.keychain status message)

end CompanyBrain.Credentials
