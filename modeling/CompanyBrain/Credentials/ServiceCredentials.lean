import CompanyBrain.Credentials.Records
import CompanyBrain.Foundations.Interleaving

namespace CompanyBrain.Credentials

open Foundations

structure ServiceCredentialInput where
  slug : String
  name : String
  secret : Option String
  delivery : Option DeliveryMode
  envKey : Option String
  host : String
  injection : Option CredentialInjection
  allowedMethods : Option (List String)
  allowedPathPrefixes : Option (List String)
  enabled : Option Bool
  updatedBy : Option String

structure Rendering where
  toUpperCase : String → String
  stringify : Option String → String

def isValidServiceCredentialEnvKey (envKey : String) : Bool :=
  match envKey.toList with
  | [] => false
  | c :: rest =>
    c.isUpper && rest.all (fun c => c.isUpper || c.isDigit || c = '_') && !envKey.startsWith "AGENT_"

def brokerId (orgScopeId slug : String) : CredId := credId orgScopeId slug "broker"

variable (rendering : Rendering)

def checkedDelivery (input : ServiceCredentialInput) : Except String DeliveryMode :=
  match input.delivery.getD .broker with
  | .env =>
    if (truthy input.envKey).any isValidServiceCredentialEnvKey then .ok .env
    else
      .error ("env-delivery credential " ++ input.slug ++
        " needs an UPPER_SNAKE_CASE envKey outside AGENT_* (got " ++ rendering.stringify input.envKey ++ ")")
  | .broker =>
    if (truthy input.envKey).isSome then
      .error ("broker-delivery credential " ++ input.slug ++ " must not carry an envKey")
    else .ok .broker

def serviceVersion (now : Int) (prior : Option KeychainCredential) : Int :=
  max now ((prior.map KeychainCredential.updatedAt).getD 0+1)

def serviceCredentialRecord (now : Int) (orgScopeId : String) (input : ServiceCredentialInput)
    (prior : Option KeychainCredential) : Except String KeychainCredential := do
  let trimmedSecret := truthy (input.secret.map trimmed)
  let t := serviceVersion now prior
  let delivery ← checkedDelivery rendering input
  return {
    id := brokerId orgScopeId input.slug
    ownerId := orgScopeId
    service := input.slug
    kind := .broker
    envKey := none
    fields := none
    targets := none
    host := some input.host
    broker := some {
      name := input.name
      delivery := if delivery = .env then some .env else none
      envKey := if delivery = .env then input.envKey else none
      injection := input.injection
      allowedMethods := input.allowedMethods.map fun methods => methods.map rendering.toUpperCase
      allowedPathPrefixes := input.allowedPathPrefixes
      enabled := input.enabled ≠ some false
      updatedBy := truthy input.updatedBy}
    refresh := none
    managed := false
    secretEnc := match trimmedSecret with
      | some secret => some (encryptSecret (.raw secret))
      | none => prior.bind KeychainCredential.secretEnc
    fingerprint := match trimmedSecret with
      | some secret => some (.raw secret)
      | none => prior.bind KeychainCredential.fingerprint
    expiresAt := none
    createdAt := (prior.map KeychainCredential.createdAt).getD t
    updatedAt := t}

structure ServiceSlot where
  clock : Int
  stored : Option KeychainCredential
  newest : Option Int
  writes : Nat

namespace ServiceSlot

variable (s : ServiceSlot)

def put (rec : KeychainCredential) : ServiceSlot :=
  {s with
    stored := some rec
    newest := some (max rec.updatedAt (s.newest.getD rec.updatedAt))
    writes := s.writes+1}

def insertIfAbsent (rec : KeychainCredential) : ServiceSlot × Bool :=
  match s.stored with
  | some _ => (s,false)
  | none => (s.put rec,true)

def delete : ServiceSlot :=
  match s.stored with
  | some _ => {s with stored := none, writes := s.writes+1}
  | none => s

def current (orgScopeId : String) (expectedUpdatedAt : Int) (prior : KeychainCredential) : Bool :=
  prior.kind = .broker && prior.ownerId = orgScopeId && prior.updatedAt = expectedUpdatedAt

def updateIfCurrent (orgScopeId : String) (input : ServiceCredentialInput) (expectedUpdatedAt : Int) :
    ServiceSlot × Except String (Option Int) :=
  match s.stored with
  | none => (s,.ok none)
  | some prior =>
    if current orgScopeId expectedUpdatedAt prior then
      match serviceCredentialRecord rendering s.clock orgScopeId input prior with
      | .ok next => (s.put next,.ok (some next.updatedAt))
      | .error e => (s,.error e)
    else (s,.ok none)

def deleteIfCurrent (orgScopeId : String) (expectedUpdatedAt : Int) : ServiceSlot × Bool :=
  if s.stored.any (current orgScopeId expectedUpdatedAt) then (s.delete,true) else (s,false)

end ServiceSlot

inductive ServiceLabel where
  | read
  | put (rec : KeychainCredential) (prior : Option KeychainCredential)
  | insertIfAbsent (rec : KeychainCredential)
  | updateIfCurrent (orgScopeId : String) (input : ServiceCredentialInput) (expectedUpdatedAt : Int)
  | delete
  | deleteIfCurrent (orgScopeId : String) (expectedUpdatedAt : Int)

abbrev ServiceTask := Task ServiceSlot ServiceLabel

section

variable (orgScopeId : String) (input : ServiceCredentialInput) (expectedUpdatedAt : Int)

def setServiceCredential : ServiceTask :=
  .read .read (fun s => (s.stored,serviceCredentialRecord rendering s.clock orgScopeId input s.stored)) .done fun
    | (prior,.ok rec) => .call (.put rec prior) (fun s => (s.put rec,())) .done fun _ => .done
    | (_,.error _) => .done

def setServiceCredentialIfAbsent : ServiceTask :=
  .read .read (fun s => serviceCredentialRecord rendering s.clock orgScopeId input none) .done fun
    | .ok rec => .call (.insertIfAbsent rec) (fun s => s.insertIfAbsent rec) .done fun _ => .done
    | .error _ => .done

def setServiceCredentialIfCurrent : ServiceTask :=
  .call (.updateIfCurrent orgScopeId input expectedUpdatedAt)
    (fun s => s.updateIfCurrent rendering orgScopeId input expectedUpdatedAt) .done fun _ => .done

def deleteServiceCredential : ServiceTask := .call .delete (fun s => (s.delete,())) .done fun _ => .done

def deleteServiceCredentialIfCurrent : ServiceTask :=
  .call (.deleteIfCurrent orgScopeId expectedUpdatedAt) (fun s => s.deleteIfCurrent orgScopeId expectedUpdatedAt) .done
    fun _ => .done

end

inductive ServiceRequest where
  | set (input : ServiceCredentialInput)
  | setIfAbsent (input : ServiceCredentialInput)
  | setIfCurrent (input : ServiceCredentialInput) (expectedUpdatedAt : Int)
  | delete
  | deleteIfCurrent (expectedUpdatedAt : Int)

def ServiceRequest.task (orgScopeId slug : String) : ServiceRequest → ServiceTask
  | .set input => setServiceCredential rendering orgScopeId {input with slug := slug}
  | .setIfAbsent input => setServiceCredentialIfAbsent rendering orgScopeId {input with slug := slug}
  | .setIfCurrent input expectedUpdatedAt =>
    setServiceCredentialIfCurrent rendering orgScopeId {input with slug := slug} expectedUpdatedAt
  | .delete => deleteServiceCredential
  | .deleteIfCurrent expectedUpdatedAt => deleteServiceCredentialIfCurrent orgScopeId expectedUpdatedAt

def serviceSystem (orgScopeId slug : String) : System ServiceSlot ServiceLabel ServiceRequest Nat :=
  ⟨ServiceRequest.task rendering orgScopeId slug,fun ms s => {s with clock := s.clock + ms}⟩

abbrev ServicePool := Pool ServiceSlot ServiceLabel

abbrev ServiceStep := PoolStep ServiceRequest Nat

end CompanyBrain.Credentials
