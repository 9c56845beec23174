import CompanyBrain.Deploy.DeployStore
import CompanyBrain.Foundations.JsText
import CompanyBrain.Foundations.RelyGuarantee

namespace CompanyBrain.Deploy

open Foundations

def isAlnum (c : Char) : Bool := c.isLower || c.isDigit

def isHexDigit (c : Char) : Bool := c.isDigit || ('a' ≤ c && c ≤ 'f') || ('A' ≤ c && c ≤ 'F')

def looksLikeId (text : Text) : Bool :=
  text.length = 36 && text.zipIdx.all fun (c,i) =>
    if [8,13,18,23].contains i then c = '-' else isHexDigit c

def isName (text : Text) : Bool :=
  text.length ≤ 40 && text.all (fun c => isAlnum c || c = '-') &&
    text.head?.any isAlnum && text.getLast?.any isAlnum

def nameError (name : String) : Option Failure :=
  if looksLikeId name.toList then
    some (.message s!"invalid deployment name (looks like an id): {name}")
  else if isName name.toList then none
  else some (.message (s!"invalid deployment name \"{name}\": use 2-40 chars, lowercase " ++
    "letters/digits/hyphens, no leading/trailing hyphen"))

def validateName (name : String) : Deploys Unit :=
  match nameError name with
  | none => pure ()
  | some e => throw e

def nameTaken (name : String) : Failure := .message s!"deployment name taken: {name}"

structure Provider where
  apply : Deployment → DeploymentVersion → DeployEndpoint
  reconcile : Option (Deployment → DeploymentVersion → Option Nat → DeployEndpoint)
  resolveEndpoint : Option (Nat → Deployment → DeploymentVersion → Option DeployEndpoint)

variable (provider : Provider)

section

variable (slot : Nat) (id : String) (receive : (String → Option String) → (String → Option String) × Bool) (now : Nat)

def acquire : Deploys Bool :=
  Prog.stmt (.lock id) .lost fun s =>
    match s.locks id with
    | none => ({s with locks := Function.update s.locks id (some slot)},true)
    | some _ => (s,false)

def release : Deploys Unit :=
  Prog.set (.unlock id) .lost fun s =>
    if s.locks id = some slot then {s with locks := Function.update s.locks id none} else s

-- A try for the lock that fails stands for one whose time has run out.
def withDeployLock {α : Type} (slot : Nat) (id : String) (body : Deploys α) : Deploys α := do
  if ← acquire slot id then
    let result ← tryCatch body fun e => do
      release slot id
      throw e
    release slot id
    return result
  else throw (.message s!"timeout acquiring advisory lock for deploy:{id}")

def provide (d : Deployment) (version : DeploymentVersion) (fromVersion : Option Nat) : Deploys DeployEndpoint :=
  match provider.reconcile, truthy version.commit with
  | some reconcile, some _ => ask (reconcile d version fromVersion)
  | _, _ => ask (provider.apply d version)

def applyVersion (held : Bool) (id : String) (version : DeploymentVersion)
    (fromVersion : Option Nat) : Deploys DeployEndpoint := do
  match ← get id with
  | none => throw .lost
  | some d =>
    let endpoint ← provide provider d version fromVersion
    match truthy endpoint.image with
    | some image =>
      if some image ≠ version.image then setVersionImage held id version.version image
    | none => pure ()
    return endpoint

def markVersionRunning (held : Bool) (id : String) (version : Nat) (endpoint : DeployEndpoint) : Deploys Unit := do
  setEndpoint held id (some endpoint)
  setStatus held id .running
  setAppliedVersion held id version

def publish (held : Bool) (id : String) (version : DeploymentVersion) (fromVersion : Option Nat) :
    Deploys DeployEndpoint := do
  let endpoint ← applyVersion provider held id version fromVersion
  markVersionRunning held id version.version endpoint
  return endpoint

def appliedFrom (before : Option Deployment) : Option Nat :=
  before.map fun d => d.appliedVersion.getD d.currentVersion

def checkName (name : Option String) : Deploys (List Deployment) :=
  match name with
  | none => pure []
  | some name => do
    validateName name
    let rows ← all
    if (named rows name).isSome then throw (nameTaken name)
    return rows

def deploy (input : CreateInput) : Deploys (Option Deployment) := do
  let checked ← checkName input.name
  let version ← ask input.version
  let d ← create {input with version := version} checked
  match d.versions.head? with
  | none => throw .lost
  | some v =>
    discard (publish provider false d.id v none)
    get d.id

def redeploy (input : VersionInput) : Deploys (Option Deployment) :=
  withDeployLock slot id do
    let before ← get id
    let input ← ask input
    let v ← addVersion true id input
    match ← get id with
    | none => throw (unknownDeployment id)
    | some _ =>
      discard (publish provider true id v (appliedFrom before))
      get id

def rollbackDeployment (version : Nat) : Deploys Unit :=
  withDeployLock slot id do
    let before ← get id
    setCurrentVersion true id version
    let v := (← get id).bind (·.versionOf version)
    match ← get id, v with
    | some _, some v => discard (publish provider true id v (appliedFrom before))
    | _, _ => return ()

def archiveDeployment : Deploys Unit :=
  withDeployLock slot id do
    match ← get id with
    | none => return ()
    | some _ =>
      ask ()
      setStatus true id .archived
      setEndpoint true id none

def renameDeployment (id name : String) : Deploys (Option Deployment) :=
  withDeployLock slot id do
    validateName name
    match ← get id with
    | none => throw (unknownDeployment id)
    | some _ =>
      let rows ← all
      if (named rows name).any (·.id ≠ id) then throw (nameTaken name)
      setName true rows id name
      get id

def resolveAgain (resolve : Nat → Deployment → DeploymentVersion → Option DeployEndpoint)
    (slot : Nat) (d : Deployment) (version : DeploymentVersion) : Deploys DeployEndpoint :=
  withDeployLock slot d.id do
    let cur := (← get d.id).getD d
    let v := cur.current.getD version
    match ← ask (resolve 1 cur v) with
    | some again =>
      if cur.endpoint ≠ some again then setEndpoint true cur.id (some again)
      return again
    | none => publish provider true cur.id v (some (cur.appliedVersion.getD cur.currentVersion))

def liveEndpoint (d : Deployment) (endpoint : DeployEndpoint) : Deploys DeployEndpoint :=
  match provider.resolveEndpoint, d.current with
  | some resolve, some version => do
    match ← ask (resolve 0 d version) with
    | some resolved =>
      if d.endpoint ≠ some resolved then setEndpoint false d.id (some resolved)
      return resolved
    | none => resolveAgain provider resolve slot d version
  | _, _ => return endpoint

def getDeployment (idOrName : String) : Deploys (Option Deployment) := do
  match ← get idOrName with
  | some d => return some d
  | none => getByName idOrName

def reachDeployment (idOrName : String) (allowed : Bool) (now : Nat) : Deploys (Option DeployEndpoint) := do
  match ← getDeployment idOrName with
  | none => return none
  | some d =>
    match d.status, d.endpoint with
    | .running, some endpoint =>
      if !(← ask allowed) then return none
      let endpoint ← liveEndpoint provider slot d endpoint
      touch false d.id now
      return some endpoint
    | _, _ => return none

def runReceivePack : Deploys Bool :=
  Prog.stmt .git .lost fun s =>
    ({s with refs := Function.update s.refs id (receive (s.refs id)).1},(receive (s.refs id)).2)

def registerPush : Deploys Unit := do
  match ← get id with
  | none => return ()
  | some before =>
    match truthy (← refOf id currentRef) with
    | none => return ()
    | some pushed =>
      match ← addVersionFromCommit true id pushed now with
      | none => return ()
      | some v => discard (publish provider true id v (appliedFrom (some before)))

def pushGit : Deploys Unit :=
  withDeployLock slot id do
    if ← runReceivePack id receive then
      tryCatch (registerPush provider id now) fun _ => pure ()

inductive DeployCall where
  | deploy (provider : Provider) (input : CreateInput)
  | redeploy (provider : Provider) (id : String) (input : VersionInput)
  | pushGit (provider : Provider) (id : String)
      (receive : (String → Option String) → (String → Option String) × Bool) (now : Nat)
  | rollback (provider : Provider) (id : String) (version : Nat)
  | archive (id : String)
  | rename (id name : String)
  | reach (provider : Provider) (idOrName : String) (allowed : Bool) (now : Nat)

def DeployCall.task : DeployCall → Task DeployState DeployLabel
  | .deploy provider input => (CompanyBrain.Deploy.deploy provider input).toTask
  | .redeploy provider id input => (CompanyBrain.Deploy.redeploy provider slot id input).toTask
  | .pushGit provider id receive now =>
    (CompanyBrain.Deploy.pushGit provider slot id receive now).toTask
  | .rollback provider id version => (rollbackDeployment provider slot id version).toTask
  | .archive id => (archiveDeployment slot id).toTask
  | .rename id name => (renameDeployment slot id name).toTask
  | .reach provider idOrName allowed now => (reachDeployment provider slot idOrName allowed now).toTask

end

def deploySystem : System DeployState DeployLabel (Nat × DeployCall) Empty where
  program := fun call => call.2.task call.1
  env := fun e => e.elim

abbrev DeployStep := PoolStep DeployCall Empty

def deployStep (pool : Pool DeployState DeployLabel) (a : DeployStep) : Pool DeployState DeployLabel :=
  deploySystem.step pool a.seated

def deploysAfter (start : DeployState) (schedule : List DeployStep) : Pool DeployState DeployLabel :=
  run deployStep (Pool.idle start) schedule

def runs (slot n : Nat) : List DeployStep := List.replicate n (.run slot)

def endpointOf (port : Nat) : DeployEndpoint := ⟨"app",port,none,none,none,none,none⟩

def stubProvider : Provider := ⟨fun _ _ => endpointOf 8080,none,none⟩

end CompanyBrain.Deploy
