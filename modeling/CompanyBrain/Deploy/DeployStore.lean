import CompanyBrain.Foundations.JsText
import CompanyBrain.Foundations.Programs
import CompanyBrain.Foundations.Table

namespace CompanyBrain.Deploy

open Foundations

structure DeploymentVersion where
  version : Nat
  createdAt : Nat
  entrypoint : String
  snapshotDir : String
  homeDir : Option String
  image : Option String
  commit : Option String
  parentCommit : Option String
  env : Option (List (String × String))
deriving DecidableEq

structure DeployEndpoint where
  host : String
  port : Nat
  publicUrl : Option String
  image : Option String
  tls : Option Bool
  httpVersion : Option String
  proxyHeaders : Option (List (String × String))
deriving DecidableEq

inductive DeploymentStatus where
  | running | stopped | archived
deriving DecidableEq

structure Deployment where
  id : String
  ownerScopeId : String
  createdBy : String
  createdInScope : Option String
  name : Option String
  currentVersion : Nat
  status : DeploymentStatus
  endpoint : Option DeployEndpoint
  lastAccessAt : Option Nat
  appliedVersion : Option Nat
  versions : List DeploymentVersion
deriving DecidableEq

def Deployment.versionOf (d : Deployment) (version : Nat) : Option DeploymentVersion :=
  d.versions.find? (·.version = version)

def Deployment.current (d : Deployment) : Option DeploymentVersion := d.versionOf d.currentVersion

inductive Update where
  | addVersion (v : DeploymentVersion)
  | currentVersion (version : Nat)
  | versionImage (version : Nat) (image : String)
  | status (status : DeploymentStatus)
  | endpoint (endpoint : Option DeployEndpoint)
  | name (name : String)
  | appliedVersion (version : Nat)
  | lastAccessAt (time : Nat)

def Update.apply (d : Deployment) : Update → Deployment
  | .addVersion v => {d with versions := d.versions ++ [v], currentVersion := v.version}
  | .currentVersion n => {d with currentVersion := n}
  | .versionImage n built =>
    {d with versions := d.versions.map fun v =>
        if v.version = n then {v with image := some built} else v}
  | .status next => {d with status := next}
  | .endpoint next => {d with endpoint := next}
  | .name next => {d with name := some next}
  | .appliedVersion n => {d with appliedVersion := some n}
  | .lastAccessAt t => {d with lastAccessAt := some t}

@[simp] theorem Update.apply_id (u : Update) (d : Deployment) : (u.apply d).id = d.id := by
  cases u <;> rfl

structure DeployState where
  deployments : Table Deployment.id
  locks : String → Option Nat
  refs : String → String → Option String
  unlockedPuts : String → Nat

def bump (count : String → Nat) (id : String) : String → Nat :=
  Function.update count id (count id+1)

def DeployState.put (s : DeployState) (held : Bool) (d : Deployment) : DeployState :=
  {s with
    deployments := s.deployments.set d
    unlockedPuts := if held then s.unlockedPuts else bump s.unlockedPuts d.id}

structure Put where
  update : Update
  read : Deployment
  unlockedPuts : Nat
  held : Bool
  checked : List Deployment

inductive DeployLabel where
  | read
  | git
  | lock (id : String)
  | unlock (id : String)
  | create (d : Deployment) (checked : List Deployment)
  | put (p : Put)

inductive Failure where
  | lost
  | message (text : String)

abbrev Deploys (α : Type) := Prog DeployState DeployLabel Failure α

def ask {α : Type} (answer : α) : Deploys α := Prog.get .read .lost fun _ => answer

def get (id : String) : Deploys (Option Deployment) :=
  Prog.get .read .lost fun s => s.deployments.find? id

def all : Deploys (List Deployment) := Prog.get .read .lost fun s => s.deployments.rows

def named (rows : List Deployment) (name : String) : Option Deployment :=
  rows.find? (·.name = some name)

def getByName (name : String) : Deploys (Option Deployment) := do
  let rows ← all
  return named rows name

section

variable (held : Bool) (id : String) (version : Nat) (image : String)

def fetch : Deploys (Option (Deployment × Nat)) :=
  Prog.get .read .lost fun s => (s.deployments.find? id).map (·,s.unlockedPuts id)

def put (p : Put) : Deploys Unit :=
  Prog.set (.put p) .lost fun s => s.put p.held (p.update.apply p.read)

def currentRef : String := "refs/heads/current"

def versionRef : String := s!"refs/versions/{version}"

def setRef (id ref : String) (commit : Option String) : Deploys Unit :=
  Prog.set .git .lost fun s =>
    {s with refs := Function.update s.refs id (Function.update (s.refs id) ref commit)}

def refOf (id ref : String) : Deploys (Option String) := Prog.get .read .lost fun s => s.refs id ref

def updateVersionRef (v : DeploymentVersion) : Deploys Unit :=
  match truthy v.commit with
  | none => pure ()
  | some commit => do
    setRef id (versionRef v.version) (some commit)
    setRef id s!"refs/deploy-commits/{commit}" (some commit)

def updateAppliedRef (v : DeploymentVersion) : Deploys Unit :=
  setRef id currentRef (truthy v.commit)

structure VersionInput where
  entrypoint : String
  snapshotDir : String
  homeDir : Option String
  env : Option (List (String × String))
  commit : Option String
  now : Nat

def makeVersion (input : VersionInput) (parentCommit : Option String) : Deploys DeploymentVersion := do
  let commit ← ask input.commit
  return ⟨version,input.now,input.entrypoint,input.snapshotDir,truthy input.homeDir,none,
    truthy commit,truthy parentCommit,input.env⟩

structure CreateInput where
  id : String
  ownerScopeId : String
  createdBy : String
  name : Option String
  createdInScope : Option String
  version : VersionInput

def create (input : CreateInput) (checked : List Deployment) : Deploys Deployment := do
  let v ← makeVersion 1 input.version none
  let d : Deployment := ⟨input.id,input.ownerScopeId,input.createdBy,truthy input.createdInScope,
    truthy input.name,1,.stopped,none,none,none,[v]⟩
  Prog.set (.create d checked) .lost fun s => s.put false d
  updateVersionRef d.id v
  return d

def unknownDeployment : Failure := .message s!"unknown deployment: {id}"

def addVersion (held : Bool) (id : String) (input : VersionInput) : Deploys DeploymentVersion := do
  match ← fetch id with
  | none => throw (unknownDeployment id)
  | some (d,seen) =>
    let v ← makeVersion (d.versions.length+1) input (d.current.bind DeploymentVersion.commit)
    put ⟨.addVersion v,d,seen,held,[]⟩
    updateVersionRef id v
    return v

def pushedVersion (d : Deployment) (commit : String) (now : Nat) : DeploymentVersion where
  version := d.versions.length+1
  createdAt := now
  entrypoint := (d.current.map DeploymentVersion.entrypoint).getD ""
  snapshotDir := (d.current.map DeploymentVersion.snapshotDir).getD "/unused"
  homeDir := truthy (d.current.bind DeploymentVersion.homeDir)
  image := none
  commit := some commit
  parentCommit := truthy (d.current.bind DeploymentVersion.commit)
  env := d.current.bind DeploymentVersion.env

def addVersionFromCommit (id commit : String) (now : Nat) : Deploys (Option DeploymentVersion) := do
  match ← fetch id with
  | none => throw (unknownDeployment id)
  | some (d,seen) =>
    if d.current.bind DeploymentVersion.commit = some commit then return none
    let v := pushedVersion d commit now
    put ⟨.addVersion v,d,seen,held,[]⟩
    updateVersionRef id v
    return some v

def modify (checked : List Deployment)
    (update : Deployment → Except Failure Update) : Deploys (Option Deployment) := do
  match ← fetch id with
  | none => return none
  | some (d,seen) =>
    match update d with
    | .error e => throw e
    | .ok u =>
      put ⟨u,d,seen,held,checked⟩
      return some d

def ofVersion (u : Update) (d : Deployment) : Except Failure Update :=
  match d.versionOf version with
  | none => .error (.message s!"no such version {version}")
  | some _ => .ok u

def setCurrentVersion : Deploys Unit := do
  discard (modify held id [] (ofVersion version (.currentVersion version)))

def setVersionImage : Deploys Unit := do
  discard (modify held id [] (ofVersion version (.versionImage version image)))

def setStatus (status : DeploymentStatus) : Deploys Unit := do
  discard (modify held id [] fun _ => .ok (.status status))

def setEndpoint (endpoint : Option DeployEndpoint) : Deploys Unit := do
  discard (modify held id [] fun _ => .ok (.endpoint endpoint))

def setName (checked : List Deployment) (id name : String) : Deploys Unit := do
  discard (modify held id checked fun _ => .ok (.name name))

def touch (time : Nat) : Deploys Unit := do
  discard (modify held id [] fun _ => .ok (.lastAccessAt time))

def setAppliedVersion : Deploys Unit := do
  let d ← modify held id [] (ofVersion version (.appliedVersion version))
  match d.bind (·.versionOf version) with
  | none => return ()
  | some v => updateAppliedRef id v

end

end CompanyBrain.Deploy
