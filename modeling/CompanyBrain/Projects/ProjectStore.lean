import CompanyBrain.Cron.CronStore
import CompanyBrain.Foundations.History

namespace CompanyBrain.Projects

open Foundations
open Crons (collapseSpaces takeUnits)
open Directory (Letters samePerson)

structure Project where
  id : String
  orgId : String
  name : Text
  ownerId : String
  memberIds : List String
  createdAt : Nat
  updatedAt : Nat

abbrev ProjectTable := Table Project.id

inductive ProjectMutation where
  | ok (project : Project) (changed : Bool)
  | notFound
  | forbidden
  | invalidMember
  | invalidName

def ProjectMutation.isOk : ProjectMutation → Bool
  | .ok _ _ => true
  | _ => false

structure Moment where
  now : Nat
  isActiveMember : String → Bool

def cleanName (name : Text) : Text := takeUnits 200 (collapseSpaces (trim name))

section

variable (letters : Letters) (projects : ProjectTable) (m : Moment) (id actorId memberId : String)

def createProject (orgId : String) (m : Moment) (id : String) (name : Text)
    (ownerId : String) : ProjectTable × Except String Project :=
  let name := cleanName name
  if name = [] ∨ ownerId = "" then (projects,.error "project requires name and ownerId")
  else
    let project : Project := ⟨id,orgId,name,ownerId,[ownerId],m.now,m.now⟩
    match projects.find? id with
    | none => (projects.set project,.ok project)
    | some stored =>
      if stored.createdAt ≠ project.createdAt ∨ stored.ownerId ≠ project.ownerId then
        (projects,.error "project id collision")
      else (projects,.ok stored)

def canChangeRoster (add : Bool) (actorId : String) (p : Project) : Bool :=
  if add then p.memberIds.any fun member => samePerson letters member actorId
  else samePerson letters p.ownerId actorId

def nextRoster (add : Bool) (memberId : String) (memberIds : List String) : List String :=
  if add then (memberIds ++ [memberId]).eraseDups else memberIds.filter fun member => member ≠ memberId

def changeRoster (add : Bool) (actorId memberId : String) (p : Project) : ProjectMutation :=
  if !canChangeRoster letters add actorId p || !m.isActiveMember p.ownerId || !m.isActiveMember actorId then
    .forbidden
  else if samePerson letters memberId p.ownerId then .invalidMember
  else
    let memberIds := nextRoster add memberId p.memberIds
    if memberIds = p.memberIds then .ok p false
    else .ok {p with memberIds := memberIds, updatedAt := max m.now (p.updatedAt+1)} true

def changeName (ownerId : String) (name : Text) (p : Project) : ProjectMutation :=
  if p.ownerId ≠ ownerId ∨ !m.isActiveMember ownerId then .forbidden
  else if p.name = name then .ok p false
  else .ok {p with name := name} true

def updateProject (id : String) (change : Project → ProjectMutation) : ProjectTable × ProjectMutation :=
  match projects.find? id with
  | none => (projects,.notFound)
  | some p =>
    match change p with
    | .ok updated changed => (projects.set updated,.ok updated changed)
    | refused => (projects,refused)

def mutate (add : Bool) : ProjectTable × ProjectMutation :=
  if memberId = "" then (projects,.invalidMember)
  else updateProject projects id (changeRoster letters m add actorId memberId)

def rename (id ownerId : String) (name : Text) : ProjectTable × ProjectMutation :=
  let clean := cleanName name
  if clean = [] then (projects,.invalidName) else updateProject projects id (changeName m ownerId clean)

inductive ProjectCall where
  | create (id : String) (name : Text) (ownerId : String)
  | change (add : Bool) (id actorId memberId : String)
  | rename (id ownerId : String) (name : Text)

abbrev ProjectCall.addMember : ProjectCall := .change true id actorId memberId

abbrev ProjectCall.removeMember : ProjectCall := .change false id actorId memberId

end

structure ProjectStore where
  letters : Letters
  orgId : String

def ProjectStore.step (store : ProjectStore) (projects : ProjectTable) : Moment × ProjectCall → ProjectTable
  | (m,.create id name ownerId) => (createProject projects store.orgId m id name ownerId).1
  | (m,.change add id actorId memberId) => (mutate store.letters projects m id actorId memberId add).1
  | (m,.rename id ownerId name) => (Projects.rename projects m id ownerId name).1

def projectGroupPrefix : Text := "web-project-".toList

def isProjectGroupRef (ref : String) : Bool := projectGroupPrefix.isPrefixOf ref.toList

def projectIdFromGroupRef (ref : String) : Option String :=
  if !isProjectGroupRef ref then none
  else
    let id := ref.toList.drop projectGroupPrefix.length
    if id ≠ [] && !id.contains ':' then some (String.ofList id) else none

def ProjectStore.projectForGroup (store : ProjectStore) (projects : ProjectTable) (groupRef : String) :
    Option Project :=
  ((projectIdFromGroupRef groupRef).bind projects.find?).filter fun p => p.orgId = store.orgId

def ProjectStore.membership (store : ProjectStore) (projects : ProjectTable) (isActiveMember : String → Bool)
    (groupRef principalId : String) : Option Bool :=
  (store.projectForGroup projects groupRef).map fun p =>
    isActiveMember p.ownerId && isActiveMember principalId && p.memberIds.contains principalId

end CompanyBrain.Projects
