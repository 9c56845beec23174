import CompanyBrain.Foundations.History
import CompanyBrain.Resolution.ContextFilter
import Mathlib.Data.List.Lex
import Mathlib.Data.List.Sort

namespace CompanyBrain.Skills

open Foundations
open Resolution (ScopeId parseScopeId)

inductive SkillStatus where
  | draft | reviewed | published | archived
deriving DecidableEq

structure SkillFile where
  path : String
  content : String
  executable : Bool

structure SkillManifest where
  name : String
  description : String
  requiredCapabilities : List String
  body : String
  files : List SkillFile

structure SkillPack where
  packId : String
  commit : String
  upstreamName : String

structure Skill where
  id : String
  scopeId : ScopeId
  manifest : SkillManifest
  signature : String
  status : SkillStatus
  createdBy : String
  version : Nat
  grantedCapabilities : List String
  approvals : List String
  createdAt : Nat
  updatedAt : Nat
  pack : Option SkillPack

abbrev SkillTable := Table Skill.id

def isSafeSkillName (name : String) : Bool :=
  let t := name.toList
  t.length ≤ 128 && t.head?.any Char.isAlphanum &&
    t.all (fun c => c.isAlphanum || c = '_' || c = '.' || c = '-') && t.getLast? ≠ some '.'

def unsafeSkillName : String :=
  "skill name must be 1-128 ASCII letters, digits, dots, underscores, or hyphens; it must start with a letter or " ++
    "digit and cannot end with a dot"

def scopeKind (scopeId : ScopeId) : String :=
  match (parseScopeId scopeId).1 with
  | some kind => kind.text
  | none => scopeId

structure SkillStore where
  sign : SkillManifest → String

namespace SkillStore

variable (store : SkillStore) (skills : SkillTable) (now : Nat)

def create (id : String) (scopeId : ScopeId) (manifest : SkillManifest) (createdBy : String)
    (pack : Option SkillPack) : Except String Skill :=
  if !isSafeSkillName manifest.name then .error unsafeSkillName
  else .ok ⟨id,scopeId,manifest,store.sign manifest,.draft,createdBy,1,[],[],now,now,pack⟩

def known (id : String) : Except String Skill :=
  match skills.find? id with
  | some s => .ok s
  | none => .error ("unknown skill: " ++ id)

def update (id : String) (manifest : SkillManifest) : Except String Skill :=
  if !isSafeSkillName manifest.name then .error unsafeSkillName
  else do
    let s ← known skills id
    if manifest.name ≠ s.manifest.name then
      .error "skill update cannot rename — create a new skill instead"
    else .ok {s with
      manifest := manifest
      signature := store.sign manifest
      status := if scopeKind s.scopeId ≠ "personal" then .draft else s.status
      version := s.version+1
      updatedAt := now}

def review (id reviewer : String) (grantCapabilities : List String) : Except String Skill := do
  let s ← known skills id
  if !isSafeSkillName s.manifest.name then .error unsafeSkillName
  else if store.sign s.manifest ≠ s.signature then .error "skill signature invalid — manifest was tampered with"
  else .ok {s with
    grantedCapabilities := (s.grantedCapabilities ++ grantCapabilities).eraseDups
    approvals := if reviewer ∈ s.approvals then s.approvals else s.approvals ++ [reviewer]
    status := .reviewed
    updatedAt := now}

def missing (s : Skill) : List String :=
  s.manifest.requiredCapabilities.filter fun c => c ∉ s.grantedCapabilities

def publish (id : String) : Except String Skill := do
  let s ← known skills id
  if !isSafeSkillName s.manifest.name then .error unsafeSkillName
  else if s.status = .draft then .error "skill must be reviewed before it is published"
  else if missing s ≠ [] then
    .error ("skill requires ungranted capabilities: " ++ ", ".intercalate (missing s))
  else .ok {s with status := .published, updatedAt := now}

def archive (id : String) : Except String Skill := do
  let s ← known skills id
  if s.status = .archived then .ok s else .ok {s with status := .archived, updatedAt := now}

-- The durable map lists its values by id, in the order of UTF-16 code units.
def all : List Skill :=
  skills.rows.insertionSort fun x y => x.id.toList.flatMap utf16Units ≤ y.id.toList.flatMap utf16Units

def published (targetScopeId : ScopeId) (name : String) : Option Skill :=
  (all skills).find? fun x => x.status = .published && x.scopeId = targetScopeId && x.manifest.name = name

def promote (id : String) (targetScopeId : ScopeId) (newId : String) : Except String Skill := do
  let s ← known skills id
  if !isSafeSkillName s.manifest.name then .error unsafeSkillName
  else if s.status ≠ .published then .error "only a published skill can be promoted"
  else if store.sign s.manifest ≠ s.signature then .error "skill signature invalid — cannot promote"
  else
    let existing := published skills targetScopeId s.manifest.name
    .ok {
      id := (existing.map Skill.id).getD newId
      scopeId := targetScopeId
      manifest := s.manifest
      signature := store.sign s.manifest
      status := .published
      createdBy := s.createdBy
      version := (existing.map Skill.version).getD 0+1
      grantedCapabilities := s.grantedCapabilities
      approvals := s.approvals
      createdAt := now
      updatedAt := now
      pack := none}

def move (id : String) (toScopeId : ScopeId) : Except String Skill := do
  let s ← known skills id
  if !isSafeSkillName s.manifest.name then .error unsafeSkillName
  else if scopeKind toScopeId = "org" then
    .error "ceding a skill to the org goes through promote (admin-gated), not move"
  else .ok {s with scopeId := toScopeId, updatedAt := now}

end SkillStore

-- The fresh ids `create` and `promote` draw at random are given with the call.
inductive SkillCall where
  | create (id : String) (scopeId : ScopeId) (manifest : SkillManifest) (createdBy : String)
      (pack : Option SkillPack)
  | update (id : String) (manifest : SkillManifest)
  | review (id reviewer : String) (grantCapabilities : List String)
  | publish (id : String)
  | archive (id : String)
  | promote (id : String) (targetScopeId : ScopeId) (newId : String)
  | move (id : String) (toScopeId : ScopeId)

-- `approvedBy` records who reviewed a skill's manifest since it last changed; no call reads it.
structure Shelf where
  skills : SkillTable
  approvedBy : String → Option String

def Shelf.empty : Shelf := ⟨Table.empty,fun _ => none⟩

def SkillStore.answer (store : SkillStore) (shelf : Shelf) (now : Nat) : SkillCall → Except String Skill
  | .create id scopeId manifest createdBy pack => store.create now id scopeId manifest createdBy pack
  | .update id manifest => store.update shelf.skills now id manifest
  | .review id reviewer grantCapabilities => store.review shelf.skills now id reviewer grantCapabilities
  | .publish id => publish shelf.skills now id
  | .archive id => archive shelf.skills now id
  | .promote id targetScopeId newId => store.promote shelf.skills now id targetScopeId newId
  | .move id toScopeId => move shelf.skills now id toScopeId

def Shelf.approval (shelf : Shelf) : SkillCall → Option String
  | .create .. | .update .. => none
  | .review _ reviewer _ => some reviewer
  | .publish id | .archive id | .promote id _ _ | .move id _ => shelf.approvedBy id

def SkillStore.step (store : SkillStore) (shelf : Shelf) (c : Nat × SkillCall) : Shelf :=
  match store.answer shelf c.1 c.2 with
  | .error _ => shelf
  | .ok s => ⟨shelf.skills.set s,Function.update shelf.approvedBy s.id (shelf.approval c.2)⟩

end CompanyBrain.Skills
