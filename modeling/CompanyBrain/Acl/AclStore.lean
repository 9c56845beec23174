import CompanyBrain.Directory.Person
import CompanyBrain.Foundations.History
import CompanyBrain.Resolution.ContextFilter
import Mathlib.Data.List.Lex

namespace CompanyBrain.Acl

open Foundations
open Directory (Letters samePerson)
open Resolution (ScopeId parseScopeId)

inductive Permission where
  | read | write
deriving DecidableEq

def Permission.text : Permission → String
  | .read => "read"
  | .write => "write"

structure Grant where
  ownerScopeId : ScopeId
  ref : String
  granteeScopeId : ScopeId
  permission : Permission
  grantedBy : String
deriving DecidableEq

def sameGrant (a b : Grant) : Bool :=
  a.ownerScopeId = b.ownerScopeId && a.ref = b.ref && a.granteeScopeId = b.granteeScopeId &&
    a.permission = b.permission

def sameGrantTuple (a b : Grant) : Bool := sameGrant a b && a.grantedBy = b.grantedBy

def sameGrantSet (a b : List Grant) : Bool :=
  a.length = b.length && a.all fun g => b.any fun candidate => sameGrantTuple g candidate

def ofResource (ownerScopeId : ScopeId) (ref : String) (g : Grant) : Bool :=
  g.ownerScopeId = ownerScopeId && g.ref = ref

abbrev Grants := List Grant

namespace Grants

def sortKey (g : Grant) : List Nat :=
  (g.ownerScopeId ++ "\n" ++ g.ref ++ "\n" ++ g.granteeScopeId ++ "\n" ++
    g.permission.text).toList.flatMap utf16Units

def all (grants : Grants) : List Grant := grants.mergeSort fun a b => sortKey a ≤ sortKey b

def put (grants : Grants) (g : Grant) : Grants :=
  if grants.any fun x => sameGrant x g then grants else grants ++ [g]

def remove (grants : Grants) (g : Grant) : Grants := grants.filter fun x => !sameGrant x g

def replaceForResourceIfCurrent (grants : Grants) (ownerScopeId : ScopeId) (ref : String)
    (expected replacement : List Grant) : Grants × Bool :=
  let current := grants.filter (ofResource ownerScopeId ref)
  if sameGrantSet current expected then
    (grants.filter (fun g => !ofResource ownerScopeId ref g) ++ replacement,true)
  else (grants,false)

end Grants

structure AclStoreOptions where
  letters : Letters
  manages : Option (String → ScopeId → Option String → Bool)

def ownerOf (scope : ScopeId) : Option String :=
  match parseScopeId scope with
  | (some .personal,ref) => some ref
  | _ => none

def isMembershipManaged (scope : ScopeId) : Bool :=
  match (parseScopeId scope).1 with
  | some .channel => true
  | some .group => true
  | _ => false

def canManage (opts : AclStoreOptions) (scope : ScopeId) (principalId : String) (authoredBy : Option String) : Bool :=
  match ownerOf scope with
  | some owner => samePerson opts.letters principalId owner
  | none =>
    match opts.manages with
    | some manages => if isMembershipManaged scope then manages principalId scope authoredBy else true
    | none => true

def grant (opts : AclStoreOptions) (grants : Grants) (g : Grant) (authoredBy : Option String) :
    Grants × Except String Unit :=
  if !canManage opts g.ownerScopeId g.grantedBy authoredBy then
    (grants,.error "only a manager of this scope may grant access (no transitive re-share)")
  else (grants.put g,.ok ())

def matchesOf (grants : Grants) (ownerScopeId : ScopeId) (ref : String) (granteeScopeId : ScopeId) : List Grant :=
  grants.all.filter fun g => ofResource ownerScopeId ref g && g.granteeScopeId = granteeScopeId

def revoke (opts : AclStoreOptions) (grants : Grants) (ownerScopeId : ScopeId) (ref : String)
    (granteeScopeId : ScopeId) (revokedBy : String) (authoredBy : Option String) : Grants × Except String Unit :=
  if !canManage opts ownerScopeId revokedBy authoredBy then
    (grants,.error "only a manager of this scope may revoke access")
  else ((matchesOf grants ownerScopeId ref granteeScopeId).foldl Grants.remove grants,.ok ())

structure Replacement where
  ownerScopeId : ScopeId
  ref : String
  expected : List Grant
  replacement : List Grant
  changedBy : String
  authoredBy : Option String

def replaceGrantsIfCurrent (opts : AclStoreOptions) (grants : Grants) (r : Replacement) : Grants × Except String Bool :=
  if !canManage opts r.ownerScopeId r.changedBy r.authoredBy then
    (grants,.error "only a manager of this scope may replace access grants")
  else if r.expected.any (fun g => !ofResource r.ownerScopeId r.ref g) ||
      r.replacement.any (fun g => !ofResource r.ownerScopeId r.ref g) then
    (grants,.error "replacement grants must belong to the selected resource")
  else
    let (grants',done) :=
      grants.replaceForResourceIfCurrent r.ownerScopeId r.ref r.expected r.replacement
    (grants',.ok done)

inductive Action where
  | put (g : Grant)
  | remove (g : Grant)
  | replace (r : Replacement)

def exec (opts : AclStoreOptions) (grants : Grants) : Action → Grants
  | .put g => grants.put g
  | .remove g => grants.remove g
  | .replace r => (replaceGrantsIfCurrent opts grants r).1

end CompanyBrain.Acl
