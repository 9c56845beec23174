import CompanyBrain.Acl.GrantSets

namespace CompanyBrain.Acl

open Foundations Table
open Resolution (ScopeId)

def primaryKey (g : Grant) : ScopeId × String × ScopeId × Permission :=
  (g.ownerScopeId,g.ref,g.granteeScopeId,g.permission)

abbrev GrantRows := Table primaryKey

namespace GrantRows

def remove (t : GrantRows) (g : Grant) : GrantRows := t.erase (primaryKey g)

def insert (t : GrantRows) (g : Grant) : Except String GrantRows :=
  if (t.find? (primaryKey g)).isSome then .error "duplicate key value violates unique constraint" else .ok (t.set g)

def replaceForResourceIfCurrent (t : GrantRows) (ownerScopeId : ScopeId) (ref : String)
    (expected replacement : List Grant) : GrantRows × Except String Bool :=
  let current := t.rows.filter (ofResource ownerScopeId ref)
  if sameGrantSet current expected then
    match replacement.foldlM insert (t.filter fun g => !ofResource ownerScopeId ref g) with
    | .ok t' => (t',.ok true)
    | .error e => (t,.error e)
  else (t,.ok false)

end GrantRows

inductive GrantCall where
  | put (g : Grant)
  | remove (g : Grant)
  | revoke (ownerScopeId : ScopeId) (ref : String) (granteeScopeId : ScopeId) (revokedBy : String)
      (authoredBy : Option String)
  | replace (ownerScopeId : ScopeId) (ref : String) (expected replacement : List Grant)

def memoryCall (opts : AclStoreOptions) (grants : Grants) : GrantCall → Grants × Except String Bool
  | .put g => (grants.put g,.ok true)
  | .remove g => (grants.remove g,.ok true)
  | .revoke owner ref grantee revokedBy authoredBy =>
    let (grants',done) := revoke opts grants owner ref grantee revokedBy authoredBy
    (grants',done.map fun _ => true)
  | .replace owner ref expected replacement =>
    let (grants',done) := grants.replaceForResourceIfCurrent owner ref expected replacement
    (grants',.ok done)

def postgresCall (opts : AclStoreOptions) (order : Grant → Grant → Bool) (t : GrantRows) : GrantCall →
    GrantRows × Except String Bool
  | .put g => (t.set g,.ok true)
  | .remove g => (t.remove g,.ok true)
  | .revoke owner ref grantee revokedBy authoredBy =>
    if !canManage opts owner revokedBy authoredBy then (t,.error "only a manager of this scope may revoke access")
    else
      let shared := (t.rows.mergeSort order).filter fun g => ofResource owner ref g && g.granteeScopeId = grantee
      (shared.foldl GrantRows.remove t,.ok true)
  | .replace owner ref expected replacement => t.replaceForResourceIfCurrent owner ref expected replacement

def sameGranter (grants : Grants) : GrantCall → Bool
  | .put g => !grants.any fun x => sameGrant x g && x.grantedBy ≠ g.grantedBy
  | .replace owner ref _ replacement => Unique (grants.filter (fun g => !ofResource owner ref g) ++ replacement)
  | .remove _ | .revoke .. => true

theorem sameGrant_iff {a b : Grant} : sameGrant a b ↔ primaryKey a = primaryKey b := by
  simp [sameGrant,primaryKey,and_assoc]

variable {t : GrantRows} {g : Grant}

theorem remove_rows (t : GrantRows) (g : Grant) : (t.remove g).rows = Grants.remove t.rows g :=
  List.filter_congr fun x _ => by
    rw [Bool.eq_iff_iff,decide_eq_true_eq,Bool.not_eq_true',← Bool.not_eq_true,sameGrant_iff]

theorem removes_rows (shared : List Grant) (t : GrantRows) :
    (shared.foldl GrantRows.remove t).rows = shared.foldl Grants.remove t.rows := by
  induction shared generalizing t with
  | nil => rfl
  | cons g _ ih => rw [List.foldl_cons,ih,remove_rows,List.foldl_cons]

theorem removes_filter (shared : List Grant) (grants : Grants) :
    shared.foldl Grants.remove grants = grants.filter fun x => shared.all fun g => !sameGrant x g := by
  induction shared generalizing grants with
  | nil => simp
  | cons g _ ih => simp [ih,Grants.remove,Bool.and_comm]

theorem put_rows (granter : ∀ x ∈ t.rows, sameGrant x g → x.grantedBy = g.grantedBy) :
    (t.set g).rows = Grants.put t.rows g := by
  unfold Grants.put
  split
  next held =>
    obtain ⟨x,mem,same⟩ := List.any_eq_true.mp held
    obtain rfl : x = g := sameGrantTuple_iff.mp (by simp [sameGrantTuple,same,granter x mem same])
    rw [set_rows_of_mem mem rfl]
    refine (List.map_congr_left fun y there => ?_).trans (List.map_id _)
    split
    next key => exact eq_of_key mem there key.symm
    next => rfl
  next new =>
    refine set_rows_of_new (find?_eq_none.mpr fun x mem key => new ?_)
    exact List.any_eq_true.mpr ⟨x,mem,sameGrant_iff.mpr key⟩

theorem inserts_rows {more : List Grant} (unique : Unique (t.rows ++ more)) :
    ∃ t', more.foldlM GrantRows.insert t = .ok t' ∧ t'.rows = t.rows ++ more := by
  induction more generalizing t with
  | nil => exact ⟨t,rfl,by simp⟩
  | cons g more ih =>
    have fresh : t.find? (primaryKey g) = none := find?_eq_none.mpr fun x mem key => by
      have apart := (List.pairwise_append.mp unique).2.2 x mem g (.head _)
      rw [sameGrant_iff.mpr key] at apart
      cases apart
    have rows := set_rows_of_new fresh
    obtain ⟨t',inserted,rows'⟩ := ih (by rw [rows,List.append_assoc]; exact unique)
    refine ⟨t',?_,by rw [rows',rows,List.append_assoc,List.singleton_append]⟩
    rw [List.foldlM_cons,GrantRows.insert,fresh]
    exact inserted

theorem call_agrees (opts : AclStoreOptions) (order : Grant → Grant → Bool) (call : GrantCall)
    (clean : sameGranter t.rows call) : (memoryCall opts t.rows call).2 = (postgresCall opts order t call).2 ∧
      (postgresCall opts order t call).1.rows = (memoryCall opts t.rows call).1 := by
  cases call with
  | put g =>
    refine ⟨rfl,put_rows ?_⟩
    simpa [sameGranter] using clean
  | remove g => exact ⟨rfl,remove_rows t g⟩
  | revoke owner ref grantee revokedBy authoredBy =>
    simp only [memoryCall,postgresCall,revoke]
    split
    next => exact ⟨rfl,rfl⟩
    next =>
      refine ⟨rfl,?_⟩
      simp only [removes_rows,removes_filter,matchesOf,Grants.all]
      refine List.filter_congr fun x _ => ?_
      rw [Bool.eq_iff_iff]
      simp
  | replace owner ref expected replacement =>
    obtain ⟨t',inserted,rows⟩ := inserts_rows (t := t.filter fun g => !ofResource owner ref g) (of_decide_eq_true clean)
    simp only [memoryCall,postgresCall,Grants.replaceForResourceIfCurrent,GrantRows.replaceForResourceIfCurrent]
    split
    next => exact ⟨by simp only [inserted],by simp only [inserted]; exact rows⟩
    next => exact ⟨rfl,rfl⟩

theorem grant_stores_agree (opts : AclStoreOptions) (order : Grant → Grant → Bool) (calls : List GrantCall)
    (clean : Along (fun grants call => (memoryCall opts grants call).1)
      (fun grants call => sameGranter grants call) [] calls) :
    outputs (memoryCall opts) [] calls = outputs (postgresCall opts order) .empty calls ∧
    (after (postgresCall opts order) .empty calls).rows = after (memoryCall opts) [] calls := by
  refine outputs_agree (R := fun grants (t : GrantRows) => t.rows = grants)
    (fun past call clean => ((along_append [] past [call]).mp clean).1) ?_ (fun past call clean same => ?_) calls clean
  · rfl
  have here := ((along_append [] past [call]).mp clean).2.1
  change sameGranter (after (memoryCall opts) [] past) call at here
  rw [← same] at here ⊢
  exact call_agrees opts order call here

def boGrant : Grant := {keyGrant with grantedBy := "bo"}

def regrant : List GrantCall :=
  [.put keyGrant,.put boGrant,.replace "org:acme" "service-cred:k" [boGrant] []]

theorem regrant_diverges : outputs (memoryCall openStore) [] regrant = [.ok true,.ok true,.ok false] ∧
    outputs (postgresCall openStore fun _ _ => true) .empty regrant = [.ok true,.ok true,.ok true] ∧
    after (memoryCall openStore) [] regrant = [keyGrant] ∧
    (after (postgresCall openStore fun _ _ => true) .empty regrant).rows = [] := by
  decide +kernel

def handover : List GrantCall :=
  [.put keyGrant,.put keyGrant,.replace "org:acme" "service-cred:k" [keyGrant] [boGrant],.remove boGrant]

theorem handover_agrees :
    outputs (memoryCall openStore) [] handover = outputs (postgresCall openStore fun _ _ => true) .empty handover ∧
    (after (postgresCall openStore fun _ _ => true) .empty handover).rows = after (memoryCall openStore) [] handover ∧
    outputs (memoryCall openStore) [] handover = [.ok true,.ok true,.ok true,.ok true] ∧
    after (memoryCall openStore) [] (handover.take 3) = [boGrant] := by
  have agree := grant_stores_agree openStore (fun _ _ => true) handover (by decide +kernel)
  exact ⟨agree.1,agree.2,by decide +kernel⟩

end CompanyBrain.Acl
