import CompanyBrain.Resolution.AudienceFloor
import CompanyBrain.Sessions.MemorySessionStore

namespace CompanyBrain.Resolution

open Foundations
open Sessions (SessionEntry)

def scopeKinds : List ScopeKind := [.personal,.channel,.team,.org,.group]

def scopeKind? (raw : Text) : Option ScopeKind :=
  scopeKinds.find? fun kind => kind.text.toList = raw

def parseScopeId (id : ScopeId) : Option ScopeKind × String :=
  match cut ':' id.toList with
  | none => (none,"")
  | some (raw,ref) => (scopeKind? raw,String.ofList ref)

def principalEntitledToScope (p : Principal) (label sessionScopeId orgScopeId : ScopeId) : Bool :=
  if label = orgScopeId then true
  else if label = sessionScopeId then true
  else
    match parseScopeId label with
    | (some .personal,ref) => p.id = ref
    | (some .team,ref) => (p.teamIds.getD []).contains ref
    | _ => false

def filterHistoryForAudience (entries : List SessionEntry) (audience : List Principal)
    (sessionScopeId orgScopeId : ScopeId) : List SessionEntry :=
  if audience.isEmpty then []
  else entries.filter fun e =>
    audience.all fun p => principalEntitledToScope p e.scopeLabel sessionScopeId orgScopeId

section

variable {p : Principal} {label sessionScopeId orgScopeId : ScopeId}

def Floor (sessionScopeId orgScopeId label : ScopeId) : Prop :=
  label = orgScopeId ∨ label = sessionScopeId

instance : Decidable (Floor sessionScopeId orgScopeId label) :=
  inferInstanceAs (Decidable (_ ∨ _))

theorem entitled_floor (floor : Floor sessionScopeId orgScopeId label) :
    principalEntitledToScope p label sessionScopeId orgScopeId := by
  rw [principalEntitledToScope]
  rcases floor with org | session
  · rw [if_pos org]
  · rw [if_pos session,ite_self]

section

variable (above : ¬ Floor sessionScopeId orgScopeId label)
include above

theorem entitled_above : principalEntitledToScope p label sessionScopeId orgScopeId ↔
      ((parseScopeId label).1 = some .personal ∧ p.id = (parseScopeId label).2) ∨
      ((parseScopeId label).1 = some .team ∧ (parseScopeId label).2 ∈ p.teamIds.getD []) := by
  simp only [Floor,not_or] at above
  rw [principalEntitledToScope,if_neg above.1,if_neg above.2]
  obtain ⟨kind,ref⟩ := parseScopeId label
  cases kind with
  | none => simp
  | some kind => cases kind <;> simp

theorem entitled_personal (kind : (parseScopeId label).1 = some .personal) :
    principalEntitledToScope p label sessionScopeId orgScopeId ↔
      p.id = (parseScopeId label).2 := by
  rw [entitled_above above]
  simp [kind]

theorem entitled_team (kind : (parseScopeId label).1 = some .team) :
    principalEntitledToScope p label sessionScopeId orgScopeId ↔ (parseScopeId label).2 ∈ p.teamIds.getD [] := by
  rw [entitled_above above]
  simp [kind]

end

variable {history : List SessionEntry}

theorem mem_filterHistoryForAudience {audience : List Principal} {e : SessionEntry}
    (h : e ∈ filterHistoryForAudience history audience sessionScopeId orgScopeId) :
    ∃ p, principalEntitledToScope p e.scopeLabel sessionScopeId orgScopeId := by
  cases audience with
  | nil => simp [filterHistoryForAudience] at h
  | cons p =>
    simp only [filterHistoryForAudience,List.isEmpty_cons,Bool.false_eq_true,if_false,
      List.mem_filter,List.all_cons,Bool.and_eq_true] at h
    exact ⟨p,h.2.1⟩

theorem bounded_of_visible {audience : List Principal} {e : SessionEntry}
    (h : e ∈ filterHistoryForAudience history audience sessionScopeId orgScopeId)
    (personal : (parseScopeId e.scopeLabel).1 ≠ some .personal) (team : (parseScopeId e.scopeLabel).1 ≠ some .team) :
    Floor sessionScopeId orgScopeId e.scopeLabel := by
  by_contra above
  obtain ⟨p,entitled⟩ := mem_filterHistoryForAudience h
  rcases (entitled_above above).mp entitled with ⟨kind,_⟩ | ⟨kind,_⟩
  · exact personal kind
  · exact team kind

end

end CompanyBrain.Resolution
