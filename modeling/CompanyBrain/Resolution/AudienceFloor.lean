import CompanyBrain.Resolution.EgressPolicy

namespace CompanyBrain.Resolution

open Foundations

structure Principal where
  id : String
  teamIds : Option (List String)
deriving DecidableEq

abbrev ScopeId := String

inductive ScopeKind where
  | personal | channel | team | org | group
deriving DecidableEq

def ScopeKind.text : ScopeKind → String
  | .personal => "personal"
  | .channel => "channel"
  | .team => "team"
  | .org => "org"
  | .group => "group"

def scopeId (kind : ScopeKind) (ref : String) : ScopeId := kind.text ++ ":" ++ ref

structure EgressConfig where
  getEgress : ScopeId → Option EgressPolicy
  orgScope : ScopeId
  contextScope : Option ScopeId

section

variable (url : UrlSyntax) (config : EgressConfig) (audience : List Principal)

def principalScopes (p : Principal) : List ScopeId :=
  ([config.orgScope] ++ config.contextScope.toList ++ [scopeId .personal p.id] ++
    (p.teamIds.getD []).map (scopeId .team)).filter (· ≠ "") |>.eraseDups

def principalEgressHosts (p : Principal) : List String :=
  ((principalScopes config p).flatMap fun s =>
    ((config.getEgress s).map EgressPolicy.allowedHosts).getD []).eraseDups

def principalDeniedHosts (p : Principal) : List String :=
  ((principalScopes config p).flatMap fun s =>
    ((config.getEgress s).bind EgressPolicy.deniedHosts).getD []).eraseDups

def audienceEgressFloor : List String :=
  match audience.map (principalEgressHosts config) with
  | [] => []
  | first :: rest => first.filter fun h => rest.all fun s => s.contains h

def audienceDeniedFloor : List String :=
  (audience.flatMap (principalDeniedHosts config)).eraseDups

def resolvedEgress : EgressPolicy where
  allowedHosts := audienceEgressFloor config audience
  deniedHosts := some (audienceDeniedFloor config audience)

def reaches (host : Text) : Bool :=
  (egressDecision url host (some (resolvedEgress config audience))).allow

end

section

variable {url : UrlSyntax} {config : EgressConfig} {audience : List Principal} {host : Text}

theorem mem_audienceEgressFloor {rule : String} : rule ∈ audienceEgressFloor config audience ↔
      audience ≠ [] ∧ ∀ p ∈ audience, rule ∈ principalEgressHosts config p := by
  cases audience with
  | nil | cons => simp [audienceEgressFloor]

theorem mem_audienceDeniedFloor {rule : String} : rule ∈ audienceDeniedFloor config audience ↔
      ∃ p ∈ audience, rule ∈ principalDeniedHosts config p := by
  simp [audienceDeniedFloor]

def DeniedFor (url : UrlSyntax) (config : EgressConfig) (host : Text) (p : Principal) : Prop :=
  ∃ rule ∈ principalDeniedHosts config p, rule ≠ "" ∧ hostMatches url host rule.toList = true

theorem not_denied_iff : isHostDenied url host (resolvedEgress config audience).deniedHosts = false ↔
      ∀ p ∈ audience, ¬ DeniedFor url config host p := by
  simp only [isHostDenied,resolvedEgress,List.any_eq_false,mem_audienceDeniedFloor]
  constructor
  · rintro h p hp ⟨rule,hr,hne,hm⟩
    exact h rule ⟨p,hp,hr⟩ (by simp [hne,hm])
  · rintro h rule ⟨p,hp,hr⟩ hm
    simp only [Bool.and_eq_true,decide_eq_true_eq] at hm
    exact h p hp ⟨rule,hr,hm.1,hm.2⟩

theorem reaches_iff : reaches url config audience host ↔ (∀ p ∈ audience, ¬ DeniedFor url config host p) ∧
    (audienceEgressFloor config audience = [] ∨
      ∃ rule ∈ audienceEgressFloor config audience, hostMatches url host rule.toList) := by
  rw [reaches,egressDecision_allow,not_denied_iff]
  rfl

def SharesHost (config : EgressConfig) (audience : List Principal) : Prop :=
  ∃ rule, ∀ p ∈ audience, rule ∈ principalEgressHosts config p

def NoAllowlist (config : EgressConfig) (audience : List Principal) : Prop :=
  ∀ p ∈ audience, principalEgressHosts config p = []

theorem floor_nonempty (shares : SharesHost config audience) (present : audience ≠ []) :
    audienceEgressFloor config audience ≠ [] := by
  obtain ⟨rule,hall⟩ := shares
  exact List.ne_nil_of_mem (mem_audienceEgressFloor.mpr ⟨present,hall⟩)

theorem floor_empty (unlisted : NoAllowlist config audience) : audienceEgressFloor config audience = [] := by
  rw [List.eq_nil_iff_forall_not_mem]
  intro rule hr
  obtain ⟨hne,hall⟩ := mem_audienceEgressFloor.mp hr
  obtain ⟨p,hp⟩ := List.exists_mem_of_ne_nil audience hne
  have hmem := hall p hp
  rw [unlisted p hp] at hmem
  cases hmem

theorem reaches_subset {part : List Principal} (sub : ∀ p ∈ part, p ∈ audience)
    (ok : SharesHost config audience ∨ NoAllowlist config audience)
    (h : reaches url config audience host) : reaches url config part host := by
  obtain ⟨undenied,hrule⟩ := reaches_iff.mp h
  refine reaches_iff.mpr ⟨fun p hp => undenied p (sub p hp),?_⟩
  cases part with
  | nil => exact .inl rfl
  | cons q =>
    have hne : audience ≠ [] := List.ne_nil_of_mem (sub q (by simp))
    rcases ok with shares | unlisted
    · rcases hrule with hnil | ⟨rule,hr,hm⟩
      · exact absurd hnil (floor_nonempty shares hne)
      · have hall := (mem_audienceEgressFloor.mp hr).2
        refine .inr ⟨rule,mem_audienceEgressFloor.mpr ⟨by simp,?_⟩,hm⟩
        exact fun p hp => hall p (sub p hp)
    · exact .inl (floor_empty (fun p hp => unlisted p (sub p hp)))

theorem reaches_all_of_no_rule (lower : url.toLowerCase [] = []) (empty : audienceEgressFloor config audience = []) :
    reaches url config audience [] := by
  refine reaches_iff.mpr ⟨?_,.inl empty⟩
  rintro p _ ⟨rule,_,_,hm⟩
  rw [hostMatches_empty lower] at hm
  cases hm

theorem not_reaches_of_allowlist (lower : url.toLowerCase [] = []) {p : Principal}
    (listed : principalEgressHosts config p ≠ []) : reaches url config [p] [] = false := by
  rw [← Bool.not_eq_true,reaches_iff]
  rintro ⟨_,hnil | ⟨rule,_,hm⟩⟩
  · obtain ⟨rule,hr⟩ := List.exists_mem_of_ne_nil _ listed
    have hfloor : rule ∈ audienceEgressFloor config [p] :=
      mem_audienceEgressFloor.mpr ⟨by simp,by simpa using hr⟩
    rw [hnil] at hfloor
    cases hfloor
  · rw [hostMatches_empty lower] at hm
    cases hm

end

structure FloorSafe (url : UrlSyntax) (config : EgressConfig) (audience : List Principal) : Prop where
  memberwise : ∀ host, reaches url config audience host = true →
    ∀ p ∈ audience, reaches url config [p] host = true
  monotone : ∀ part : List Principal, (∀ p ∈ part, p ∈ audience) → ∀ host,
    reaches url config audience host = true → reaches url config part host = true
  closed : (∀ host, ¬ ∀ p ∈ audience, reaches url config [p] host = true) →
    ∀ host, reaches url config audience host = false

theorem floor_safe_iff (url : UrlSyntax) (lower : url.toLowerCase [] = []) (config : EgressConfig)
    (audience : List Principal) :
    FloorSafe url config audience ↔ SharesHost config audience ∨ NoAllowlist config audience := by
  constructor
  · intro safe
    by_contra hneither
    rw [not_or] at hneither
    obtain ⟨apart,listed⟩ := hneither
    have empty : audienceEgressFloor config audience = [] := by
      rw [List.eq_nil_iff_forall_not_mem]
      exact fun rule hr => apart ⟨rule,(mem_audienceEgressFloor.mp hr).2⟩
    simp only [NoAllowlist,not_forall] at listed
    obtain ⟨p,hp,hlisted⟩ := listed
    have allowed := safe.memberwise [] (reaches_all_of_no_rule lower empty) p hp
    rw [not_reaches_of_allowlist lower hlisted] at allowed
    cases allowed
  · intro ok
    have single {p : Principal} (hp : p ∈ audience) : ∀ q ∈ [p], q ∈ audience := by
      simpa using hp
    refine ⟨fun host h p hp => reaches_subset (single hp) ok h,
      fun part sub host h => reaches_subset sub ok h,?_⟩
    intro none_shared host
    rw [← Bool.not_eq_true]
    exact fun h => none_shared host (fun p hp => reaches_subset (single hp) ok h)

def asciiUrl : UrlSyntax := ⟨List.map Char.toLower,fun t => some (t.drop 8)⟩

def ana : Principal := ⟨"ana",none⟩

def ben : Principal := ⟨"ben",none⟩

def sharedConfig : EgressConfig where
  getEgress scope :=
    if scope = "org:acme" then some ⟨["shared.com"],none⟩
    else if scope = "personal:ana" then some ⟨["a.com"],some ["bad.shared.com"]⟩
    else none
  orgScope := "org:acme"
  contextScope := none

theorem floor_safe_shared_host : asciiUrl.toLowerCase [] = [] ∧ FloorSafe asciiUrl sharedConfig [ana,ben] := by
  refine ⟨rfl,(floor_safe_iff asciiUrl rfl sharedConfig [ana,ben]).mpr (.inl ⟨"shared.com",?_⟩)⟩
  decide

def disjointConfig : EgressConfig where
  getEgress scope :=
    if scope = "personal:ana" then some ⟨["a.com"],none⟩
    else if scope = "personal:ben" then some ⟨["b.com"],none⟩
    else none
  orgScope := "org:acme"
  contextScope := none

theorem disjoint_audience_reaches_all : reaches asciiUrl disjointConfig [ana,ben] "evil.com".toList = true ∧
    reaches asciiUrl disjointConfig [ana] "evil.com".toList = false ∧
    reaches asciiUrl disjointConfig [ben] "evil.com".toList = false := by
  decide

end CompanyBrain.Resolution
