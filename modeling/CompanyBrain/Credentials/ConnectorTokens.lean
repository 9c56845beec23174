import CompanyBrain.Credentials.KeychainRules

namespace CompanyBrain.Credentials.Connectors

open Foundations Table Function

def Descended (s : Vault) : Prop := ∀ id, isOauth id = true → ∀ rec, s.creds.find? id = some rec →
  s.audit.lineage id = s.audit.sets id

structure Follows (s s' : Vault) (id : CredId) : Prop where
  sets : s.audit.sets id ≤ s'.audit.sets id
  eras : s.audit.eras id ≤ s'.audit.eras id
  absent : s'.audit.sets id = s.audit.sets id → s.creds.find? id = none → s'.creds.find? id = none
  present : s'.audit.eras id = s.audit.eras id → s.creds.find? id ≠ none → s'.creds.find? id ≠ none
  removed : s'.audit.eras id ≠ s.audit.eras id → s'.audit.sets id = s.audit.sets id → s'.creds.find? id = none

def Later (s s' : Vault) : Prop := ∀ id, isOauth id = true → Follows s s' id

def alone (s : Vault) : KeyLabel → Bool
  | .refreshed source target sets era =>
    source = target && s.audit.sets source = sets && s.audit.eras source = era
  | .refreshFailed id sets era => s.audit.sets id = sets && s.audit.eras id = era
  | _ => true

theorem follows_refl (s : Vault) (id : CredId) : Follows s s id :=
  ⟨le_rfl,le_rfl,fun _ is => is,fun _ is => is,fun more => absurd rfl more⟩

theorem later_refl (s : Vault) : Later s s := fun id _ => follows_refl s id

theorem Follows.trans {s s' s'' : Vault} {id : CredId} (first : Follows s s' id) (second : Follows s' s'' id) :
    Follows s s'' id where
  sets := le_trans first.sets second.sets
  eras := le_trans first.eras second.eras
  absent same missing := by
    have := first.sets
    have := second.sets
    exact second.absent (by omega) (first.absent (by omega) missing)
  present same given := by
    have := first.eras
    have := second.eras
    exact second.present (by omega) (first.present (by omega) given)
  removed more same := by
    have := first.sets
    have := second.sets
    by_cases before : s'.audit.eras id = s.audit.eras id
    · exact second.removed (before ▸ more) (by omega)
    · exact second.absent (by omega) (first.removed before (by omega))

theorem later_trans (s s' s'' : Vault) (first : Later s s') (second : Later s' s'') : Later s s'' := fun id oauth =>
  (first id oauth).trans (second id oauth)

structure Untouched (s s' : Vault) (id : CredId) : Prop where
  creds : s'.creds.find? id = s.creds.find? id
  sets : s'.audit.sets id = s.audit.sets id
  eras : s'.audit.eras id = s.audit.eras id
  lineage : s'.audit.lineage id = s.audit.lineage id

def discipline : Discipline Vault KeyLabel := ⟨Descended,Later,alone,later_refl,later_trans⟩

section

variable {s s' : Vault} {put : KeychainCredential}

section

variable (descended : Descended s)
include descended

theorem keeps_of (each : ∀ id, isOauth id = true → Untouched s s' id ∨
      Follows s s' id ∧ (s'.creds.find? id ≠ none →
        s'.audit.lineage id = s'.audit.sets id)) : discipline.Keeps s s' := by
  refine ⟨fun id oauth rec found => ?_,fun id oauth => ?_⟩
  · rcases each id oauth with ⟨creds,sets,_,lineage⟩ | ⟨_,descends⟩
    · rw [lineage,sets]
      exact descended id oauth rec (creds ▸ found)
    · exact descends (by rw [found]; exact Option.some_ne_none rec)
  · rcases each id oauth with ⟨creds,sets,eras,_⟩ | ⟨follows,_⟩
    · exact ⟨le_of_eq sets.symm,le_of_eq eras.symm,fun _ is => creds.trans is,fun _ is => creds.symm ▸ is,
        fun more => absurd eras more⟩
    · exact follows

theorem keeps_same (same : ∀ id, Untouched s s' id) : discipline.Keeps s s' :=
  keeps_of descended fun id _ => .inl (same id)

theorem keeps_save (other : isOauth put.id = false) : discipline.Keeps s (s.putCred put) := by
  refine keeps_of descended fun id oauth => .inl ⟨(find?_set ..).trans (if_neg fun own => ?_),rfl,rfl,rfl⟩
  rw [own,other] at oauth
  cases oauth

theorem keeps_setToken : discipline.Keeps s (s.setToken put) := by
  refine keeps_of descended fun id _ => ?_
  by_cases own : id = put.id
  · subst own
    have more : (s.setToken put).audit.sets put.id = s.audit.sets put.id+1 := update_self ..
    have here : (s.setToken put).creds.find? put.id = some put := find?_set_key _ rfl
    refine .inr ⟨⟨by omega,le_rfl,fun same => absurd same (by omega),
      fun _ _ => by rw [here]; exact Option.some_ne_none put,fun more => absurd rfl more⟩,fun _ => ?_⟩
    exact (update_self ..).trans more.symm
  · exact .inl ⟨(find?_set ..).trans (if_neg own),update_of_ne own ..,rfl,update_of_ne own ..⟩

theorem keeps_putRefreshed (here : isOauth put.id → s.creds.find? put.id ≠ none) :
    discipline.Keeps s (s.putRefreshed put (s.audit.sets put.id)) := by
  have self : (s.putRefreshed put (s.audit.sets put.id)).creds.find? put.id = some put := find?_set_key _ rfl
  refine keeps_of descended fun id oauth => ?_
  by_cases own : id = put.id
  · subst own
    exact .inr ⟨⟨le_rfl,le_rfl,fun _ missing => absurd missing (here oauth),
      fun _ _ => by rw [self]; exact Option.some_ne_none put,fun more => absurd rfl more⟩,fun _ => update_self ..⟩
  · exact .inl ⟨(find?_set ..).trans (if_neg own),rfl,rfl,update_of_ne own ..⟩

theorem keeps_delete (id : CredId) (ids : List GrantId) : discipline.Keeps s ((s.deleteCred id).withdraw ids) := by
  refine keeps_of descended fun i _ => ?_
  by_cases own : i = id
  · subst own
    have more : ((s.deleteCred i).withdraw ids).audit.eras i = s.audit.eras i+1 := update_self ..
    have gone : ((s.deleteCred i).withdraw ids).creds.find? i = none := (find?_erase ..).trans (if_pos rfl)
    exact .inr ⟨⟨le_rfl,by omega,fun _ _ => gone,fun same => absurd same (by omega),fun _ _ => gone⟩,
      fun present => absurd gone present⟩
  · exact .inl ⟨(find?_erase ..).trans (if_neg own),rfl,update_of_ne own ..,rfl⟩

end

variable {rec : KeychainCredential}

theorem keeps_refreshed {s₀ : Vault} (le : Later s₀ s) (descended : Descended s)
    (found : s₀.creds.find? rec.id = some rec)
    (fits : alone s (.refreshed rec.id put.id (s₀.audit.sets rec.id) (s₀.audit.eras rec.id))) :
    discipline.Keeps s (s.putRefreshed put (s₀.audit.sets rec.id)) := by
  simp only [alone,Bool.and_eq_true,decide_eq_true_iff] at fits
  obtain ⟨⟨own,sets⟩,eras⟩ := fits
  rw [← sets,own]
  refine keeps_putRefreshed descended fun oauth => ?_
  rw [← own] at oauth ⊢
  exact (le rec.id oauth).present eras (by rw [found]; exact Option.some_ne_none rec)

theorem keeps_failed {s₀ : Vault} (descended : Descended s) (refresh : CredentialRefresh) (t : Int)
    (fits : alone s (.refreshFailed rec.id (s₀.audit.sets rec.id) (s₀.audit.eras rec.id))) :
    discipline.Keeps s (s.mergeRefresh rec.id refresh t (s₀.audit.sets rec.id)) := by
  simp only [alone,Bool.and_eq_true,decide_eq_true_iff] at fits
  rcases s.mergeRefresh_cases rec.id refresh t (s₀.audit.sets rec.id) with same | ⟨old,put,found,own,is⟩
  · rw [same]
    exact ⟨descended,later_refl s⟩
  · rw [is,← fits.1,← own]
    refine keeps_putRefreshed descended fun _ => ?_
    rw [own,found]
    exact Option.some_ne_none old

end

theorem rules : Rules discipline where
  clock s ms descended := keeps_same descended fun _ => ⟨rfl,rfl,rfl,rfl⟩
  refreshes s inflight tickets replies descended := keeps_same descended fun _ => ⟨rfl,rfl,rfl,rfl⟩
  save s rec descended other := keeps_save descended other
  setToken s rec descended := keeps_setToken descended
  refreshed s s₀ rec put _ le descended found fits := keeps_refreshed le descended found fits
  refreshFailed s s₀ rec refresh t _ _ descended _ fits := keeps_failed descended refresh t fits
  deleteCred s _ id _ _ descended _ _ := keeps_delete descended id _
  putGrant s s₀ grant approving _ _ descended _ _ _ := keeps_same descended fun _ => ⟨rfl,rfl,rfl,rfl⟩
  revoke s id t descended := by
    obtain ⟨_,is⟩ := s.mergeGrant_frame id (revoked t)
    exact is ▸ keeps_same descended fun _ => ⟨rfl,rfl,rfl,rfl⟩
  report s _ _ _ descended _ _ := keeps_same descended fun _ => ⟨rfl,rfl,rfl,rfl⟩
  adopt s id askId descended := by
    obtain ⟨_,is⟩ := s.mergeGrant_frame id fun g => {g with askId := some askId}
    exact is ▸ keeps_same descended fun _ => ⟨rfl,rfl,rfl,rfl⟩
  claim s o usedAt usedBy descended _ _ _ := by
    obtain ⟨_,_,is⟩ := s.claim_frame o usedAt usedBy
    exact is ▸ keeps_same descended fun _ => ⟨rfl,rfl,rfl,rfl⟩
  hand s offers descended _ _ := keeps_same descended fun _ => ⟨rfl,rfl,rfl,rfl⟩
  writeAsk s rec patch descended _ _ _ := by
    obtain ⟨_,is⟩ := s.mergeAsk_frame rec.id patch
    exact is ▸ keeps_same descended fun _ => ⟨rfl,rfl,rfl,rfl⟩

theorem isOauth_oauthId (deps : Deps) (host principalId : String) (accountType : Option String) :
    isOauth (oauthId deps host principalId accountType) := by
  simp [isOauth,oauthId,oauthSlot,credId]

structure Kept (deps : Deps) (start : KeyPool) (events later : List KeyStep) (id : CredId) : Prop where
  disconnected : (run (keychainSystem deps).step start (events ++ later)).shared.audit.eras id ≠
      (run (keychainSystem deps).step start events).shared.audit.eras id →
    (run (keychainSystem deps).step start (events ++ later)).shared.audit.sets id =
      (run (keychainSystem deps).step start events).shared.audit.sets id →
    (run (keychainSystem deps).step start (events ++ later)).shared.creds.find? id = none
  descended : ∀ rec, (run (keychainSystem deps).step start events).shared.creds.find? id = some rec →
    (run (keychainSystem deps).step start events).shared.audit.lineage id =
      (run (keychainSystem deps).step start events).shared.audit.sets id

theorem connectors_kept (deps : Deps) (clock : Int) (creds : Table KeychainCredential.id)
    (grants : Table KeychainGrant.id) (asks : Table KeychainAsk.id) (host principalId : String)
    (accountType : Option String) (events later : List KeyStep)
    (fits : discipline.Fitting (keychainSystem deps) (Pool.idle (Vault.start clock creds grants asks))
      (events ++ later)) :
    Kept deps (Pool.idle (Vault.start clock creds grants asks)) events later
      (oauthId deps host principalId accountType) := by
  have start : Descended (Vault.start clock creds grants asks) := fun _ _ _ _ => rfl
  obtain ⟨ok,_,grown⟩ := Discipline.ok_append (rules.upholds deps) (Discipline.ok_idle start) fits
  have oauth := isOauth_oauthId deps host principalId accountType
  exact ⟨(grown _ oauth).removed,fun rec found => ok.inv _ oauth rec found⟩

def expiringToken (accessToken : String) : OAuthToken := ⟨accessToken,some "refresh",some 0,none,none,none,none⟩

def connectorId : CredId := oauthId plainDeps "api.github.com" "ana" none

def connectedPool : KeyPool :=
  Pool.idle (Vault.start 5
    (empty.set (connectorCredential plainDeps "api.github.com" "ana" (expiringToken "first") none none 0))
    empty empty)

abbrev afterConnected : List KeyStep → KeyPool := run (keychainSystem plainDeps).step connectedPool

def readToken (i steps : Nat) : List KeyStep :=
  calling i (.connectorAccessToken "api.github.com" "ana" none fun _ _ => .ok (expiringToken "refreshed")) steps

def disconnect (i : Nat) : List KeyStep := calling i (.deleteConnectorToken "api.github.com" "ana" none) 2

def reconnect (i : Nat) : List KeyStep :=
  calling i (.setConnectorToken "api.github.com" "ana" (expiringToken "second") none) 3

theorem refreshed_then_disconnected :
    (afterConnected (readToken 0 8 ++ reconnect 1 ++ disconnect 2)).shared.creds.find? connectorId = none := by
  refine (connectors_kept plainDeps 5
    (empty.set (connectorCredential plainDeps "api.github.com" "ana" (expiringToken "first") none none 0))
    empty empty "api.github.com" "ana" none (readToken 0 8 ++ reconnect 1) (disconnect 2)
    (by decide +kernel)).disconnected ?_ ?_
  · decide +kernel
  · decide +kernel

theorem refresh_outlives_disconnect :
    ¬Kept plainDeps connectedPool (readToken 0 6) (disconnect 1 ++ [.run 0]) connectorId ∧
      ¬Kept plainDeps connectedPool (readToken 0 6 ++ reconnect 1 ++ [.run 0]) [] connectorId := by
  constructor
  · intro kept
    exact absurd (kept.disconnected (by decide +kernel) (by decide +kernel)) (by decide +kernel)
  · intro kept
    let found := ((afterConnected (readToken 0 6 ++ reconnect 1 ++ [.run 0])).shared.creds.find? connectorId).get
      (by decide +kernel)
    exact absurd (kept.descended found (Option.some_get _).symm) (by decide +kernel)

end CompanyBrain.Credentials.Connectors
