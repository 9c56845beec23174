import CompanyBrain.Credentials.KeychainRules

namespace CompanyBrain.Credentials.Removals

open Foundations Table

def Holds (s : Vault) (c : CredId) (id : GrantId) : Prop :=
  ∃ g, s.grants.find? id = some g ∧ g.credentialId = c ∧ g.status = .active

structure Current (s : Vault) : Prop where
  active : ∀ c id, Holds s c id → s.audit.approvals id = s.audit.eras c
  handed : ∀ h ∈ s.audit.handed, h.offer.approved = h.era

structure Later (s s' : Vault) : Prop where
  stored : ∀ c, s.audit.stored c ≤ s'.audit.stored c
  held : ∀ c, s'.audit.stored c = s.audit.stored c → ∀ id, Holds s' c id → Holds s c id

def undisturbed (s : Vault) : KeyLabel → Bool
  | .putGrant grant era _ => s.audit.eras grant.credentialId = era
  | .handOut offers => offers.all fun o => s.audit.eras o.credentialId = o.era
  | .deleteCred id stored => s.audit.stored id = stored
  | _ => true

theorem later_refl (s : Vault) : Later s s := ⟨fun _ => Nat.le_refl _,fun _ _ _ held => held⟩

theorem later_trans (s s' s'' : Vault) (first : Later s s') (second : Later s' s'') : Later s s'' := by
  refine ⟨fun c => (first.stored c).trans (second.stored c),fun c same id held => ?_⟩
  have up := first.stored c
  have up' := second.stored c
  exact first.held c (by omega) id (second.held c (by omega) id held)

def discipline : Discipline Vault KeyLabel := ⟨Current,Later,undisturbed,later_refl,later_trans⟩

section

variable {s s' : Vault} {g : KeychainGrant} {o : Offer}

section

variable (current : Current s)
include current

theorem keeps_fewer (held : ∀ c id, Holds s' c id → Holds s c id) (handed : s'.audit.handed = s.audit.handed)
    (approvals : s'.audit.approvals = s.audit.approvals) (eras : s'.audit.eras = s.audit.eras)
    (stored : s'.audit.stored = s.audit.stored) : discipline.Keeps s s' := by
  refine ⟨⟨fun c id is => ?_,handed ▸ current.handed⟩,fun c => Nat.le_of_eq (congrFun stored c).symm,fun c _ => held c⟩
  rw [approvals,eras]
  exact current.active c id (held c id is)

omit current in
theorem holds_set {g' : KeychainGrant} (found : s.grants.find? g.id = some g) (same : g'.id = g.id)
    (credential : g'.credentialId = g.credentialId) (active : g'.status = .active → g.status = .active)
    (c : CredId) (id : GrantId) (held : Holds (s.setGrant g') c id) : Holds s c id := by
  obtain ⟨x,is,own,on⟩ := held
  simp only [Vault.setGrant,find?_set,same] at is
  split at is
  next here =>
    cases is
    exact ⟨g,here ▸ found,credential ▸ own,active on⟩
  · exact ⟨x,is,own,on⟩

theorem keeps_merge (id : GrantId) {patch : KeychainGrant → KeychainGrant}
    (same : ∀ g, (patch g).id = g.id) (credential : ∀ g, (patch g).credentialId = g.credentialId)
    (active : ∀ g, (patch g).status = .active → g.status = .active) : discipline.Keeps s (s.mergeGrant id patch) := by
  rcases s.mergeGrant_cases id patch with unchanged | ⟨g,found,is⟩
  · rw [unchanged]
    exact ⟨current,later_refl s⟩
  · obtain rfl := key_of_find? found
    rw [is]
    exact keeps_fewer current (holds_set found (same g) (credential g) (active g)) rfl rfl rfl rfl

theorem keeps_mint (approving : Option String) :
    discipline.Keeps s (s.putGrant g (s.audit.eras g.credentialId) approving) := by
  have other (c : CredId) (id : GrantId) (held : Holds (s.putGrant g (s.audit.eras g.credentialId) approving) c id)
      (away : id ≠ g.id) : Holds s c id := by
    obtain ⟨x,is,rest⟩ := held
    simp only [Vault.putGrant,find?_set,away] at is
    exact ⟨x,is,rest⟩
  refine ⟨⟨fun c id held => ?_,current.handed⟩,fun c => ?_,fun c same id held => ?_⟩
  · by_cases own : id = g.id
    · obtain ⟨x,is,rfl,_⟩ := held
      subst own
      simp only [Vault.putGrant,find?_set] at is
      cases is
      exact Function.update_self ..
    · exact (Function.update_of_ne own ..).trans (current.active c id (other c id held own))
  · simp only [Vault.putGrant,Function.update_apply]
    split
    next own => exact own ▸ Nat.le_succ _
    · exact Nat.le_refl _
  · refine other c id held ?_
    rintro rfl
    obtain ⟨x,is,rfl,_⟩ := held
    simp only [Vault.putGrant,find?_set] at is
    cases is
    simp [Vault.putGrant] at same

omit current in
theorem not_holds_revoked (id : GrantId) (t : Int) (c : CredId) : ¬Holds (s.mergeGrant id (revoked t)) c id := by
  rintro ⟨g,found,_,active⟩
  unfold Vault.mergeGrant at found
  cases stored : s.grants.find? id with
  | none =>
    simp only [stored] at found
    cases found
  | some old =>
    have key : old.id = id := key_of_find? stored
    simp only [stored,Vault.setGrant] at found
    rw [find?_set_key s.grants (show (revoked t old).id = id from key)] at found
    cases found
    cases active

theorem keeps_delete {s₁ : Vault} {id : CredId} (since : Later s₁ s)
    (ended : ∀ g ∈ s₁.grants.rows, g.credentialId = id → Ended discipline s₁ g s)
    (fits : undisturbed s (.deleteCred id (s₁.audit.stored id))) (ids : List GrantId) :
    discipline.Keeps s ((s.deleteCred id).withdraw ids) := by
  have alone : s.audit.stored id = s₁.audit.stored id := of_decide_eq_true fits
  have gone (i : GrantId) : ¬Holds s id i := by
    intro held
    obtain ⟨g,found,own,on⟩ := since.held id alone i held
    obtain rfl := key_of_find? found
    obtain ⟨s₂,t,before,after⟩ := ended g (mem_of_find? found) own on
    have stored : (s₂.mergeGrant g.id (revoked t)).audit.stored = s₂.audit.stored := by
      obtain ⟨_,is⟩ := s₂.mergeGrant_frame g.id (revoked t)
      rw [is]
    have up := before.stored id
    have up' := after.stored id
    rw [stored] at up'
    exact not_holds_revoked g.id t id (after.held id (by rw [stored]; omega) g.id held)
  refine ⟨⟨fun c i held => ?_,current.handed⟩,fun _ => Nat.le_refl _,fun _ _ _ held => held⟩
  have other : c ≠ id := by
    rintro rfl
    exact gone i held
  exact (current.active c i held).trans (Function.update_of_ne other ..).symm

end

theorem approved_of_offered (ok : OfferOk discipline o s) : o.approved = o.era := by
  obtain ⟨s₁,current,_,found,approved,era,_⟩ := ok.read
  rw [← approved,← era]
  exact Current.active current _ _ ⟨o.grant,found,rfl,ok.usable.active⟩

theorem current_hand (current : Current s) {offers : List Offer} (ok : ∀ o ∈ offers, OfferOk discipline o s)
    (fits : undisturbed s (.handOut offers)) : Current (s.hand offers) := by
  refine ⟨current.active,fun h mem => ?_⟩
  rcases List.mem_append.mp mem with mem | mem
  · exact current.handed h mem
  · obtain ⟨o,inside,rfl⟩ := List.mem_map.mp mem
    exact (approved_of_offered (ok o inside)).trans (of_decide_eq_true (List.all_eq_true.mp fits o inside)).symm

theorem keeps_claim (current : Current s) (ok : OfferOk discipline o s) (usedAt : Int) (usedBy : String)
    (fits : undisturbed s (.handOut [o])) : discipline.Keeps s (s.claim o usedAt usedBy).1 := by
  rcases s.claim_cases o usedAt usedBy with unchanged | ⟨g,used,found,_,isUsed,is⟩
  · rw [unchanged]
    exact ⟨current,later_refl s⟩
  · obtain ⟨_,key⟩ := find?_eq_some.mp found
    have mine : s.grants.find? g.id = some g := key.symm ▸ found
    obtain ⟨kept,le⟩ : discipline.Keeps s (s.setGrant used) := by
      subst isUsed
      exact keeps_fewer current (holds_set mine rfl rfl nofun) rfl rfl rfl rfl
    rw [is]
    refine ⟨current_hand kept (fun x mem => ?_) fits,⟨le.stored,le.held⟩⟩
    obtain rfl := List.mem_singleton.mp mem
    exact ok.later le

end

theorem rules : Rules discipline where
  clock s ms current := keeps_fewer current (fun _ _ held => held) rfl rfl rfl rfl
  refreshes s inflight tickets replies current := keeps_fewer current (fun _ _ held => held) rfl rfl rfl rfl
  save s rec current _ := keeps_fewer current (fun _ _ held => held) rfl rfl rfl rfl
  setToken s rec current := keeps_fewer current (fun _ _ held => held) rfl rfl rfl rfl
  refreshed s s₀ rec put _ _ current _ _ := keeps_fewer current (fun _ _ held => held) rfl rfl rfl rfl
  refreshFailed s s₀ rec refresh t _ _ current _ _ := by
    obtain ⟨_,_,is⟩ := s.mergeRefresh_frame rec.id refresh t (s₀.audit.sets rec.id)
    exact is ▸ keeps_fewer current (fun _ _ held => held) rfl rfl rfl rfl
  deleteCred s s₁ id _ since current ended fits := keeps_delete current since ended fits _
  putGrant s s₀ grant approving _ _ current _ _ fits := by
    rw [← of_decide_eq_true fits]
    exact keeps_mint current _
  revoke s id t current := keeps_merge current id (fun _ => rfl) (fun _ => rfl) (by rintro g ⟨⟩)
  report s _ _ _ current _ _ := keeps_fewer current (fun _ _ held => held) rfl rfl rfl rfl
  adopt s id askId current := keeps_merge current id (fun _ => rfl) (fun _ => rfl) fun g is => is
  claim s o usedAt usedBy current ok _ fits := keeps_claim current ok usedAt usedBy fits
  hand s offers current ok fits :=
    ⟨current_hand current (fun o mem => (ok o mem).1) fits,fun _ => Nat.le_refl _,fun _ _ _ held => held⟩
  writeAsk s rec patch current _ _ _ := by
    obtain ⟨_,is⟩ := s.mergeAsk_frame rec.id patch
    exact is ▸ keeps_fewer current (fun _ _ held => held) rfl rfl rfl rfl

def NothingAfterRemoval (deps : Deps) (start : KeyPool) (events : List KeyStep) : Prop :=
  ∀ h ∈ (run (keychainSystem deps).step start events).shared.audit.handed, h.offer.approved = h.era

theorem nothing_after_removal (deps : Deps) (clock : Int) (creds : Table KeychainCredential.id)
    (grants : Table KeychainGrant.id) (asks : Table KeychainAsk.id) (events : List KeyStep)
    (fits : discipline.Fitting (keychainSystem deps) (Pool.idle (Vault.start clock creds grants asks)) events) :
    NothingAfterRemoval deps (Pool.idle (Vault.start clock creds grants asks)) events := by
  have start : Current (Vault.start clock creds grants asks) :=
    ⟨fun _ _ _ => rfl,fun _ mem => absurd mem List.not_mem_nil⟩
  have ok := (Discipline.ok_run (rules.upholds deps) (Discipline.ok_idle start) events fits).1
  exact Current.handed ok.inv

def removalPool : KeyPool := Pool.idle (Vault.start 5 (empty.set anaGithub) empty empty)

abbrev afterRemoval : List KeyStep → KeyPool := run (keychainSystem plainDeps).step removalPool

def standingInput : CreateGrantInput := ⟨anaGithub.id,"ana","channel:eng",.standing,"deploy",none,none⟩

def useStanding (i : Nat) : List KeyStep :=
  calling i (.materialize ⟨anaGithub.id,"channel:eng",5,"deploy"⟩ "channel:eng" "bo" fun _ _ => .error "offline") 6

def removeSaved (i : Nat) : List KeyStep := calling i (.remove "ana" anaGithub.id) 5

def usedThenRemoved : List KeyStep :=
  calling 0 (.createGrant standingInput) 3 ++ useStanding 1 ++ removeSaved 2 ++
    calling 3 (.save anaInput) 3 ++ useStanding 4

theorem removed_grant_yields_nothing : NothingAfterRemoval plainDeps removalPool usedThenRemoved ∧
      (afterRemoval usedThenRemoved).shared.audit.handed.length = 1 := by
  refine ⟨?_,by decide +kernel⟩
  exact nothing_after_removal plainDeps 5 (empty.set anaGithub) empty empty usedThenRemoved (by decide +kernel)

def mintedPastRemoval : List KeyStep :=
  calling 0 (.createGrant standingInput) 2 ++ calling 1 (.remove "ana" anaGithub.id) 2 ++ [.run 0,.run 1] ++
    calling 2 (.save anaInput) 3 ++ useStanding 3

theorem grant_survives_removal : ¬NothingAfterRemoval plainDeps removalPool mintedPastRemoval ∧
      (afterRemoval mintedPastRemoval).shared.audit.handed.map (fun h => (h.offer.approved,h.era)) = [(0,1)] := by
  refine ⟨fun nothing => ?_,by decide +kernel⟩
  have equal : (afterRemoval mintedPastRemoval).shared.audit.handed.all (fun h => h.offer.approved = h.era) = true :=
    List.all_eq_true.mpr fun h mem => decide_eq_true (nothing h mem)
  exact absurd equal (by decide +kernel)

end CompanyBrain.Credentials.Removals
