import CompanyBrain.Credentials.KeychainRules

namespace CompanyBrain.Credentials.Grants

open Foundations Table

structure Grown (g g' : KeychainGrant) : Prop where
  audience : g'.audienceScopeId = g.audienceScopeId
  mode : g'.mode = g.mode
  expiresAt : g'.expiresAt = g.expiresAt
  active : g'.status = .active → g.status = .active

def Inactive (s : Vault) (id : GrantId) : Prop := ∃ g, s.grants.find? id = some g ∧ g.status ≠ .active

structure Proper (s : Vault) : Prop where
  spent : ∀ h ∈ s.audit.handed, h.offer.mode = .once → Inactive s h.offer.grantId
  withdrawn : ∀ id ∈ s.audit.withdrawn, Inactive s id
  single : s.audit.handed.Pairwise fun h h' =>
    h.offer.mode = .once → h'.offer.mode = .once → h.offer.grantId ≠ h'.offer.grantId
  read : ∀ h ∈ s.audit.handed, Usable h.offer h.offer.grant h.offer.testedAt
  began : ∀ h ∈ s.audit.handed, ∀ b, h.offer.began = some b → Usable h.offer b h.offer.beganAt

structure Later (s s' : Vault) : Prop where
  clock : s.clock ≤ s'.clock
  grants : ∀ id g, s.grants.find? id = some g → ∃ g', s'.grants.find? id = some g' ∧ Grown g g'

def fresh (s : Vault) : KeyLabel → Bool
  | .putGrant grant _ _ => s.grants.find? grant.id = none
  | _ => true

theorem grown_refl (g : KeychainGrant) : Grown g g := ⟨rfl,rfl,rfl,fun is => is⟩

theorem Grown.trans {a b c : KeychainGrant} (first : Grown a b) (second : Grown b c) : Grown a c :=
  ⟨second.audience.trans first.audience,second.mode.trans first.mode,second.expiresAt.trans first.expiresAt,
    fun is => first.active (second.active is)⟩

theorem later_refl (s : Vault) : Later s s := ⟨le_rfl,fun _ g found => ⟨g,found,grown_refl g⟩⟩

theorem later_trans (s s' s'' : Vault) (first : Later s s') (second : Later s' s'') : Later s s'' := by
  refine ⟨le_trans first.clock second.clock,fun id g found => ?_⟩
  obtain ⟨g',found',grown⟩ := first.grants id g found
  obtain ⟨g'',found'',grown'⟩ := second.grants id g' found'
  exact ⟨g'',found'',grown.trans grown'⟩

def discipline : Discipline Vault KeyLabel := ⟨Proper,Later,fresh,later_refl,later_trans⟩

section

variable {s s' : Vault} {g g' : KeychainGrant} {o : Offer}

theorem Inactive.later {id : GrantId} (off : Inactive s id) (le : Later s s') : Inactive s' id := by
  obtain ⟨g,found,spent⟩ := off
  obtain ⟨g',found',grown⟩ := le.grants id g found
  exact ⟨g',found',fun active => spent (grown.active active)⟩

theorem inactive_of_ended {s₁ : Vault} (le : Later s₁ s) (found : s₁.grants.find? g.id = some g)
    (ended : Ended discipline s₁ g s) : Inactive s g.id := by
  by_cases active : g.status = .active
  · obtain ⟨s₂,t,before,after⟩ := ended active
    obtain ⟨g₂,found₂,_⟩ := before.grants g.id g found
    have key : g₂.id = g.id := key_of_find? found₂
    have off : Inactive (s₂.mergeGrant g.id (revoked t)) g.id := by
      refine ⟨revoked t g₂,?_,nofun⟩
      rw [Vault.mergeGrant,found₂]
      exact find?_set_key _ key
    exact off.later after
  · exact Inactive.later ⟨g,found,active⟩ le

variable (proper : Proper s)
include proper

theorem Proper.later (le : Later s s') (handed : s'.audit.handed = s.audit.handed)
    (withdrawn : ∀ id ∈ s'.audit.withdrawn, id ∈ s.audit.withdrawn ∨ Inactive s id) : Proper s' := by
  refine ⟨fun h mem once => ?_,fun id mem => ?_,handed ▸ proper.single,handed ▸ proper.read,handed ▸ proper.began⟩
  · exact (proper.spent h (handed ▸ mem) once).later le
  · exact ((withdrawn id mem).elim (proper.withdrawn id) fun off => off).later le

theorem keeps_same (clock : s.clock ≤ s'.clock) (grants : s'.grants = s.grants)
    (handed : s'.audit.handed = s.audit.handed)
    (withdrawn : ∀ id ∈ s'.audit.withdrawn, id ∈ s.audit.withdrawn ∨ Inactive s id) : discipline.Keeps s s' := by
  have le : Later s s' := ⟨clock,fun id g found => ⟨g,grants ▸ found,grown_refl g⟩⟩
  exact ⟨proper.later le handed withdrawn,le⟩

omit proper in
theorem later_set (found : s.grants.find? g.id = some g) (same : g'.id = g.id) (grown : Grown g g') :
    Later s (s.setGrant g') := by
  refine ⟨le_rfl,fun id x is => ?_⟩
  by_cases own : id = g.id
  · subst own
    cases found.symm.trans is
    exact ⟨g',find?_set_key _ same,grown⟩
  · refine ⟨x,?_,grown_refl x⟩
    simp only [Vault.setGrant,find?_set,same,own,if_false]
    exact is

theorem keeps_merge (id : GrantId) {patch : KeychainGrant → KeychainGrant}
    (same : ∀ g, (patch g).id = g.id) (grown : ∀ g, Grown g (patch g)) :
    discipline.Keeps s (s.mergeGrant id patch) := by
  rcases s.mergeGrant_cases id patch with unchanged | ⟨g,found,is⟩
  · rw [unchanged]
    exact ⟨proper,later_refl s⟩
  · obtain rfl := key_of_find? found
    have le := later_set found (same g) (grown g)
    rw [is]
    exact ⟨proper.later le rfl fun _ => .inl,le⟩

theorem keeps_mint (era : Nat) (approving : Option String)
    (new : s.grants.find? g.id = none) : discipline.Keeps s (s.putGrant g era approving) := by
  have le : Later s (s.putGrant g era approving) := by
    refine ⟨le_rfl,fun id x is => ⟨x,?_,grown_refl x⟩⟩
    have other : id ≠ g.id := by
      rintro rfl
      cases new.symm.trans is
    simp only [Vault.putGrant,find?_set,other]
    exact is
  exact ⟨proper.later le rfl fun _ => .inl,le⟩

omit proper in
theorem usable_of_offered (ok : OfferOk discipline o s) (b : KeychainGrant) (began : o.began = some b) :
    Usable o b o.beganAt := by
  obtain ⟨active,audience,unexpired⟩ := ok.usable
  obtain ⟨s₁,_,_,found,_,_,start⟩ := ok.read
  obtain ⟨s₀,s₂,before,after,found₀,clock,tested⟩ := start b began
  obtain ⟨g',found',grown⟩ := before.grants _ b found₀
  cases found.symm.trans found'
  refine ⟨grown.active active,grown.audience.symm.trans audience,?_⟩
  have le : o.beganAt ≤ o.testedAt := clock ▸ tested ▸ le_trans before.clock after.clock
  rw [grown.expiresAt] at unexpired
  cases expiry : b.expiresAt with
  | none => rfl
  | some =>
    rw [expiry] at unexpired
    simp only [expired,Option.any_some,decide_eq_false_iff_not] at unexpired ⊢
    omega

omit proper in
theorem later_hand (s : Vault) (offers : List Offer) : Later s (s.hand offers) :=
  ⟨le_rfl,fun _ g found => ⟨g,found,grown_refl g⟩⟩

theorem proper_hand {offers : List Offer} {s₀ : Vault} (ok : ∀ o ∈ offers, OfferOk discipline o s₀)
    (spent : ∀ o ∈ offers, o.mode = .once → Inactive s o.grantId)
    (single : offers.Pairwise fun o o' => o.mode = .once → o'.mode = .once → o.grantId ≠ o'.grantId)
    (first : ∀ h ∈ s.audit.handed, h.offer.mode = .once → ∀ o ∈ offers, o.mode = .once → h.offer.grantId ≠ o.grantId) :
    Proper (s.hand offers) := by
  have either (h : HandOut) (mem : h ∈ (s.hand offers).audit.handed) : h ∈ s.audit.handed ∨ h.offer ∈ offers := by
    rcases List.mem_append.mp mem with mem | mem
    · exact .inl mem
    · obtain ⟨o,inside,rfl⟩ := List.mem_map.mp mem
      exact .inr inside
  refine ⟨fun h mem once => ?_,proper.withdrawn,?_,fun h mem => ?_,fun h mem => ?_⟩
  · rcases either h mem with old | new
    · exact proper.spent h old once
    · exact spent h.offer new once
  · refine List.pairwise_append.mpr ⟨proper.single,List.pairwise_map.mpr single,fun h mem h' mem' => ?_⟩
    obtain ⟨o,inside,rfl⟩ := List.mem_map.mp mem'
    exact fun once once' => first h mem once o inside once'
  · rcases either h mem with old | new
    · exact proper.read h old
    · exact (ok h.offer new).usable
  · rcases either h mem with old | new
    · exact proper.began h old
    · exact usable_of_offered (ok h.offer new)

theorem keeps_claim (ok : OfferOk discipline o s) (usedAt : Int) (usedBy : String) :
    discipline.Keeps s (s.claim o usedAt usedBy).1 := by
  rcases s.claim_cases o usedAt usedBy with unchanged | ⟨g,used,found,active,isUsed,is⟩
  · rw [unchanged]
    exact ⟨proper,later_refl s⟩
  · obtain ⟨_,key⟩ := find?_eq_some.mp found
    have same : used.id = g.id := by rw [isUsed]
    have grown : Grown g used := by
      rw [isUsed]
      exact ⟨rfl,rfl,rfl,by rintro ⟨⟩⟩
    have le : Later s (s.setGrant used) := later_set (key.symm ▸ found) same grown
    have kept : Proper (s.setGrant used) := proper.later le rfl fun _ => .inl
    have left : (s.setGrant used).grants.find? o.grantId = some used := find?_set_key _ (same.trans key)
    rw [is]
    refine ⟨proper_hand kept (List.forall_mem_singleton.mpr ok) ?_ (List.pairwise_singleton _ _) ?_,
      later_trans _ _ _ le (later_hand _ _)⟩
    · intro x mem _
      obtain rfl := List.mem_singleton.mp mem
      exact ⟨used,left,by rw [isUsed]; rintro ⟨⟩⟩
    · intro h mem once x inside _ own
      obtain rfl := List.mem_singleton.mp inside
      obtain ⟨g',found',spent⟩ := proper.spent h mem once
      rw [own] at found'
      cases found.symm.trans found'
      exact spent active

theorem keeps_hand {offers : List Offer}
    (ok : ∀ o ∈ offers, OfferOk discipline o s ∧ o.mode = .standing) : discipline.Keeps s (s.hand offers) := by
  have standing {P : Prop} (o : Offer) (mem : o ∈ offers) (once : o.mode = .once) : P := by
    cases once.symm.trans (ok o mem).2
  refine ⟨proper_hand proper (fun o mem => (ok o mem).1) (fun o mem => standing o mem) ?_ ?_,later_hand s offers⟩
  · exact List.Pairwise.imp_of_mem (fun mem _ _ once => standing _ mem once)
      (List.pairwise_of_forall fun _ _ => trivial)
  · exact fun _ _ _ o mem => standing o mem

end

theorem rules : Rules discipline where
  clock s ms proper := keeps_same proper (by simp only; omega) rfl rfl fun _ => .inl
  refreshes s inflight tickets replies proper := keeps_same proper le_rfl rfl rfl fun _ => .inl
  save s rec proper _ := keeps_same proper le_rfl rfl rfl fun _ => .inl
  setToken s rec proper := keeps_same proper le_rfl rfl rfl fun _ => .inl
  refreshed s s₀ rec put _ _ proper _ _ := keeps_same proper le_rfl rfl rfl fun _ => .inl
  refreshFailed s s₀ rec refresh t _ _ proper _ _ := by
    obtain ⟨_,_,is⟩ := s.mergeRefresh_frame rec.id refresh t (s₀.audit.sets rec.id)
    exact is ▸ keeps_same proper le_rfl rfl rfl fun _ => .inl
  deleteCred s s₁ id _ since proper ended _ := by
    refine keeps_same proper le_rfl rfl rfl fun i mem => (List.mem_append.mp mem).imp_right fun listed => ?_
    obtain ⟨g,inside,rfl⟩ := List.mem_map.mp listed
    obtain ⟨stored,own⟩ := List.mem_filter.mp inside
    exact inactive_of_ended since (find?_eq_some.mpr ⟨stored,rfl⟩) (ended g stored (of_decide_eq_true own))
  putGrant s s₀ grant approving _ _ proper _ _ fits := keeps_mint proper _ _ (of_decide_eq_true fits)
  revoke s id t proper := keeps_merge proper id (fun _ => rfl) fun g => ⟨rfl,rfl,rfl,by rintro ⟨⟩⟩
  report s s₁ g since proper found ended := by
    refine keeps_same proper le_rfl rfl rfl fun i mem => (List.mem_append.mp mem).imp_right fun own => ?_
    exact List.mem_singleton.mp own ▸ inactive_of_ended since found ended
  adopt s id askId proper := keeps_merge proper id (fun _ => rfl) fun g => ⟨rfl,rfl,rfl,fun is => is⟩
  claim s o usedAt usedBy proper ok _ _ := keeps_claim proper ok usedAt usedBy
  hand s offers proper ok _ := keeps_hand proper ok
  writeAsk s rec patch proper _ _ _ := by
    obtain ⟨_,is⟩ := s.mergeAsk_frame rec.id patch
    exact is ▸ keeps_same proper le_rfl rfl rfl fun _ => .inl

structure UsedProperly (deps : Deps) (start : KeyPool) (events later : List KeyStep) : Prop where
  once : (run (keychainSystem deps).step start events).shared.audit.handed.Pairwise fun h h' =>
    h.offer.mode = .once → h'.offer.mode = .once → h.offer.grantId ≠ h'.offer.grantId
  read : ∀ h ∈ (run (keychainSystem deps).step start events).shared.audit.handed,
    Usable h.offer h.offer.grant h.offer.testedAt
  began : ∀ h ∈ (run (keychainSystem deps).step start events).shared.audit.handed, ∀ b, h.offer.began = some b →
    Usable h.offer b h.offer.beganAt
  withdrawn : ∀ id ∈ (run (keychainSystem deps).step start events).shared.audit.withdrawn,
    Inactive (run (keychainSystem deps).step start events).shared id
  inactive : ∀ id g, (run (keychainSystem deps).step start events).shared.grants.find? id = some g →
    g.status ≠ .active →
      ∃ g', (run (keychainSystem deps).step start (events ++ later)).shared.grants.find? id = some g' ∧
      g'.status ≠ .active

theorem grants_used_properly (deps : Deps) (clock : Int) (creds : Table KeychainCredential.id)
    (grants : Table KeychainGrant.id) (asks : Table KeychainAsk.id) (events later : List KeyStep)
    (fits : discipline.Fitting (keychainSystem deps) (Pool.idle (Vault.start clock creds grants asks))
      (events ++ later)) :
    UsedProperly deps (Pool.idle (Vault.start clock creds grants asks)) events later := by
  have start : Proper (Vault.start clock creds grants asks) :=
    ⟨fun _ mem => absurd mem List.not_mem_nil,fun _ mem => absurd mem List.not_mem_nil,.nil,
      fun _ mem => absurd mem List.not_mem_nil,fun _ mem => absurd mem List.not_mem_nil⟩
  obtain ⟨ok,_,grown⟩ := Discipline.ok_append (rules.upholds deps) (Discipline.ok_idle start) fits
  have proper : Proper _ := ok.inv
  refine ⟨proper.single,proper.read,proper.began,proper.withdrawn,fun id g found left => ?_⟩
  obtain ⟨g',found',grew⟩ := grown.grants id g found
  exact ⟨g',found',fun active => left (grew.active active)⟩

def grantedPool : KeyPool := Pool.idle (Vault.start 5 (empty.set anaGithub) empty empty)

abbrev afterGranted : List KeyStep → KeyPool := run (keychainSystem plainDeps).step grantedPool

def deployGrant : GrantId := ⟨anaGithub.id,"channel:eng",5,"deploy"⟩

def mintDeploy (i : Nat) : List KeyStep :=
  calling i (.createGrant ⟨anaGithub.id,"ana","channel:eng",.once,"deploy",none,none⟩) 3

def useDeploy (i : Nat) : List KeyStep :=
  calling i (.materialize deployGrant "channel:eng" "bo" fun _ _ => .error "offline") 7

theorem used_grant_stays_used : (afterGranted (mintDeploy 0 ++ useDeploy 1)).shared.audit.handed.length = 1 ∧
      ∃ g, (afterGranted (mintDeploy 0 ++ useDeploy 1 ++ useDeploy 2)).shared.grants.find? deployGrant = some g ∧
        g.status ≠ .active := by
  have proper := grants_used_properly plainDeps 5 (empty.set anaGithub) empty empty
    (mintDeploy 0 ++ useDeploy 1) (useDeploy 2) (by decide +kernel)
  let g := ((afterGranted (mintDeploy 0 ++ useDeploy 1)).shared.grants.find? deployGrant).get (by decide +kernel)
  have found : (afterGranted (mintDeploy 0 ++ useDeploy 1)).shared.grants.find? deployGrant = some g :=
    (Option.some_get _).symm
  exact ⟨by decide +kernel,proper.inactive deployGrant g found (by decide +kernel)⟩

def mintedAgain : List KeyStep := mintDeploy 0 ++ useDeploy 1 ++ mintDeploy 2 ++ useDeploy 3

theorem reminted_grant_used_again : ¬UsedProperly plainDeps grantedPool mintedAgain [] ∧
      ¬UsedProperly plainDeps grantedPool (mintDeploy 0 ++ useDeploy 1) (mintDeploy 2) := by
  constructor
  · intro proper
    exact absurd proper.once (by decide +kernel)
  · intro proper
    let g := ((afterGranted (mintDeploy 0 ++ useDeploy 1)).shared.grants.find? deployGrant).get (by decide +kernel)
    have found : (afterGranted (mintDeploy 0 ++ useDeploy 1)).shared.grants.find? deployGrant = some g :=
      (Option.some_get _).symm
    obtain ⟨g',found',inactive⟩ := proper.inactive deployGrant g found (by decide +kernel)
    have again : ((afterGranted (mintDeploy 0 ++ useDeploy 1 ++ mintDeploy 2)).shared.grants.find? deployGrant).map
        KeychainGrant.status = some .active := by decide +kernel
    rw [show run (keychainSystem plainDeps).step grantedPool (mintDeploy 0 ++ useDeploy 1 ++ mintDeploy 2) =
      afterGranted (mintDeploy 0 ++ useDeploy 1 ++ mintDeploy 2) from rfl] at found'
    rw [found'] at again
    exact inactive (Option.some.inj again)

end CompanyBrain.Credentials.Grants
