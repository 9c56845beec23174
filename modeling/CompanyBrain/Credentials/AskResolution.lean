import CompanyBrain.Credentials.KeychainRules

namespace CompanyBrain.Credentials.Asks

open Foundations Table

structure AskOk (ask : KeychainAsk) (minted : List GrantId) (opened : Option GrantId) : Prop where
  waiting : ask.status = .pending → minted = opened.toList
  single : minted.length ≤ 1
  unminted : ask.status = .declined ∨ ask.status = .expired → minted = []

structure Settled (ask ask' : KeychainAsk) : Prop where
  status : ask'.status = ask.status
  resolvedAt : ask'.resolvedAt = ask.resolvedAt
  grantId : ask'.grantId = ask.grantId

def Resolved (s : Vault) : Prop := ∀ id ask, s.asks.find? id = some ask →
  AskOk ask (s.audit.minted id) (s.audit.opened id)

def Later (s s' : Vault) : Prop := ∀ id ask, s.asks.find? id = some ask →
  ∃ ask', s'.asks.find? id = some ask' ∧ (ask.status ≠ .pending → Settled ask ask')

def serial (s : Vault) : KeyLabel → Bool
  | .writeAsk rec patch =>
    (s.asks.find? rec.id).all (fun ask => ask.status = rec.status) &&
      (s.audit.opened rec.id = none || s.audit.opened rec.id = patch.grantId)
  | .putGrant _ _ (some rec) =>
    (s.asks.find? rec.id).all (fun ask => ask.status = rec.status) && s.audit.opened rec.id = none
  | _ => true

theorem settled_refl (ask : KeychainAsk) : Settled ask ask := ⟨rfl,rfl,rfl⟩

theorem Settled.trans {a b c : KeychainAsk} (first : Settled a b) (second : Settled b c) : Settled a c :=
  ⟨second.status.trans first.status,second.resolvedAt.trans first.resolvedAt,second.grantId.trans first.grantId⟩

theorem later_refl (s : Vault) : Later s s := fun _ ask found => ⟨ask,found,fun _ => settled_refl ask⟩

theorem later_trans (s s' s'' : Vault) (first : Later s s') (second : Later s' s'') : Later s s'' := by
  intro id ask found
  obtain ⟨ask',found',settled⟩ := first id ask found
  obtain ⟨ask'',found'',settled'⟩ := second id ask' found'
  refine ⟨ask'',found'',fun left => ?_⟩
  have same := settled left
  exact same.trans (settled' (same.status ▸ left))

def discipline : Discipline Vault KeyLabel := ⟨Resolved,Later,serial,later_refl,later_trans⟩

section

variable {s s' : Vault}

variable (resolved : Resolved s)
include resolved

theorem keeps_same (asks : s'.asks = s.asks) (minted : s'.audit.minted = s.audit.minted)
    (opened : s'.audit.opened = s.audit.opened) : discipline.Keeps s s' := by
  refine ⟨fun id ask found => ?_,fun id ask found => ⟨ask,asks ▸ found,fun _ => settled_refl ask⟩⟩
  rw [minted,opened]
  exact resolved id ask (asks ▸ found)

theorem askOk_write {rec ask : KeychainAsk} {patch : AskPatch} (found : s.asks.find? rec.id = some ask)
    (waiting : ask.status = .pending) (approves : patch.grantId ≠ none → patch.status = .approved)
    (free : s.audit.opened rec.id = none ∨ s.audit.opened rec.id = patch.grantId) :
    AskOk (patch.apply ask) (s.audit.minted rec.id) none := by
  have ok := resolved rec.id ask found
  have minted := ok.waiting waiting
  cases opened : s.audit.opened rec.id with
  | none =>
    rw [opened] at minted
    exact ⟨fun _ => minted,ok.single,fun _ => minted⟩
  | some grant =>
    rw [opened] at free
    have approved : (patch.apply ask).status = .approved := approves (by grind)
    refine ⟨fun waiting => ?_,ok.single,fun ended => ?_⟩
    · cases approved.symm.trans waiting
    · rw [approved] at ended
      rcases ended with ended | ended <;> cases ended

theorem keeps_write {rec : KeychainAsk} {patch : AskPatch} (pending : rec.status = .pending)
    (approves : patch.grantId ≠ none → patch.status = .approved) (fits : serial s (.writeAsk rec patch)) :
    discipline.Keeps s ((s.mergeAsk rec.id patch).closeAsk rec.id) := by
  rcases s.mergeAsk_cases rec.id patch with ⟨missing,same⟩ | ⟨ask,found,is⟩
  · rw [same]
    refine ⟨fun id ask found => ?_,fun id ask found => ⟨ask,found,fun _ => settled_refl ask⟩⟩
    have other : id ≠ rec.id := by
      rintro rfl
      cases missing.symm.trans found
    simp only [Vault.closeAsk,Function.update_of_ne other]
    exact resolved id ask found
  · obtain ⟨_,key⟩ := find?_eq_some.mp found
    simp only [serial,found,Option.all_some,Bool.and_eq_true,Bool.or_eq_true,decide_eq_true_iff] at fits
    obtain ⟨status,free⟩ := fits
    have patched : (patch.apply ask).id = rec.id := key
    rw [is]
    constructor
    · intro id ask' found'
      simp only [Vault.closeAsk] at found' ⊢
      rw [find?_set,patched] at found'
      split at found'
      next own =>
        cases found'
        subst own
        rw [Function.update_self]
        exact askOk_write resolved found (status.trans pending) approves free
      next other =>
        rw [Function.update_of_ne other]
        exact resolved id ask' found'
    · intro id ask' found'
      by_cases own : id = rec.id
      · subst own
        cases found.symm.trans found'
        exact ⟨_,find?_set_key _ patched,fun left => absurd (status.trans pending) left⟩
      · refine ⟨ask',?_,fun _ => settled_refl ask'⟩
        simp only [Vault.closeAsk]
        rw [find?_set,patched,if_neg own]
        exact found'

theorem keeps_mint (grant : KeychainGrant) (era : Nat) {rec : KeychainAsk}
    (pending : rec.status = .pending) (fits : serial s (.putGrant grant era (some rec))) :
    discipline.Keeps s (s.putGrant grant era (some rec.id)) := by
  simp only [serial,Bool.and_eq_true,decide_eq_true_iff] at fits
  obtain ⟨status,free⟩ := fits
  refine ⟨fun id ask found => ?_,fun id ask found => ⟨ask,found,fun _ => settled_refl ask⟩⟩
  have found : s.asks.find? id = some ask := found
  simp only [Vault.putGrant]
  by_cases own : id = rec.id
  · subst own
    rw [found,Option.all_some,decide_eq_true_iff] at status
    have waiting : ask.status = .pending := status.trans pending
    have unminted := (resolved rec.id ask found).waiting waiting
    rw [Function.update_self,Function.update_self,unminted,free]
    refine ⟨fun _ => rfl,Nat.le_refl 1,fun ended => ?_⟩
    rw [waiting] at ended
    rcases ended with declined | expired
    · cases declined
    · cases expired
  · rw [Function.update_of_ne own,Function.update_of_ne own]
    exact resolved id ask found

end

theorem rules : Rules discipline where
  clock s ms resolved := keeps_same resolved rfl rfl rfl
  refreshes s inflight tickets replies resolved := keeps_same resolved rfl rfl rfl
  save s rec resolved _ := keeps_same resolved rfl rfl rfl
  setToken s rec resolved := keeps_same resolved rfl rfl rfl
  refreshed s s₀ rec put _ _ resolved _ _ := keeps_same resolved rfl rfl rfl
  refreshFailed s s₀ rec refresh t _ _ resolved _ _ := by
    obtain ⟨_,_,is⟩ := s.mergeRefresh_frame rec.id refresh t (s₀.audit.sets rec.id)
    exact is ▸ keeps_same resolved rfl rfl rfl
  deleteCred s _ _ _ _ resolved _ _ := keeps_same resolved rfl rfl rfl
  putGrant s s₀ grant approving _ _ resolved _ pending fits := by
    cases approving with
    | none => exact keeps_same resolved rfl rfl rfl
    | some rec => exact keeps_mint resolved grant _ (pending rec rfl) fits
  revoke s id t resolved := by
    obtain ⟨_,is⟩ := s.mergeGrant_frame id (revoked t)
    exact is ▸ keeps_same resolved rfl rfl rfl
  report s _ _ _ resolved _ _ := keeps_same resolved rfl rfl rfl
  adopt s id askId resolved := by
    obtain ⟨_,is⟩ := s.mergeGrant_frame id fun g => {g with askId := some askId}
    exact is ▸ keeps_same resolved rfl rfl rfl
  claim s o usedAt usedBy resolved _ _ _ := by
    obtain ⟨_,_,is⟩ := s.claim_frame o usedAt usedBy
    exact is ▸ keeps_same resolved rfl rfl rfl
  hand s offers resolved _ _ := keeps_same resolved rfl rfl rfl
  writeAsk s rec patch resolved pending approves fits := keeps_write resolved pending approves fits

def ResolvedOnce (deps : Deps) (start : KeyPool) (events later : List KeyStep) : Prop :=
  ∀ id ask, (run (keychainSystem deps).step start events).shared.asks.find? id = some ask →
    ((run (keychainSystem deps).step start events).shared.audit.minted id).length ≤ 1 ∧
    (ask.status = .declined ∨ ask.status = .expired →
      (run (keychainSystem deps).step start events).shared.audit.minted id = []) ∧
    (ask.status ≠ .pending → ∃ ask',
      (run (keychainSystem deps).step start (events ++ later)).shared.asks.find? id = some ask' ∧ Settled ask ask')

theorem asks_resolved_once (deps : Deps) (clock : Int) (creds : Table KeychainCredential.id)
    (grants : Table KeychainGrant.id) (asks : Table KeychainAsk.id) (events later : List KeyStep)
    (fits : discipline.Fitting (keychainSystem deps) (Pool.idle (Vault.start clock creds grants asks))
      (events ++ later)) :
    ResolvedOnce deps (Pool.idle (Vault.start clock creds grants asks)) events later := by
  have start : Resolved (Vault.start clock creds grants asks) := fun id ask _ =>
    ⟨fun _ => rfl,Nat.zero_le 1,fun _ => rfl⟩
  obtain ⟨ok,_,grown⟩ := Discipline.ok_append (rules.upholds deps) (Discipline.ok_idle start) fits
  intro id ask found
  obtain ⟨_,single,unminted⟩ := ok.inv id ask found
  refine ⟨single,unminted,fun left => ?_⟩
  obtain ⟨ask',found',settled⟩ := grown id ask found
  exact ⟨ask',found',settled left⟩

def deployAsk : KeychainAsk where
  id := "ask1"
  credentialId := anaGithub.id
  ownerId := "ana"
  requesterId := "bo"
  requesterScopeId := "channel:eng"
  purpose := "deploy"
  requestedMode := none
  status := .pending
  createdAt := 0
  expiresAt := 100
  resolvedAt := none
  grantId := none
  note := none
  notifiedAt := none

def askedPool : KeyPool := Pool.idle (Vault.start 5 (empty.set anaGithub) empty (empty.set deployAsk))

abbrev afterAsked : List KeyStep → KeyPool := run (keychainSystem plainDeps).step askedPool

def approval (words : String) : KeychainCall := .approveAsk ⟨"ask1","ana",.once,words,none⟩

def approvedAlone : List KeyStep := calling 0 (approval "yes") 6

def declinedLate : List KeyStep := calling 1 (.declineAsk "ask1" "ana" none) 3

theorem approved_ask_stays_approved :
    ∃ ask ask', (afterAsked approvedAlone).shared.asks.find? "ask1" = some ask ∧ ask.status = .approved ∧
      (afterAsked (approvedAlone ++ declinedLate)).shared.asks.find? "ask1" = some ask' ∧ Settled ask ask' := by
  have once := asks_resolved_once plainDeps 5 (empty.set anaGithub) empty (empty.set deployAsk)
    approvedAlone declinedLate (by decide +kernel)
  let ask := ((afterAsked approvedAlone).shared.asks.find? "ask1").get (by decide +kernel)
  have found : (afterAsked approvedAlone).shared.asks.find? "ask1" = some ask := (Option.some_get _).symm
  have approved : ask.status = .approved := by decide +kernel
  obtain ⟨ask',found',settled⟩ := (once "ask1" ask found).2.2 (by rw [approved]; decide)
  exact ⟨ask,ask',found,approved,found',settled⟩

def declinedMeanwhile : List KeyStep := calling 0 (approval "yes") 5 ++ declinedLate

def approvedTwice : List KeyStep := calling 0 (approval "yes") 5 ++ calling 1 (approval "go ahead") 6

theorem raced_ask_resolved_twice : ¬ResolvedOnce plainDeps askedPool declinedMeanwhile [.run 0] ∧
      ((afterAsked declinedMeanwhile).shared.asks.find? "ask1").map KeychainAsk.status = some .declined ∧
      ((afterAsked (declinedMeanwhile ++ [.run 0])).shared.asks.find? "ask1").map KeychainAsk.status = some .approved ∧
      ((afterAsked declinedMeanwhile).shared.audit.minted "ask1").length = 1 ∧
      ((afterAsked approvedTwice).shared.audit.minted "ask1").map GrantId.purpose = ["go ahead","yes"] := by
  have minted : ((afterAsked declinedMeanwhile).shared.audit.minted "ask1").length = 1 := by decide +kernel
  refine ⟨fun once => ?_,by decide +kernel,by decide +kernel,minted,by decide +kernel⟩
  let ask := ((afterAsked declinedMeanwhile).shared.asks.find? "ask1").get (by decide +kernel)
  have found : (afterAsked declinedMeanwhile).shared.asks.find? "ask1" = some ask := (Option.some_get _).symm
  have declined : ask.status = .declined := by decide +kernel
  have unminted := (once "ask1" ask found).2.1 (.inl declined)
  rw [show (run (keychainSystem plainDeps).step askedPool declinedMeanwhile) =
    afterAsked declinedMeanwhile from rfl] at unminted
  rw [unminted] at minted
  cases minted

end CompanyBrain.Credentials.Asks
