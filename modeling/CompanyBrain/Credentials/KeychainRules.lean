import CompanyBrain.Credentials.Keychain

namespace CompanyBrain.Credentials

open Foundations Table
open Foundations.Discipline

variable {α β : Type} {d : Discipline Vault KeyLabel} {s s' : Vault}

section

variable {f : α → Key β} {post : β → Vault → Prop}

theorem wp_lookup {read : Vault → α}
    (rest : ∀ s', d.later s s' → d.inv s' → d.Wp (f (read s')) post s') : d.Wp (lookup read >>= f) post s :=
  wp_bind (wp_get fun s' le inv _ _ => rest s' le inv)

theorem wp_now {f : Int → Key β} (rest : ∀ s', d.later s s' → d.inv s' → d.Wp (f s'.clock) post s') :
    d.Wp (now >>= f) post s :=
  wp_lookup rest

theorem wp_demand {found : Option α} {status : Nat} {message : String}
    (rest : ∀ a, found = some a → d.Wp (f a) post s) : d.Wp (demand found status message >>= f) post s := by
  cases found with
  | none => exact wp_bind (wp_throw _)
  | some a => exact wp_bind (wp_pure fun _ => rest a rfl)

theorem wp_refuse {bad : Bool} {status : Nat} {message : String} {f : Unit → Key β}
    (rest : bad = false → d.Wp (f ()) post s) : d.Wp (refuse bad status message >>= f) post s := by
  cases bad with
  | true => exact wp_bind (wp_throw _)
  | false => exact wp_bind (wp_pure fun _ => rest rfl)

theorem wp_liftExcept {x : Except Failure α} (rest : ∀ a, x = .ok a → d.Wp (f a) post s) :
    d.Wp (liftExcept x >>= f) post s := by
  cases x with
  | error e => exact wp_bind (wp_throw e)
  | ok a => exact wp_bind (wp_pure fun _ => rest a rfl)

theorem wp_put {l : KeyLabel} {act : Vault → Vault} {f : Unit → Key β}
    (keeps : ∀ s', d.later s s' → d.inv s' → d.fits s' l → d.Keeps s' (act s'))
    (rest : ∀ s', d.later s s' → d.Wp (f ()) post s') : d.Wp (Prog.set l .store act >>= f) post s :=
  wp_bind (wp_set fun s' le inv fits => ⟨keeps s' le inv fits,fun le' => rest _ le'⟩)

theorem wp_quiet {m : Key α} (quiet : d.Quiet m)
    (rest : ∀ a s', d.later s s' → d.inv s' → d.Wp (f a) post s') : d.Wp (m >>= f) post s :=
  wp_bind (wp_mono (quiet s) fun a s' le inv _ _ => rest a s' le inv)

end

def isOauth (id : CredId) : Bool := "oauth:".toList.isPrefixOf id.slot.toList

structure Usable (o : Offer) (g : KeychainGrant) (t : Int) : Prop where
  active : g.status = .active
  audience : g.audienceScopeId = o.scopeId
  unexpired : expired g.expiresAt t = false

structure OfferOk (d : Discipline Vault KeyLabel) (o : Offer) (s : Vault) : Prop where
  usable : Usable o o.grant o.testedAt
  read : ∃ s₁, d.inv s₁ ∧ d.later s₁ s ∧ s₁.grants.find? o.grantId = some o.grant ∧
    s₁.audit.approvals o.grantId = o.approved ∧ s₁.audit.eras o.credentialId = o.era ∧
    ∀ b, o.began = some b → ∃ s₀ s₂, d.later s₀ s₁ ∧ d.later s₁ s₂ ∧ s₀.grants.find? o.grantId = some b ∧
      s₀.clock = o.beganAt ∧ s₂.clock = o.testedAt

theorem OfferOk.later {o : Offer} (ok : OfferOk d o s) (le : d.later s s') : OfferOk d o s' := by
  obtain ⟨s₁,inv,before,rest⟩ := ok.read
  exact ⟨ok.usable,s₁,inv,d.trans _ _ _ before le,rest⟩

def Ended (d : Discipline Vault KeyLabel) (s₁ : Vault) (g : KeychainGrant) (s : Vault) : Prop :=
  g.status = .active → ∃ s₂ t, d.later s₁ s₂ ∧ d.later (s₂.mergeGrant g.id (revoked t)) s

theorem Ended.later {s₁ : Vault} {g : KeychainGrant} (ended : Ended d s₁ g s) (le : d.later s s') :
    Ended d s₁ g s' := by
  intro active
  obtain ⟨s₂,t,before,after⟩ := ended active
  exact ⟨s₂,t,before,d.trans _ _ _ after le⟩

def Revoked (d : Discipline Vault KeyLabel) (grantId : GrantId) (s : Vault) : Prop :=
  ∃ s₁ g, d.later s₁ s ∧ s₁.grants.find? g.id = some g ∧ g.id = grantId ∧ Ended d s₁ g s

structure Rules (d : Discipline Vault KeyLabel) : Prop where
  clock : ∀ s (ms : Nat), d.inv s → d.Keeps s {s with clock := s.clock + ms}
  refreshes : ∀ s inflight tickets replies, d.inv s →
    d.Keeps s {s with inflight := inflight, tickets := tickets, replies := replies}
  save : ∀ s rec, d.inv s → isOauth rec.id = false → d.Keeps s (s.putCred rec)
  setToken : ∀ s rec, d.inv s → d.Keeps s (s.setToken rec)
  refreshed : ∀ s s₀ rec put, d.inv s₀ → d.later s₀ s → d.inv s → s₀.creds.find? rec.id = some rec →
    d.fits s (.refreshed rec.id put.id (s₀.audit.sets rec.id) (s₀.audit.eras rec.id)) = true →
    d.Keeps s (s.putRefreshed put (s₀.audit.sets rec.id))
  refreshFailed : ∀ s s₀ rec refresh t, d.inv s₀ → d.later s₀ s → d.inv s → s₀.creds.find? rec.id = some rec →
    d.fits s (.refreshFailed rec.id (s₀.audit.sets rec.id) (s₀.audit.eras rec.id)) = true →
    d.Keeps s (s.mergeRefresh rec.id refresh t (s₀.audit.sets rec.id))
  deleteCred : ∀ s s₁ id, d.inv s₁ → d.later s₁ s → d.inv s →
    (∀ g ∈ s₁.grants.rows, g.credentialId = id → Ended d s₁ g s) →
    d.fits s (.deleteCred id (s₁.audit.stored id)) = true →
    d.Keeps s ((s.deleteCred id).withdraw (grantsOf id s₁.grants.rows))
  putGrant : ∀ s s₀ grant approving, d.inv s₀ → d.later s₀ s → d.inv s → grant.status = .active →
    (∀ ask, approving = some ask → ask.status = .pending) →
    d.fits s (.putGrant grant (s₀.audit.eras grant.credentialId) approving) = true →
    d.Keeps s (s.putGrant grant (s₀.audit.eras grant.credentialId) (approving.map KeychainAsk.id))
  revoke : ∀ s id t, d.inv s → d.Keeps s (s.mergeGrant id (revoked t))
  report : ∀ s s₁ g, d.later s₁ s → d.inv s → s₁.grants.find? g.id = some g → Ended d s₁ g s →
    d.Keeps s (s.withdraw [g.id])
  adopt : ∀ s id askId, d.inv s → d.Keeps s (s.mergeGrant id fun g => {g with askId := some askId})
  claim : ∀ s o usedAt usedBy, d.inv s → OfferOk d o s → o.mode = .once → d.fits s (.handOut [o]) = true →
    d.Keeps s (s.claim o usedAt usedBy).1
  hand : ∀ s offers, d.inv s → (∀ o ∈ offers, OfferOk d o s ∧ o.mode = .standing) →
    d.fits s (.handOut offers) = true → d.Keeps s (s.hand offers)
  writeAsk : ∀ s rec patch, d.inv s → rec.status = .pending → (patch.grantId ≠ none → patch.status = .approved) →
    d.fits s (.writeAsk rec patch) = true → d.Keeps s ((s.mergeAsk rec.id patch).closeAsk rec.id)

namespace Rules

variable (rules : Rules d) {deps : Deps}

theorem draft_slot {input : SaveCredentialInput} {draft : SaveDraft} (drafted : saveDraft deps input = .ok draft) :
    draft.slot = "file" ∨ ∃ text, draft.slot = "env:" ++ text := by
  simp only [saveDraft] at drafted
  split at drafted
  · cases drafted
  · obtain ⟨files,_,drafted⟩ := bind_ok drafted
    unfold draftOf at drafted
    split at drafted
    · cases drafted
      exact .inl rfl
    · obtain ⟨fields,_,rfl⟩ := map_ok drafted
      exact .inr ⟨_,rfl⟩
    · simp only [secretDraft] at drafted
      split at drafted
      · cases drafted
      · split at drafted
        · cases drafted
        · cases drafted
          exact .inr ⟨_,rfl⟩

theorem isOauth_draft {input : SaveCredentialInput} {draft : SaveDraft} (drafted : saveDraft deps input = .ok draft)
    (ownerId service : String) : isOauth (credId ownerId service draft.slot) = false := by
  rcases draft_slot drafted with slot | ⟨text,slot⟩
  · simp [isOauth,credId,slot,List.isPrefixOf]
  · simp [isOauth,credId,slot,List.isPrefixOf]

include rules

theorem saveCredential (input : SaveCredentialInput) : d.Quiet (saveCredential deps input) := by
  intro s
  refine wp_liftExcept fun draft drafted => wp_now fun s₁ _ _ => wp_lookup fun s₂ _ _ => wp_put ?_ ?_
  · exact fun s₃ _ inv _ => rules.save s₃ _ inv (isOauth_draft drafted _ _)
  · exact fun _ _ => wp_pure trivial

theorem revokeIf (test : Bool) (id : GrantId) (s : Vault) : d.Wp (revokeIf test id)
    (fun _ s' => test = true → ∃ s₂ t, d.later s s₂ ∧ d.later (s₂.mergeGrant id (revoked t)) s') s := by
  unfold Credentials.revokeIf
  split
  · refine wp_now fun s₁ le₁ _ => wp_set fun s₂ le₂ inv _ => ⟨rules.revoke s₂ id s₁.clock inv,fun _ => ?_⟩
    exact ⟨s₂,s₁.clock,d.trans _ _ _ le₁ le₂,d.refl _⟩
  next off => exact wp_pure fun on => absurd on off

theorem deleteCredential (id : CredId) : d.Quiet (deleteCredential id) := by
  intro s
  refine wp_lookup fun s₁ _ inv₁ => wp_bind (wp_mono (wp_each (P := fun g s' => g.credentialId = id → Ended d s₁ g s')
    ?_ fun g _ s₂ le₂ => ?_) fun _ s₂ le₂ _ ended _ => ?_)
  · intro g _ _ ended le own
    exact (ended own).later le
  · refine wp_mono (rules.revokeIf _ g.id s₂) fun _ s₃ _ _ done own active => ?_
    obtain ⟨s₄,t,before,after⟩ := done (by simp [own,active])
    exact ⟨s₄,t,d.trans _ _ _ le₂ before,after⟩
  · refine wp_set fun s₃ le₃ inv₃ fits => ⟨?_,trivial⟩
    exact rules.deleteCred s₃ s₁ id inv₁ (d.trans _ _ _ le₂ le₃) inv₃
      (fun g mem own => (ended g mem own).later le₃) fits

theorem remove (ownerId : String) (id : CredId) : d.Quiet (remove deps ownerId id) := by
  intro s
  refine wp_lookup fun s₁ _ _ => ?_
  split
  · exact wp_pure trivial
  · split
    · exact wp_pure trivial
    · exact wp_quiet (rules.deleteCredential id) fun _ _ _ _ => wp_pure trivial

theorem mintGrant (input : CreateGrantInput) (approving : Option KeychainAsk)
    (pending : ∀ ask, approving = some ask → ask.status = .pending) : d.Quiet (mintGrant deps input approving) := by
  intro s
  refine wp_lookup fun s₁ _ inv₁ => wp_demand fun (cred,source) found => ?_
  obtain ⟨cred,stored,same⟩ := Option.map_eq_some_iff.mp found
  cases same
  have key := key_of_find? stored
  refine wp_refuse fun _ => wp_refuse fun _ => wp_refuse fun _ => wp_now fun s₂ le₂ _ => wp_refuse fun _ => ?_
  refine wp_put (fun s₃ le₃ inv₃ fits => ?_) fun _ _ => wp_pure trivial
  have era : (s₁.source input.credentialId).era =
      s₁.audit.eras (mintedGrant input cred (trimmed input.purpose) s₂.clock).credentialId :=
    congrArg s₁.audit.eras key.symm
  rw [era] at fits ⊢
  exact rules.putGrant s₃ s₁ _ approving inv₁ (d.trans _ _ _ le₂ le₃) inv₃ rfl pending fits

theorem grantConnectorToScope (host principalId : String) (accountType : Option String)
    (audienceScopeId purpose : String) :
    d.Quiet (grantConnectorToScope deps host principalId accountType audienceScopeId purpose) := by
  intro s
  refine wp_lookup fun s₁ _ _ => ?_
  split
  · exact wp_pure trivial
  · refine wp_lookup fun s₂ _ _ => ?_
    split
    · exact wp_pure trivial
    · exact wp_quiet (rules.mintGrant _ none (by rintro _ ⟨⟩)) fun _ _ _ _ => wp_pure trivial

theorem reportRevoked {grantId : GrantId} {ok : Bool} (revoked : ok = true → Revoked d grantId s) :
    d.Wp (reportRevoked grantId ok) (fun _ _ => True) s := by
  unfold Credentials.reportRevoked
  split
  next on =>
    obtain ⟨s₁,g,before,found,rfl,ended⟩ := revoked on
    refine wp_set fun s₂ le₂ inv₂ _ => ⟨?_,trivial⟩
    exact rules.report s₂ s₁ g (d.trans _ _ _ before le₂) inv₂ found (ended.later le₂)
  · exact wp_pure trivial

theorem revokeGrant (ownerId : String) (grantId : GrantId) (s : Vault) :
    d.Wp (revokeGrant deps ownerId grantId) (fun ok s' => ok = true → Revoked d grantId s') s := by
  refine wp_lookup fun s₁ _ _ => ?_
  split
  · exact wp_pure nofun
  next g found =>
    split
    · exact wp_pure nofun
    · refine wp_bind (wp_mono (rules.revokeIf _ grantId s₁) fun _ s₂ le₂ _ done _ => wp_pure fun _ => ?_)
      obtain rfl := key_of_find? found
      exact ⟨s₁,g,le₂,found,rfl,fun active => done (decide_eq_true active)⟩

theorem revokeAndReport (ownerId : String) (grantId : GrantId) :
    d.Quiet (Credentials.revokeGrant deps ownerId grantId >>= Credentials.reportRevoked grantId) := fun s =>
  wp_bind (wp_mono (rules.revokeGrant ownerId grantId s) fun _ _ _ _ revoked _ => rules.reportRevoked revoked)

theorem freshAsk (rec : KeychainAsk) (t : Int) (s : Vault) :
    d.Wp (freshAsk rec t) (fun ask _ => ask.status = .pending → ask = rec) s := by
  unfold Credentials.freshAsk
  split
  · exact wp_pure fun _ => rfl
  next overdue =>
    have pending : rec.status = .pending := by
      by_contra other
      exact overdue (.inl other)
    refine wp_put (fun s₁ _ inv fits => rules.writeAsk s₁ rec _ inv pending (absurd rfl) fits) fun _ _ => ?_
    exact wp_pure (by rintro ⟨⟩)

theorem getAsk (id : String) : d.Quiet (getAsk id) := by
  intro s
  refine wp_lookup fun s₁ _ _ => ?_
  split
  · exact wp_pure trivial
  next found _ =>
    exact wp_now fun s₂ _ _ => wp_bind (wp_mono (rules.freshAsk found _ s₂) fun _ _ _ _ _ _ => wp_pure trivial)

theorem listAsks (filter : AskListFilter) : d.Quiet (listAsks deps filter) := by
  intro s
  refine wp_now fun s₁ _ _ => wp_lookup fun s₂ _ _ => wp_bind (wp_mono (wp_collect (P := fun _ => True) ?_) ?_)
  · exact fun found _ s₃ _ =>
      wp_bind (wp_mono (rules.freshAsk found _ s₃) fun _ _ _ _ _ _ => wp_pure fun _ _ => trivial)
  · exact fun _ _ _ _ _ _ => wp_pure trivial

theorem approveAsk (input : ApproveAskInput) : d.Quiet (approveAsk deps input) := by
  intro s
  refine wp_lookup fun s₁ _ _ => wp_demand fun found _ => wp_now fun s₂ _ _ => ?_
  refine wp_bind (wp_mono (rules.freshAsk found _ s₂) fun ask s₃ _ _ _ _ => wp_refuse fun waits => ?_)
  have pending : ask.status = .pending := by simpa using waits
  refine wp_quiet (rules.mintGrant _ (some ask) ?_) fun grant s₄ _ _ => wp_put ?_ fun _ _ => wp_pure trivial
  · rintro _ ⟨⟩
    exact pending
  · exact fun s₅ _ inv fits => rules.writeAsk s₅ ask _ inv pending (fun _ => rfl) fits

theorem declineAsk (askId ownerId : String) (note : Option String) : d.Quiet (declineAsk deps askId ownerId note) := by
  intro s
  refine wp_lookup fun s₁ _ _ => wp_demand fun found _ => wp_refuse fun _ => wp_now fun s₂ _ _ => ?_
  refine wp_bind (wp_mono (rules.freshAsk found _ s₂) fun ask s₃ _ _ _ _ => wp_refuse fun waits => ?_)
  have pending : ask.status = .pending := by simpa using waits
  exact wp_put (fun s₄ _ inv fits => rules.writeAsk s₄ ask _ inv pending (absurd rfl) fits) fun _ _ => wp_pure trivial

theorem adoptAsk (grant : KeychainGrant) (t : Int) (found : KeychainAsk) : d.Quiet (adoptAsk grant t found) := by
  intro s
  refine wp_bind (wp_mono (rules.freshAsk found t s) fun ask s₁ _ _ _ _ => ?_)
  split
  · exact wp_pure trivial
  next matching =>
    have pending : ask.status = .pending := by
      by_contra other
      exact matching (.inl other)
    refine wp_put (fun s₂ _ inv fits => rules.writeAsk s₂ ask _ inv pending (fun _ => rfl) fits) fun s₂ _ => ?_
    exact wp_put (fun s₃ _ inv _ => rules.adopt s₃ grant.id ask.id inv) fun _ _ => wp_pure trivial

theorem resolveAsksForGrant (grant : KeychainGrant) : d.Quiet (resolveAsksForGrant grant) := by
  intro s
  refine wp_now fun s₁ _ _ => wp_lookup fun s₂ _ _ => ?_
  refine wp_mono (wp_collect (P := fun _ => True) ?_) fun _ _ _ _ _ => trivial
  exact fun found _ s₃ _ => wp_mono (rules.adoptAsk grant _ found s₃) fun _ _ _ _ _ _ _ => trivial

theorem putConnectorToken (host principalId : String) (token : OAuthToken) (accountType : Option String) :
    d.Quiet (putConnectorToken deps host principalId token accountType none) := by
  intro s
  refine wp_now fun s₁ _ _ => wp_lookup fun s₂ _ _ => wp_quiet ?_ fun _ _ _ _ => wp_pure trivial
  exact quiet_set _ fun s₃ inv _ => rules.setToken s₃ _ inv

structure ReadFrom (d : Discipline Vault KeyLabel) (rec : KeychainCredential) (source : Source) (s : Vault) : Prop where
  read : ∃ s₀, d.inv s₀ ∧ d.later s₀ s ∧ s₀.creds.find? rec.id = some rec ∧ s₀.source rec.id = source

omit rules in
theorem ReadFrom.later {rec : KeychainCredential} {source : Source} (read : ReadFrom d rec source s)
    (le : d.later s s') : ReadFrom d rec source s' := by
  obtain ⟨s₀,inv,before,rest⟩ := read.read
  exact ⟨s₀,inv,d.trans _ _ _ before le,rest⟩

variable {source : Source} {rec : KeychainCredential}

theorem storeRefreshed (remote : Remote) (host : String)
    (stored : OAuthToken) (read : ReadFrom d rec source s) :
    d.Wp (storeRefreshed deps remote host rec source stored) (fun _ _ => True) s := by
  obtain ⟨s₀,inv₀,before,found,rfl⟩ := read.read
  refine wp_lookup fun s₁ le₁ _ => wp_liftExcept fun fresh _ => wp_bind ?_
  refine wp_now fun s₂ le₂ _ => wp_lookup fun s₃ le₃ _ => wp_put (fun s₄ le₄ inv₄ fits => ?_) fun _ _ =>
    wp_pure fun _ => wp_pure trivial
  have le := d.trans _ _ _ before (d.trans _ _ _ le₁ (d.trans _ _ _ le₂ (d.trans _ _ _ le₃ le₄)))
  exact rules.refreshed s₄ s₀ rec _ inv₀ le inv₄ found fits

theorem markConnectorRefreshFailure (message : String)
    (read : ReadFrom d rec source s) : d.Wp (markConnectorRefreshFailure rec source message) (fun _ _ => True) s := by
  obtain ⟨s₀,inv₀,before,found,rfl⟩ := read.read
  refine wp_now fun s₁ le₁ _ => wp_lookup fun s₂ le₂ _ => ?_
  split
  · exact wp_pure trivial
  · split
    · exact wp_pure trivial
    · refine wp_set fun s₃ le₃ inv₃ fits => ⟨?_,trivial⟩
      have le := d.trans _ _ _ before (d.trans _ _ _ le₁ (d.trans _ _ _ le₂ le₃))
      exact rules.refreshFailed s₃ s₀ rec _ _ inv₀ le inv₃ found fits

theorem refreshAndStore (remote : Remote) (host : String)
    (read : ReadFrom d rec source s) : d.Wp (refreshAndStore deps remote host rec source) (fun _ _ => True) s := by
  unfold Credentials.refreshAndStore
  split
  · split
    · exact wp_pure trivial
    next stored _ =>
      refine wp_tryCatch (rules.storeRefreshed remote host stored read) fun e s₁ le₁ => wp_bind ?_
      refine wp_mono (wp_tryCatch (rules.markConnectorRefreshFailure _ (read.later le₁)) ?_) ?_
      · exact fun _ _ _ => wp_pure trivial
      · exact fun _ _ _ _ _ _ => wp_pure trivial
  · exact wp_pure trivial

theorem joinOrRefresh (remote : Remote) (host : String)
    (read : ReadFrom d rec source s) : d.Wp (joinOrRefresh deps remote host rec source) (fun _ _ => True) s := by
  refine wp_quiet (quiet_stmt _ fun s₁ inv _ => ?_) fun (joined,ticket) s₁ le₁ _ => ?_
  · unfold Vault.joinOrStart
    split
    · exact ⟨inv,d.refl s₁⟩
    · exact rules.refreshes s₁ _ _ _ inv
  · dsimp only
    split
    · exact wp_bind (wp_get fun s₂ _ _ _ _ => wp_pure trivial)
    · refine wp_bind (wp_mono (rules.refreshAndStore remote host (read.later le₁)) fun reply s₂ _ _ _ _ => ?_)
      exact wp_put (fun s₃ _ inv _ => rules.refreshes s₃ _ _ _ inv) fun _ _ => wp_pure trivial

theorem connectorTokenForRecord (remote : Remote)
    (read : ReadFrom d rec source s) : d.Wp (connectorTokenForRecord deps remote rec source) (fun _ _ => True) s := by
  refine wp_now fun s₁ le₁ _ => ?_
  split
  · split
    · exact rules.joinOrRefresh remote _ (read.later le₁)
    · exact wp_pure trivial
  · split <;> exact wp_pure trivial

omit rules in
theorem readFrom {id : CredId} {cred : KeychainCredential} {source : Source} (inv : d.inv s)
    (found : (s.creds.find? id).map (fun found => (found,s.source id)) = some (cred,source)) :
    ReadFrom d cred source s := by
  obtain ⟨_,stored,same⟩ := Option.map_eq_some_iff.mp found
  cases same
  obtain rfl := key_of_find? stored
  exact ⟨s,inv,d.refl s,stored,rfl⟩

theorem connectorAccessToken (host principalId : String) (accountType : Option String) (remote : Remote) :
    d.Quiet (connectorAccessToken deps host principalId accountType remote) := by
  intro s
  refine wp_lookup fun s₁ _ inv₁ => ?_
  split
  · exact wp_pure trivial
  next found => exact rules.connectorTokenForRecord remote (readFrom inv₁ found)

theorem connectorValue (remote : Remote)
    (read : ReadFrom d rec source s) : d.Wp (connectorValue deps remote rec source) (fun _ _ => True) s := by
  unfold Credentials.connectorValue
  split
  · exact rules.connectorTokenForRecord remote read
  · exact wp_pure trivial

theorem materializeConnectorEnv (remote : Remote) (extra : Extra)
    (read : ReadFrom d rec source s) :
    d.Wp (materializeConnectorEnv deps remote rec source extra) (fun _ _ => True) s := by
  refine wp_bind (wp_mono (rules.connectorValue remote read) fun value s₁ _ _ _ _ => ?_)
  split
  · exact wp_pure trivial
  · exact wp_throw _

theorem claimOnceGrant {o : Offer} (usedBy : String) (ok : OfferOk d o s) :
    d.Wp (claimOnceGrant deps o usedBy) (fun _ _ => True) s := by
  unfold Credentials.claimOnceGrant
  split
  next standing =>
    refine wp_set fun s₁ le₁ inv fits => ⟨rules.hand s₁ [o] inv (fun x mem => ?_) fits,trivial⟩
    obtain rfl := List.mem_singleton.mp mem
    exact ⟨ok.later le₁,standing⟩
  next once =>
    refine wp_refuse fun _ => wp_now fun s₁ le₁ _ => wp_bind (wp_stmt fun s₂ le₂ inv fits => ⟨?_,fun _ => ?_⟩)
    · exact rules.claim s₂ o _ usedBy inv (ok.later (d.trans _ _ _ le₁ le₂)) once fits
    · refine wp_liftExcept fun claimed _ => ?_
      unfold refuse
      split
      · exact wp_throw _
      · exact wp_pure trivial

theorem materialize (grantId : GrantId) (scopeId usedBy : String) (remote : Remote) :
    d.Quiet (materialize deps grantId scopeId usedBy remote) := by
  intro s
  refine wp_lookup fun s₀ _ _ => wp_lookup fun s₁ le₁ inv₁ => wp_demand fun r found => ?_
  obtain ⟨g,stored,rfl⟩ := Option.map_eq_some_iff.mp found
  obtain rfl := key_of_find? stored
  refine wp_refuse fun scope => wp_refuse fun notRevoked => wp_refuse fun notUsed => wp_now fun s₂ le₂ _ => ?_
  refine wp_refuse fun unexpired => wp_lookup fun s₃ le₃ inv₃ => wp_demand fun (cred,source) read => ?_
  have active : g.status = .active := by
    cases status : g.status with
    | active => rfl
    | revoked => simp [Vault.reading,status] at notRevoked
    | used => simp [Vault.reading,status] at notUsed
  have same : g.audienceScopeId = scopeId := not_not.mp (of_decide_eq_false scope)
  have offered : OfferOk d (offerOf scopeId (s₀.grants.find? g.id) s₀.clock s₂.clock (s₁.reading g)) s₃ := by
    refine ⟨⟨active,same,unexpired⟩,s₁,inv₁,d.trans _ _ _ le₂ le₃,stored,rfl,rfl,fun b is => ?_⟩
    exact ⟨s₀,s₂,le₁,le₂,is,rfl,rfl⟩
  refine wp_refuse fun _ => ?_
  split
  · refine wp_bind (wp_mono (rules.materializeConnectorEnv remote _ (readFrom inv₃ read)) fun m s₄ le₄ _ _ _ => ?_)
    exact wp_bind (wp_mono (rules.claimOnceGrant usedBy (offered.later le₄)) fun _ _ _ _ _ _ => wp_pure trivial)
  · refine wp_now fun s₄ le₄ _ => wp_refuse fun _ => wp_demand fun m _ => ?_
    exact wp_bind (wp_mono (rules.claimOnceGrant usedBy (offered.later le₄)) fun _ _ _ _ _ _ => wp_pure trivial)

theorem materializeStandingGrant (scopeId : String) (t : Int) (remote : Remote) (r : Reading) (s : Vault) :
    d.Wp (materializeStandingGrant deps scopeId t remote r)
      (fun out _ => ∀ x, out = some x → x.1 = offerOf scopeId none 0 t r ∧ r.grant.mode = .standing) s := by
  unfold Credentials.materializeStandingGrant
  have nothing {s : Vault} : d.Wp (pure none : Key (Option (Offer × MaterializedCred)))
      (fun out _ => ∀ x, out = some x → x.1 = offerOf scopeId none 0 t r ∧ r.grant.mode = .standing) s :=
    wp_pure (by rintro _ ⟨⟩)
  split
  · exact nothing
  next other =>
    have standing : r.grant.mode = .standing := not_not.mp other
    refine wp_lookup fun s₁ _ inv₁ => ?_
    split
    · exact nothing
    next cred source found =>
      split
      · exact nothing
      · split
        · refine wp_bind (wp_mono (rules.connectorValue remote (readFrom inv₁ found)) fun value s₂ _ _ _ _ => ?_)
          split
          · exact wp_pure (by rintro _ ⟨⟩; exact ⟨rfl,standing⟩)
          · exact nothing
        · refine wp_now fun s₂ _ _ => ?_
          split
          · exact nothing
          · refine wp_pure fun x is => ?_
            obtain ⟨m,_,rfl⟩ := Option.map_eq_some_iff.mp is
            exact ⟨rfl,standing⟩

theorem materializeStanding (scopeId : String) (remote : Remote) :
    d.Quiet (materializeStanding deps scopeId remote) := by
  intro s
  refine wp_now fun s₁ _ _ => wp_lookup fun s₂ _ inv₂ => ?_
  have offered (r : Reading) (mem : r ∈ s₂.activeGrantsFor scopeId s₁.clock) :
      OfferOk d (offerOf scopeId none 0 s₁.clock r) s₂ := by
    obtain ⟨g,inside,rfl⟩ := List.mem_map.mp mem
    obtain ⟨stored,test⟩ := List.mem_filter.mp inside
    simp only [Bool.and_eq_true,decide_eq_true_iff,Bool.not_eq_true'] at test
    refine ⟨⟨test.1.2,test.1.1,test.2⟩,s₂,inv₂,d.refl s₂,find?_eq_some.mpr ⟨stored,rfl⟩,rfl,rfl,?_⟩
    rintro _ ⟨⟩
  refine wp_bind (wp_mono (wp_collect (P := fun x : Offer × MaterializedCred => OfferOk d x.1 s₂ ∧ x.1.mode = .standing)
    fun r mem s₃ _ => ?_) fun out s₃ le₃ _ made _ => ?_)
  · refine wp_mono (rules.materializeStandingGrant scopeId s₁.clock remote r s₃) fun x _ _ _ same y is => ?_
    obtain ⟨is_offer,standing⟩ := same y is
    rw [is_offer]
    exact ⟨offered r mem,standing⟩
  · refine wp_put (fun s₄ le₄ inv₄ fits => rules.hand s₄ _ inv₄ (fun o mem => ?_) fits) fun _ _ => wp_pure trivial
    obtain ⟨x,inside,rfl⟩ := List.mem_map.mp mem
    obtain ⟨ok,standing⟩ := made x inside
    exact ⟨ok.later (d.trans _ _ _ le₃ le₄),standing⟩

theorem upholds (deps : Deps) : d.Upholds (keychainSystem deps) where
  programs call s inv := by
    cases call with
    | save input => exact safe_toTask (rules.saveCredential input s) inv
    | remove ownerId id => exact safe_toTask (rules.remove ownerId id s) inv
    | createGrant input => exact safe_toTask (rules.mintGrant input none (by rintro _ ⟨⟩) s) inv
    | grantConnectorToScope host principalId accountType audienceScopeId purpose =>
      exact safe_toTask (rules.grantConnectorToScope host principalId accountType audienceScopeId purpose s) inv
    | revokeGrant ownerId grantId => exact safe_toTask (rules.revokeAndReport ownerId grantId s) inv
    | getAsk id => exact safe_toTask (rules.getAsk id s) inv
    | listAsks filter => exact safe_toTask (rules.listAsks filter s) inv
    | approveAsk input => exact safe_toTask (rules.approveAsk input s) inv
    | declineAsk askId ownerId note => exact safe_toTask (rules.declineAsk askId ownerId note s) inv
    | resolveAsksForGrant grant => exact safe_toTask (rules.resolveAsksForGrant grant s) inv
    | setConnectorToken host principalId token accountType =>
      exact safe_toTask (rules.putConnectorToken host principalId token accountType s) inv
    | deleteConnectorToken => exact safe_toTask (rules.deleteCredential _ s) inv
    | connectorAccessToken host principalId accountType remote =>
      exact safe_toTask (rules.connectorAccessToken host principalId accountType remote s) inv
    | materialize grantId scopeId usedBy remote =>
      exact safe_toTask (rules.materialize grantId scopeId usedBy remote s) inv
    | materializeStanding scopeId remote => exact safe_toTask (rules.materializeStanding scopeId remote s) inv
  env ms s inv := rules.clock s ms inv

end Rules

def plainDeps : Deps := ⟨⟨id⟩,id,id,true,true,none,none,"store unavailable"⟩

def anaInput : SaveCredentialInput := ⟨"ana","github",some "hunter2",some "GITHUB_TOKEN",none,none,none,none,none⟩

def anaGithub : KeychainCredential where
  id := credId "ana" "github" "env:GITHUB_TOKEN"
  ownerId := "ana"
  service := "github"
  kind := .env
  envKey := some "GITHUB_TOKEN"
  fields := none
  targets := none
  host := none
  broker := none
  refresh := none
  managed := false
  secretEnc := some (encryptSecret (.raw "hunter2"))
  fingerprint := some (.raw "hunter2")
  expiresAt := none
  createdAt := 0
  updatedAt := 0

def calling (i : Nat) (call : KeychainCall) (steps : Nat) : List KeyStep :=
  .spawn i call :: List.replicate steps (.run i)

end CompanyBrain.Credentials
