import CompanyBrain.Credentials.KeychainRules
import CompanyBrain.Foundations.Outcomes

namespace CompanyBrain.Credentials.Availability

open Foundations Prog

-- A refresh that a call has joined settles, with this outcome, before the call goes on.
def settling (outcome : Nat → Option String) : KeyLabel → Vault → Vault
  | .await ticket, s => {s with replies := Function.update s.replies ticket (some (outcome ticket))}
  | _, s => s

variable (deps : Deps)

structure Valid (rec : KeychainCredential) (t : Int) : Prop where
  readable : (rec.secretEnc.bind decryptText).isSome
  fresh : oauthExpired deps rec t = false

def refreshDue (rec : KeychainCredential) (t : Int) : Bool :=
  (refreshable deps rec).isSome && rec.expiresAt.any (· - oauthRefreshMargin deps ≤ t)

def GivesToken (host principalId : String) (accountType : Option String) (remote : Remote)
    (outcome : Nat → Option String) (s : Vault) : Prop :=
  (connectorAccessToken deps host principalId accountType remote).Answers (settling outcome) s none →
    ∀ rec, s.creds.find? (oauthId deps host principalId accountType) = some rec → ¬Valid deps rec s.clock

def Refreshes (remote : Remote) (outcome : Nat → Option String) (s : Vault) (rec : KeychainCredential) : Prop :=
  match s.inflight rec.id with
  | some ticket => outcome ticket ≠ none
  | none => ∃ host stored fresh, refreshable deps rec = some host ∧ recToOAuthToken rec = some stored ∧
      remote host stored = .ok fresh ∧ fresh.accessToken ≠ ""

def freshToken (remote : Remote) (host : String) (rec : KeychainCredential) : Option String :=
  (recToOAuthToken rec).bind fun stored => (checkedReply (remote host stored)).toOption.map OAuthToken.accessToken

variable {deps} {remote : Remote} {outcome : Nat → Option String} {s : Vault} {rec : KeychainCredential}

theorem answers_lookup {α β : Type} {read : Vault → α} {f : α → Key β} {b : β}
    (rest : (f (read s)).Answers (settling outcome) s b) : (lookup read >>= f).Answers (settling outcome) s b :=
  answers_stmt rest

theorem answers_mark (source : Source) (message : String) (s : Vault) :
    (markConnectorRefreshFailure rec source message).Answers (settling outcome) s () := by
  refine answers_stmt (answers_stmt ?_)
  simp only [settling]
  split
  · exact answers_pure () _
  · split
    · exact answers_pure () _
    · exact answers_stmt (answers_pure () _)

theorem answers_refresh (configured : deps.refreshConnector = true) (host : String) (source : Source) (s : Vault) :
    (refreshAndStore deps remote host rec source).Answers (settling outcome) s (freshToken remote host rec) := by
  rw [refreshAndStore,if_pos configured,freshToken]
  cases recToOAuthToken rec with
  | none => exact answers_pure none s
  | some stored =>
    simp only [Option.bind_some]
    cases reply : checkedReply (remote host stored) with
    | ok fresh =>
      refine answers_tried (answers_stmt ?_)
      simp only [reply]
      have put (s₁ : Vault) : ∃ put, (putConnectorToken deps host rec.ownerId (mergedToken stored fresh)
          (rec.refresh.bind CredentialRefresh.accountType) (some source)).Answers (settling outcome) s₁ put :=
        ⟨_,answers_stmt (answers_stmt (answers_stmt (answers_pure _ _)))⟩
      refine answers_bind (answers_pure fresh _) fun s₁ => ?_
      obtain ⟨_,made⟩ := put s₁
      exact answers_bind made fun s₂ => answers_pure _ s₂
    | error e =>
      refine answers_caught (e := e) (raises_stmt ?_) fun s' => ?_
      · simp only [reply]
        exact raises_throw e _
      · exact answers_bind (answers_tried (answers_mark source _ s')) fun s'' => answers_pure none s''

theorem freshToken_ne_none {host : String} (here : refreshable deps rec = some host) :
    freshToken remote host rec ≠ none ↔ ∃ host stored fresh, refreshable deps rec = some host ∧
      recToOAuthToken rec = some stored ∧ remote host stored = .ok fresh ∧ fresh.accessToken ≠ "" := by
  constructor
  · intro given
    unfold freshToken at given
    cases stored : recToOAuthToken rec with
    | none => simp [stored] at given
    | some token =>
      cases reply : remote host token with
      | error => simp [stored,reply,checkedReply,Except.toOption] at given
      | ok fresh =>
        refine ⟨host,token,fresh,here,rfl,reply,fun empty => ?_⟩
        simp [stored,reply,checkedReply,empty,Except.toOption] at given
  · rintro ⟨host',stored,fresh,same,decrypts,reply,nonempty⟩
    cases here.symm.trans same
    simp [freshToken,decrypts,reply,checkedReply,nonempty,Except.toOption]

theorem answers_due (due : refreshDue deps rec s.clock) (source : Source) :
    ∃ reply, (connectorTokenForRecord deps remote rec source).Answers (settling outcome) s reply ∧
      (reply ≠ none ↔ Refreshes deps remote outcome s rec) := by
  obtain ⟨refreshes,late⟩ := Bool.and_eq_true_iff.mp due
  obtain ⟨host,here⟩ := Option.isSome_iff_exists.mp refreshes
  have configured : deps.refreshConnector = true := by
    unfold refreshable at here
    split at here
    next both => exact (Bool.and_eq_true_iff.mp both).2
    · cases here
  unfold Refreshes
  cases joined : s.inflight rec.id with
  | some ticket =>
    refine ⟨outcome ticket,answers_lookup ?_,Iff.rfl⟩
    simp only [here]
    rw [if_pos late]
    refine answers_stmt ?_
    simp only [settling,Vault.joinOrStart,joined]
    refine answers_stmt ?_
    simp only [settling,Function.update_self,Option.getD_some]
    exact answers_pure _ _
  | none =>
    refine ⟨freshToken remote host rec,answers_lookup ?_,freshToken_ne_none here⟩
    simp only [here]
    rw [if_pos late]
    refine answers_stmt ?_
    simp only [settling,Vault.joinOrStart,joined]
    exact answers_bind (answers_refresh configured host source _) fun s₁ => answers_stmt (answers_pure _ _)

theorem answers_early (early : refreshDue deps rec s.clock = false) (valid : Valid deps rec s.clock) (source : Source) :
    ∃ token, (connectorTokenForRecord deps remote rec source).Answers (settling outcome) s (some token) := by
  obtain ⟨token,readable⟩ := Option.isSome_iff_exists.mp valid.readable
  refine ⟨token,answers_lookup ?_⟩
  cases refreshes : refreshable deps rec with
  | none =>
    simp only [valid.fresh,readable]
    exact answers_pure _ _
  | some host =>
    have late : rec.expiresAt.any (· - oauthRefreshMargin deps ≤ s.clock) = false := by
      simpa [refreshDue,refreshes] using early
    simp only [late,readable]
    exact answers_pure _ _

theorem givesToken_iff (deps : Deps) (host principalId : String) (accountType : Option String) (remote : Remote)
    (outcome : Nat → Option String) (s : Vault) : GivesToken deps host principalId accountType remote outcome s ↔
      ∀ rec, s.creds.find? (oauthId deps host principalId accountType) = some rec → Valid deps rec s.clock →
        refreshDue deps rec s.clock → Refreshes deps remote outcome s rec := by
  have call {rec : KeychainCredential} (found : s.creds.find? (oauthId deps host principalId accountType) = some rec)
      {reply : Option String} (answers : (connectorTokenForRecord deps remote rec
        (s.source (oauthId deps host principalId accountType))).Answers (settling outcome) s reply) :
      (connectorAccessToken deps host principalId accountType remote).Answers (settling outcome) s reply := by
    refine answers_lookup ?_
    simp only [found,Option.map_some]
    exact answers
  constructor
  · intro gives rec found valid due
    obtain ⟨reply,answers,refreshes⟩ := answers_due due (s.source (oauthId deps host principalId accountType))
    refine refreshes.mp fun nothing => gives ?_ rec found valid
    rw [← nothing]
    exact call found answers
  · intro refreshes nothing rec found valid
    cases due : refreshDue deps rec s.clock with
    | true =>
      obtain ⟨reply,answers,made⟩ := answers_due due (s.source (oauthId deps host principalId accountType))
      exact made.mpr (refreshes rec found valid due) (answers_unique .plain (call found answers) nothing)
    | false =>
      obtain ⟨token,answers⟩ := answers_early due valid (s.source (oauthId deps host principalId accountType))
      cases answers_unique .plain (call found answers) nothing

def lastingToken : OAuthToken := ⟨"ghp",some "refresh",some 300000,none,none,none,none⟩

def lastingVault : Vault :=
  Vault.start 0 (Table.empty.set (connectorCredential plainDeps "api.github.com" "ana" lastingToken none none 0))
    Table.empty Table.empty

theorem failed_refresh_hides_token :
    ¬GivesToken plainDeps "api.github.com" "ana" none (fun _ _ => .error "unreachable")
      (fun _ => none) lastingVault := by
  have found : lastingVault.creds.find? (oauthId plainDeps "api.github.com" "ana" none) =
      some (connectorCredential plainDeps "api.github.com" "ana" lastingToken none none 0) := by decide +kernel
  intro gives
  have refreshes := (givesToken_iff ..).mp gives _ found ⟨by decide +kernel,by decide +kernel⟩ (by decide +kernel)
  obtain ⟨_,_,_,_,_,reply,_⟩ := refreshes
  cases reply

end CompanyBrain.Credentials.Availability
