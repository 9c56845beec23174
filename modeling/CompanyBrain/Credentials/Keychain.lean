import CompanyBrain.Credentials.Vault
import CompanyBrain.Cron.CronStore

namespace CompanyBrain.Credentials

open Foundations Prog
open Crons (collapseSpaces takeUnits)
open Directory (Letters samePerson)

structure OAuthToken where
  accessToken : String
  refreshToken : Option String
  expiresAt : Option Int
  grantedScopes : Option (List String)
  clientRef : Option String
  accountType : Option String
  orgId : Option String

-- `storeMessage` is the text of an error of the store.
structure Deps where
  letters : Letters
  toUpperCase : Text → Text
  base64 : String → String
  refreshConnector : Bool
  atomicGrants : Bool
  oauthSkewMs : Option Int
  oauthRefreshMarginMs : Option Int
  storeMessage : String

abbrev Remote := String → OAuthToken → Except String OAuthToken

def liftExcept {α : Type} : Except Failure α → Key α
  | .ok a => pure a
  | .error e => throw e

variable (deps : Deps)

def lowered (s : String) : String := String.ofList (deps.letters.toLowerCase s.toList)

def oauthSkew : Int := deps.oauthSkewMs.getD 60000

def oauthRefreshMargin : Int := max (deps.oauthRefreshMarginMs.getD 600000) (oauthSkew deps)

section

variable (remote : Remote) (host : String) (rec : KeychainCredential)

def credExpired (now : Int) : Bool := rec.kind ≠ .file && expired rec.expiresAt now

def screamingSnake (s : String) : Text :=
  (deps.toUpperCase s.toList).map fun c => if c.isUpper || c.isDigit then c else '_'

section

variable (service : String) (input : SaveCredentialInput)

def defaultEnvKey : String := String.ofList (screamingSnake deps service ++ "_TOKEN".toList)

def connectorEnvKey : String := "VAULT_TOKEN_" ++ String.ofList (screamingSnake deps host)

def isEnvKey (s : String) : Bool :=
  match s.toList with
  | [] => false
  | c :: rest => (c.isAlpha || c = '_') && rest.all isWordChar

structure CredentialFieldInput where
  envKey : String
  value : String
  secret : Option Bool

structure SaveCredentialInput where
  ownerId : String
  service : String
  secret : Option String
  envKey : Option String
  fields : Option (List CredentialFieldInput)
  target : Option String
  files : Option (List CredentialFile)
  host : Option String
  expiresAt : Option Int

structure SaveDraft where
  service : String
  kind : CredentialKind
  envKey : Option String
  fields : Option (List CredentialFieldMeta)
  targets : Option (List String)
  secret : Secret
  slot : String

def badRequest {α : Type} (message : String) : Except Failure α := .error (.keychain 400 message)

def stripHomePrefix (target : Text) : Text :=
  let rest := match target with
    | '~' :: '/' :: rest => rest
    | target => target
  if rest = ['~'] then [] else rest

def stripHere : Text → Text
  | '.' :: '/' :: rest => rest
  | path => path

def homeRelativePath (path : Text) : Except String Text :=
  let rel := stripHere (stripHomePrefix path)
  if rel = [] ∨ rel.head? = some '/' ∨ ['.','.'] ∈ rel.splitOn '/' then
    .error ("file path must be home-relative: " ++ String.ofList path)
  else .ok rel

def keychainFilePath (path : String) : Except Failure String :=
  match homeRelativePath path.toList with
  | .ok rel => .ok (String.ofList rel)
  | .error message => badRequest message

def savedFiles : Except Failure (Option (List CredentialFile)) :=
  match input.files.getD [], truthy input.target, truthy input.secret with
  | file :: files, _, _ =>
    some <$> (file :: files).mapM fun f => (fun path => {f with path := path}) <$> keychainFilePath f.path
  | [], some target, some secret =>
    (fun path => some [⟨path,deps.base64 secret⟩]) <$> keychainFilePath target
  | [], _, _ => .ok none

def checkedFields (fields : List CredentialFieldInput) : Except Failure (List CredentialFieldInput) :=
  let fields := fields.map fun f => {f with envKey := trimmed f.envKey}
  if fields.any fun f => !isEnvKey f.envKey then
    badRequest "each credential field needs a valid environment-variable envKey"
  else if fields.any fun f => trimmed f.value = "" then badRequest "each credential field needs a value"
  else if ¬(fields.map CredentialFieldInput.envKey).Nodup then badRequest "credential field envKeys must be unique"
  else .ok fields

def fieldsSlot (fields : List CredentialFieldInput) : String :=
  "env:" ++ ",".intercalate ((fields.map CredentialFieldInput.envKey).insertionSort fun a b => ¬b < a)

def fileDraft (files : List CredentialFile) : SaveDraft :=
  ⟨service,.file,none,none,some (files.map CredentialFile.path),.files files,"file"⟩

def fieldsDraft (fields : List CredentialFieldInput) : SaveDraft :=
  ⟨service,.env,none,some (fields.map fun f => ⟨f.envKey,f.secret ≠ some false⟩),none,
    .fields (fields.map fun f => (f.envKey,f.value)),fieldsSlot fields⟩

def secretDraft : Except Failure SaveDraft :=
  let secret := input.secret.getD ""
  let envKey := (truthy (input.envKey.map trimmed)).getD (defaultEnvKey deps service)
  if trimmed secret = "" then badRequest "empty secret"
  else if !isEnvKey envKey then badRequest "envKey must be a valid environment-variable name"
  else .ok ⟨service,.env,some envKey,none,none,.raw secret,"env:" ++ envKey⟩

def draftOf (files : Option (List CredentialFile)) : Except Failure SaveDraft :=
  match files, input.fields.getD [] with
  | some files, _ => .ok (fileDraft service files)
  | none, field :: fields => fieldsDraft service <$> checkedFields (field :: fields)
  | none, [] => secretDraft deps service input

def saveDraft : Except Failure SaveDraft :=
  let service := lowered deps (trimmed input.service)
  if service = "" then badRequest "service required" else savedFiles deps input >>= draftOf deps service input

def savedCredential (draft : SaveDraft) (prior : Option KeychainCredential) (t : Int) :
    KeychainCredential where
  id := credId input.ownerId draft.service draft.slot
  ownerId := input.ownerId
  service := draft.service
  kind := draft.kind
  envKey := draft.envKey
  fields := draft.fields
  targets := draft.targets
  host := truthy input.host
  broker := none
  refresh := none
  managed := false
  secretEnc := some (encryptSecret draft.secret)
  fingerprint := some draft.secret
  expiresAt := input.expiresAt
  createdAt := (prior.map KeychainCredential.createdAt).getD t
  updatedAt := t

def saveCredential : Key KeychainCredential := do
  let draft ← liftExcept (saveDraft deps input)
  let t ← now
  let prior ← lookup fun s => s.creds.find? (credId input.ownerId draft.service draft.slot)
  let saved := savedCredential input draft prior t
  set .plain .store fun s => s.putCred saved
  return saved

end

section

variable (host principalId : String) (token : OAuthToken) (accountType : Option String)
  (prior : Option KeychainCredential)

def oauthSlot : String :=
  "oauth:" ++ ((truthy accountType).filter (· ≠ "default")).getD ""

def oauthId : CredId :=
  credId principalId (lowered deps host) (oauthSlot accountType)

structure Source where
  id : CredId
  sets : Nat
  era : Nat

def Vault.source (s : Vault) (id : CredId) : Source := ⟨id,s.audit.sets id,s.audit.eras id⟩

def getCred (id : CredId) : Key (Option (KeychainCredential × Source)) :=
  lookup fun s => (s.creds.find? id).map fun found => (found,s.source id)

def connectorCredential (t : Int) : KeychainCredential where
  id := oauthId deps host principalId accountType
  ownerId := principalId
  service := lowered deps host
  kind := .env
  envKey := none
  fields := none
  targets := none
  host := some (lowered deps host)
  broker := none
  refresh := some {
    refreshTokenEnc := (truthy token.refreshToken).map fun text => encryptSecret (.raw text)
    accountType := truthy (token.accountType.or accountType)
    clientRef := truthy token.clientRef
    grantedScopes := token.grantedScopes
    refreshFailedAt := none
    refreshError := none
    orgId := truthy token.orgId}
  managed := true
  secretEnc := some (encryptSecret (.raw token.accessToken))
  fingerprint := some (.raw token.accessToken)
  expiresAt := token.expiresAt
  createdAt := (prior.map KeychainCredential.createdAt).getD t
  updatedAt := t

def putConnectorToken (source : Option Source) : Key KeychainCredential := do
  let t ← now
  let prior ← lookup fun s => s.creds.find? (oauthId deps host principalId accountType)
  let put := connectorCredential deps host principalId token accountType prior t
  match source with
  | none => set .plain .store fun s => s.setToken put
  | some source =>
    set (.refreshed source.id put.id source.sets source.era) .store fun s => s.putRefreshed put source.sets
  return put

end

def decryptText (enc : Sealed) : Option String :=
  match decryptSecret enc with
  | some (.raw text) => some text
  | _ => none

def recToOAuthToken : Option OAuthToken := do
  let accessToken ← rec.secretEnc.bind decryptText
  let refresh := rec.refresh.getD ⟨none,none,none,none,none,none,none⟩
  let refreshToken ← match refresh.refreshTokenEnc with
    | some enc => some <$> decryptText enc
    | none => some none
  return ⟨accessToken,refreshToken,rec.expiresAt,refresh.grantedScopes,truthy refresh.clientRef,
    truthy refresh.accountType,truthy refresh.orgId⟩

def errMessage : Failure → String
  | .keychain _ message => message
  | .refresh message => message
  | .store => deps.storeMessage

def storedRefreshError (e : Failure) : String :=
  let message := trim (collapseSpaces (errMessage deps e).toList)
  String.ofList (if 500 < utf16Length message then takeUnits 497 message ++ "...".toList else message)

def markConnectorRefreshFailure (source : Source) (message : String) : Key Unit := do
  let t ← now
  match ← lookup fun s => s.creds.find? rec.id with
  | none => pure ()
  | some current =>
    if current.updatedAt ≠ rec.updatedAt ∨ current.fingerprint ≠ rec.fingerprint then pure ()
    else
      let refresh := current.refresh.getD ⟨none,none,none,none,none,none,none⟩
      set (.refreshFailed rec.id source.sets source.era) .store fun s =>
        s.mergeRefresh rec.id {refresh with refreshFailedAt := some t, refreshError := some message} t source.sets

def mergedToken (stored fresh : OAuthToken) : OAuthToken :=
  {fresh with
    clientRef := fresh.clientRef.or stored.clientRef
    accountType := fresh.accountType.or stored.accountType
    orgId := fresh.orgId.or stored.orgId}

def checkedReply : Except String OAuthToken → Except Failure OAuthToken
  | .error message => .error (.refresh message)
  | .ok fresh =>
    if fresh.accessToken = "" then .error (.refresh "refresh returned an empty access token") else .ok fresh

def storeRefreshed (source : Source) (stored : OAuthToken) : Key (Option String) := do
  let reply ← lookup fun _ => remote host stored
  let fresh ← liftExcept (checkedReply reply)
  let accountType := rec.refresh.bind CredentialRefresh.accountType
  let _ ← putConnectorToken deps host rec.ownerId (mergedToken stored fresh) accountType (some source)
  return some fresh.accessToken

def refreshAndStore (source : Source) : Key (Option String) :=
  if deps.refreshConnector then
    match recToOAuthToken rec with
    | none => pure none
    | some stored =>
      tryCatch (storeRefreshed deps remote host rec source stored) fun e => do
        tryCatch (markConnectorRefreshFailure rec source (storedRefreshError deps e)) fun _ => pure ()
        return none
  else pure none

def oauthExpired (t : Int) : Bool := rec.expiresAt.any (· - oauthSkew deps ≤ t)

def refreshable : Option String :=
  if (rec.refresh.bind CredentialRefresh.refreshTokenEnc).isSome && deps.refreshConnector then truthy rec.host
  else none

-- A call that joins a refresh waits for it: its read is ready once the refresh has settled.
def joinOrRefresh (remote : Remote) (host : String) (rec : KeychainCredential) (source : Source) :
    Key (Option String) := do
  let (joined,ticket) ← stmt .plain .store fun s => s.joinOrStart rec.id
  match joined with
  | some ticket =>
    let reply ← Prog.get (.await ticket) .store fun s => s.replies ticket
    return reply.getD none
  | none =>
    let reply ← refreshAndStore deps remote host rec source
    set .plain .store fun s => s.settle rec.id ticket reply
    return reply

def connectorTokenForRecord (source : Source) : Key (Option String) := do
  let t ← now
  match refreshable deps rec with
  | some host =>
    if rec.expiresAt.any (· - oauthRefreshMargin deps ≤ t) then joinOrRefresh deps remote host rec source
    else return rec.secretEnc.bind decryptText
  | none => if oauthExpired deps rec t then return none else return rec.secretEnc.bind decryptText

structure Extra where
  grantId : GrantId
  purpose : String

inductive MaterializedCred where
  | env (credentialId : CredId) (ownerId service : String) (env : List (String × String)) (extra : Extra)
  | file (credentialId : CredId) (ownerId service : String) (files : List CredentialFile) (extra : Extra)

def decryptToEnv (extra : Extra) : Option MaterializedCred := do
  let secret ← rec.secretEnc.bind decryptSecret
  let env ← match rec.fields, secret with
    | some fields, .fields values => some (fields.map fun f => (f.envKey,(values.lookup f.envKey).getD ""))
    | none, .raw text => some [(rec.envKey.getD (defaultEnvKey deps rec.service),text)]
    | _, _ => none
  return .env rec.id rec.ownerId rec.service env extra

def decryptToFiles (extra : Extra) : Option MaterializedCred :=
  match rec.secretEnc.bind decryptSecret with
  | some (.files files) => some (.file rec.id rec.ownerId rec.service files extra)
  | _ => none

def materializeDecrypted (extra : Extra) : Option MaterializedCred :=
  if rec.kind = .file then decryptToFiles rec extra else decryptToEnv deps rec extra

def connectorValue (source : Source) : Key (Option String) :=
  if (truthy rec.host).isSome then connectorTokenForRecord deps remote rec source else pure none

def materializeConnectorEnv (source : Source) (extra : Extra) : Key MaterializedCred := do
  let value ← connectorValue deps remote rec source
  match truthy value, truthy rec.host with
  | some value, some host =>
    return .env rec.id rec.ownerId rec.service [(connectorEnvKey deps host,value)] extra
  | _, _ =>
    throw (.keychain 410 "connector token expired and could not be refreshed — its owner must reconnect the app")

end

structure CreateGrantInput where
  credentialId : CredId
  ownerId : String
  audienceScopeId : String
  mode : GrantMode
  purpose : String
  expiresAt : Option Int
  askId : Option String

def mintedGrant (input : CreateGrantInput) (cred : KeychainCredential) (purpose : String) (t : Int) :
    KeychainGrant where
  id := ⟨cred.id,input.audienceScopeId,t,purpose⟩
  credentialId := cred.id
  ownerId := cred.ownerId
  audienceScopeId := input.audienceScopeId
  mode := input.mode
  purpose := purpose
  status := .active
  createdAt := t
  expiresAt := input.expiresAt
  revokedAt := none
  usedAt := none
  usedBy := none
  askId := truthy input.askId

def mintGrant (input : CreateGrantInput) (approving : Option KeychainAsk) : Key KeychainGrant := do
  let (cred,source) ← demand (← getCred input.credentialId) 404 "unknown credential"
  refuse (cred.kind = .broker) 400
    "broker credentials are org-owned and used via the credential broker, not grants"
  refuse (!samePerson deps.letters cred.ownerId input.ownerId) 403
    "only the credential's owner can grant it — and only on a turn the owner themself sent"
  let purpose := trimmed input.purpose
  refuse (purpose = "") 400 "purpose required — record the owner's approval verbatim"
  let t ← now
  refuse (!cred.managed && credExpired cred t) 410 "credential is expired"
  let grant := mintedGrant input cred purpose t
  set (.putGrant grant source.era approving) .store fun s =>
    s.putGrant grant source.era (approving.map KeychainAsk.id)
  return grant

def revoked (t : Int) (g : KeychainGrant) : KeychainGrant := {g with status := .revoked, revokedAt := some t}

def revokeIf (test : Bool) (id : GrantId) : Key Unit :=
  if test then do
    let t ← now
    set .plain .store fun s => s.mergeGrant id (revoked t)
  else pure ()

def grantsOf (id : CredId) (grants : List KeychainGrant) : List GrantId :=
  (grants.filter fun g => g.credentialId = id).map KeychainGrant.id

def deleteCredential (id : CredId) : Key Unit := do
  let (grants,stored) ← lookup fun s => (s.grants.rows,s.audit.stored id)
  each (fun g => revokeIf (g.credentialId = id && g.status = .active) g.id) grants
  set (.deleteCred id stored) .store fun s => (s.deleteCred id).withdraw (grantsOf id grants)

def remove (ownerId : String) (id : CredId) : Key Bool := do
  match ← lookup fun s => s.creds.find? id with
  | none => return false
  | some found =>
    if !samePerson deps.letters found.ownerId ownerId || found.managed || found.kind = .broker then return false
    else
      deleteCredential id
      return true

def grantConnectorToScope (host principalId : String) (accountType : Option String) (audienceScopeId purpose : String) :
    Key (Option KeychainGrant) := do
  let id := oauthId deps host principalId accountType
  match ← getCred id with
  | none => return none
  | some _ =>
    let grants ← lookup fun s => s.grants.rows
    match grants.find? fun g =>
        g.credentialId = id && g.audienceScopeId = audienceScopeId && g.mode = .standing && g.status = .active with
    | some g => return some g
    | none =>
      let grant ← mintGrant deps ⟨id,principalId,audienceScopeId,.standing,purpose,none,none⟩ none
      return some grant

def revokeGrant (ownerId : String) (grantId : GrantId) : Key Bool := do
  match ← lookup fun s => s.grants.find? grantId with
  | none => return false
  | some g =>
    if !samePerson deps.letters g.ownerId ownerId then return false
    else
      revokeIf (g.status = .active) grantId
      return true

def claimOnceGrant (offer : Offer) (usedBy : String) : Key Unit :=
  match offer.mode with
  | .standing => set (.handOut [offer]) .store fun s => s.hand [offer]
  | .once => do
    refuse (!deps.atomicGrants) 503 "grant store does not support atomic one-time use"
    let usedAt ← now
    let claimed ← stmt (.handOut [offer]) .store fun s => s.claim offer usedAt usedBy
    refuse (!(← liftExcept claimed)) 404 "unknown grant"

def offerOf (scopeId : String) (began : Option KeychainGrant) (beganAt testedAt : Int) (r : Reading) : Offer :=
  ⟨r.grant,scopeId,began,beganAt,testedAt,r.approved,r.era⟩

def materialize (grantId : GrantId) (scopeId usedBy : String) (remote : Remote) : Key MaterializedCred := do
  let (began,beganAt) ← lookup fun s => (s.grants.find? grantId,s.clock)
  let r ← demand (← lookup fun s => (s.grants.find? grantId).map s.reading) 404 "unknown grant"
  refuse (r.grant.audienceScopeId ≠ scopeId) 403 "grant is for a different conversation"
  refuse (r.grant.status = .revoked) 410 "grant was revoked"
  refuse (r.grant.status = .used) 410 "one-time grant already used"
  let t ← now
  refuse (expired r.grant.expiresAt t) 410 "grant is expired"
  let (cred,source) ← demand (← getCred r.grant.credentialId) 404 "credential no longer exists"
  refuse (cred.kind = .broker) 403
    "broker credentials are not grantable — they are used via the credential broker"
  let extra : Extra := ⟨r.grant.id,r.grant.purpose⟩
  if cred.managed then
    let m ← materializeConnectorEnv deps remote cred source extra
    claimOnceGrant deps (offerOf scopeId began beganAt t r) usedBy
    return m
  else
    let t' ← now
    refuse (credExpired cred t') 410 "credential is expired"
    let m ← demand (materializeDecrypted deps cred extra) 422 "credential does not decrypt under the current key"
    claimOnceGrant deps (offerOf scopeId began beganAt t r) usedBy
    return m

def Vault.activeGrantsFor (s : Vault) (scopeId : String) (t : Int) : List Reading :=
  (s.grants.rows.filter fun g =>
    g.audienceScopeId = scopeId && g.status = .active && !expired g.expiresAt t).map s.reading

def materializeStandingGrant (scopeId : String) (testedAt : Int) (remote : Remote) (r : Reading) :
    Key (Option (Offer × MaterializedCred)) := do
  let extra : Extra := ⟨r.grant.id,r.grant.purpose⟩
  let offer := offerOf scopeId none 0 testedAt r
  if r.grant.mode ≠ .standing then return none
  else
    match ← getCred r.grant.credentialId with
    | none => return none
    | some (cred,source) =>
      if cred.kind ≠ .env then return none
      else if cred.managed then
        let value ← connectorValue deps remote cred source
        match truthy value, truthy cred.host with
        | some value, some host =>
          return some (offer,.env cred.id cred.ownerId cred.service [(connectorEnvKey deps host,value)] extra)
        | _, _ => return none
      else
        let t ← now
        if credExpired cred t then return none
        else return (decryptToEnv deps cred extra).map fun m => (offer,m)

def materializeStanding (scopeId : String) (remote : Remote) : Key (List MaterializedCred) := do
  let t ← now
  let readings ← lookup fun s => s.activeGrantsFor scopeId t
  let out ← collect (materializeStandingGrant deps scopeId t remote) readings
  set (.handOut (out.map Prod.fst)) .store fun s => s.hand (out.map Prod.fst)
  return out.map Prod.snd

def mergeAsk (rec : KeychainAsk) (patch : AskPatch) : Key Unit :=
  set (.writeAsk rec patch) .store fun s => (s.mergeAsk rec.id patch).closeAsk rec.id

def freshAsk (rec : KeychainAsk) (t : Int) : Key KeychainAsk :=
  if rec.status ≠ .pending ∨ t ≤ rec.expiresAt then pure rec
  else do
    let patch : AskPatch := ⟨.expired,t,none,none,none⟩
    mergeAsk rec patch
    return patch.apply rec

def getAsk (id : String) : Key (Option KeychainAsk) := do
  match ← lookup fun s => s.asks.find? id with
  | none => return none
  | some found =>
    let t ← now
    let ask ← freshAsk found t
    return some ask

structure AskListFilter where
  requesterId : Option String
  ownerId : Option String
  requesterScopeId : Option String

def AskListFilter.keeps (filter : AskListFilter) (a : KeychainAsk) : Bool :=
  filter.requesterId.all (samePerson deps.letters a.requesterId) &&
    filter.ownerId.all (samePerson deps.letters a.ownerId) && filter.requesterScopeId.all (a.requesterScopeId = ·)

def listAsks (filter : AskListFilter) : Key (List KeychainAsk) := do
  let t ← now
  let all ← lookup fun s => s.asks.rows
  let out ← collect (fun found => do
    let a ← freshAsk found t
    return if filter.keeps deps a then some a else none) all
  return out.insertionSort fun x y => x.createdAt ≤ y.createdAt

structure ApproveAskInput where
  askId : String
  ownerId : String
  mode : GrantMode
  purpose : String
  expiresAt : Option Int

def approveAsk (input : ApproveAskInput) : Key (KeychainAsk × KeychainGrant) := do
  let found ← demand (← lookup fun s => s.asks.find? input.askId) 404 "unknown ask"
  let t ← now
  let ask ← freshAsk found t
  refuse (ask.status ≠ .pending) 410 ("ask already " ++ ask.status.text)
  let grant ← mintGrant deps
    ⟨ask.credentialId,input.ownerId,ask.requesterScopeId,input.mode,input.purpose,input.expiresAt,some ask.id⟩
    (some ask)
  let patch : AskPatch := ⟨.approved,t,some grant.id,none,none⟩
  mergeAsk ask patch
  return (patch.apply ask,grant)

def declineAsk (askId ownerId : String) (note : Option String) : Key KeychainAsk := do
  let found ← demand (← lookup fun s => s.asks.find? askId) 404 "unknown ask"
  refuse (!samePerson deps.letters found.ownerId ownerId) 403 "only the credential's owner can decline an ask"
  let t ← now
  let ask ← freshAsk found t
  refuse (ask.status ≠ .pending) 410 ("ask already " ++ ask.status.text)
  let patch : AskPatch := ⟨.declined,t,none,truthy (note.map trimmed),none⟩
  mergeAsk ask patch
  return patch.apply ask

def adoptAsk (grant : KeychainGrant) (t : Int) (found : KeychainAsk) : Key (Option KeychainAsk) := do
  let a ← freshAsk found t
  if a.status ≠ .pending ∨ a.credentialId ≠ grant.credentialId ∨ a.requesterScopeId ≠ grant.audienceScopeId then
    return none
  else
    let patch : AskPatch := ⟨.approved,t,some grant.id,none,some t⟩
    mergeAsk a patch
    set .plain .store fun s => s.mergeGrant grant.id fun g => {g with askId := some a.id}
    return some (patch.apply a)

def resolveAsksForGrant (grant : KeychainGrant) : Key (List KeychainAsk) := do
  let t ← now
  let all ← lookup fun s => s.asks.rows
  collect (adoptAsk grant t) all

inductive KeychainCall where
  | save (input : SaveCredentialInput)
  | remove (ownerId : String) (id : CredId)
  | createGrant (input : CreateGrantInput)
  | grantConnectorToScope (host principalId : String) (accountType : Option String) (audienceScopeId purpose : String)
  | revokeGrant (ownerId : String) (grantId : GrantId)
  | getAsk (id : String)
  | listAsks (filter : AskListFilter)
  | approveAsk (input : ApproveAskInput)
  | declineAsk (askId ownerId : String) (note : Option String)
  | resolveAsksForGrant (grant : KeychainGrant)
  | setConnectorToken (host principalId : String) (token : OAuthToken) (accountType : Option String)
  | deleteConnectorToken (host principalId : String) (accountType : Option String)
  | connectorAccessToken (host principalId : String) (accountType : Option String) (remote : Remote)
  | materialize (grantId : GrantId) (scopeId usedBy : String) (remote : Remote)
  | materializeStanding (scopeId : String) (remote : Remote)

def connectorAccessToken (host principalId : String) (accountType : Option String) (remote : Remote) :
    Key (Option String) := do
  match ← getCred (oauthId deps host principalId accountType) with
  | none => return none
  | some (found,source) => connectorTokenForRecord deps remote found source

def reportRevoked (grantId : GrantId) (revoked : Bool) : Key Unit :=
  if revoked then set .plain .store fun s => s.withdraw [grantId] else pure ()

def KeychainCall.task : KeychainCall → Task Vault KeyLabel
  | .save input => (saveCredential deps input).toTask
  | .remove ownerId id => (Credentials.remove deps ownerId id).toTask
  | .createGrant input => (mintGrant deps input none).toTask
  | .grantConnectorToScope host principalId accountType audienceScopeId purpose =>
    (Credentials.grantConnectorToScope deps host principalId accountType audienceScopeId purpose).toTask
  | .revokeGrant ownerId grantId => (Credentials.revokeGrant deps ownerId grantId >>= reportRevoked grantId).toTask
  | .getAsk id => (Credentials.getAsk id).toTask
  | .listAsks filter => (Credentials.listAsks deps filter).toTask
  | .approveAsk input => (Credentials.approveAsk deps input).toTask
  | .declineAsk askId ownerId note => (Credentials.declineAsk deps askId ownerId note).toTask
  | .resolveAsksForGrant grant => (Credentials.resolveAsksForGrant grant).toTask
  | .setConnectorToken host principalId token accountType =>
    (putConnectorToken deps host principalId token accountType none).toTask
  | .deleteConnectorToken host principalId accountType =>
    (deleteCredential (oauthId deps host principalId accountType)).toTask
  | .connectorAccessToken host principalId accountType remote =>
    (Credentials.connectorAccessToken deps host principalId accountType remote).toTask
  | .materialize grantId scopeId usedBy remote => (Credentials.materialize deps grantId scopeId usedBy remote).toTask
  | .materializeStanding scopeId remote => (Credentials.materializeStanding deps scopeId remote).toTask

def Vault.ready (s : Vault) : KeyLabel → Bool
  | .await ticket => (s.replies ticket).isSome
  | _ => true

def keychainSystem : Service Vault KeyLabel KeychainCall Nat :=
  ⟨⟨KeychainCall.task deps,fun ms s => {s with clock := s.clock + ms}⟩,Vault.ready⟩

abbrev KeyPool := Pool Vault KeyLabel

abbrev KeyStep := PoolStep KeychainCall Nat

end CompanyBrain.Credentials
