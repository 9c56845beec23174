import CompanyBrain.Board.Posts
import CompanyBrain.Foundations.History

namespace CompanyBrain.Board

open Foundations

def CODE_TTL_MS : Nat := 2 * 60000

inductive LimitKey where
  | oauthCode (nonce : String)
  | other (key : String)
deriving DecidableEq

structure RateLimit where
  key : LimitKey
  windowStart : Nat
  hits : Nat
  windowMs : Nat

def countHit (row : RateLimit) (windowMs t : Nat) : RateLimit :=
  if row.windowStart + windowMs ≤ t then ⟨row.key,t,1,windowMs⟩
  else {row with hits := row.hits+1, windowMs := windowMs}

-- One upsert; `t` is the clock as read before the statement was sent.
def hit (limits : Table RateLimit.key) (key : LimitKey) (windowMs t : Nat) : Table RateLimit.key × Nat :=
  let row := match limits.find? key with
    | none => ⟨key,t,1,windowMs⟩
    | some row => countHit row windowMs t
  (limits.set row,row.hits)

def purgeLimits (limits : Table RateLimit.key) (t : Nat) : Table RateLimit.key :=
  limits.filter fun row => !(row.windowStart + max row.windowMs HOUR_MS < t)

structure Hashing where
  fingerprint : String → String
  fingerprint_injective : Function.Injective fingerprint
  sha256 : Text → String

structure NewCode where
  uid : Nat
  clientId : String
  redirectUri : String
  challenge : String

structure CodeGrant where
  uid : Nat
  client : String
  redirectUri : String
  challenge : String
  expiresAt : Nat
  nonce : String

structure IssuedCode where
  asked : NewCode
  nonce : String
  time : Nat

def issueCode (hashing : Hashing) (code : IssuedCode) : CodeGrant :=
  ⟨code.asked.uid,hashing.fingerprint code.asked.clientId,code.asked.redirectUri,code.asked.challenge,
    code.time + CODE_TTL_MS,code.nonce⟩

-- A code is known by the place of its issue; nothing else opens as a code.
def unsealCode (hashing : Hashing) (issued : List IssuedCode) (code : Nat) : Option CodeGrant :=
  issued[code]?.map (issueCode hashing)

def isVerifierChar (c : Char) : Bool := c.isAlphanum || c = '-' || c = '.' || c = '_' || c = '~'

def validVerifier (verifier : Text) : Bool :=
  43 ≤ verifier.length && verifier.length ≤ 128 && verifier.all isVerifierChar

structure TokenRequest where
  grantType : String
  clientId : String
  code : Nat
  redirectUri : String
  verifier : Text
deriving DecidableEq

def redeemCode (hashing : Hashing) (issued : List IssuedCode) (input : TokenRequest) (now : Nat) :
    Option (Nat × String) :=
  match unsealCode hashing issued input.code with
  | none => none
  | some grant =>
    if grant.expiresAt ≤ now || grant.client ≠ hashing.fingerprint input.clientId ||
        grant.redirectUri ≠ input.redirectUri then none
    else if !validVerifier input.verifier then none
    else if hashing.sha256 input.verifier ≠ grant.challenge then none
    else some (grant.uid,grant.nonce)

inductive TokenError where
  | unsupportedGrantType | invalidClient | invalidGrant | serverError
deriving DecidableEq

structure Redemption where
  request : TokenRequest
  uid : Nat
  nonce : String
  checkedAt : Nat
deriving DecidableEq

inductive TokenPhase where
  | idle
  | redeemed (r : Redemption)
  | counting (r : Redemption) (t : Nat)
  | passed (r : Redemption)
  | granted (r : Redemption) (t : Nat)
  | refused (error : TokenError)
deriving DecidableEq

structure TokenDesk where
  clock : Nat
  issued : List IssuedCode
  limits : Table RateLimit.key
  requests : Nat → TokenPhase
  purges : Nat → Option Nat

def TokenDesk.start : TokenDesk := ⟨0,[],Table.empty,fun _ => .idle,fun _ => none⟩

inductive TokenEvent where
  | tick (ms : Nat)
  | issue (asked : NewCode) (nonce : String)
  | begin (i : Nat) (request : TokenRequest)
  | read (i : Nat)
  | count (i : Nat)
  | fail (i : Nat)
  | lose (i : Nat)
  | finish (i : Nat) (issued : Bool)
  | limit (key : String) (windowMs t : Nat)
  | purge (k : Nat)
  | sweep (k : Nat)

def TokenDesk.set (s : TokenDesk) (i : Nat) (phase : TokenPhase) : TokenDesk :=
  {s with requests := Function.update s.requests i phase}

section

variable (hashing : Hashing) (known : String → Bool)

def beginToken (s : TokenDesk) (request : TokenRequest) : TokenPhase :=
  if request.grantType ≠ "authorization_code" then .refused .unsupportedGrantType
  else if !known request.clientId then .refused .invalidClient
  else
    match redeemCode hashing s.issued request s.clock with
    | none => .refused .invalidGrant
    | some (uid,nonce) => .redeemed ⟨request,uid,nonce,s.clock⟩

def countToken (s : TokenDesk) (r : Redemption) (t : Nat) : Table RateLimit.key × Nat :=
  hit s.limits (.oauthCode r.nonce) (CODE_TTL_MS * 2) t

def TokenDesk.step (s : TokenDesk) : TokenEvent → TokenDesk
  | .tick ms => {s with clock := s.clock + ms}
  | .issue asked nonce => {s with issued := s.issued ++ [⟨asked,nonce,s.clock⟩]}
  | .begin i request =>
    match s.requests i with
    | .idle => s.set i (beginToken hashing known s request)
    | _ => s
  | .read i =>
    match s.requests i with
    | .redeemed r => s.set i (.counting r s.clock)
    | _ => s
  | .count i =>
    match s.requests i with
    | .counting r t =>
      {s.set i (if 1 < (countToken s r t).2 then .refused .invalidGrant else .passed r) with
        limits := (countToken s r t).1}
    | _ => s
  | .fail i =>
    match s.requests i with
    | .redeemed _ | .counting _ _ | .passed _ => s.set i (.refused .serverError)
    | _ => s
  | .lose i =>
    match s.requests i with
    | .counting r t => {s.set i (.refused .serverError) with limits := (countToken s r t).1}
    | _ => s
  | .finish i issued =>
    match s.requests i with
    | .passed r => s.set i (if issued then .granted r s.clock else .refused .invalidGrant)
    | _ => s
  | .limit key windowMs t => {s with limits := (hit s.limits (.other key) windowMs t).1}
  | .purge k => {s with purges := Function.update s.purges k (some s.clock)}
  | .sweep k =>
    match s.purges k with
    | some t => {s with limits := purgeLimits s.limits t, purges := Function.update s.purges k none}
    | none => s

end

end CompanyBrain.Board
