import CompanyBrain.Foundations.JsText

namespace CompanyBrain.Resolution

open Foundations

structure EgressPolicy where
  allowedHosts : List String
  deniedHosts : Option (List String)

structure UrlSyntax where
  toLowerCase : Text → Text
  hostname : Text → Option Text

def stripWildcard : Text → Text
  | '*' :: '.' :: t => t
  | t => t

def stripFinalDot (t : Text) : Text :=
  if t.getLast? = some '.' then t.dropLast else t

def stripBrackets (t : Text) : Text :=
  match t with
  | '[' :: rest =>
    if rest.getLast? = some ']' && !(rest.dropLast.any isLineTerminator) then rest.dropLast else t
  | _ => t

def isIPv6 (t : Text) : Bool := 2 ≤ t.count ':'

def normalizeHost (url : UrlSyntax) (host : Text) : Text :=
  let s := stripBrackets (stripFinalDot (stripWildcard (url.toLowerCase (trim host))))
  if s = [] then []
  else
    match url.hostname ("https://".toList ++ if isIPv6 s then '[' :: s ++ [']'] else s) with
    | some hostname => stripFinalDot (stripBrackets hostname)
    | none => s

def hostMatches (url : UrlSyntax) (requestHost ruleHost : Text) : Bool :=
  let h := normalizeHost url requestHost
  let r := normalizeHost url ruleHost
  if h = [] || r = [] then false else h = r || ('.' :: r).isSuffixOf h

def isHostDenied (url : UrlSyntax) (host : Text) (deniedHosts : Option (List String)) : Bool :=
  match deniedHosts with
  | none => false
  | some denied => denied.any fun d => d ≠ "" && hostMatches url host d.toList

inductive EgressVerdict where
  | ok | denied | notAllowlisted

structure EgressDecision where
  allow : Bool
  verdict : EgressVerdict

def egressDecision (url : UrlSyntax) (host : Text) (policy : Option EgressPolicy) : EgressDecision :=
  match policy with
  | none => ⟨true,.ok⟩
  | some policy =>
    if isHostDenied url host policy.deniedHosts then ⟨false,.denied⟩
    else if policy.allowedHosts ≠ [] ∧
        ¬ policy.allowedHosts.any (fun rule => hostMatches url host rule.toList) then
      ⟨false,.notAllowlisted⟩
    else ⟨true,.ok⟩

variable {url : UrlSyntax}

theorem normalizeHost_empty (lower : url.toLowerCase [] = []) : normalizeHost url [] = [] := by
  simp [normalizeHost,trim,lower,stripWildcard,stripFinalDot,stripBrackets]

theorem hostMatches_empty (lower : url.toLowerCase [] = []) (rule : Text) : hostMatches url [] rule = false := by
  simp [hostMatches,normalizeHost_empty lower]

theorem egressDecision_allow {host : Text} {policy : EgressPolicy} : (egressDecision url host (some policy)).allow ↔
      isHostDenied url host policy.deniedHosts = false ∧ (policy.allowedHosts = [] ∨
        ∃ rule ∈ policy.allowedHosts, hostMatches url host rule.toList) := by
  cases hd : isHostDenied url host policy.deniedHosts with
  | true => simp [egressDecision,hd]
  | false =>
    by_cases hn : policy.allowedHosts = []
    · simp [egressDecision,hd,hn]
    · by_cases ha : policy.allowedHosts.any (fun rule => hostMatches url host rule.toList) = true
      · simp only [egressDecision,hd,hn,ha]
        simpa using ha
      · simp only [egressDecision,hd,ha]
        simpa [hn] using ha

end CompanyBrain.Resolution
