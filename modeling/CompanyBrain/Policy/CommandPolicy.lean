import CompanyBrain.Policy.ShellPayloads
import CompanyBrain.Util.SafeRegex

namespace CompanyBrain.Policy

open Foundations Util Patterns

namespace Patterns

open Regex

def anyChar : Regex := chr fun _ => true

def heredoc : Regex :=
  all [lineStart,group 1 (many (noneOf "\n")),literal "<<",opt (lit '-'),many space,
    group 2 (opt (oneOf "\"'")),group 3 name,backref 2,group 4 (many (noneOf "\n")),lit '\n',
    group 5 (manyLazy anyChar),lineStart,many space,backref 3,many space,lineEnd]

def shellInvocation : Regex :=
  all [alt textStart (seq (oneOf "|;&") (many space)),opt (seq (many notSpace) (lit '/')),
    opt (alt (literal "ba") <| alt (literal "da") <| alt (lit 'k') (lit 'z')),literal "sh",
    group 1 (opt (seq (plus space) (many (noneOf "|;&"))))]

def inlineScript : Regex :=
  all [alt textStart space,lit '-',many (chr fun c => !(c == '-' || isJsSpace c)),lit 'c', alt space textEnd]

def quotedUnit (quote : Char) : Regex :=
  alt (chr fun c => !(c == quote || c == '\\')) (seq (lit '\\') dot)

def doubleQuoted : Regex := all [lit '"',many (quotedUnit '"'),lit '"']

def ansiQuoted : Regex := all [lit '$',lit '\'',group 1 (many (quotedUnit '\'')),lit '\'']

def singleQuoted : Regex := all [lit '\'',many (noneOf "'"),lit '\'']

def substitution : Regex :=
  alt (all [lit '$',lit '(',many (noneOf ")"),lit ')']) (all [lit '`',many (noneOf "`"),lit '`'])

end Patterns

def isBareChar (c : Char) : Bool := isWordChar c || "@%+=:,./-".toList.contains c

def Patterns.escapedBare : Regex := .seq (.lit '\\') (.group 1 (.chr isBareChar))

def heredocRunsShell (commandLine : Text) : Bool :=
  (shellInvocation.hits commandLine).any fun h =>
    !inlineScript.test ((h.group 1).getD [])

def stripHeredoc (h : Hit) : Text :=
  let line := (h.group 1).getD [] ++ (h.group 4).getD []
  if line.contains '>' && !heredocRunsShell line then [] else h.text

def stripWrittenHeredocs (command : Text) : Text :=
  heredoc.replaceAll stripHeredoc command

def unquoteBareWord (inner : Text) : Option Text := if inner.all isBareChar then some inner else none

def inside (quoted : Text) : Text := (quoted.drop 1).dropLast

def maskDouble (h : Hit) : Text :=
  match substitution.hits h.text with
  | [] => (unquoteBareWord (inside h.text)).getD "\"\"".toList
  | subs => joinWith " ".toList (subs.map Hit.text)

def maskAnsi (h : Hit) : Except RangeError Text := do
  return (unquoteBareWord (← decodeAnsiC ((h.group 1).getD []))).getD "''".toList

def maskSingle (h : Hit) : Text := (unquoteBareWord (inside h.text)).getD "''".toList

def maskQuotes (stripped : Text) : Except RangeError Text := do
  let masked ← ansiQuoted.replaceAllM maskAnsi (doubleQuoted.replaceAll maskDouble stripped)
  return escapedBare.replaceAll (fun h => (h.group 1).getD []) (singleQuoted.replaceAll maskSingle masked)

-- The argument counts the levels of nesting still left; the source counts up to 8.
def scannableWithin : Nat → Text → Except RangeError Text
  | 0, command => maskQuotes (stripWrittenHeredocs command)
  | n+1, command => do
    let stripped := stripWrittenHeredocs command
    let base ← maskQuotes stripped
    let executed ← executedShellPayloads stripped
    return joinWith "\n".toList (base :: (← executed.mapM (scannableWithin n)))

def maxDepth : Nat := 8

def scannableCommand (command : Text) : Except RangeError Text := scannableWithin maxDepth command

inductive CommandDecision where
  | allow | requireApproval | deny
deriving DecidableEq

inductive PolicyMode where
  | denylist | allowlist
deriving DecidableEq

structure CommandRule where
  pattern : Text
  decision : CommandDecision
  reason : Option Text

structure CommandPolicy where
  mode : PolicyMode
  rules : List CommandRule

structure CommandEvaluation where
  decision : CommandDecision
  reason : Option Text
  matched : Option Text
  approvalKey : Option Text

def composePolicy (orgFloor : CommandPolicy) (scope : Option CommandPolicy) : CommandPolicy :=
  match scope with
  | none => orgFloor
  | some scope =>
    {mode := if orgFloor.mode = .allowlist then .allowlist else scope.mode
     rules := orgFloor.rules ++ scope.rules}

def ruleHit (engine : RegExpEngine) (scannable : Text) (rule : CommandRule) : Option Text :=
  match compileSafeRegex engine rule.pattern "i".toList with
  | .error _ => none
  | .ok re => re scannable

def firstMatch (engine : RegExpEngine) (scannable : Text) : List CommandRule → Option CommandEvaluation
  | [] => none
  | rule :: rules =>
    match ruleHit engine scannable rule with
    | none => firstMatch engine scannable rules
    | some hit => some ⟨rule.decision,truthy rule.reason,some hit,some rule.pattern⟩

def evaluateScannable (engine : RegExpEngine) (scannable : Text) (policy : CommandPolicy) : CommandEvaluation :=
  match firstMatch engine scannable policy.rules with
  | some matched => matched
  | none =>
    match policy.mode with
    | .allowlist => ⟨.deny,some "not in allowlist".toList,none,none⟩
    | .denylist => ⟨.allow,none,none,none⟩

def evaluateCommand (engine : RegExpEngine) (command : Text) (policy : CommandPolicy) :
    Except RangeError CommandEvaluation := do
  return evaluateScannable engine (← scannableCommand command) policy

end CompanyBrain.Policy
