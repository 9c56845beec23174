import CompanyBrain.Foundations.Regex

namespace CompanyBrain.Util

open Foundations

abbrev RegExp := Text → Option Text

structure RegExpEngine where
  newRegExp : Text → Text → Except Text RegExp

namespace SafeRegex

def maxPatternChars : Nat := 256

def unsupported : Regex :=
  .alt (.seq (.lit '\\') (.oneOf "123456789")) <| .alt (.literal "\\k<") (.seq (.literal "(?") (.oneOf "=!<"))

structure GroupInfo where
  quantified : Bool
  alternation : Bool

structure Scan where
  groups : List GroupInfo
  escaped : Bool
  inClass : Bool
  previousQuantifier : Bool
  closed : Option GroupInfo

def start : Scan := ⟨[],false,false,false,none⟩

def onTop (f : GroupInfo → GroupInfo) : List GroupInfo → List GroupInfo
  | [] => []
  | g :: gs => f g :: gs

def isQuantifier (before : Option Char) (ch : Char) : Bool :=
  ch = '*' || ch = '+' || (ch = '?' && before ≠ some '(') || ch = '\x7b'

def repeated (s : Scan) : Except Text Scan :=
  if s.previousQuantifier || s.closed.any (fun g => g.quantified || g.alternation) then
    .error "nested or ambiguous repetition is not supported".toList
  else
    let groups := onTop (fun g => {g with quantified := true}) s.groups
    .ok {s with groups := groups, previousQuantifier := true, closed := none}

def step (before : Option Char) (s : Scan) (ch : Char) : Except Text Scan :=
  if s.escaped then .ok {s with escaped := false, previousQuantifier := false, closed := none}
  else if ch = '\\' then .ok {s with escaped := true}
  else if ch = '[' then .ok {s with inClass := true, previousQuantifier := false, closed := none}
  else if ch = ']' && s.inClass then .ok {s with inClass := false}
  else if s.inClass then .ok s
  else if ch = '(' then
    .ok {s with groups := ⟨false,false⟩ :: s.groups, previousQuantifier := false, closed := none}
  else if ch = '|' then
    let groups := onTop (fun g => {g with alternation := true}) s.groups
    .ok {s with groups := groups, previousQuantifier := false, closed := none}
  else if ch = ')' then
    let closed := s.groups.head?.getD ⟨false,false⟩
    .ok {s with groups := s.groups.tail, closed := some closed, previousQuantifier := false}
  else if isQuantifier before ch then repeated s
  else .ok {s with previousQuantifier := false, closed := none}

def walk : Option Char → Scan → Text → Except Text Scan
  | _, s, [] => .ok s
  | before, s, ch :: t => do walk (some ch) (← step before s ch) t

end SafeRegex

def compileSafeRegex (engine : RegExpEngine) (pattern flags : Text) : Except Text RegExp :=
  if pattern = [] || SafeRegex.maxPatternChars < utf16Length pattern then
    .error "pattern must be 1-256 characters".toList
  else if SafeRegex.unsupported.test pattern then
    .error "backreferences and lookarounds are not supported".toList
  else do
    let _ ← SafeRegex.walk none SafeRegex.start pattern
    engine.newRegExp pattern flags

end CompanyBrain.Util
