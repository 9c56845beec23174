import CompanyBrain.Foundations.Regex

namespace CompanyBrain.Policy

open Foundations

inductive RangeError where
  | invalidCodePoint
deriving DecidableEq

-- A surrogate is not a character of its own here; it decodes to U+FFFD.
def fromCodePoint (n : Nat) : Except RangeError Text :=
  if 0x10ffff < n then .error .invalidCodePoint
  else if 0xd800 ≤ n ∧ n ≤ 0xdfff then .ok ['\ufffd']
  else .ok [Char.ofNat n]

namespace Ansi

open Regex

def hexByte : Regex :=
  all [lit '\\',lit 'x',group 1 (seq (chr isHexDigit) (opt (chr isHexDigit)))]

def hexFour : Regex := all [lit '\\',lit 'u',group 1 (times (chr isHexDigit) 4)]

def hexEight : Regex := all [lit '\\',lit 'U',group 1 (times (chr isHexDigit) 8)]

def octalDigit : Regex := oneOf "01234567"

def octal : Regex :=
  all [lit '\\',group 1 (seq octalDigit (opt (seq octalDigit (opt octalDigit))))]

def named : Regex := all [lit '\\',group 1 (oneOf "\\'\"abefnrtv")]

def escape : Char → Char
  | 'a' => '\x07'
  | 'b' => '\x08'
  | 'e' => '\x1b'
  | 'f' => '\x0c'
  | 'n' => '\n'
  | 'r' => '\r'
  | 't' => '\t'
  | 'v' => '\x0b'
  | c => c

end Ansi

def codePoint (base : Nat) (h : Hit) : Except RangeError Text :=
  fromCodePoint (parseInt base ((h.group 1).getD []))

def decodeAnsiC (value : Text) : Except RangeError Text := do
  let value ← Ansi.hexByte.replaceAllM (codePoint 16) value
  let value ← Ansi.hexFour.replaceAllM (codePoint 16) value
  let value ← Ansi.hexEight.replaceAllM (codePoint 16) value
  let value ← Ansi.octal.replaceAllM (codePoint 8) value
  return Ansi.named.replaceAll (fun h => ((h.group 1).getD []).map Ansi.escape) value

def isOperator (c : Char) : Bool := ";|&()\x7b\x7d".toList.contains c

def commandSubstitution : Nat → Option Char → Text → Option (Text × Text)
  | _, _, [] => none
  | _, _, ['\\'] => none
  | depth, quote, '\\' :: c :: t =>
    (commandSubstitution depth quote t).map fun (body,rest) => ('\\' :: c :: body,rest)
  | depth, some q, c :: t =>
    (commandSubstitution depth (if c = q then none else some q) t).map fun (body,rest) => (c :: body,rest)
  | depth, none, '$' :: '(' :: t =>
    (commandSubstitution (depth+1) none t).map fun (body,rest) => ('$' :: '(' :: body,rest)
  | depth, none, c :: t =>
    if c = '\'' || c = '"' then
      (commandSubstitution depth (some c) t).map fun (body,rest) => (c :: body,rest)
    else if c = ')' then
      if depth = 1 then some ([],t)
      else (commandSubstitution (depth - 1) none t).map fun (body,rest) => (c :: body,rest)
    else (commandSubstitution depth none t).map fun (body,rest) => (c :: body,rest)

structure Quoted where
  raw : Text
  text : Text
  nested : List Text
  closed : Bool

def Quoted.push (raw text : Text) (nested : List Text) (q : Quoted × Text) : Quoted × Text :=
  (⟨raw ++ q.1.raw,text ++ q.1.text,nested ++ q.1.nested,q.1.closed⟩,q.2)

def readDouble : Nat → Text → Quoted × Text
  | 0, t => (⟨[],[],[],false⟩,t)
  | _+1, [] => (⟨[],[],[],false⟩,[])
  | _+1, '"' :: t => (⟨[],[],[],true⟩,t)
  | n+1, '\\' :: c :: t => Quoted.push ['\\',c] [c] [] (readDouble n t)
  | n+1, '$' :: '(' :: t =>
    match commandSubstitution 1 none t with
    | none => Quoted.push ['$'] ['$'] [] (readDouble n ('(' :: t))
    | some (body,rest) =>
      Quoted.push ('$' :: '(' :: body ++ [')']) [] [body] (readDouble n rest)
  | n+1, c :: t =>
    if c = '`' then
      match cut '`' t with
      | none => Quoted.push ['`'] [] [] (readDouble n t)
      | some (body,rest) => Quoted.push ('`' :: body ++ ['`']) [] [body] (readDouble n rest)
    else Quoted.push [c] [c] [] (readDouble n t)

inductive Piece where
  | plain (c : Char)
  | escaped (c : Char)
  | dangling
  | single (body : Text) (closed : Bool)
  | ansi (body : Text) (closed : Bool)
  | double (q : Quoted)
  | substitution (body : Text)
  | backtick (body : Text)
  | loneBacktick

namespace Piece

def text : Piece → Except RangeError Text
  | plain c => .ok [c]
  | escaped c => .ok (if c = '\n' then [] else [c])
  | single body _ => .ok body
  | ansi body closed => if closed then decodeAnsiC body else .ok body
  | double q => .ok q.text
  | dangling | substitution _ | backtick _ | loneBacktick => .ok []

def nested : Piece → List Text
  | double q => q.nested
  | substitution body | backtick body => [body]
  | _ => []

def started : Piece → Bool
  | escaped c => c ≠ '\n'
  | dangling => false
  | _ => true

end Piece

def readPiece (c : Char) (t : Text) : Piece × Text :=
  if c = '\\' then
    match t with
    | [] => (.dangling,[])
    | d :: t => (.escaped d,t)
  else if c = '\'' then
    match cut '\'' t with
    | none => (.single t false,[])
    | some (body,rest) => (.single body true,rest)
  else if c = '"' then
    let q := readDouble (t.length+1) t
    (.double q.1,q.2)
  else if c = '`' then
    match cut '`' t with
    | none => (.loneBacktick,t)
    | some (body,rest) => (.backtick body,rest)
  else if c = '$' then
    match t with
    | '\'' :: u =>
      match cut '\'' u with
      | none => (.ansi u false,[])
      | some (body,rest) => (.ansi body true,rest)
    | '(' :: u =>
      match commandSubstitution 1 none u with
      | none => (.plain c,t)
      | some (body,rest) => (.substitution body,rest)
    | _ => (.plain c,t)
  else (.plain c,t)

def endsInAngle (word : Text) : Bool := word.getLast?.any fun c => c = '<' || c = '>'

def readWord : Nat → Text → Text → List Piece × Text
  | 0, _, t => ([],t)
  | _+1, _, [] => ([],[])
  | n+1, word, c :: t =>
    if isJsSpace c || isOperator c && !(c = '&' && endsInAngle word) then ([],c :: t)
    else
      let p := readPiece c t
      let read := readWord n (word ++ p.1.text.toOption.getD []) p.2
      (p.1 :: read.1,read.2)

inductive Token where
  | blank (c : Char)
  | comment (t : Text)
  | operator (c : Char)
  | word (pieces : List Piece)

namespace Token

def nested : Token → List Text
  | word pieces => pieces.flatMap Piece.nested
  | _ => []

end Token

def tokensFrom : Nat → Bool → Text → List Token
  | 0, _, _ => []
  | _+1, _, [] => []
  | n+1, fresh, c :: t =>
    if isJsSpace c then .blank c :: tokensFrom n (fresh || c = '\n') t
    else if c = '#' && fresh then
      .comment (c :: t.takeWhile (· ≠ '\n')) :: tokensFrom n fresh (t.dropWhile (· ≠ '\n'))
    else if isOperator c then .operator c :: tokensFrom n true t
    else
      let read := readWord (t.length+1) [] (c :: t)
      .word read.1 :: tokensFrom n (fresh && !read.1.any Piece.started) read.2

def tokens (input : Text) : List Token := tokensFrom (input.length+1) true input

abbrev Words := List (List Piece)

def flush (words : Words) : List Words := if words = [] then [] else [words]

def gather : Words → List Token → List Words
  | words, [] => flush words
  | words, .blank c :: ts => if c = '\n' then flush words ++ gather [] ts else gather words ts
  | words, .comment _ :: ts => gather words ts
  | words, .operator _ :: ts => flush words ++ gather [] ts
  | words, .word pieces :: ts =>
    gather (if pieces.any Piece.started then words ++ [pieces] else words) ts

def wordText (pieces : List Piece) : Except RangeError Text :=
  List.flatten <$> pieces.mapM Piece.text

structure ShellScan where
  commands : List (List Text)
  nested : List Text
deriving DecidableEq

def scanShell (input : Text) : Except RangeError ShellScan := do
  let commands ← (gather [] (tokens input)).mapM fun words => words.mapM wordText
  return ⟨commands,(tokens input).flatMap Token.nested⟩

end CompanyBrain.Policy
