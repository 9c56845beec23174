import CompanyBrain.Foundations.JsText
import Mathlib.Data.List.GetD
import Mathlib.Data.List.Infix

namespace CompanyBrain.Foundations.Web

def isBlank (c : Char) : Bool := c.toNat ≤ 0x20

def isVisible (c : Char) : Bool := !isBlank c

def isSlash (c : Char) : Bool := c = '/' || c = '\\'

def isSegmentChar (c : Char) : Bool := isVisible c && !isSlash c

def trimBlank (t : Text) : Text := ((t.dropWhile isBlank).reverse.dropWhile isBlank).reverse

def clean (t : Text) : Text := (trimBlank t).filter (· ∉ ['\t','\n','\r'])

def hexUpper (n : Nat) : Char := "0123456789ABCDEF".toList.getD n '0'

def percentByte (b : UInt8) : Text := ['%',hexUpper (b.toNat / 16),hexUpper (b.toNat % 16)]

def isControl (c : Char) : Bool := c.toNat < 0x20 || 0x7e < c.toNat

def encodeSet (extra : List Char) (c : Char) : Bool := isControl c || c ∈ ' ' :: extra

def fragmentSet : Char → Bool := encodeSet ['"','<','>','`']

def specialQuerySet : Char → Bool := encodeSet ['"','#','<','>','\'']

def pathSet : Char → Bool := encodeSet ['"','#','<','>','?','^','`','{','}']

def userinfoSet : Char → Bool :=
  encodeSet ['"','#','<','>','?','^','`','{','}','/',':',';','=','@','[','\\',']','|']

def encodeChar (set : Char → Bool) (c : Char) : Text :=
  if set c then (String.utf8EncodeChar c).flatMap percentByte else [c]

def encode (set : Char → Bool) (t : Text) : Text := t.flatMap (encodeChar set)

theorem hexUpper_mem (n : Nat) : hexUpper n ∈ "0123456789ABCDEF".toList := by
  unfold hexUpper
  by_cases small : n < "0123456789ABCDEF".toList.length
  · rw [List.getD_eq_getElem _ _ small]
    exact List.getElem_mem small
  · rw [List.getD_eq_default _ _ (Nat.le_of_not_lt small)]
    decide

theorem encodeChar_keeps {p set : Char → Bool} {c : Char} (encoded : "%0123456789ABCDEF".toList.all p)
    (kept : set c = false → p c) : ∀ d ∈ encodeChar set c, p d := by
  intro d mem
  have digit := List.all_eq_true.mp encoded
  have hex (n : Nat) : p (hexUpper n) = true := digit _ (.tail _ (hexUpper_mem n))
  unfold encodeChar at mem
  split at mem
  · obtain ⟨b,_,mem⟩ := List.mem_flatMap.mp mem
    simp only [percentByte,List.mem_cons,List.not_mem_nil,or_false] at mem
    rcases mem with rfl | rfl | rfl
    · exact digit _ (.head _)
    · exact hex _
    · exact hex _
  next plain =>
    rw [List.mem_singleton.mp mem]
    exact kept (by simpa using plain)

theorem encode_keeps {p set : Char → Bool} (encoded : "%0123456789ABCDEF".toList.all p)
    (kept : ∀ c, set c = false → p c) (t : Text) : ∀ d ∈ encode set t, p d := by
  intro d mem
  obtain ⟨c,_,mem⟩ := List.mem_flatMap.mp mem
  exact encodeChar_keeps encoded (kept c) d mem

theorem encodeSet_visible {extra : List Char} (c : Char) (kept : encodeSet extra c = false) : isVisible c := by
  simp only [encodeSet,isControl,Bool.or_eq_false_iff,decide_eq_false_iff_not,List.mem_cons,not_or] at kept
  have other : c.toNat ≠ ' '.toNat := fun same => kept.2.1 (Char.toNat_inj.mp same)
  have : ' '.toNat = 0x20 := rfl
  simp only [isVisible,isBlank,Bool.not_eq_true',decide_eq_false_iff_not]
  omega

def Part : Type := {t : Text // ∀ c ∈ t, isVisible c = true}

def Segment : Type := {t : Text // ∀ c ∈ t, isSegmentChar c = true}

def queryPart (t : Text) : Part := ⟨encode specialQuerySet t,encode_keeps (by decide) encodeSet_visible t⟩

def fragmentPart (t : Text) : Part := ⟨encode fragmentSet t,encode_keeps (by decide) encodeSet_visible t⟩

def Segment.empty : Segment := ⟨[],by simp⟩

theorem Segment.push_chars (s : Segment) {c : Char} (inside : ¬isSlash c) :
    ∀ d ∈ s.val ++ encodeChar pathSet c, isSegmentChar d := by
  intro d mem
  rcases List.mem_append.mp mem with old | new
  · exact s.property d old
  · refine encodeChar_keeps (by decide) (fun plain => ?_) d new
    simp only [isSegmentChar,encodeSet_visible c plain,inside,Bool.not_false,Bool.and_true]

def Segment.push (s : Segment) (c : Char) (inside : ¬isSlash c = true) : Segment :=
  ⟨s.val ++ encodeChar pathSet c,s.push_chars inside⟩

def Segment.isSingleDot (s : Segment) : Bool :=
  let dots := s.val.map Char.toLower
  dots = ".".toList || dots = "%2e".toList

def Segment.isDoubleDot (s : Segment) : Bool :=
  let dots := s.val.map Char.toLower
  dots = "..".toList || dots = ".%2e".toList || dots = "%2e.".toList || dots = "%2e%2e".toList

def addSegment (path : List Segment) (s : Segment) : List Segment :=
  if s.isDoubleDot then path.dropLast else if s.isSingleDot then path else path ++ [s]

def endPath (path : List Segment) (s : Segment) : List Segment :=
  if s.isDoubleDot then path.dropLast ++ [.empty] else if s.isSingleDot then path ++ [.empty] else path ++ [s]

def pathState (path : List Segment) (buffer : Segment) : Text → List Segment
  | [] => endPath path buffer
  | c :: t =>
    if inside : isSlash c = true then pathState (addSegment path buffer) .empty t
    else pathState path (buffer.push c inside) t

theorem pathState_ne_nil (path : List Segment) (buffer : Segment) (t : Text) : pathState path buffer t ≠ [] := by
  fun_induction pathState path buffer t with
  | case1 path buffer =>
    unfold endPath
    split
    · simp
    · split <;> simp
  | case2 _ _ _ _ _ ih | case3 _ _ _ _ _ ih => exact ih

inductive Scheme where
  | http | https | ws | wss | ftp
deriving DecidableEq

def Scheme.text : Scheme → Text
  | .http => "http".toList
  | .https => "https".toList
  | .ws => "ws".toList
  | .wss => "wss".toList
  | .ftp => "ftp".toList

def Scheme.defaultPort : Scheme → Nat
  | .http => 80
  | .https => 443
  | .ws => 80
  | .wss => 443
  | .ftp => 21

def Scheme.ofText (t : Text) : Option Scheme := [.http,.https,.ws,.wss,.ftp].find? fun s => s.text = t

def isHostChar (c : Char) : Bool :=
  isVisible c && c ∉ ['#','%','/',':','<','>','?','@','[','\\',']','^','|','\x7f']

inductive HostText : Text → Prop
  | name {t : Text} (filled : t ≠ []) (chars : ∀ c ∈ t, isHostChar c = true) : HostText t
  | address {t : Text} (chars : ∀ c ∈ t, c ∈ "0123456789abcdef:".toList) : HostText ('[' :: t ++ [']'])

structure HostParser where
  Host : Type
  parse : Text → Option Host
  text : Host → Text
  parse_text : ∀ h, parse (text h) = some h
  text_host : ∀ h, HostText (text h)

def Port (scheme : Scheme) : Type := {p : Nat // p ≤ 65535 ∧ p ≠ scheme.defaultPort}

structure Origin (hosts : HostParser) where
  scheme : Scheme
  host : hosts.Host
  port : Option (Port scheme)

structure Url (hosts : HostParser) where
  origin : Origin hosts
  username : Text
  password : Text
  path : List Segment
  rooted : path ≠ []
  query : Option Part
  fragment : Option Part

-- Of a URL whose scheme is another, only the origin it may have is kept.
inductive Parsed (hosts : HostParser) where
  | special (url : Url hosts)
  | foreign (origin : Option (Origin hosts))

def portText {scheme : Scheme} : Option (Port scheme) → Text
  | none => []
  | some p => ':' :: Nat.toDigits 10 p.val

def Origin.text {hosts : HostParser} (o : Origin hosts) : Text :=
  o.scheme.text ++ "://".toList ++ hosts.text o.host ++ portText o.port

def partText (mark : Char) : Option Part → Text
  | none => []
  | some p => if p.val = [] then [] else mark :: p.val

namespace Url

variable {hosts : HostParser} (u : Url hosts)

def pathname : Text := u.path.flatMap fun s => '/' :: s.val

def search : Text := partText '?' u.query

def hash : Text := partText '#' u.fragment

end Url

def optionalAfter (c : Char) (t : Text) : Text × Option Text :=
  match cut c t with
  | none => (t,none)
  | some (front,back) => (front,some back)

structure Tail where
  path : Text
  query : Option Part
  fragment : Option Part

def tailOf (t : Text) : Tail :=
  let upToHash := optionalAfter '#' t
  let upToQuery := optionalAfter '?' upToHash.1
  ⟨upToQuery.1,upToQuery.2.map queryPart,upToHash.2.map fragmentPart⟩

def cutLast (c : Char) (t : Text) : Option (Text × Text) :=
  (cut c t.reverse).map fun (back,front) => (front.reverse,back.reverse)

structure Authority where
  username : Text
  password : Text
  hostPort : Text

def authorityOf (t : Text) : Authority :=
  match cutLast '@' t with
  | none => ⟨[],[],t⟩
  | some (credentials,hostPort) =>
    let upToColon := optionalAfter ':' credentials
    ⟨encode userinfoSet upToColon.1,encode userinfoSet (upToColon.2.getD []),hostPort⟩

-- A colon within brackets belongs to the host.
def splitPort : Bool → Text → Text × Option Text
  | _, [] => ([],none)
  | inside, c :: t =>
    if c = ':' ∧ inside = false then ([],some t)
    else
      let rest := splitPort (if c = '[' then true else if c = ']' then false else inside) t
      (c :: rest.1,rest.2)

def parsePort (scheme : Scheme) : Option Text → Option (Option (Port scheme))
  | none => some none
  | some [] => some none
  | some t =>
    if t.all Char.isDigit then
      if small : Nat.ofDigitChars 10 t 0 ≤ 65535 then
        if other : Nat.ofDigitChars 10 t 0 ≠ scheme.defaultPort then some (some ⟨Nat.ofDigitChars 10 t 0,small,other⟩)
        else some none
      else none
    else none

def endsAuthority (c : Char) : Bool := isSlash c || c = '?' || c = '#'

def schemeOf (t : Text) : Option (Text × Text) :=
  match cut ':' t with
  | some (c :: s,rest) =>
    if c.isAlpha && s.all fun d => d.isAlphanum || d ∈ ['+','-','.'] then
      some ((c :: s).map Char.toLower,rest)
    else none
  | _ => none

section

variable (hosts : HostParser)

def parseOrigin (scheme : Scheme) (hostPort : Text) : Option (Origin hosts) := do
  let split := splitPort false hostPort
  let host ← if split.1 = [] then none else hosts.parse split.1
  let port ← parsePort scheme split.2
  return ⟨scheme,host,port⟩

def afterAuthority (origin : Origin hosts) (authority : Authority) (t : Text) : Url hosts :=
  let tail := tailOf t
  let path := if tail.path.head?.any isSlash then tail.path.tail else tail.path
  ⟨origin,authority.username,authority.password,pathState [] .empty path,pathState_ne_nil _ _ _,tail.query,
    tail.fragment⟩

def authorityState (scheme : Scheme) (t : Text) : Option (Url hosts) :=
  let t := t.dropWhile isSlash
  let authority := authorityOf (t.takeWhile fun c => !endsAuthority c)
  (parseOrigin hosts scheme authority.hostPort).map fun origin =>
    afterAuthority hosts origin authority (t.dropWhile fun c => !endsAuthority c)

variable {hosts} in
def rootRelative (base : Url hosts) (t : Text) : Url hosts :=
  let tail := tailOf t
  {base with
    path := pathState [] .empty tail.path
    rooted := pathState_ne_nil _ _ _
    query := tail.query
    fragment := tail.fragment}

variable {hosts} in
def pathRelative (base : Url hosts) (t : Text) : Url hosts :=
  let tail := tailOf t
  if tail.path = [] then {base with query := tail.query.or base.query, fragment := tail.fragment}
  else
    {base with
      path := pathState base.path.dropLast .empty tail.path
      rooted := pathState_ne_nil _ _ _
      query := tail.query
      fragment := tail.fragment}

def relativeState (base : Url hosts) (t : Text) : Option (Url hosts) :=
  if t.head?.any isSlash then
    if t.tail.head?.any isSlash then authorityState hosts base.origin.scheme t else some (rootRelative base t.tail)
  else some (pathRelative base t)

variable (foreign : Text → Option (Option (Origin hosts)))

def parse (t : Text) : Option (Parsed hosts) := do
  let (scheme,rest) ← schemeOf (clean t)
  match Scheme.ofText scheme with
  | none => (foreign (clean t)).map .foreign
  | some scheme => (authorityState hosts scheme rest).map .special

def resolve (base : Url hosts) (t : Text) : Option (Parsed hosts) :=
  match schemeOf (clean t) with
  | none => (relativeState hosts base (clean t)).map .special
  | some (scheme,rest) =>
    match Scheme.ofText scheme with
    | none => (foreign (clean t)).map .foreign
    | some scheme =>
      if scheme = base.origin.scheme ∧ ¬"//".toList <+: rest then (relativeState hosts base rest).map .special
      else (authorityState hosts scheme rest).map .special

end

end CompanyBrain.Foundations.Web
