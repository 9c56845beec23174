import Mathlib.Algebra.GroupWithZero.Nat
import Mathlib.Data.List.Basic

namespace CompanyBrain.Foundations

abbrev Text := List Char

-- An empty text is the default of its type, and counts as absent.
def truthy {α : Type} [DecidableEq α] [Inhabited α] (t : Option α) : Option α := t.filter (· ≠ default)

theorem truthy_eq {α : Type} [DecidableEq α] [Inhabited α] {t : Option α} (h : t ≠ some default) :
    truthy t = t := by
  cases t with
  | none => rfl
  | some x => simpa [truthy] using fun empty => h (congrArg some empty)

def isJsSpace (c : Char) : Bool :=
  let n := c.toNat
  (9 ≤ n && n ≤ 13) || n = 32 || n = 0xa0 || n = 0x1680 || (0x2000 ≤ n && n ≤ 0x200a) ||
    n = 0x2028 || n = 0x2029 || n = 0x202f || n = 0x205f || n = 0x3000 || n = 0xfeff

def isLineTerminator (c : Char) : Bool :=
  let n := c.toNat
  n = 10 || n = 13 || n = 0x2028 || n = 0x2029

def isWordChar (c : Char) : Bool := c.isAlphanum || c == '_'

variable {c : Char}

theorem ne_of_test {p : Char → Bool} {d : Char} (hc : p c) (hd : p d = false) : c ≠ d := by
  rintro rfl
  rw [hc] at hd
  cases hd

def isHexDigit (c : Char) : Bool :=
  c.isDigit || ('a' ≤ c && c ≤ 'f') || ('A' ≤ c && c ≤ 'F')

def hexDigit (c : Char) : Nat :=
  if c.isDigit then c.toNat - '0'.toNat
  else if 'a' ≤ c then c.toNat - 'a'.toNat + 10
  else c.toNat - 'A'.toNat + 10

def parseInt (base : Nat) (t : Text) : Nat := t.foldl (fun n c => base * n + hexDigit c) 0

def utf16Length (t : Text) : Nat := (t.map fun c => if c.toNat < 0x10000 then 1 else 2).sum

def utf16Units (c : Char) : List Nat :=
  if c.toNat < 0x10000 then [c.toNat]
  else [0xd800 + (c.toNat - 0x10000) / 0x400,0xdc00 + (c.toNat - 0x10000) % 0x400]

abbrev Units := List UInt16

def isSpaceUnit (u : UInt16) : Bool :=
  (9 ≤ u && u ≤ 13) || u = 32 || u = 0xa0 || u = 0x1680 || (0x2000 ≤ u && u ≤ 0x200a) ||
    u = 0x2028 || u = 0x2029 || u = 0x202f || u = 0x205f || u = 0x3000 || u = 0xfeff

def joinWith (sep : Text) : List Text → Text
  | [] => []
  | [t] => t
  | t :: ts => t ++ sep ++ joinWith sep ts

def cut (c : Char) : Text → Option (Text × Text)
  | [] => none
  | d :: t => if d = c then some ([],t) else (cut c t).map fun (a,b) => (d :: a,b)

variable {t : Text}

theorem cut_eq_some {a b : Text} (h : cut c t = some (a,b)) : t = a ++ c :: b ∧ c ∉ a := by
  induction t generalizing a b with
  | nil => simp [cut] at h
  | cons d t ih =>
    simp only [cut] at h
    split at h
    next hd =>
      cases h
      exact ⟨by rw [hd]; rfl,by simp⟩
    next hd =>
      obtain ⟨⟨a',b'⟩,ht,heq⟩ := Option.map_eq_some_iff.mp h
      cases heq
      obtain ⟨rfl,hn⟩ := ih ht
      exact ⟨rfl,by simp [hn,Ne.symm hd]⟩

theorem cut_append {a : Text} (b : Text) (h : c ∉ a) : cut c (a ++ c :: b) = some (a,b) := by
  induction a with
  | nil => simp [cut]
  | cons d a ih =>
    simp only [List.mem_cons,not_or] at h
    simp [cut,Ne.symm h.1,ih h.2]

theorem cut_inj {a a' b b' : Text} (ha : c ∉ a) (ha' : c ∉ a') (same : a ++ c :: b = a' ++ c :: b') :
    a = a' ∧ b = b' := by
  have cuts := congrArg (cut c) same
  rw [cut_append b ha,cut_append b' ha'] at cuts
  exact Prod.mk.inj (Option.some.inj cuts)

theorem cut_eq_none (h : c ∉ t) : cut c t = none := by
  cases found : cut c t with
  | none => rfl
  | some =>
    rw [(cut_eq_some found).1] at h
    simp at h

def trim (t : Text) : Text := ((t.dropWhile isJsSpace).reverse.dropWhile isJsSpace).reverse

end CompanyBrain.Foundations
