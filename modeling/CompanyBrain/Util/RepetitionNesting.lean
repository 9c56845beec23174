import CompanyBrain.Foundations.Fallible
import CompanyBrain.Util.SafeRegex

namespace CompanyBrain.Util.SafeRegex

open Foundations

def syntaxChars : List Char := ['^','$','\\','.','*','+','?','(',')','[','|']

def flat : Bool → Text → Bool
  | escaped, [] => !escaped
  | true, _ :: t => flat false t
  | false, c :: t => if c = '\\' then flat true t else c ≠ '(' && c ≠ ')' && flat false t

def classBody : Bool → Text → Bool
  | escaped, [] => !escaped
  | true, _ :: t => classBody false t
  | false, c :: t => if c = '\\' then classBody true t else c ≠ ']' && classBody false t

def unbracketed (t : Text) : Bool := flat false t && !t.contains '['

structure PatternCharacter where
  c : Char
  plain : c ∉ syntaxChars

structure AtomEscape where
  c : Char
  tail : Text
  plain : unbracketed tail = true

inductive CharacterClass where
  | ranges (body : Text) (closed : classBody false body = true)
  | sets (body : Text) (closed : flat false body = true)

def CharacterClass.body : CharacterClass → Text
  | .ranges body _ => body
  | .sets body _ => body

inductive Anchor where
  | first | last

def Anchor.char : Anchor → Char
  | .first => '^'
  | .last => '$'

inductive GroupKind where
  | capturing
  | named (name : Text) (plain : unbracketed name = true)
  | modified (flags : Text) (plain : unbracketed flags = true)
  | look (behind negative : Bool)

def GroupKind.text : GroupKind → Text
  | .capturing => []
  | .named name _ => '?' :: '<' :: name ++ ['>']
  | .modified flags _ => '?' :: flags ++ [':']
  | .look behind negative => '?' :: (if behind then ['<'] else []) ++ [if negative then '!' else '=']

inductive QuantifierPrefix where
  | star | plus | optional
  | braced (body : Text) (digits : body.all (fun c => c.isDigit || c = ',') = true)

structure Quantifier where
  sign : QuantifierPrefix
  lazy : Bool

def QuantifierPrefix.char : QuantifierPrefix → Char
  | .star => '*'
  | .plus => '+'
  | .optional => '?'
  | .braced _ _ => '\x7b'

def QuantifierPrefix.rest : QuantifierPrefix → Text
  | .braced body _ => body ++ ['\x7d']
  | _ => []

def Quantifier.rest (q : Quantifier) : Text := q.sign.rest ++ if q.lazy then ['?'] else []

inductive Level where
  | disjunction | alternative | term | atom

inductive Node : Level → Type where
  | only (a : Node .alternative) : Node .disjunction
  | either (a : Node .alternative) (d : Node .disjunction) : Node .disjunction
  | empty : Node .alternative
  | followed (a : Node .alternative) (t : Node .term) : Node .alternative
  | anchor (a : Anchor) : Node .term
  | once (a : Node .atom) : Node .term
  | repeated (a : Node .atom) (q : Quantifier) : Node .term
  | character (c : PatternCharacter) : Node .atom
  | any : Node .atom
  | escape (e : AtomEscape) : Node .atom
  | charClass (c : CharacterClass) : Node .atom
  | group (kind : GroupKind) (body : Node .disjunction) : Node .atom

namespace Node

def text : {l : Level} → Node l → Text
  | _, only a => a.text
  | _, either a d => a.text ++ '|' :: d.text
  | _, empty => []
  | _, followed a t => a.text ++ t.text
  | _, anchor a => [a.char]
  | _, once a => a.text
  | _, repeated a q => a.text ++ q.sign.char :: q.rest
  | _, character c => [c.c]
  | _, any => ['.']
  | _, escape e => '\\' :: e.c :: e.tail
  | _, charClass c => '[' :: c.body ++ [']']
  | _, group kind body => '(' :: kind.text ++ body.text ++ [')']

def repeats : {l : Level} → Node l → Bool
  | _, only a => a.repeats
  | _, either a d => a.repeats || d.repeats
  | _, followed a t => a.repeats || t.repeats
  | _, once a => a.repeats
  | _, repeated _ _ => true
  | _, group _ body => body.repeats
  | _, _ => false

def alternates : {l : Level} → Node l → Bool
  | _, only a => a.alternates
  | _, either _ _ => true
  | _, followed a t => a.alternates || t.alternates
  | _, once a => a.alternates
  | _, repeated a _ => a.alternates
  | _, group _ body => body.alternates
  | _, _ => false

def plainGroup : {l : Level} → Node l → Bool
  | _, group _ body => !body.repeats && !body.alternates
  | _, _ => true

def safe : {l : Level} → Node l → Bool
  | _, only a => a.safe
  | _, either a d => a.safe && d.safe
  | _, followed a t => a.safe && t.safe
  | _, once a => a.safe
  | _, repeated a _ => a.plainGroup && a.safe
  | _, group _ body => body.safe
  | _, _ => true

def overlooked (a : Node .atom) (q : Quantifier) : Bool := q.sign.char = '?' && a.text.getLast? = some '('

def counts : {l : Level} → Node l → Bool
  | _, only a => a.counts
  | _, either a d => a.counts || d.counts
  | _, followed a t => a.counts || t.counts
  | _, repeated a q => !overlooked a q
  | _, _ => false

def splits : {l : Level} → Node l → Bool
  | _, either _ _ => true
  | _, _ => false

def calm : {l : Level} → Node l → Bool
  | _, only a => a.calm
  | _, either a d => a.calm && d.calm
  | _, followed a t => a.calm && t.calm
  | _, once a => a.calm
  | _, repeated a q => !overlooked a q && a.calm
  | _, group _ body => !body.repeats && !body.alternates
  | _, _ => true

def calmGroup : {l : Level} → Node l → Bool
  | _, group _ body => body.calm
  | _, _ => true

def shallow : {l : Level} → Node l → Bool
  | _, only a => a.shallow
  | _, either a d => a.shallow && d.shallow
  | _, followed a t => a.shallow && t.shallow
  | _, once a => a.shallow
  | _, repeated a _ => a.calmGroup && a.shallow
  | _, group _ body => body.shallow
  | _, _ => true

def checkedGroup : {l : Level} → Node l → Bool
  | _, group _ body => !body.counts && !body.splits
  | _, _ => true

def checked : {l : Level} → Node l → Bool
  | _, only a => a.checked
  | _, either a d => a.checked && d.checked
  | _, followed a t => a.checked && t.checked
  | _, once a => a.checked
  | _, repeated a _ => a.checkedGroup && a.checked
  | _, group _ body => body.checked
  | _, _ => true

theorem alternative_splits (a : Node .alternative) : a.splits = false := by cases a <;> rfl

theorem term_splits (t : Node .term) : t.splits = false := by cases t <;> rfl

theorem atom_splits (a : Node .atom) : a.splits = false := by cases a <;> rfl

theorem atom_counts (a : Node .atom) : a.counts = false := by cases a <;> rfl

variable {l : Level}

theorem plain_iff (n : Node l) : (!n.repeats && !n.alternates) = (!n.counts && !n.splits && n.calm) := by
  induction n with
  | only a ih =>
    rw [alternative_splits] at ih
    exact ih
  | either => simp [alternates,splits]
  | empty | anchor | character | any | escape | charClass => rfl
  | followed a t iha iht =>
    have both := congrArg₂ and iha iht
    simp only [repeats,alternates,counts,splits,calm,Bool.not_or,Bool.not_false,Bool.and_true] at both ⊢
    rw [Bool.and_assoc,Bool.and_left_comm (!t.repeats),← Bool.and_assoc,both,Bool.and_assoc,
      Bool.and_left_comm a.calm,← Bool.and_assoc]
  | once a ih =>
    rw [atom_splits,atom_counts] at ih
    exact ih
  | repeated a q => cases h : overlooked a q <;> simp [repeats,counts,calm,h]
  | group => simp [repeats,alternates,counts,splits,calm]

theorem plainGroup_iff (n : Node l) : n.plainGroup = (n.checkedGroup && n.calmGroup) := by
  cases n <;> first | rfl | exact plain_iff _

theorem safe_of_checked (n : Node l) (checks : n.checked) : n.safe = n.shallow := by
  induction n with
  | only _ ih | once _ ih | group _ _ ih => exact ih checks
  | either a d iha ihd =>
    obtain ⟨first,rest⟩ := Bool.and_eq_true_iff.mp checks
    rw [safe,shallow,iha first,ihd rest]
  | followed a t iha iht =>
    obtain ⟨first,rest⟩ := Bool.and_eq_true_iff.mp checks
    rw [safe,shallow,iha first,iht rest]
  | repeated a q ih =>
    obtain ⟨group,inner⟩ := Bool.and_eq_true_iff.mp checks
    rw [safe,shallow,ih inner,plainGroup_iff,group,Bool.true_and]
  | empty | anchor | character | any | escape | charClass => rfl

end Node

def Covers (quantified alternation : Bool) : List GroupInfo → List GroupInfo → Prop
  | [], [] => True
  | g :: gs, g' :: gs' => gs' = gs ∧ ((g.quantified || quantified) = true → g'.quantified = true) ∧
      ((g.alternation || alternation) = true → g'.alternation = true)
  | _, _ => False

theorem covers_refl (gs : List GroupInfo) : Covers false false gs gs := by
  cases gs <;> simp [Covers]

variable {a : Bool}

theorem covers_trans {q q' a' : Bool} {gs gs' gs'' : List GroupInfo} (first : Covers q a gs gs')
    (rest : Covers q' a' gs' gs'') : Covers (q || q') (a || a') gs gs'' := by
  cases gs <;> cases gs' <;> cases gs'' <;> simp only [Covers] at first rest ⊢
  obtain ⟨rfl,q1,a1⟩ := first
  obtain ⟨rfl,q2,a2⟩ := rest
  refine ⟨rfl,fun h => q2 ?_,fun h => a2 ?_⟩
  · rw [← Bool.or_assoc,Bool.or_eq_true] at h
    rw [Bool.or_eq_true]
    exact h.imp_left q1
  · rw [← Bool.or_assoc,Bool.or_eq_true] at h
    rw [Bool.or_eq_true]
    exact h.imp_left a1

theorem covers_mono {q q' a' : Bool} {gs gs' : List GroupInfo} (covers : Covers q a gs gs') (hq : q' → q)
    (ha : a' → a) : Covers q' a' gs gs' := by
  cases gs <;> cases gs' <;> simp only [Covers] at covers ⊢
  obtain ⟨rfl,hq1,ha1⟩ := covers
  simp only [Bool.or_eq_true] at hq1 ha1 ⊢
  exact ⟨trivial,fun h => hq1 (h.imp_right hq),fun h => ha1 (h.imp_right ha)⟩

def Scan.Normal (s : Scan) : Prop := s.escaped = false ∧ s.inClass = false

def lastOf (before : Option Char) (t : Text) : Option Char := t.getLast?.or before

theorem walk_append (before : Option Char) (s : Scan) (t u : Text) :
    walk before s (t ++ u) = (walk before s t).bind fun s' => walk (lastOf before t) s' u := by
  induction t generalizing before s with
  | nil => rfl
  | cons c t ih =>
    rw [List.cons_append,walk,walk]
    cases step before s c with
    | error => rfl
    | ok s' =>
      have last : lastOf (some c) t = lastOf before (c :: t) := by
        cases t <;> simp [lastOf,List.getLast?_cons]
      have rest := ih (some c) s'
      rw [last] at rest
      exact rest

variable {before : Option Char} {s s' : Scan} {t : Text}

theorem walk_append_ok {u : Text} (h : walk before s (t ++ u) = .ok s') :
    ∃ mid, walk before s t = .ok mid ∧ walk (lastOf before t) mid u = .ok s' := by
  rw [walk_append] at h
  exact bind_ok h

theorem walk_cons_ok {c : Char} (h : walk before s (c :: t) = .ok s') :
    ∃ mid, step before s c = .ok mid ∧ walk (some c) mid t = .ok s' := bind_ok h

theorem covers_top (gs : List GroupInfo) {f : GroupInfo → GroupInfo} {q : Bool}
    (quantified : ∀ g, (g.quantified || q) → (f g).quantified)
    (alternation : ∀ g, (g.alternation || a) → (f g).alternation) : Covers q a gs (onTop f gs) := by
  cases gs with
  | nil => trivial
  | cons g => exact ⟨rfl,quantified g,alternation g⟩

theorem repeated_ok (h : repeated s = .ok s') :
    s'.escaped = s.escaped ∧ s'.inClass = s.inClass ∧ Covers true false s.groups s'.groups ∧
      s.closed.any (fun g => g.quantified || g.alternation) = false := by
  unfold repeated at h
  split at h
  · cases h
  next calm =>
    rw [Bool.or_eq_true,not_or] at calm
    rw [← Except.ok.inj h]
    exact ⟨rfl,rfl,covers_top _ (by simp) (by simp),Bool.eq_false_iff.mpr calm.2⟩

theorem step_keeps {c : Char} (h : step before s c = .ok s') (plain : s.escaped = true ∨ c ≠ '(' ∧ c ≠ ')') :
    Covers false false s.groups s'.groups ∧ s'.escaped = (!s.escaped && c == '\\') ∧
      (c ≠ '[' → s.inClass = false → s'.inClass = false) := by
  unfold step at h
  split at h
  next escaped =>
    cases h
    exact ⟨covers_refl _,by simp [escaped],fun _ out => out⟩
  next open' =>
    obtain ⟨notOpen,notClose⟩ := plain.resolve_left open'
    rw [Bool.not_eq_true] at open'
    split at h
    next back =>
      cases h
      exact ⟨covers_refl _,by simp [open',back],fun _ out => out⟩
    next notBack =>
      have escaped : (!s.escaped && c == '\\') = false := by simp [notBack]
      rw [escaped]
      split at h
      next bracket =>
        cases h
        exact ⟨covers_refl _,open',fun other => absurd bracket other⟩
      next =>
        split at h
        next =>
          cases h
          exact ⟨covers_refl _,open',fun _ _ => rfl⟩
        next =>
          split at h
          next =>
            cases h
            exact ⟨covers_refl _,open',fun _ out => out⟩
          next =>
            split at h
            next =>
              cases h
              exact ⟨covers_top _ (by simp) (by simp),open',fun _ out => out⟩
            next =>
              split at h
              next =>
                obtain ⟨sameEscape,sameClass,covers,-⟩ := repeated_ok h
                exact ⟨covers_mono covers (by simp) (by simp),sameEscape.trans open',fun _ out => sameClass.trans out⟩
              next =>
                cases h
                exact ⟨covers_refl _,open',fun _ out => out⟩

theorem scanned_cons {body : Bool → Text → Bool} (inside : Char → Bool) {escaped : Bool} {c : Char}
    (skip : body true (c :: t) = body false t)
    (take : body false (c :: t) = if c = '\\' then body true t else inside c && body false t)
    (h : body escaped (c :: t)) :
    (escaped = true ∨ c = '\\' ∨ inside c) ∧ body (!escaped && c == '\\') t := by
  cases escaped with
  | true => exact ⟨.inl rfl,skip ▸ h⟩
  | false =>
    rw [take] at h
    split at h
    next back => exact ⟨.inr (.inl back),by simpa [back] using h⟩
    next other =>
      rw [Bool.and_eq_true] at h
      exact ⟨.inr (.inr h.1),by simpa [beq_false_of_ne other] using h.2⟩

theorem walk_flat (plain : flat s.escaped t = true) (h : walk before s t = .ok s') :
    s'.escaped = false ∧ Covers false false s.groups s'.groups ∧
      ('[' ∉ t → s.inClass = false → s'.inClass = false) := by
  induction t generalizing before s with
  | nil =>
    cases h
    refine ⟨?_,covers_refl _,fun _ out => out⟩
    simpa [flat] using plain
  | cons c t ih =>
    obtain ⟨mid,first,rest⟩ := walk_cons_ok h
    obtain ⟨here,after⟩ := scanned_cons (fun c => c ≠ '(' && c ≠ ')') rfl rfl plain
    have free : s.escaped = true ∨ c ≠ '(' ∧ c ≠ ')' := by
      rcases here with escaped | rfl | inside
      · exact .inl escaped
      · exact .inr (by decide)
      · exact .inr (by simpa using inside)
    obtain ⟨covers,escapes,stays⟩ := step_keeps first free
    obtain ⟨ends,covers',stays'⟩ := ih (escapes ▸ after) rest
    refine ⟨ends,covers_trans covers covers',fun absent out => ?_⟩
    rw [List.mem_cons,not_or] at absent
    exact stays' absent.2 (stays (Ne.symm absent.1) out)

theorem walk_unbracketed (plain : unbracketed t) (normal : s.Normal) (h : walk before s t = .ok s') :
    s'.Normal ∧ Covers false false s.groups s'.groups := by
  obtain ⟨body,absent⟩ := Bool.and_eq_true_iff.mp plain
  obtain ⟨ends,covers,stays⟩ := walk_flat (normal.1.symm ▸ body) h
  have out : '[' ∉ t := by simpa using absent
  exact ⟨⟨ends,stays out normal.2⟩,covers⟩

theorem step_inClass (before : Option Char) {s : Scan} {c : Char} (inside : s.inClass = true)
    (plain : s.escaped = true ∨ c ≠ ']') :
    ∃ s', step before s c = .ok s' ∧ s'.groups = s.groups ∧ s'.inClass = true ∧
      s'.escaped = (!s.escaped && c == '\\') := by
  unfold step
  cases escaped : s.escaped with
  | true => exact ⟨_,if_pos rfl,rfl,inside,rfl⟩
  | false =>
    have other : c ≠ ']' := plain.resolve_left (by simp [escaped])
    by_cases back : c = '\\'
    · subst back
      exact ⟨_,rfl,rfl,inside,rfl⟩
    · by_cases bracket : c = '['
      · subst bracket
        exact ⟨_,rfl,rfl,rfl,rfl⟩
      · refine ⟨s,?_,rfl,inside,?_⟩
        · simp [back,bracket,other,inside]
        · simp [back,escaped]

theorem walk_classBody (plain : classBody s.escaped t) (inside : s.inClass) (h : walk before s t = .ok s') :
    s'.escaped = false ∧ s'.groups = s.groups := by
  induction t generalizing before s with
  | nil =>
    cases h
    exact ⟨by simpa [classBody] using plain,rfl⟩
  | cons c t ih =>
    obtain ⟨mid,first,rest⟩ := walk_cons_ok h
    obtain ⟨here,after⟩ := scanned_cons (· ≠ ']') rfl rfl plain
    have free : s.escaped = true ∨ c ≠ ']' := by
      rcases here with escaped | rfl | inside
      · exact .inl escaped
      · exact .inr (by decide)
      · exact .inr (by simpa using inside)
    obtain ⟨mid',first',same,still,escapes⟩ := step_inClass before inside free
    rw [first] at first'
    cases first'
    obtain ⟨ends,same'⟩ := ih (escapes ▸ after) still rest
    exact ⟨ends,same'.trans same⟩

theorem step_bracket (normal : s.escaped = false) (h : step before s '[' = .ok s') :
    s'.groups = s.groups ∧ s'.inClass = true ∧ s'.escaped = false := by
  rw [step,normal] at h
  cases h
  exact ⟨rfl,rfl,rfl⟩

theorem step_unbracket (normal : s.escaped = false) (h : step before s ']' = .ok s') :
    s'.groups = s.groups ∧ s'.Normal := by
  rw [step,normal] at h
  cases inside : s.inClass with
  | true | false =>
    rw [inside] at h
    cases h
    exact ⟨rfl,rfl,rfl⟩

theorem walk_charClass (c : CharacterClass) (normal : s.Normal) (h : walk before s (Node.charClass c).text = .ok s') :
    s'.Normal ∧ Covers false false s.groups s'.groups := by
  obtain ⟨opened,first,h⟩ := walk_cons_ok h
  obtain ⟨body,second,h⟩ := walk_append_ok h
  obtain ⟨closed,third,h⟩ := walk_cons_ok h
  cases h
  obtain ⟨sameOpen,inside,unescaped⟩ := step_bracket normal.1 first
  have bodies : body.escaped = false ∧ Covers false false s.groups body.groups := by
    cases c with
    | ranges t plain =>
      obtain ⟨ends,same⟩ := walk_classBody (unescaped.symm ▸ plain) inside second
      rw [same,sameOpen]
      exact ⟨ends,covers_refl _⟩
    | sets t plain =>
      obtain ⟨ends,covers,-⟩ := walk_flat (unescaped.symm ▸ plain) second
      exact ⟨ends,sameOpen ▸ covers⟩
  obtain ⟨sameClose,normal'⟩ := step_unbracket bodies.1 third
  exact ⟨normal',sameClose.symm ▸ bodies.2⟩

section

variable (normal : s.Normal)
include normal

theorem step_open (h : step before s '(' = .ok s') :
    s'.Normal ∧ s'.groups = ⟨false,false⟩ :: s.groups := by
  rw [step,normal.1,normal.2] at h
  cases h
  exact ⟨⟨rfl,rfl⟩,rfl⟩

theorem step_closed (h : step before s ')' = .ok s') :
    s'.Normal ∧ s'.groups = s.groups.tail ∧ s'.closed = some (s.groups.head?.getD ⟨false,false⟩) := by
  rw [step,normal.1,normal.2] at h
  cases h
  exact ⟨⟨rfl,rfl⟩,rfl,rfl⟩

theorem step_bar (h : step before s '|' = .ok s') :
    s'.Normal ∧ Covers false true s.groups s'.groups := by
  rw [step,normal.1,normal.2] at h
  cases h
  exact ⟨⟨rfl,rfl⟩,covers_top _ (by simp) (by simp)⟩

theorem step_repeats {p : QuantifierPrefix} (seen : isQuantifier before p.char)
    (h : step before s p.char = .ok s') : repeated s = .ok s' := by
  rw [step,normal.1,normal.2] at h
  cases p <;> simp only [QuantifierPrefix.char] at seen h <;> simpa [seen] using h

end

theorem flat_append {escaped : Bool} (u : Text) (plain : flat escaped t) : flat escaped (t ++ u) = flat false u := by
  induction t generalizing escaped with
  | nil =>
    cases escaped with
    | true => cases plain
    | false => rfl
  | cons c t ih =>
    cases escaped with
    | true => exact ih plain
    | false =>
      rw [List.cons_append,flat]
      rw [flat] at plain
      split at plain
      next back => rw [if_pos back,ih plain]
      next other =>
        obtain ⟨here,rest⟩ := Bool.and_eq_true_iff.mp plain
        rw [if_neg other,ih rest,here,Bool.true_and]

theorem unbracketed_append {u : Text} (first : unbracketed t) (second : unbracketed u) : unbracketed (t ++ u) := by
  obtain ⟨flat1,absent1⟩ := Bool.and_eq_true_iff.mp first
  obtain ⟨flat2,absent2⟩ := Bool.and_eq_true_iff.mp second
  refine Bool.and_eq_true_iff.mpr ⟨(flat_append u flat1).trans flat2,?_⟩
  simp only [List.contains_eq_mem,List.mem_append,Bool.not_eq_true',decide_eq_false_iff_not] at absent1 absent2 ⊢
  exact not_or.mpr ⟨absent1,absent2⟩

theorem unbracketed_of_plain {t : Text} (plain : ∀ c ∈ t, c ≠ '\\' ∧ c ≠ '(' ∧ c ≠ ')' ∧
    c ≠ '[') : unbracketed t = true := by
  induction t with
  | nil => rfl
  | cons c t ih =>
    obtain ⟨back,left,right,bracket⟩ := plain c (.head _)
    have rest := ih fun d hd => plain d (.tail c hd)
    refine unbracketed_append (t := [c]) ?_ rest
    simp [unbracketed,flat,back,left,right,Ne.symm bracket]

theorem GroupKind.unbracketed_text (kind : GroupKind) : unbracketed kind.text := by
  cases kind with
  | capturing => rfl
  | named _ plain => exact unbracketed_append (t := ['?','<']) rfl (unbracketed_append plain rfl)
  | modified _ plain => exact unbracketed_append (t := ['?']) rfl (unbracketed_append plain rfl)
  | look behind negative => cases behind <;> cases negative <;> rfl

theorem QuantifierPrefix.unbracketed_rest (p : QuantifierPrefix) : unbracketed p.rest := by
  cases p with
  | star | plus | optional => rfl
  | braced _ digits =>
    refine unbracketed_append (unbracketed_of_plain fun c hc => ?_) rfl
    have digit := List.all_eq_true.mp digits c hc
    refine ⟨?_,?_,?_,?_⟩ <;> rintro rfl <;> cases digit

theorem Quantifier.unbracketed_rest (q : Quantifier) : unbracketed q.rest := by
  refine unbracketed_append q.sign.unbracketed_rest ?_
  split <;> rfl

theorem PatternCharacter.unbracketed_text (c : PatternCharacter) : unbracketed [c.c] := by
  refine unbracketed_of_plain fun d hd => ?_
  rw [List.mem_singleton.mp hd]
  refine ⟨?_,?_,?_,?_⟩ <;> exact fun same => absurd c.plain (by simp [same,syntaxChars])

theorem walk_escape (e : AtomEscape) (normal : s.Normal) (h : walk before s (Node.escape e).text = .ok s') :
    s'.Normal ∧ Covers false false s.groups s'.groups := by
  obtain ⟨back,first,h⟩ := walk_cons_ok h
  obtain ⟨taken,second,h⟩ := walk_cons_ok h
  rw [step,normal.1,normal.2] at first
  cases first
  cases second
  obtain ⟨normal',covers⟩ := walk_unbracketed e.plain ⟨rfl,rfl⟩ h
  exact ⟨normal',covers⟩

variable {q : Quantifier}

theorem walk_quantifier (normal : s.Normal) (seen : isQuantifier before q.sign.char)
    (h : walk before s (q.sign.char :: q.rest) = .ok s') : s'.Normal ∧ Covers true false s.groups s'.groups ∧
      s.closed.any (fun g => g.quantified || g.alternation) = false := by
  obtain ⟨mid,first,rest⟩ := walk_cons_ok h
  obtain ⟨sameEscape,sameClass,covers,calm⟩ := repeated_ok (step_repeats normal seen first)
  obtain ⟨normal',covers'⟩ := walk_unbracketed q.unbracketed_rest
    ⟨sameEscape.trans normal.1,sameClass.trans normal.2⟩ rest
  exact ⟨normal',covers_trans covers covers',calm⟩

theorem Node.atom_text_ne (a : Node .atom) : a.text ≠ [] := by
  cases a <;> simp [Node.text]

theorem Node.seen_of_not_overlooked {a : Node .atom} (before : Option Char) (plain : a.overlooked q = false) :
    isQuantifier (lastOf before a.text) q.sign.char := by
  obtain ⟨last,isLast⟩ := Option.ne_none_iff_exists'.mp (mt List.getLast?_eq_none_iff.mp a.atom_text_ne)
  rw [lastOf]
  rw [Node.overlooked] at plain
  cases sign : q.sign <;> simp_all [QuantifierPrefix.char,isQuantifier]

theorem Node.checkedGroup_of_overlooked {a : Node .atom} (unseen : a.overlooked q) : a.checkedGroup := by
  cases a with
  | group =>
    rw [Node.overlooked,Node.text,List.getLast?_append] at unseen
    simp at unseen
  | character | any | escape | charClass => rfl

theorem walk_group {kind : GroupKind} {body : Node .disjunction} (normal : s.Normal)
    (h : walk before s (Node.group kind body).text = .ok s')
    (inner : ∀ {before : Option Char} {s s' : Scan}, s.Normal → walk before s body.text = .ok s' → s'.Normal ∧
      Covers body.counts body.splits s.groups s'.groups ∧ body.checked) :
    s'.Normal ∧ s'.groups = s.groups ∧ body.checked ∧ ∃ g, s'.closed = some g ∧ (body.counts → g.quantified) ∧
      (body.splits → g.alternation) := by
  obtain ⟨filled,h,last⟩ := walk_append_ok h
  obtain ⟨named,h,third⟩ := walk_append_ok h
  obtain ⟨opened,first,second⟩ := walk_cons_ok h
  obtain ⟨closed,fourth,rest⟩ := walk_cons_ok last
  cases rest
  obtain ⟨normal1,top⟩ := step_open normal first
  obtain ⟨normal2,covers2⟩ := walk_unbracketed kind.unbracketed_text normal1 second
  obtain ⟨normal3,covers3,checks⟩ := inner normal2 third
  obtain ⟨normal4,popped,noted⟩ := step_closed normal3 fourth
  have covers := covers_trans covers2 covers3
  rw [top] at covers
  cases groups : filled.groups with
  | nil =>
    rw [groups] at covers
    cases covers
  | cons g =>
    rw [groups] at covers popped noted
    obtain ⟨same,quantified,alternation⟩ := covers
    exact ⟨normal4,popped.trans same,checks,g,noted,quantified,alternation⟩

theorem walk_node {l : Level} (n : Node l) (normal : s.Normal) (h : walk before s n.text = .ok s') :
    s'.Normal ∧ Covers n.counts n.splits s.groups s'.groups ∧ n.checked ∧
      (s'.closed.any (fun g => g.quantified || g.alternation) = false → n.checkedGroup) := by
  induction n generalizing before s s' with
  | only a ih =>
    obtain ⟨normal',covers,checks,-⟩ := ih normal h
    rw [Node.alternative_splits] at covers
    exact ⟨normal',covers,checks,fun _ => rfl⟩
  | either a d iha ihd =>
    obtain ⟨mid,first,h⟩ := walk_append_ok h
    obtain ⟨bar,second,third⟩ := walk_cons_ok h
    obtain ⟨normal1,covers1,checks1,-⟩ := iha normal first
    obtain ⟨normal2,covers2⟩ := step_bar normal1 second
    obtain ⟨normal3,covers3,checks3,-⟩ := ihd normal2 third
    refine ⟨normal3,?_,Bool.and_eq_true_iff.mpr ⟨checks1,checks3⟩,fun _ => rfl⟩
    refine covers_mono (covers_trans covers1 (covers_trans covers2 covers3)) ?_ ?_
    · rw [Bool.false_or]
      exact id
    · rw [Bool.true_or,Bool.or_true]
      exact fun _ => rfl
  | empty =>
    cases h
    exact ⟨normal,covers_refl _,rfl,fun _ => rfl⟩
  | followed a t iha iht =>
    obtain ⟨mid,first,second⟩ := walk_append_ok h
    obtain ⟨normal1,covers1,checks1,-⟩ := iha normal first
    obtain ⟨normal2,covers2,checks2,-⟩ := iht normal1 second
    refine ⟨normal2,?_,Bool.and_eq_true_iff.mpr ⟨checks1,checks2⟩,fun _ => rfl⟩
    have covers := covers_trans covers1 covers2
    rwa [Node.alternative_splits,Node.term_splits] at covers
  | anchor a =>
    obtain ⟨normal',covers⟩ := walk_unbracketed (by cases a <;> rfl) normal h
    exact ⟨normal',covers,rfl,fun _ => rfl⟩
  | once a ih =>
    obtain ⟨normal',covers,checks,-⟩ := ih normal h
    rw [Node.atom_splits,Node.atom_counts] at covers
    exact ⟨normal',covers,checks,fun _ => rfl⟩
  | repeated a q ih =>
    obtain ⟨mid,first,second⟩ := walk_append_ok h
    obtain ⟨normal1,covers1,checks1,closes⟩ := ih normal first
    rw [Node.atom_splits,Node.atom_counts] at covers1
    cases unseen : a.overlooked q with
    | true =>
      have plain : unbracketed (q.sign.char :: q.rest) = true :=
        unbracketed_append (t := [q.sign.char]) (by cases q.sign <;> rfl) q.unbracketed_rest
      obtain ⟨normal2,covers2⟩ := walk_unbracketed plain normal1 second
      refine ⟨normal2,?_,Bool.and_eq_true_iff.mpr ⟨Node.checkedGroup_of_overlooked unseen,checks1⟩,fun _ => rfl⟩
      rw [Node.counts,unseen]
      exact covers_trans covers1 covers2
    | false =>
      obtain ⟨normal2,covers2,calm⟩ := walk_quantifier normal1 (Node.seen_of_not_overlooked before unseen) second
      refine ⟨normal2,?_,Bool.and_eq_true_iff.mpr ⟨closes calm,checks1⟩,fun _ => rfl⟩
      rw [Node.counts,unseen]
      exact covers_trans covers1 covers2
  | character c =>
    obtain ⟨normal',covers⟩ := walk_unbracketed c.unbracketed_text normal h
    exact ⟨normal',covers,rfl,fun _ => rfl⟩
  | any =>
    obtain ⟨normal',covers⟩ := walk_unbracketed rfl normal h
    exact ⟨normal',covers,rfl,fun _ => rfl⟩
  | escape e =>
    obtain ⟨normal',covers⟩ := walk_escape e normal h
    exact ⟨normal',covers,rfl,fun _ => rfl⟩
  | charClass c =>
    obtain ⟨normal',covers⟩ := walk_charClass c normal h
    exact ⟨normal',covers,rfl,fun _ => rfl⟩
  | group _ body ih =>
    have inner {before : Option Char} {s s' : Scan} (hs : s.Normal) (hw : walk before s body.text = .ok s') :
        s'.Normal ∧ Covers body.counts body.splits s.groups s'.groups ∧ body.checked = true := by
      obtain ⟨normal',covers,checks,-⟩ := ih hs hw
      exact ⟨normal',covers,checks⟩
    obtain ⟨normal',same,checks,g,closes,quantified,alternation⟩ := walk_group normal h inner
    refine ⟨normal',same.symm ▸ covers_refl _,checks,fun calm => ?_⟩
    rw [closes,Option.any_some,Bool.or_eq_false_iff] at calm
    rw [Node.checkedGroup,Bool.and_eq_true,Bool.not_eq_true',Bool.not_eq_true']
    exact ⟨Bool.eq_false_iff.mpr fun counts => Bool.eq_false_iff.mp calm.1 (quantified counts),
      Bool.eq_false_iff.mpr fun splits => Bool.eq_false_iff.mp calm.2 (alternation splits)⟩

theorem compiled_walk {engine : RegExpEngine} {pattern flags : Text} {re : RegExp}
    (compiles : compileSafeRegex engine pattern flags = .ok re) : ∃ s, walk none start pattern = .ok s := by
  unfold compileSafeRegex at compiles
  split at compiles
  · cases compiles
  · split at compiles
    · cases compiles
    · cases walked : walk none start pattern with
      | ok s => exact ⟨s,rfl⟩
      | error =>
        rw [walked] at compiles
        cases compiles

theorem accepted_safe_iff_shallow (engine : RegExpEngine) (flags : Text) (pattern : Node .disjunction) (re : RegExp)
    (compiles : compileSafeRegex engine pattern.text flags = .ok re) : pattern.safe = true ↔
      pattern.shallow = true := by
  obtain ⟨s,walked⟩ := compiled_walk compiles
  obtain ⟨-,-,checks,-⟩ := walk_node pattern ⟨rfl,rfl⟩ walked
  rw [pattern.safe_of_checked checks]

def Node.one (a : Node .atom) : Node .disjunction := .only (.followed .empty (.once a))

def Node.oneRepeated (a : Node .atom) (sign : QuantifierPrefix) : Node .disjunction :=
  .only (.followed .empty (.repeated a ⟨sign,false⟩))

def letterA : Node .atom := .character ⟨'a',by decide⟩

def repeatedGroup : Node .disjunction := .oneRepeated (.group .capturing (.one letterA)) .plus

def acceptingEngine : RegExpEngine := ⟨fun _ _ => .ok fun _ => none⟩

theorem accepted_safe_iff_shallow_repeated_group :
    repeatedGroup.text = "(a)+".toList ∧ (repeatedGroup.safe = true ↔ repeatedGroup.shallow = true) :=
  ⟨by decide,accepted_safe_iff_shallow acceptingEngine [] repeatedGroup (fun _ => none) rfl⟩

def wrappedRepetition : Node .disjunction :=
  .oneRepeated (.group .capturing (.one (.group .capturing (.oneRepeated letterA .plus)))) .plus

def optionalParenthesis : Node .disjunction :=
  .oneRepeated (.group .capturing (.oneRepeated (.escape ⟨'(',[],rfl⟩) .optional)) .plus

theorem nested_repetitions_accepted : (wrappedRepetition.text = "((a+))+".toList ∧ wrappedRepetition.safe = false ∧
      ∀ engine flags, compileSafeRegex engine wrappedRepetition.text flags =
        engine.newRegExp wrappedRepetition.text flags) ∧
    (optionalParenthesis.text = "(\\(?)+".toList ∧ optionalParenthesis.safe = false ∧
      ∀ engine flags, compileSafeRegex engine optionalParenthesis.text flags =
        engine.newRegExp optionalParenthesis.text flags) :=
  ⟨⟨by decide,rfl,fun _ _ => rfl⟩,by decide,rfl,fun _ _ => rfl⟩

end CompanyBrain.Util.SafeRegex
