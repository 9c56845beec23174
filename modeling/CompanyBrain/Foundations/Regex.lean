import CompanyBrain.Foundations.JsText

namespace CompanyBrain.Foundations

inductive Regex where
  | eps
  | chr (p : Char → Bool)
  | seq (a b : Regex)
  | alt (a b : Regex)
  | many (a : Regex)
  | manyLazy (a : Regex)
  | group (n : Nat) (a : Regex)
  | backref (n : Nat)
  | textStart
  | textEnd
  | lineStart
  | lineEnd

structure Cursor where
  prev : Option Char
  rest : Text
  groups : List (Nat × Text)

namespace Cursor

def advance (s : Cursor) (c : Char) (t : Text) : Cursor := ⟨some c,t,s.groups⟩

def taken (s r : Cursor) : Text := s.rest.take (s.rest.length - r.rest.length)

def capture (s : Cursor) (n : Nat) (r : Cursor) : Cursor :=
  {r with groups := (n,s.taken r) :: r.groups}

def skip (s : Cursor) : Text → Option Cursor
  | [] => some s
  | c :: cs =>
    match s.rest with
    | [] => none
    | d :: t => if c = d then (s.advance d t).skip cs else none

end Cursor

namespace Regex

-- A repetition tries its body again only after the body consumed something.
def greedy (step : Cursor → List Cursor) : Nat → Cursor → List Cursor
  | 0, s => [s]
  | n+1, s =>
    ((step s).filter fun r => r.rest.length < s.rest.length).flatMap (greedy step n) ++ [s]

def reluctant (step : Cursor → List Cursor) : Nat → Cursor → List Cursor
  | 0, s => [s]
  | n+1, s =>
    s :: ((step s).filter fun r => r.rest.length < s.rest.length).flatMap (reluctant step n)

def run : Regex → Cursor → List Cursor
  | eps, s => [s]
  | chr p, s =>
    match s.rest with
    | [] => []
    | c :: t => if p c then [s.advance c t] else []
  | seq a b, s => (a.run s).flatMap b.run
  | alt a b, s => a.run s ++ b.run s
  | many a, s => greedy a.run s.rest.length s
  | manyLazy a, s => reluctant a.run s.rest.length s
  | group n a, s => (a.run s).map (s.capture n)
  | backref n, s => (s.skip ((s.groups.lookup n).getD [])).toList
  | textStart, s => if s.prev.isNone then [s] else []
  | textEnd, s => if s.rest.isEmpty then [s] else []
  | lineStart, s => if s.prev.all isLineTerminator then [s] else []
  | lineEnd, s => if s.rest.head?.all isLineTerminator then [s] else []

def lit (c : Char) : Regex := chr (· == c)

def oneOf (cs : String) : Regex := chr cs.toList.contains

def noneOf (cs : String) : Regex := chr fun c => !cs.toList.contains c

def dot : Regex := chr fun c => !isLineTerminator c

def space : Regex := chr isJsSpace

def notSpace : Regex := chr fun c => !isJsSpace c

def opt (a : Regex) : Regex := alt a eps

def plus (a : Regex) : Regex := seq a (many a)

def times (a : Regex) : Nat → Regex
  | 0 => eps
  | n+1 => seq a (times a n)

def all : List Regex → Regex
  | [] => eps
  | a :: as => seq a (all as)

def literal (cs : String) : Regex := all (cs.toList.map lit)

end Regex

structure Hit where
  text : Text
  groups : List (Nat × Text)
deriving DecidableEq

def Hit.group (h : Hit) (n : Nat) : Option Text := h.groups.lookup n

inductive Span where
  | plain (c : Char)
  | hit (h : Hit)
deriving DecidableEq

namespace Regex

def matchAt (re : Regex) (prev : Option Char) (rest : Text) : Option Cursor :=
  (re.run ⟨prev,rest,[]⟩).head?

def spansFrom (re : Regex) : Nat → Option Char → Text → List Span
  | 0, _, _ => []
  | n+1, prev, rest =>
    let skipped : List Span :=
      match rest with
      | [] => []
      | c :: t => .plain c :: spansFrom re n (some c) t
    match re.matchAt prev rest with
    | none => skipped
    | some r =>
      .hit ⟨rest.take (rest.length - r.rest.length),r.groups⟩ ::
        if r.rest.length < rest.length then spansFrom re n r.prev r.rest else skipped

def spansAt (re : Regex) (prev : Option Char) (rest : Text) : List Span :=
  spansFrom re (rest.length+1) prev rest

def spans (re : Regex) (t : Text) : List Span := re.spansAt none t

end Regex

def Span.render (f : Hit → Text) : Span → Text
  | .plain c => [c]
  | .hit h => f h

def Span.renderM {m : Type → Type} [Monad m] (f : Hit → m Text) : Span → m Text
  | .plain c => pure [c]
  | .hit h => f h

def Span.hit? : Span → Option Hit
  | .plain _ => none
  | .hit h => some h

namespace Regex

def hits (re : Regex) (t : Text) : List Hit := (re.spans t).filterMap Span.hit?

def exec (re : Regex) (t : Text) : Option Hit := (re.hits t).head?

def test (re : Regex) (t : Text) : Bool := (re.exec t).isSome

def replaceAt (re : Regex) (f : Hit → Text) (prev : Option Char) (rest : Text) : Text :=
  (re.spansAt prev rest).flatMap (Span.render f)

def replaceAll (re : Regex) (f : Hit → Text) (t : Text) : Text := re.replaceAt f none t

def renderAll {m : Type → Type} [Monad m] (f : Hit → m Text) (spans : List Span) : m Text :=
  List.flatten <$> spans.mapM (Span.renderM f)

def replaceAllM {m : Type → Type} [Monad m] (re : Regex) (f : Hit → m Text) (t : Text) : m Text :=
  renderAll f (re.spans t)

theorem run_chr_cons (p : Char → Bool) (prev : Option Char) (c : Char) (t : Text) (g : List (Nat × Text)) :
    (chr p).run ⟨prev,c :: t,g⟩ = if p c then [⟨some c,t,g⟩] else [] := rfl

theorem run_seq (a b : Regex) (s : Cursor) : (seq a b).run s = (a.run s).flatMap b.run := rfl

theorem run_seq_chr (p : Char → Bool) (b : Regex) (prev : Option Char) (c : Char) (t : Text) (g : List (Nat × Text)) :
    (seq (chr p) b).run ⟨prev,c :: t,g⟩ = if p c then b.run ⟨some c,t,g⟩ else [] := by
  rw [run_seq,run_chr_cons]
  split
  · exact List.flatMap_singleton _ _
  · rfl

theorem run_seq_lit (c : Char) (b : Regex) (prev : Option Char) (t : Text)
    (g : List (Nat × Text)) : (seq (lit c) b).run ⟨prev,c :: t,g⟩ = b.run ⟨some c,t,g⟩ := by
  simp [lit,run_seq_chr]

variable {v : Text} {prev : Option Char} {re : Regex}

theorem spansAt_nil (h : re.matchAt prev [] = none) : re.spansAt prev [] = [] := by
  simp [spansAt,spansFrom,h]

variable {c : Char} {t : Text}

theorem spansAt_skip (h : re.matchAt prev (c :: t) = none) :
    re.spansAt prev (c :: t) = .plain c :: re.spansAt (some c) t := by
  change spansFrom re (t.length+1+1) prev (c :: t) = _
  simp only [spansFrom,h,spansAt]

theorem exists_hit (h : ∀ prev, (re.matchAt prev v).isSome) (u : Text) (prev : Option Char) :
    ∃ hit, Span.hit hit ∈ re.spansAt prev (u ++ v) := by
  have here {t : Text} {prev : Option Char} (found : (re.matchAt prev t).isSome) :
      ∃ hit, Span.hit hit ∈ re.spansAt prev t := by
    obtain ⟨r,hr⟩ := Option.isSome_iff_exists.mp found
    have first : ∃ hit more, re.spansAt prev t = .hit hit :: more := by
      simp only [spansAt]
      conv => enter [1,hit,1,more,1]; unfold spansFrom
      simp only [hr]
      exact ⟨_,_,rfl⟩
    obtain ⟨hit,more,heq⟩ := first
    exact ⟨hit,heq ▸ (.head _)⟩
  induction u generalizing prev with
  | nil => exact here (h prev)
  | cons c u ih =>
    cases found : re.matchAt prev (c :: (u ++ v)) with
    | none =>
      obtain ⟨hit,mem⟩ := ih (some c)
      exact ⟨hit,by rw [List.cons_append,spansAt_skip found]; exact .tail _ mem⟩
    | some => exact here (by rw [List.cons_append,found]; rfl)

theorem exec_isSome (h : ∀ prev, (re.matchAt prev v).isSome) (u : Text) : (re.exec (u ++ v)).isSome := by
  obtain ⟨hit,mem⟩ := exists_hit h u none
  have found : hit ∈ re.hits (u ++ v) := List.mem_filterMap.mpr ⟨_,mem,rfl⟩
  rw [exec]
  simpa [List.isEmpty_iff] using List.ne_nil_of_mem found

theorem test_seq_textStart {b : Regex} (h : (seq textStart b).test t) : (b.matchAt none t).isSome := by
  have later (c : Char) (t : Text) : (seq textStart b).spansAt (some c) t = t.map Span.plain := by
    induction t generalizing c with
    | nil => exact spansAt_nil rfl
    | cons d t ih => rw [spansAt_skip rfl,ih,List.map_cons]
  have start : (seq textStart b).matchAt none t = b.matchAt none t := by
    change (([⟨none,t,[]⟩] : List Cursor).flatMap b.run).head? = _
    rw [List.flatMap_singleton]
    rfl
  cases found : b.matchAt none t with
  | some => rfl
  | none =>
    have plain : (seq textStart b).spans t = t.map Span.plain := by
      cases t with
      | nil => exact spansAt_nil (start.trans found)
      | cons => rw [spans,spansAt_skip (start.trans found),later,List.map_cons]
    have hits : (seq textStart b).hits t = [] := by
      rw [hits,plain,List.filterMap_map]
      exact List.filterMap_eq_nil_iff.mpr fun c _ => rfl
    rw [test,exec,hits] at h
    cases h

theorem literal_exec_isSome {p : Text} (h : p <:+: t) : ((all (p.map lit)).exec t).isSome := by
  have run_literal (p v : Text) (prev : Option Char) :
      ∃ prev', (all (p.map lit)).run ⟨prev,p ++ v,[]⟩ = [⟨prev',v,[]⟩] := by
    induction p generalizing prev with
    | nil => exact ⟨prev,rfl⟩
    | cons c p ih =>
      obtain ⟨prev',found⟩ := ih (some c)
      exact ⟨prev',by rw [List.map_cons,all,List.cons_append,run_seq_lit,found]⟩
  obtain ⟨u,v,rfl⟩ := h
  rw [List.append_assoc]
  refine exec_isSome (fun prev => ?_) u
  obtain ⟨prev',found⟩ := run_literal p v prev
  rw [matchAt,found]
  rfl

end Regex

def Cursor.Reaches (s r : Cursor) (u : Text) : Prop :=
  s.rest = u ++ r.rest ∧ r.prev = u.getLast?.or s.prev

namespace Cursor

theorem Reaches.refl (s : Cursor) : s.Reaches s [] := ⟨rfl,rfl⟩

variable {s : Cursor}

theorem Reaches.trans {r q : Cursor} {u v : Text} (h : s.Reaches r u) (k : r.Reaches q v) : s.Reaches q (u ++ v) := by
  refine ⟨?_,?_⟩
  · rw [h.1,k.1,List.append_assoc]
  · rw [k.2,h.2,List.getLast?_append,Option.or_assoc]

theorem reaches_advance {c : Char} {t : Text} (h : s.rest = c :: t) : s.Reaches (s.advance c t) [c] := ⟨h,rfl⟩

theorem reaches_skip {r : Cursor} {cs : Text} (h : s.skip cs = some r) : s.Reaches r cs := by
  induction cs generalizing s with
  | nil =>
    cases h
    exact .refl _
  | cons _ _ ih =>
    simp only [skip] at h
    split at h
    · cases h
    next d t hs =>
      split at h
      next hc =>
        subst hc
        exact (reaches_advance hs).trans (ih h)
      · cases h

end Cursor

namespace Regex

def Advances (step : Cursor → List Cursor) : Prop :=
  ∀ s, ∀ r ∈ step s, ∃ u, s.Reaches r u

variable {step : Cursor → List Cursor}

theorem advances_still : Advances fun s => [s] := by
  intro s r hr
  cases List.mem_singleton.mp hr
  exact ⟨[],.refl _⟩

theorem reaches_then {next : Cursor → List Cursor} (h : Advances step) (k : Advances next) {s q r : Cursor}
    (hq : q ∈ step s) (hr : r ∈ next q) : ∃ u, s.Reaches r u := by
  obtain ⟨u,hu⟩ := h s q hq
  obtain ⟨v,hv⟩ := k q r hr
  exact ⟨u ++ v,hu.trans hv⟩

theorem advances_greedy (h : Advances step) (n : Nat) : Advances (greedy step n) := by
  induction n with
  | zero => exact advances_still
  | succ n ih =>
    intro s r hr
    rcases List.mem_append.mp hr with more | last
    · obtain ⟨q,hq,hr⟩ := List.mem_flatMap.mp more
      exact reaches_then h ih (List.mem_of_mem_filter hq) hr
    · exact advances_still s r last

theorem advances_reluctant (h : Advances step) (n : Nat) : Advances (reluctant step n) := by
  induction n with
  | zero => exact advances_still
  | succ n ih =>
    intro s r hr
    rcases List.mem_cons.mp hr with rfl | more
    · exact ⟨[],.refl _⟩
    · obtain ⟨q,hq,hr⟩ := List.mem_flatMap.mp more
      exact reaches_then h ih (List.mem_of_mem_filter hq) hr

theorem run_if {c : Bool} {s r : Cursor} (h : r ∈ if c then [s] else []) : s.Reaches r [] := by
  cases c with
  | true =>
    cases List.mem_singleton.mp h
    exact .refl s
  | false => cases h

theorem advances_run (re : Regex) : Advances re.run := by
  induction re with
  | eps => exact advances_still
  | chr =>
    intro s r hr
    simp only [run] at hr
    split at hr
    · cases hr
    next c t hs =>
      split at hr
      · cases List.mem_singleton.mp hr
        exact ⟨[c],Cursor.reaches_advance hs⟩
      · cases hr
  | seq a b iha ihb =>
    intro s r hr
    obtain ⟨q,hq,hr⟩ := List.mem_flatMap.mp hr
    exact reaches_then iha ihb hq hr
  | alt a b iha ihb =>
    intro s r hr
    rcases List.mem_append.mp hr with ha | hb
    · exact iha s r ha
    · exact ihb s r hb
  | many a ih => exact fun s => advances_greedy ih _ s
  | manyLazy a ih => exact fun s => advances_reluctant ih _ s
  | group n a ih =>
    intro s r hr
    obtain ⟨q,hq,rfl⟩ := List.mem_map.mp hr
    exact ih s q hq
  | backref =>
    intro s r hr
    exact ⟨_,Cursor.reaches_skip (Option.mem_toList.mp hr)⟩
  | textStart | textEnd | lineStart | lineEnd => exact fun s r hr => ⟨[],run_if hr⟩

theorem span_of_mem_spansFrom {re : Regex} {n : Nat} {prev : Option Char} {rest : Text} {h : Hit}
    (mem : Span.hit h ∈ spansFrom re n prev rest) : ∃ s r, s.rest <:+ rest ∧ r ∈ re.run s ∧ s.Reaches r h.text := by
  induction n generalizing prev rest with
  | zero => cases mem
  | succ n ih =>
    have skipped : ∀ c t, rest = c :: t → Span.hit h ∈ Span.plain c :: spansFrom re n (some c) t →
        ∃ s r, s.rest <:+ rest ∧ r ∈ re.run s ∧ s.Reaches r h.text := by
      rintro c t rfl later
      obtain ⟨s,r,suffix,found⟩ := ih (by simpa using later)
      exact ⟨s,r,suffix.trans (List.suffix_cons c t),found⟩
    simp only [spansFrom] at mem
    split at mem
    · cases rest with
      | nil => cases mem
      | cons c t => exact skipped c t rfl mem
    next r matched =>
      have found : r ∈ re.run ⟨prev,rest,[]⟩ := List.mem_of_head? matched
      obtain ⟨u,reached⟩ := advances_run re _ r found
      have whole : rest = u ++ r.rest := reached.1
      rcases List.mem_cons.mp mem with here | later
      · cases here
        refine ⟨⟨prev,rest,[]⟩,r,List.suffix_refl rest,found,?_⟩
        have htake : rest.take (rest.length - r.rest.length) = u := by
          rw [whole,List.length_append,Nat.add_sub_cancel,List.take_left]
        rw [htake]
        exact reached
      · split at later
        · obtain ⟨s,q,suffix,found⟩ := ih later
          exact ⟨s,q,suffix.trans ⟨u,whole.symm⟩,found⟩
        · cases rest with
          | nil => cases later
          | cons c t => exact skipped c t rfl later

theorem hit_reaches {re : Regex} {t : Text} {h : Hit} (mem : h ∈ re.hits t) :
    ∃ s r, s.rest <:+ t ∧ r ∈ re.run s ∧ s.Reaches r h.text := by
  obtain ⟨span,hspan,heq⟩ := List.mem_filterMap.mp mem
  cases span with
  | plain => cases heq
  | hit =>
    cases heq
    exact span_of_mem_spansFrom hspan

theorem infix_of_literal_exec {p t : Text} (h : ((all (p.map lit)).exec t).isSome) : p <:+: t := by
  have consumed (p : Text) (s r : Cursor) (h : r ∈ (all (p.map lit)).run s) : s.rest = p ++ r.rest := by
    induction p generalizing s with
    | nil =>
      cases List.mem_singleton.mp h
      rfl
    | cons c p ih =>
      obtain ⟨q,hq,hr⟩ := List.mem_flatMap.mp h
      simp only [lit,run] at hq
      split at hq
      · cases hq
      next d u hs =>
        split at hq
        next same =>
          cases List.mem_singleton.mp hq
          have : d = c := by simpa using same
          rw [hs,this]
          exact congrArg (c :: ·) (ih _ hr)
        · cases hq
  obtain ⟨hit,found⟩ := Option.isSome_iff_exists.mp h
  obtain ⟨s,r,⟨a,suffix⟩,reached,-⟩ := hit_reaches (List.mem_of_head? found)
  exact ⟨a,r.rest,by rw [List.append_assoc,← consumed p s r reached,suffix]⟩

end Regex

end CompanyBrain.Foundations
