import Mathlib.Data.List.Induction

namespace CompanyBrain.Foundations

inductive MemberEvent (ε : Type) where
  | join (history : Bool)
  | leave
  | append (entry : ε)

namespace MemberEvent

variable {ε : Type}

def entry? : MemberEvent ε → Option ε
  | append e => some e
  | _ => none

def isJoin : MemberEvent ε → Bool
  | join _ => true
  | _ => false

def isLeave : MemberEvent ε → Bool
  | leave => true
  | _ => false

def grantsHistory : MemberEvent ε → Bool
  | join h => h
  | _ => false

def appended (es : List (MemberEvent ε)) : List ε := es.filterMap entry?

theorem appended_append (es fs : List (MemberEvent ε)) : appended (es ++ fs) = appended es ++ appended fs := by
  simp [appended]

@[simp] theorem appended_join (h : Bool) (es : List (MemberEvent ε)) : appended (join h :: es) = appended es := rfl

section

variable (es : List (MemberEvent ε))

theorem appended_snoc (e : MemberEvent ε) :
    appended (es ++ [e]) = appended es ++ e.entry?.toList := by
  cases e <;> simp [appended, entry?]

def memberAfter (m : Bool) : MemberEvent ε → Bool
  | join _ => true
  | leave => false
  | append _ => m

def member (es : List (MemberEvent ε)) : Bool := es.foldl memberAfter false

theorem member_snoc (e : MemberEvent ε) :
    member (es ++ [e]) = memberAfter (member es) e := by
  simp [member]

structure Latest (es pre : List (MemberEvent ε)) (history : Bool) (mid rest : List (MemberEvent ε)) : Prop where
  split : es = pre ++ join history :: mid ++ rest
  outside : member pre = false
  inside : ∀ e ∈ mid, e.isLeave = false
  closed : rest = [] ∨ ∃ more, rest = leave :: more ∧ ∀ e ∈ more, e.isJoin = false

structure Span where
  start : Nat
  stop : Option Nat

def spanAfter (n : Nat) (w : Option Span) : MemberEvent ε → Option Span
  | join h =>
    match w with
    | some ⟨start,none⟩ => some ⟨if h then 0 else start,none⟩
    | _ => some ⟨if h then 0 else n,none⟩
  | leave =>
    match w with
    | some ⟨start,none⟩ => some ⟨start,some n⟩
    | _ => w
  | append _ => w

def track (p : Nat × Option Span) (e : MemberEvent ε) : Nat × Option Span :=
  (p.1 + e.entry?.toList.length,spanAfter p.1 p.2 e)

def tracked (es : List (MemberEvent ε)) : Nat × Option Span := es.foldl track (0,none)

def span (es : List (MemberEvent ε)) : Option Span := (tracked es).2

theorem tracked_snoc (e : MemberEvent ε) : tracked (es ++ [e]) = track (tracked es) e := by
  simp [tracked]

theorem tracked_count : (tracked es).1 = (appended es).length := by
  induction es using List.reverseRecOn with
  | nil => rfl
  | append_singleton _ _ ih =>
    rw [tracked_snoc,appended_snoc,List.length_append,← ih]
    rfl

theorem span_snoc (e : MemberEvent ε) :
    span (es ++ [e]) = spanAfter (appended es).length (span es) e := by
  rw [span,tracked_snoc,← tracked_count]
  rfl

def slice (w : Option Span) (l : List ε) : List ε :=
  match w with
  | none => []
  | some ⟨start,none⟩ => l.drop start
  | some ⟨start,some stop⟩ => (l.take stop).drop start

theorem member_iff : member es ↔ ∃ start, span es = some ⟨start,none⟩ := by
  induction es using List.reverseRecOn with
  | nil => simp [member,span,tracked]
  | append_singleton _ e ih =>
    rw [member_snoc,span_snoc]
    cases e with
    | join =>
      simp only [memberAfter,spanAfter,true_iff]
      split
      · exact ⟨_,rfl⟩
      · exact ⟨_,rfl⟩
    | leave =>
      simp only [memberAfter,spanAfter,Bool.false_eq_true,false_iff,not_exists]
      intro start
      split
      · simp
      next other => exact fun h => other start h
    | append => simpa [memberAfter,spanAfter] using ih

end

variable {es : List (MemberEvent ε)}

theorem span_join (outside : member es = false) (h : Bool) :
    span (es ++ [join h]) = some ⟨if h then 0 else (appended es).length,none⟩ := by
  rw [span_snoc]
  simp only [spanAfter]
  split
  next start open' =>
    have := (member_iff es).mpr ⟨start,open'⟩
    rw [outside] at this
    cases this
  · rfl

variable {mid : List (MemberEvent ε)}

theorem span_mid {start : Nat} (opened : span es = some ⟨start,none⟩) (inside : ∀ e ∈ mid, e.isLeave = false) :
    span (es ++ mid) = some ⟨if mid.any grantsHistory then 0 else start,none⟩ := by
  induction mid using List.reverseRecOn with
  | nil => simpa using opened
  | append_singleton _ e ih =>
    have before := ih (fun x hx => inside x (List.mem_append_left _ hx))
    have stays := inside e (by simp)
    rw [← List.append_assoc,span_snoc,before]
    cases e with
    | join h => cases h <;> simp [spanAfter,grantsHistory]
    | leave => cases stays
    | append => simp [spanAfter,grantsHistory]

variable {rest : List (MemberEvent ε)}

theorem span_rest {w : Span} {stop : Nat} (shut : span es = some w) (hstop : w.stop = some stop)
    (noJoin : ∀ e ∈ rest, e.isJoin = false) : span (es ++ rest) = some w := by
  induction rest using List.reverseRecOn with
  | nil => simpa using shut
  | append_singleton _ e ih =>
    have before := ih (fun x hx => noJoin x (List.mem_append_left _ hx))
    have other := noJoin e (by simp)
    obtain ⟨start,stop'⟩ := w
    cases hstop
    rw [← List.append_assoc,span_snoc,before]
    cases e with
    | join => cases other
    | leave | append => rfl

variable {pre : List (MemberEvent ε)}

theorem span_latest {h : Bool} (latest : Latest es pre h mid rest) :
    span es = some ⟨if h || mid.any grantsHistory then 0 else (appended pre).length,
      if rest = [] then none else some (appended (pre ++ mid)).length⟩ := by
  obtain ⟨rfl,outside,inside,closed⟩ := latest
  have opened := span_mid (span_join outside h) inside
  have cut : pre ++ join h :: mid = pre ++ [join h] ++ mid := by simp
  have count : (appended (pre ++ join h :: mid)).length = (appended (pre ++ mid)).length := by
    simp [appended_append]
  have start : (if mid.any grantsHistory then 0 else if h then 0 else (appended pre).length) =
      if h || mid.any grantsHistory then 0 else (appended pre).length := by
    cases h <;> simp
  rw [← cut,start] at opened
  rcases closed with rfl | ⟨more,rfl,noJoin⟩
  · simpa using opened
  · have shut : span (pre ++ join h :: mid ++ [leave]) =
        some ⟨if h || mid.any grantsHistory then 0 else (appended pre).length,
          some (appended (pre ++ mid)).length⟩ := by
      rw [span_snoc,opened,count]
      rfl
    have all : pre ++ join h :: mid ++ leave :: more = pre ++ join h :: mid ++ [leave] ++ more := by
      simp
    rw [all,span_rest shut rfl noJoin]
    simp

theorem slice_latest {h : Bool} (latest : Latest es pre h mid rest) :
    slice (span es) (appended es) = if h || mid.any grantsHistory then appended (pre ++ mid) else appended mid := by
  have all : appended es = appended (pre ++ mid) ++ appended rest := by
    rw [latest.split]
    simp [appended_append]
  rw [span_latest latest,all]
  by_cases granted : h || mid.any grantsHistory
  · by_cases hrest : rest = []
    · simp [slice,granted,hrest,appended]
    · simp [slice,granted,hrest]
  · by_cases hrest : rest = []
    · simp [slice,granted,hrest,appended]
    · simp only [slice,granted,hrest,if_false,Bool.false_eq_true]
      rw [List.take_left',appended_append,List.drop_left]
      rfl

theorem span_none (noJoin : ∀ e ∈ es, e.isJoin = false) : span es = none := by
  induction es using List.reverseRecOn with
  | nil => rfl
  | append_singleton _ e ih =>
    have before := ih (fun x hx => noJoin x (List.mem_append_left _ hx))
    have other := noJoin e (by simp)
    rw [span_snoc,before]
    cases e with
    | join => cases other
    | leave | append => rfl

theorem outside_of_shut {w : Option Span} (h : span es = w) (shut : ∀ start, w ≠ some ⟨start,none⟩) :
    member es = false := by
  by_contra hmember
  obtain ⟨start,opened⟩ := (member_iff es).mp (by simpa using hmember)
  exact shut start (h.symm.trans opened)

theorem latest_of_outside {e : MemberEvent ε} (outside : member es = false) (hjoin : e.isJoin) :
    ∃ pre h mid rest, Latest (es ++ [e]) pre h mid rest := by
  cases e with
  | join g => exact ⟨es,g,[],[],by simp,outside,by simp,.inl rfl⟩
  | leave | append => cases hjoin

theorem exists_latest (joined : ∃ e ∈ es, e.isJoin) : ∃ pre h mid rest, Latest es pre h mid rest := by
  induction es using List.reverseRecOn with
  | nil => simp at joined
  | append_singleton es e ih =>
    by_cases earlier : ∃ x ∈ es, x.isJoin = true
    · obtain ⟨pre,h,mid,rest,latest⟩ := ih earlier
      obtain ⟨split,outside,inside,closed⟩ := latest
      rcases closed with rfl | ⟨more,rfl,noJoin⟩
      · by_cases hleave : e.isLeave = true
        · refine ⟨pre,h,mid,[e],by simp [split],outside,inside,.inr ⟨[],?_,by simp⟩⟩
          cases e <;> first | rfl | cases hleave
        · refine ⟨pre,h,mid ++ [e],[],by simp [split],outside,?_,.inl rfl⟩
          exact List.forall_mem_append.mpr ⟨inside,by simpa using hleave⟩
      · by_cases hjoin : e.isJoin = true
        · have shut := span_latest ⟨split,outside,inside,.inr ⟨more,rfl,noJoin⟩⟩
          exact latest_of_outside (outside_of_shut shut (by simp)) hjoin
        · refine ⟨pre,h,mid,leave :: (more ++ [e]),by simp [split],outside,inside, .inr ⟨more ++ [e],rfl,?_⟩⟩
          exact List.forall_mem_append.mpr ⟨noJoin,by simpa using hjoin⟩
    · have never : span es = none := by
        apply span_none
        intro y hy
        by_contra hne
        exact earlier ⟨y,hy,by simpa using hne⟩
      obtain ⟨x,hx,hjoin⟩ := joined
      rcases List.mem_append.mp hx with hx | hx
      · exact absurd ⟨x,hx,hjoin⟩ earlier
      · rw [List.mem_singleton.mp hx] at hjoin
        exact latest_of_outside (outside_of_shut never (by simp)) hjoin

theorem stop_le {start stop : Nat} (h : span es = some ⟨start,some stop⟩) : stop ≤ (appended es).length := by
  induction es using List.reverseRecOn generalizing start stop with
  | nil => cases h
  | append_singleton _ e ih =>
    rw [span_snoc] at h
    rw [appended_snoc,List.length_append]
    cases e with
    | join =>
      simp only [spanAfter] at h
      split at h <;> cases h
    | leave =>
      simp only [spanAfter] at h
      split at h
      · cases h
        omega
      · have := ih h
        omega
    | append =>
      have := ih h
      omega

def Span.covers (w : Span) (n : Nat) : Prop := w.start ≤ n ∧ ∀ stop ∈ w.stop, n < stop

theorem hidden_without_history {before after : List (MemberEvent ε)} {x : ε}
    (outside : member before = false) (none : ∀ e ∈ after, e.grantsHistory = false) :
    ∀ w ∈ span (before ++ append x :: after), ¬ w.covers (appended before).length := by
  induction after using List.reverseRecOn with
  | nil =>
    rintro ⟨start,stop⟩ hw ⟨_,below⟩
    rw [span_snoc] at hw
    cases stop with
    | none =>
      have hmember := (member_iff before).mpr ⟨start,hw⟩
      rw [outside] at hmember
      cases hmember
    | some stop =>
      have hle := stop_le hw
      have hlt := below stop rfl
      omega
  | append_singleton after e ih =>
    have before' := ih (fun y hy => none y (List.mem_append_left _ hy))
    have later : (appended before).length < (appended (before ++ append x :: after)).length := by
      simp [appended, entry?]
    have plain := none e (by simp)
    rintro ⟨start,stop⟩ hw
    rw [← List.cons_append,← List.append_assoc,span_snoc] at hw
    cases e with
    | join g =>
      have hg : g = false := plain
      subst hg
      simp only [spanAfter] at hw
      split at hw
      next start' hopen =>
        cases hw
        exact before' _ hopen
      · cases hw
        rintro ⟨hstart,_⟩
        simp only [Bool.false_eq_true,if_false] at hstart
        omega
    | leave =>
      simp only [spanAfter] at hw
      split at hw
      next start' hopen =>
        cases hw
        rintro ⟨hstart,_⟩
        exact before' _ hopen ⟨hstart,by simp⟩
      · exact before' _ hw
    | append => exact before' _ hw

end MemberEvent

def Numbered {α : Type} (number : α → Nat) (l : List α) : Prop :=
  l.map number = List.range l.length

section Numbered

variable {α : Type} {number : α → Nat} {l : List α}

theorem numbered_nil : Numbered number [] := rfl

theorem numbered_snoc {a : α} : Numbered number (l ++ [a]) ↔ Numbered number l ∧ number a = l.length := by
  simp only [Numbered,List.map_append,List.map_cons,List.map_nil,List.length_append,
    List.length_singleton,List.range_succ]
  constructor
  · intro h
    obtain ⟨hinit,hlast⟩ := List.append_inj' h rfl
    exact ⟨hinit,List.head_eq_of_cons_eq hlast⟩
  · rintro ⟨hinit,hlast⟩
    rw [hinit,hlast]

section

variable (h : Numbered number l)
include h

theorem numbered_lt {a : α} (ha : a ∈ l) : number a < l.length := by
  have hmem : number a ∈ l.map number := List.mem_map_of_mem ha
  rw [h] at hmem
  exact List.mem_range.mp hmem

theorem numbered_take (n : Nat) : Numbered number (l.take n) := by
  rw [Numbered,List.map_take,h,List.take_range,List.length_take]

theorem filter_from (start : Nat) : l.filter (fun a => decide (start ≤ number a)) = l.drop start := by
  induction l using List.reverseRecOn with
  | nil => simp
  | append_singleton l a ih =>
    obtain ⟨hl,ha⟩ := numbered_snoc.mp h
    rw [List.filter_append,ih hl,List.drop_append]
    by_cases hstart : start ≤ l.length
    · simp [ha,hstart]
    · have hlate : 1 ≤ start - l.length := by omega
      simp [ha,hstart,hlate]

theorem filter_below (stop : Nat) : l.filter (fun a => decide (number a < stop)) = l.take stop := by
  induction l using List.reverseRecOn with
  | nil => simp
  | append_singleton l a ih =>
    obtain ⟨hl,ha⟩ := numbered_snoc.mp h
    rw [List.filter_append,ih hl,List.take_append]
    by_cases hstop : l.length < stop
    · have hone : [a].length ≤ stop - l.length := by
        rw [List.length_singleton]
        omega
      rw [List.take_of_length_le hone]
      simp [ha,hstop]
    · simp [ha,hstop]
      omega

end

def MemberEvent.Span.shows (w : MemberEvent.Span) (n : Nat) : Bool :=
  decide (w.start ≤ n) && w.stop.all (n < ·)

theorem filter_numbered (h : Numbered number l) (w : MemberEvent.Span) :
    l.filter (fun a => w.shows (number a)) = MemberEvent.slice (some w) l := by
  obtain ⟨start,stop⟩ := w
  cases stop with
  | none => simpa [MemberEvent.Span.shows,MemberEvent.slice] using filter_from h start
  | some stop =>
    have cut := filter_from (numbered_take h stop) start
    rw [← filter_below h stop,List.filter_filter] at cut
    simpa [MemberEvent.Span.shows,MemberEvent.slice,filter_below h stop] using cut

end Numbered

end CompanyBrain.Foundations
