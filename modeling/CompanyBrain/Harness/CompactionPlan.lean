import CompanyBrain.Foundations.History
import CompanyBrain.Harness.CompactionLabel
import CompanyBrain.Harness.ContextCompaction
import Mathlib.Tactic.Linarith

namespace CompanyBrain.Harness

open Foundations
open Sessions (SessionEntry NewEntry)

theorem filter_eq_drop {α : Type} {p : α → Bool} {l : List α} {n : Nat}
    (below : ∀ a ∈ l.take n, p a = false) (above : ∀ a ∈ l.drop n, p a) : l.filter p = l.drop n := by
  conv_lhs => rw [← List.take_append_drop n l]
  rw [List.filter_append,List.filter_eq_nil_iff.mpr,List.filter_eq_self.mpr above]
  · rfl
  · intro a ha
    simp [below a ha]

theorem findLast_append (p : SessionEntry → Bool) (xs ys : List SessionEntry) :
    findLast p (xs ++ ys) = (findLast p ys).or (findLast p xs) := by
  simp [findLast]

variable {xs : List SessionEntry} {p : SessionEntry → Bool}

theorem findLast_none (h : ∀ e ∈ xs, p e = false) : findLast p xs = none := by
  simpa [findLast] using h

variable {e : SessionEntry}

theorem findLast_some (h : findLast p xs = some e) : e ∈ xs ∧ p e := by
  obtain ⟨hp,rest⟩ := List.find?_eq_some_iff_append.mp h
  exact ⟨by simpa using List.mem_of_find?_eq_some h,hp⟩

section

variable (history : List SessionEntry) (tainted : Bool)

def passes (e : SessionEntry) : Bool :=
  replayable e && (tainted || !securityTainted e)

def cutAt : Option ℚ :=
  ((findLast isSummary (history.filter replayable)).bind contextSummaryPayload).map
    SummaryPayload.throughSeq

def beyond (bound : Option ℚ) (e : SessionEntry) : Bool :=
  bound.all fun b => decide (b < (e.seq : ℚ))

theorem beyond_some {bound : ℚ} : beyond (some bound) e ↔ bound < e.seq := decide_eq_true_iff

def shownSummary : Option SessionEntry :=
  (findLast isSummary (history.filter replayable)).filter (passes tainted)

def shownRest : List SessionEntry :=
  history.filter fun e => passes tainted e && !isSummary e && beyond (cutAt history) e

theorem filter_passes :
    (history.filter replayable).filter (fun e => tainted || !securityTainted e) = history.filter (passes tainted) := by
  rw [List.filter_filter]
  congr 1
  funext e
  exact Bool.and_comm _ _

theorem payload_of_summary (h : isSummary e) : ∃ summary, contextSummaryPayload e = some summary :=
  Option.isSome_iff_exists.mp h

theorem forModelContext_eq : forModelContext history tainted =
      (shownSummary history tainted).toList ++ shownRest history tainted := by
  simp only [forModelContext,shownSummary,shownRest,cutAt,filter_passes]
  cases hl : findLast isSummary (history.filter replayable) with
  | none =>
    have plain : ∀ e ∈ history.filter replayable, isSummary e = false := by
      simpa [findLast] using hl
    simp only [beyond]
    refine List.filter_congr fun e he => ?_
    cases hp : passes tainted e with
    | false => rfl
    | true =>
      have replay : replayable e = true := (Bool.and_eq_true_iff.mp hp).1
      simp [plain e (List.mem_filter.mpr ⟨he,replay⟩)]
  | some latest =>
    obtain ⟨mem,isLatest⟩ := findLast_some hl
    obtain ⟨summary,hs⟩ := payload_of_summary isLatest
    have shown : (history.filter (passes tainted)).contains latest = passes tainted latest := by
      rw [Bool.eq_iff_iff,List.contains_iff_mem,List.mem_filter]
      exact and_iff_right (List.mem_filter.mp mem).1
    simp only [hs,shown,Option.bind_some,beyond,List.filter_filter]
    congr 1
    · cases hp : passes tainted latest <;> simp [Option.filter_some,hp]
    · refine List.filter_congr fun e _ => ?_
      cases passes tainted e <;> simp

end

variable {history : List SessionEntry}

theorem shownSummary_isSummary {tainted : Bool} (h : shownSummary history tainted = some e) :
    isSummary e ∧ (contextSummaryPayload e).map SummaryPayload.throughSeq = cutAt history := by
  obtain ⟨latest,hlatest⟩ := Option.filter_eq_some_iff.mp h
  refine ⟨(findLast_some latest).2,?_⟩
  simp [cutAt,latest]

theorem mem_shownRest {tainted : Bool} : e ∈ shownRest history tainted ↔
      e ∈ history ∧ passes tainted e ∧ isSummary e = false ∧ beyond (cutAt history) e := by
  simp [shownRest,and_assoc]

section

variable (history : List SessionEntry)

theorem latestSummary_filtered (tainted : Bool) (q : SessionEntry → Bool) :
    latestSummary ((forModelContext history tainted).filter q) = (shownSummary history tainted).filter q := by
  have plain : findLast isSummary ((shownRest history tainted).filter q) = none :=
    findLast_none fun e he => (mem_shownRest.mp (List.mem_filter.mp he).1).2.2.1
  rw [latestSummary,forModelContext_eq,List.filter_append,findLast_append,plain]
  cases h : shownSummary history tainted with
  | none => rfl
  | some e =>
    have own := (shownSummary_isSummary h).1
    cases hq : q e <;> simp [findLast,own,hq,Option.filter_some]

theorem afterSummary_filtered (tainted : Bool) (q : SessionEntry → Bool) :
    afterSummary ((forModelContext history tainted).filter q) = (shownRest history tainted).filter q := by
  simp only [afterSummary,latestSummary_filtered]
  rw [forModelContext_eq,List.filter_append,List.filter_append,List.filter_eq_nil_iff.mpr,
    List.nil_append,List.filter_eq_self.mpr]
  · intro e he
    obtain ⟨_,_,plain,past⟩ := mem_shownRest.mp (List.mem_filter.mp he).1
    rw [plain]
    cases hl : (shownSummary history tainted).filter q with
    | none => rfl
    | some =>
      obtain ⟨isLatest,cut⟩ := shownSummary_isSummary (Option.filter_eq_some_iff.mp hl).1
      obtain ⟨summary,hs⟩ := payload_of_summary isLatest
      simpa [hs,← cut,beyond] using past
  · intro e he
    have own := (shownSummary_isSummary (Option.mem_toList.mp (List.mem_filter.mp he).1)).1
    simp [own]

theorem latestSummary_shown (tainted : Bool) :
    latestSummary (forModelContext history tainted) = shownSummary history tainted := by
  have whole := latestSummary_filtered history tainted fun _ => true
  rw [List.filter_true] at whole
  rw [whole]
  cases shownSummary history tainted <;> rfl

theorem afterSummary_shown (tainted : Bool) :
    afterSummary (forModelContext history tainted) = shownRest history tainted := by
  simpa using afterSummary_filtered history tainted fun _ => true

end

structure Cuts (history : List SessionEntry) (plan : CompactionPlan) (n : Nat) : Prop where
  toSummarize : plan.toSummarize = (latestSummary history).toList ++ (afterSummary history).take n
  kept : plan.kept = (afterSummary history).drop n
  nonempty : (afterSummary history).take n ≠ []

def budgetCut (tk : Tokenizer) (cache : TokenCache) (history : List SessionEntry) (b : CompactionBudget) : Nat :=
  (afterSummary history).length - (keptCount tk cache history b).1

theorem planCompaction_cuts {tk : Tokenizer} {cache cache' : TokenCache} {b : CompactionBudget} {plan : CompactionPlan}
    (h : planCompaction tk cache history b = (some plan,cache')) (proposes : plan.toSummarize ≠ []) :
    Cuts history plan (pullBack (afterSummary history) (budgetCut tk cache history b)) := by
  unfold planCompaction at h
  split at h
  · cases h
    exact absurd rfl proposes
  · simp only at h
    split at h
    · cases h
    next nonempty =>
      cases h
      exact ⟨rfl,rfl,by simpa [budgetCut] using nonempty⟩

def covered (e : SessionEntry) : ℚ :=
  ((contextSummaryPayload e).map SummaryPayload.throughSeq).getD e.seq

theorem covered_plain (h : isSummary e = false) : covered e = e.seq := by
  have none : contextSummaryPayload e = none := by simpa [isSummary] using h
  simp [covered,none]

theorem compactionThroughSeq_snoc (entries : List SessionEntry) (e : SessionEntry) :
    compactionThroughSeq (entries ++ [e]) = max (compactionThroughSeq entries) (covered e) := by
  simp [compactionThroughSeq,covered]

theorem covered_le (entries : List SessionEntry) : ∀ e ∈ entries, covered e ≤ compactionThroughSeq entries := by
  induction entries using List.reverseRecOn with
  | nil => intro e he; cases he
  | append_singleton _ _ ih =>
    rw [compactionThroughSeq_snoc]
    exact forall_snoc (fun e he => le_max_of_le_left (ih e he)) (le_max_right _ _)

theorem throughSeq_lt {entries : List SessionEntry} {x : ℚ} (start : -1 < x)
    (h : ∀ e ∈ entries, covered e < x) : compactionThroughSeq entries < x := by
  induction entries using List.reverseRecOn with
  | nil => exact start
  | append_singleton _ last ih =>
    rw [compactionThroughSeq_snoc]
    refine max_lt (ih fun e he => h e (List.mem_append_left _ he)) ?_
    exact h last (List.mem_append_right _ (List.mem_singleton.mpr rfl))

def Increasing (history : List SessionEntry) : Prop :=
  history.Pairwise fun a b => a.seq < b.seq

instance (history : List SessionEntry) : Decidable (Increasing history) :=
  inferInstanceAs (Decidable (List.Pairwise _ _))

structure Summarized where
  text : String
  summaryLabel : String
  throughSeq : ℚ
  securityTainted : Bool

def summarized (plan : CompactionPlan) (text summaryLabel : String) : Summarized where
  text := text
  summaryLabel := summaryLabel
  throughSeq := compactionThroughSeq plan.toSummarize
  securityTainted := plan.toSummarize.any securityTainted

def createContextSummaryPayload (throughSeq : ℚ) (text : String) : List (String × Json) :=
  [("kind",.str "context_summary"),("throughSeq",.num throughSeq),("text",.str text)]

def writeCompaction (s : Summarized) : NewEntry where
  type := .system
  payload := .obj (createContextSummaryPayload s.throughSeq s.text ++
    if s.securityTainted then [("securityTainted",.bool true)] else [])
  scopeLabel := s.summaryLabel

def stored (sessionId : String) (seq : Nat) (entry : NewEntry) (now : Int) : SessionEntry :=
  ⟨sessionId,seq,if seq = 0 then none else some (seq - 1),entry.type,entry.payload,entry.scopeLabel,now⟩

section

variable (s : Summarized) (sessionId : String) (seq : Nat) (now : Int)

theorem written_payload : contextSummaryPayload (stored sessionId seq (writeCompaction s) now) =
      some ⟨s.throughSeq,s.text⟩ := by
  simp [contextSummaryPayload,stored,writeCompaction,createContextSummaryPayload,Json.field]

theorem written_replayable : replayable (stored sessionId seq (writeCompaction s) now) := by
  simp [replayable,stored,writeCompaction,createContextSummaryPayload,Json.field]

theorem written_tainted : securityTainted (stored sessionId seq (writeCompaction s) now) = s.securityTainted := by
  obtain ⟨text,label,through,tainted⟩ := s
  cases tainted <;> simp [securityTainted,stored,writeCompaction,createContextSummaryPayload,Json.field]

end

theorem cutAt_snoc (history : List SessionEntry) {summary : SummaryPayload} (replay : replayable e)
    (payload : contextSummaryPayload e = some summary) : cutAt (history ++ [e]) = some summary.throughSeq ∧
      findLast isSummary ((history ++ [e]).filter replayable) = some e := by
  have last : findLast isSummary ((history ++ [e]).filter replayable) = some e := by
    rw [List.filter_append,findLast_append]
    simp [findLast,replay,isSummary,payload]
  refine ⟨?_,last⟩
  rw [cutAt,last,Option.bind_some,payload,Option.map_some]

structure Splits (history : List SessionEntry) (tainted : Bool) (plan : CompactionPlan)
    (summary : SessionEntry) : Prop where
  parts : plan.toSummarize ++ plan.kept = forModelContext history tainted
  rebuilt : forModelContext (history ++ [summary]) tainted = summary :: plan.kept

theorem increasing_rest (increasing : Increasing history) (tainted : Bool) : Increasing (shownRest history tainted) :=
  increasing.sublist List.filter_sublist

theorem seq_cast_gt (n : Nat) : (-1 : ℚ) < n := by
  linarith

structure Seen (history : List SessionEntry) (tainted : Bool) (visible : List SessionEntry) : Prop where
  summary : ∀ e, latestSummary visible = some e → shownSummary history tainted = some e
  rest : (afterSummary visible).Sublist (shownRest history tainted)

theorem seen_context (history : List SessionEntry) (tainted : Bool) :
    Seen history tainted (forModelContext history tainted) where
  summary := fun _ h => latestSummary_shown history tainted ▸ h
  rest := by rw [afterSummary_shown]

section

variable {history visible : List SessionEntry} {tainted : Bool} {plan : CompactionPlan} {n : Nat}

theorem covered_shown (e : SessionEntry) (he : shownSummary history tainted = some e) :
    some (covered e) = cutAt history := by
  obtain ⟨isLatest,cut⟩ := shownSummary_isSummary he
  obtain ⟨summary,hs⟩ := payload_of_summary isLatest
  rw [← cut,covered,hs]
  rfl

section

variable (seen : Seen history tainted visible)
include seen

theorem Seen.mem_rest (h : e ∈ afterSummary visible) :
    e ∈ history ∧ passes tainted e ∧ isSummary e = false ∧ beyond (cutAt history) e :=
  mem_shownRest.mp (seen.rest.subset h)

omit seen in
theorem through_below_kept (increasing : Increasing history) (seen : Seen history tainted visible)
    (cuts : Cuts visible plan n) :
    ∀ e ∈ (afterSummary visible).drop n, compactionThroughSeq plan.toSummarize < e.seq := by
  intro e he
  have hrest := seen.mem_rest (List.mem_of_mem_drop he)
  refine throughSeq_lt (seq_cast_gt e.seq) fun x hx => ?_
  rw [cuts.toSummarize,List.mem_append,Option.mem_toList] at hx
  rcases hx with hx | hx
  · have past := hrest.2.2.2
    rw [← covered_shown x (seen.summary x hx)] at past
    simpa [beyond] using past
  · have plain := (seen.mem_rest (List.mem_of_mem_take hx)).2.2.1
    have sorted := (increasing_rest increasing tainted).sublist seen.rest
    rw [← List.take_append_drop n (afterSummary visible)] at sorted
    have order := (List.pairwise_append.mp sorted).2.2 x hx e he
    rw [covered_plain plain]
    exact_mod_cast order

variable (cuts : Cuts visible plan n)
include cuts

theorem through_above_taken :
    ∀ e ∈ (afterSummary visible).take n, (e.seq : ℚ) ≤ compactionThroughSeq plan.toSummarize := by
  intro e he
  have plain := (seen.mem_rest (List.mem_of_mem_take he)).2.2.1
  rw [← covered_plain plain]
  refine covered_le _ e ?_
  rw [cuts.toSummarize]
  exact List.mem_append_right _ he

theorem through_past_cut
    {bound : ℚ} (h : cutAt history = some bound) : bound < compactionThroughSeq plan.toSummarize := by
  obtain ⟨first,hfirst⟩ := List.exists_mem_of_ne_nil _ cuts.nonempty
  have above := through_above_taken seen cuts first hfirst
  have past := (seen.mem_rest (List.mem_of_mem_take hfirst)).2.2.2
  rw [h,beyond_some] at past
  linarith

theorem beyond_through
    (h : beyond (some (compactionThroughSeq plan.toSummarize)) e) : beyond (cutAt history) e := by
  cases hc : cutAt history with
  | none => rfl
  | some =>
    rw [beyond_some] at h ⊢
    exact (through_past_cut seen cuts hc).trans h

theorem tainted_summarized :
    (tainted || !plan.toSummarize.any securityTainted) := by
  cases htaint : tainted with
  | true => rfl
  | false =>
    rw [Bool.false_or,Bool.not_eq_true',List.any_eq_false]
    intro e he
    rw [cuts.toSummarize,List.mem_append,Option.mem_toList] at he
    have shown : passes tainted e = true := by
      rcases he with he | he
      · exact (Option.filter_eq_some_iff.mp (seen.summary e he)).2
      · exact (seen.mem_rest (List.mem_of_mem_take he)).2.1
    simp only [passes,htaint,Bool.false_or,Bool.and_eq_true,Bool.not_eq_true'] at shown
    simp [shown.2]

theorem forModelContext_written
    (text label sessionId : String) (seq : Nat) (now : Int) :
    let entry := stored sessionId seq (writeCompaction (summarized plan text label)) now
    forModelContext (history ++ [entry]) tainted = entry :: (shownRest history tainted).filter
        (beyond (some (compactionThroughSeq plan.toSummarize))) := by
  intro entry
  let s := summarized plan text label
  have replay : replayable entry = true := written_replayable s sessionId seq now
  have payload : contextSummaryPayload entry = some ⟨s.throughSeq,s.text⟩ :=
    written_payload s sessionId seq now
  obtain ⟨cut,last⟩ := cutAt_snoc history replay payload
  have shown : passes tainted entry = true := by
    rw [passes,written_tainted s sessionId seq now]
    exact tainted_summarized seen cuts
  have front : shownSummary (history ++ [entry]) tainted = some entry := by
    rw [shownSummary,last,Option.filter_some,if_pos shown]
  have back : shownRest (history ++ [entry]) tainted =
      (shownRest history tainted).filter (beyond (some s.throughSeq)) := by
    have own : isSummary entry = true := by simp [isSummary,payload]
    rw [shownRest,cut,List.filter_append,shownRest,List.filter_filter]
    have dropped : ([entry] : List SessionEntry).filter (fun e =>
        passes tainted e && !isSummary e && beyond (some s.throughSeq) e) = [] := by simp [own]
    rw [dropped,List.append_nil]
    refine List.filter_congr fun e _ => ?_
    cases hb : beyond (some s.throughSeq) e with
    | false => simp
    | true => simp [beyond_through seen cuts hb]
  rw [forModelContext_eq,front,back]
  rfl

end

theorem cuts_split (increasing : Increasing history)
    (cuts : Cuts (forModelContext history tainted) plan n) (text label sessionId : String) (seq : Nat) (now : Int) :
    Splits history tainted plan (stored sessionId seq (writeCompaction (summarized plan text label)) now) := by
  have seen := seen_context history tainted
  have parts : plan.toSummarize ++ plan.kept = forModelContext history tainted := by
    rw [cuts.toSummarize,cuts.kept,List.append_assoc,List.take_append_drop,
      latestSummary_shown,afterSummary_shown,forModelContext_eq]
  refine ⟨parts,?_⟩
  rw [forModelContext_written seen cuts,cuts.kept,← afterSummary_shown]
  congr 1
  refine filter_eq_drop (fun e he => ?_) (fun e he => ?_)
  · rw [Bool.eq_false_iff,ne_eq,beyond_some,not_lt]
    exact through_above_taken seen cuts e he
  · exact beyond_some.mpr (through_below_kept increasing seen cuts e he)

end

structure ContextState where
  sessionId : String
  history : List SessionEntry
  cache : TokenCache

def ContextState.nextSeq (s : ContextState) (skipped : Nat) : Nat :=
  ((s.history.getLast?.map (·.seq+1)).getD 0) + skipped

inductive ContextStep where
  | append (entry : NewEntry) (skipped : Nat) (now : Int)
  | compact (budget : CompactionBudget) (tainted : Bool) (scopeId orgScopeId text : String)
      (skipped : Nat) (now : Int)

def summarizeForCompaction (tk : Tokenizer) (cache : TokenCache) (visible : List SessionEntry)
    (budget : CompactionBudget) (scopeId orgScopeId text : String) : Option Summarized × TokenCache :=
  match planCompaction tk cache visible budget with
  | (none,cache) => (none,cache)
  | (some plan,cache) =>
    if plan.toSummarize.isEmpty then (none,cache)
    else ((compactedScopeLabel plan.toSummarize scopeId orgScopeId).map (summarized plan text),cache)

def ContextState.exec (tk : Tokenizer) (s : ContextState) : ContextStep → ContextState
  | .append entry skipped now =>
    let full := stored s.sessionId (s.nextSeq skipped) entry now
    {s with history := s.history ++ [full]}
  | .compact budget tainted scopeId orgScopeId text skipped now =>
    let visible := forModelContext s.history tainted
    match summarizeForCompaction tk s.cache visible budget scopeId orgScopeId text with
    | (none,cache) => {s with cache := cache}
    | (some summary,cache) =>
      let full := stored s.sessionId (s.nextSeq skipped) (writeCompaction summary) now
      {s with history := s.history ++ [full], cache := cache}

theorem increasing_stored {s : ContextState} (increasing : Increasing s.history) (skipped : Nat)
    (entry : NewEntry) (now : Int) : Increasing (s.history ++ [stored s.sessionId (s.nextSeq skipped) entry now]) := by
  refine List.pairwise_append.mpr ⟨increasing,List.pairwise_singleton _ _,?_⟩
  intro a ha b hb
  rw [List.mem_singleton.mp hb]
  have above : a.seq < s.nextSeq skipped := by
    obtain ⟨init,last,hlast⟩ := (List.eq_nil_or_concat' s.history).resolve_left (List.ne_nil_of_mem ha)
    rw [hlast] at ha
    have order := increasing
    rw [hlast] at order
    have le : a.seq ≤ last.seq := by
      rcases List.mem_append.mp ha with ha | ha
      · exact ((List.pairwise_append.mp order).2.2 a ha last (List.mem_singleton.mpr rfl)).le
      · rw [List.mem_singleton.mp ha]
    simp only [ContextState.nextSeq,hlast,List.getLast?_append,List.getLast?_singleton,
      Option.some_or,Option.map_some,Option.getD_some]
    omega
  exact above

theorem increasing_exec (tk : Tokenizer) (s : ContextState) (step : ContextStep)
    (increasing : Increasing s.history) : Increasing (s.exec tk step).history := by
  cases step with
  | append => exact increasing_stored increasing ..
  | compact _ _ _ _ _ skipped now =>
    simp only [ContextState.exec]
    split
    · exact increasing
    · exact increasing_stored increasing skipped _ now

theorem increasing_run (tk : Tokenizer) (start : ContextState) (steps : List ContextStep)
    (increasing : Increasing start.history) : Increasing (run (ContextState.exec tk) start steps).history := by
  induction steps using List.reverseRecOn with
  | nil => exact increasing
  | append_singleton _ step ih =>
    rw [run_append]
    exact increasing_exec tk _ step ih

theorem compaction_keeps_context (tk : Tokenizer) (start : ContextState)
    (increasing : Increasing start.history) (steps : List ContextStep) (budget : CompactionBudget)
    (tainted : Bool) (plan : CompactionPlan) (cache : TokenCache)
    (planned : planCompaction tk (run (ContextState.exec tk) start steps).cache
      (forModelContext (run (ContextState.exec tk) start steps).history tainted) budget = (some plan,cache))
    (proposes : plan.toSummarize ≠ []) (text label sessionId : String) (seq : Nat) (now : Int) :
    Splits (run (ContextState.exec tk) start steps).history tainted plan
      (stored sessionId seq (writeCompaction (summarized plan text label)) now) :=
  cuts_split (increasing_run tk start steps increasing) (planCompaction_cuts planned proposes)
    text label sessionId seq now

def oneToken : Tokenizer := ⟨fun _ => 1,fun _ => ""⟩

def smallBudget : CompactionBudget := ⟨3,100,1 / 2,none,none⟩

def fourEntries : ContextState :=
  ⟨"s",[labelledEntry 0 "org:acme",labelledEntry 1 "org:acme",labelledEntry 2 "org:acme",
    labelledEntry 3 "org:acme"],[]⟩

def twoRounds : List ContextStep :=
  [.compact smallBudget false "personal:ana" "org:acme" "so far" 0 0,.append ⟨.user,.null,"org:acme"⟩ 0 0]

def secondRound : Option CompactionPlan × TokenCache :=
  let s := run (ContextState.exec oneToken) fourEntries twoRounds
  planCompaction oneToken s.cache (forModelContext s.history false) smallBudget

theorem compaction_keeps_context_second_round :
    ∃ plan, secondRound.1 = some plan ∧ plan.toSummarize.map (·.seq) = [4,2] ∧ plan.kept.map (·.seq) = [3,5] ∧
      Splits (run (ContextState.exec oneToken) fourEntries twoRounds).history false plan
        (stored "s" 6 (writeCompaction (summarized plan "so far" "org:acme")) 0) := by
  have parts : secondRound.1.map (fun p => (p.toSummarize.map (·.seq),p.kept.map (·.seq))) =
      some ([4,2],[3,5]) := by decide +kernel
  obtain ⟨plan,hplan,hparts⟩ := Option.map_eq_some_iff.mp parts
  obtain ⟨front,back⟩ := Prod.mk.inj hparts
  refine ⟨plan,hplan,front,back,?_⟩
  refine compaction_keeps_context oneToken fourEntries (by decide) twoRounds smallBudget false
    plan secondRound.2 (Prod.ext hplan rfl) ?_ "so far" "org:acme" "s" 6 0
  intro empty
  rw [empty] at front
  cases front

end CompanyBrain.Harness
