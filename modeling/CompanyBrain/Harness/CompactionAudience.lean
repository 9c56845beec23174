import CompanyBrain.Harness.CompactionPlan

namespace CompanyBrain.Harness

open Resolution
open Sessions (SessionEntry)

structure ParticipantHistory where
  maxSeq : Int
  seqs : List Nat

structure HistoryView where
  audience : List Principal
  scopeId : ScopeId
  orgScopeId : ScopeId
  participants : Option ParticipantHistory

def ParticipantHistory.admits (p : ParticipantHistory) (seq : Nat) : Bool := p.maxSeq < seq || p.seqs.contains seq

def filterHistory (view : HistoryView) (entries : List SessionEntry) : List SessionEntry :=
  filterHistoryForAudience (match view.participants with
      | none => entries
      | some p => entries.filter fun e => p.admits e.seq)
    view.audience view.scopeId view.orgScopeId

def HistoryView.entitled (view : HistoryView) (label : ScopeId) : Bool :=
  !view.audience.isEmpty && view.audience.all fun p =>
    principalEntitledToScope p label view.scopeId view.orgScopeId

def HistoryView.sees (view : HistoryView) (e : SessionEntry) : Bool :=
  view.entitled e.scopeLabel && view.participants.all fun p => p.admits e.seq

theorem filterHistory_eq (view : HistoryView) (entries : List SessionEntry) :
    filterHistory view entries = entries.filter view.sees := by
  obtain ⟨audience,scopeId,orgScopeId,participants⟩ := view
  cases audience with
  | nil => simp [filterHistory,filterHistoryForAudience,HistoryView.sees,HistoryView.entitled]
  | cons =>
    cases participants with
    | none =>
      refine List.filter_congr fun e _ => ?_
      simp [HistoryView.sees,HistoryView.entitled]
    | some =>
      simp only [filterHistory,filterHistoryForAudience,List.filter_filter]
      refine List.filter_congr fun e _ => ?_
      simp [HistoryView.sees,HistoryView.entitled]

def visibleHistory (view : HistoryView) (history : List SessionEntry) : List SessionEntry :=
  filterHistory view (forModelContext history false)

variable {history : List SessionEntry} {e : SessionEntry}

theorem mem_visibleHistory {view : HistoryView} : e ∈ visibleHistory view history ↔
      (shownSummary history false = some e ∨ e ∈ shownRest history false) ∧ view.sees e := by
  rw [visibleHistory,filterHistory_eq,List.mem_filter,forModelContext_eq,List.mem_append, Option.mem_toList]

theorem latestSummary_visible (view : HistoryView) (history : List SessionEntry) :
    latestSummary (visibleHistory view history) = (shownSummary history false).filter view.sees := by
  rw [visibleHistory,filterHistory_eq,latestSummary_filtered]

theorem afterSummary_visible (view : HistoryView) (history : List SessionEntry) :
    afterSummary (visibleHistory view history) = (shownRest history false).filter view.sees := by
  rw [visibleHistory,filterHistory_eq,afterSummary_filtered]

theorem seen_visible (view : HistoryView) (history : List SessionEntry) :
    Seen history false (visibleHistory view history) where
  summary := by
    intro e h
    rw [latestSummary_visible] at h
    exact (Option.filter_eq_some_iff.mp h).1
  rest := by
    rw [afterSummary_visible]
    exact List.filter_sublist

structure Compaction where
  tk : Tokenizer
  maxContextEntries : ℚ
  managedGroups : String → Bool
  compactHistory : Option (List SessionEntry → String)

def compactSoftFraction : ℚ := 7 / 10

def compactHardFraction : ℚ := 9 / 10

def keepRecentTokenFraction : ℚ := min (6 / 10) (compactSoftFraction - 1 / 10)

section

variable (c : Compaction) (cache : TokenCache) (visible : List SessionEntry) (turn : Turn)

def Compaction.keepRecentEntries : ℚ :=
  max 1 ((⌊c.maxContextEntries * compactSoftFraction⌋ : ℤ) - 1)

def Compaction.budget (maxContextTokens : ℚ) : CompactionBudget where
  maxEntries := c.maxContextEntries
  maxTokens := maxContextTokens
  keepRecentTokenFraction := keepRecentTokenFraction
  keepRecentEntries := some c.keepRecentEntries
  reuseBudget := some ⟨c.keepRecentEntries+1,(⌊maxContextTokens * keepRecentTokenFraction⌋ : ℤ)⟩

def Compaction.isManagedGroupScope (scope : ScopeId) : Bool :=
  match parseScopeId scope with
  | (some .group,ref) => c.managedGroups ref
  | _ => false

def overBudgetFraction (tk : Tokenizer) (cache : TokenCache) (history : List SessionEntry)
    (maxEntries maxTokens fraction : ℚ) : Bool × TokenCache :=
  if maxEntries * fraction < history.length then (true,cache)
  else
    let estimate := estimateHistoryTokens tk cache history
    (maxTokens * fraction < estimate.1,estimate.2)

def boundRecent (entries : List SessionEntry) (maxContextTokens : ℚ) : List SessionEntry × TokenCache :=
  match entries.find? isSummary with
  | none =>
    let kept := recentEntryCountWithinBudget c.tk cache entries c.maxContextEntries maxContextTokens
    (entries.drop (entries.length - kept.1),kept.2)
  | some summary =>
    let rest := entries.filter (· ≠ summary)
    let own := estimateEntryTokens c.tk cache summary
    let kept := recentEntryCountWithinBudget c.tk own.2 rest (c.maxContextEntries - 1)
      (maxContextTokens - own.1)
    (summary :: rest.drop (rest.length - kept.1),kept.2)

structure Turn where
  view : HistoryView
  maxContextTokens : ℚ
  skipped : Nat
  now : Int

def handed (tk : Tokenizer) (cache : TokenCache) (visible : List SessionEntry)
    (budget : CompactionBudget) : List SessionEntry :=
  ((planCompaction tk cache visible budget).1.map CompactionPlan.toSummarize).getD []

structure Written where
  summarized : Summarized
  origin : List SessionEntry

def Compaction.summarize : Option Written × TokenCache :=
  if c.isManagedGroupScope turn.view.scopeId then (none,cache)
  else
    match c.compactHistory with
    | none => (none,cache)
    | some compactHistory =>
      let budget := c.budget turn.maxContextTokens
      let history := handed c.tk cache visible budget
      let result := summarizeForCompaction c.tk cache visible budget turn.view.scopeId
        turn.view.orgScopeId (compactHistory history)
      (result.1.map fun s => ⟨s,history⟩,result.2)

structure Compacted where
  state : ContextState
  written : Option (SessionEntry × List SessionEntry)
  history : List SessionEntry

def recentBeyond (throughSeq : ℚ) : List SessionEntry :=
  let recent := visible.filter fun e => throughSeq < e.seq && !isSummary e
  recent.drop ⌊max 0 ((recent.length : ℚ) - (c.maxContextEntries - 1))⌋₊

def compactContextIfNeeded (s : ContextState) (turn : Turn) : Compacted :=
  let visible := visibleHistory turn.view s.history
  match overBudgetFraction c.tk s.cache visible c.maxContextEntries turn.maxContextTokens
      compactHardFraction with
  | (false,cache) => ⟨{s with cache := cache},none,visible⟩
  | (true,cache) =>
    match c.summarize cache visible turn with
    | (none,cache) =>
      let bounded := boundRecent c cache visible turn.maxContextTokens
      ⟨{s with cache := bounded.2},none,bounded.1⟩
    | (some written,cache) =>
      let summary := stored s.sessionId (s.nextSeq turn.skipped) (writeCompaction written.summarized) turn.now
      ⟨{s with history := s.history ++ [summary], cache := cache},some (summary,written.origin),
        summary :: recentBeyond c visible written.summarized.throughSeq⟩

end

-- The entries of the compacting audience's own context that its limits make it summarise.
def taken (c : Compaction) (s : ContextState) (turn : Turn) : List SessionEntry :=
  let visible := visibleHistory turn.view s.history
  let exceeded := overBudgetFraction c.tk s.cache visible c.maxContextEntries turn.maxContextTokens compactHardFraction
  if exceeded.1 && !c.isManagedGroupScope turn.view.scopeId && c.compactHistory.isSome then
    handed c.tk exceeded.2 visible (c.budget turn.maxContextTokens)
  else []

structure Summarizes (c : Compaction) (s : ContextState) (turn : Turn) (plan : CompactionPlan)
    (n : Nat) (text label : String) : Prop where
  cuts : Cuts (visibleHistory turn.view s.history) plan n
  computed : c.compactHistory.map (· plan.toSummarize) = some text
  labelled : compactedScopeLabel plan.toSummarize turn.view.scopeId turn.view.orgScopeId = some label

def summaryEntry (s : ContextState) (turn : Turn) (plan : CompactionPlan) (text label : String) : SessionEntry :=
  stored s.sessionId (s.nextSeq turn.skipped) (writeCompaction (summarized plan text label)) turn.now

section

variable {c : Compaction} {s : ContextState} {turn : Turn}

theorem summarizeForCompaction_cases {tk : Tokenizer} {cache : TokenCache} {visible : List SessionEntry}
    {budget : CompactionBudget} {scopeId orgScopeId text : String} {found : Option Summarized} :
    (summarizeForCompaction tk cache visible budget scopeId orgScopeId text).1 = found → match found with
    | none => handed tk cache visible budget = [] ∨
        compactedScopeLabel (handed tk cache visible budget) scopeId orgScopeId = none
    | some result => ∃ plan n label, Cuts visible plan n ∧ handed tk cache visible budget = plan.toSummarize ∧
        compactedScopeLabel plan.toSummarize scopeId orgScopeId = some label ∧ result = summarized plan text label := by
  rintro rfl
  unfold summarizeForCompaction handed
  cases planned : planCompaction tk cache visible budget with
  | mk plan cache' =>
    cases plan with
    | none => exact .inl rfl
    | some plan =>
      by_cases empty : plan.toSummarize = []
      · simp [empty]
      · cases labelled : compactedScopeLabel plan.toSummarize scopeId orgScopeId with
        | none => simp [empty,labelled]
        | some label => simpa [empty,labelled] using ⟨plan,⟨_,planCompaction_cuts planned empty⟩,rfl,label,labelled,rfl⟩

inductive Compacts (c : Compaction) (s : ContextState) (turn : Turn) : Compacted → Prop where
  | keep (cache : TokenCache) (history : List SessionEntry)
      (idle : taken c s turn = [] ∨
        compactedScopeLabel (taken c s turn) turn.view.scopeId turn.view.orgScopeId = none) :
    Compacts c s turn ⟨{s with cache := cache},none,history⟩
  | write (cache : TokenCache) (history : List SessionEntry) {plan : CompactionPlan} {n : Nat}
      {text label : String} (summarizes : Summarizes c s turn plan n text label)
      (front : taken c s turn = plan.toSummarize) :
    Compacts c s turn ⟨{s with history := s.history ++ [summaryEntry s turn plan text label], cache := cache},
        some (summaryEntry s turn plan text label,plan.toSummarize),history⟩

theorem compactContextIfNeeded_compacts (c : Compaction) (s : ContextState) (turn : Turn) :
    Compacts c s turn (compactContextIfNeeded c s turn) := by
  have front : taken c s turn = taken c s turn := rfl
  conv_rhs at front => unfold taken
  unfold compactContextIfNeeded Compaction.summarize
  simp only at front ⊢
  generalize overBudgetFraction c.tk s.cache (visibleHistory turn.view s.history) c.maxContextEntries
    turn.maxContextTokens compactHardFraction = exceeded at front ⊢
  obtain ⟨exceeded,cache⟩ := exceeded
  cases exceeded with
  | false => exact .keep _ _ (.inl front)
  | true =>
    cases managed : c.isManagedGroupScope turn.view.scopeId with
    | true => exact .keep _ _ (.inl (by simpa [managed] using front))
    | false =>
      cases model : c.compactHistory with
      | none => exact .keep _ _ (.inl (by simpa [model] using front))
      | some compactHistory =>
        have front : taken c s turn = handed c.tk cache (visibleHistory turn.view s.history)
          (c.budget turn.maxContextTokens) := by simpa [managed,model] using front
        have cases := @summarizeForCompaction_cases c.tk cache (visibleHistory turn.view s.history)
          (c.budget turn.maxContextTokens) turn.view.scopeId turn.view.orgScopeId
            (compactHistory (taken c s turn)) _ rfl
        simp only [Bool.false_eq_true,if_false]
        rw [← front] at cases ⊢
        generalize summarizeForCompaction c.tk cache (visibleHistory turn.view s.history)
          (c.budget turn.maxContextTokens) turn.view.scopeId turn.view.orgScopeId
          (compactHistory (taken c s turn)) = result at cases ⊢
        obtain ⟨summary,cache'⟩ := result
        cases summary with
        | none => exact .keep _ _ cases
        | some summary =>
          obtain ⟨plan,n,label,cuts,origin,labelled,rfl⟩ := cases
          simp only [origin,Option.map_some]
          refine .write _ _ ⟨cuts,?_,labelled⟩ origin
          rw [model,Option.map_some]

end

structure SummaryOf (c : Compaction) (summary : SessionEntry) (origin : List SessionEntry)
    (e : SessionEntry) : Prop where
  computed : (contextSummaryPayload summary).map SummaryPayload.text = c.compactHistory.map (· origin)
  mem : e ∈ origin
  covers : covered e ≤ covered summary

def Preserved (c : Compaction) (s : ContextState) (turn : Turn) (later : HistoryView) : Prop :=
  let after := compactContextIfNeeded c s turn
  ∀ e ∈ visibleHistory later s.history, e ∈ visibleHistory later after.state.history ∨
      ∃ summary origin, after.written = some (summary,origin) ∧
        summary ∈ visibleHistory later after.state.history ∧ SummaryOf c summary origin e

-- `front` is what a compaction summarises: every entry up to its last that the later audience sees, the compacting
-- audience sees too, and the later audience may see an entry labelled as `front` is, with the next number.
def Aligned (front : List SessionEntry) (next : Nat) (view later : HistoryView) (context : List SessionEntry) : Prop :=
  ∀ label, compactedScopeLabel front view.scopeId view.orgScopeId = some label →
    ∀ e ∈ context, later.sees e → (∃ r ∈ front, covered e ≤ covered r) →
      view.sees e ∧ later.entitled label ∧ later.participants.all fun p => p.admits next

section

variable {c : Compaction} {s : ContextState} {turn : Turn} {plan : CompactionPlan} {n : Nat} {text label : String}
  {later : HistoryView}

section

variable (summarizes : Summarizes c s turn plan n text label)
include summarizes

theorem summaryEntry_of {e : SessionEntry}
    (mem : e ∈ plan.toSummarize) : SummaryOf c (summaryEntry s turn plan text label) plan.toSummarize e where
  computed := by
    rw [summarizes.computed]
    rfl
  mem := mem
  covers := by
    exact covered_le _ e mem

theorem visible_after :
    e ∈ visibleHistory later (s.history ++ [summaryEntry s turn plan text label]) ↔
      (e = summaryEntry s turn plan text label ∨
        e ∈ shownRest s.history false ∧ compactionThroughSeq plan.toSummarize < e.seq) ∧ later.sees e := by
  rw [visibleHistory,filterHistory_eq,List.mem_filter,summaryEntry,
    forModelContext_written (seen_visible turn.view s.history) summarizes.cuts,List.mem_cons,
    List.mem_filter,beyond_some]

theorem covered_iff_hidden (h : e ∈ visibleHistory later s.history) :
    covered e ≤ compactionThroughSeq plan.toSummarize ↔
      ¬ (e ∈ shownRest s.history false ∧ compactionThroughSeq plan.toSummarize < e.seq) := by
  rcases (mem_visibleHistory.mp h).1 with summary | rest
  · have own := (shownSummary_isSummary summary).1
    have cut := covered_shown e summary
    have past := through_past_cut (seen_visible turn.view s.history) summarizes.cuts cut.symm
    refine iff_of_true past.le ?_
    rintro ⟨rest,_⟩
    rw [(mem_shownRest.mp rest).2.2.1] at own
    cases own
  · rw [covered_plain (mem_shownRest.mp rest).2.2.1,and_iff_right rest,not_lt]

end

theorem mem_toSummarize_iff (increasing : Increasing s.history) (summarizes : Summarizes c s turn plan n text label)
    (shown : shownSummary s.history false = some e ∨ e ∈ shownRest s.history false)
    (hidden : covered e ≤ compactionThroughSeq plan.toSummarize) : e ∈ plan.toSummarize ↔ turn.view.sees e := by
  have seen := seen_visible turn.view s.history
  rw [summarizes.cuts.toSummarize,latestSummary_visible,List.mem_append,Option.mem_toList]
  constructor
  · rintro (summary | taken)
    · exact (Option.filter_eq_some_iff.mp summary).2
    · rw [afterSummary_visible] at taken
      exact (List.mem_filter.mp (List.mem_of_mem_take taken)).2
  · intro sees
    rcases shown with summary | rest
    · exact .inl (Option.filter_eq_some_iff.mpr ⟨summary,sees⟩)
    · have mem : e ∈ afterSummary (visibleHistory turn.view s.history) := by
        rw [afterSummary_visible]
        exact List.mem_filter.mpr ⟨rest,sees⟩
      rw [← List.take_append_drop n (afterSummary (visibleHistory turn.view s.history)), List.mem_append] at mem
      rcases mem with taken | kept
      · exact .inr taken
      · have below := through_below_kept increasing seen summarizes.cuts e kept
        rw [covered_plain (mem_shownRest.mp rest).2.2.1] at hidden
        exact absurd below (not_lt.mpr hidden)

theorem fresh_summary (increasing : Increasing s.history) : summaryEntry s turn plan text label ∉ s.history := by
  intro h
  have order := increasing_stored increasing turn.skipped
    (writeCompaction (summarized plan text label)) turn.now
  have less := (List.pairwise_append.mp order).2.2 _ h _ (List.mem_singleton.mpr rfl)
  exact absurd less (lt_irrefl _)

end

theorem shown_mem {view : HistoryView} (h : e ∈ visibleHistory view history) : e ∈ history := by
  rcases (mem_visibleHistory.mp h).1 with summary | rest
  · have latest := (Option.filter_eq_some_iff.mp summary).1
    exact (List.mem_filter.mp (findLast_some latest).1).1
  · exact (mem_shownRest.mp rest).1

section

variable {c : Compaction} {s : ContextState} {turn : Turn} {plan : CompactionPlan} {n : Nat} {text label : String}
  {later : HistoryView} (summarizes : Summarizes c s turn plan n text label)
include summarizes

theorem through_iff (he : e ∈ visibleHistory later s.history) :
    covered e ≤ compactionThroughSeq plan.toSummarize ↔ ∃ r ∈ plan.toSummarize, covered e ≤ covered r := by
  have seen := seen_visible turn.view s.history
  constructor
  · intro hidden
    rcases (mem_visibleHistory.mp he).1 with summary | rest
    · obtain ⟨first,taken⟩ := List.exists_mem_of_ne_nil _ summarizes.cuts.nonempty
      obtain ⟨_,_,plain,past⟩ := seen.mem_rest (List.mem_of_mem_take taken)
      rw [← covered_shown e summary,beyond_some,← covered_plain plain] at past
      refine ⟨first,?_,past.le⟩
      rw [summarizes.cuts.toSummarize]
      exact List.mem_append_right _ taken
    · by_contra none
      have above : ∀ r ∈ plan.toSummarize, covered r < covered e := by simpa using none
      have start : -1 < covered e := by
        rw [covered_plain (mem_shownRest.mp rest).2.2.1]
        exact seq_cast_gt e.seq
      exact absurd (throughSeq_lt start above) (not_lt.mpr hidden)
  · rintro ⟨r,mem,below⟩
    exact below.trans (covered_le _ r mem)

theorem kept_iff (increasing : Increasing s.history) (he : e ∈ visibleHistory later s.history) :
    (e ∈ visibleHistory later (s.history ++ [summaryEntry s turn plan text label]) ∨
      summaryEntry s turn plan text label ∈
          visibleHistory later (s.history ++ [summaryEntry s turn plan text label]) ∧
        SummaryOf c (summaryEntry s turn plan text label) plan.toSummarize e) ↔
    ((∃ r ∈ plan.toSummarize, covered e ≤ covered r) →
      turn.view.sees e ∧ later.sees (summaryEntry s turn plan text label)) := by
  obtain ⟨before,sees⟩ := mem_visibleHistory.mp he
  rw [← through_iff summarizes he]
  constructor
  · rintro (still | ⟨shown,of⟩) hidden
    · rcases ((visible_after summarizes).mp still).1 with rfl | rest
      · exact absurd (shown_mem he) (fresh_summary increasing)
      · exact absurd rest ((covered_iff_hidden summarizes he).mp hidden)
    · exact ⟨(mem_toSummarize_iff increasing summarizes before hidden).mp of.mem,
        ((visible_after summarizes).mp shown).2⟩
  · intro aligned
    by_cases hidden : covered e ≤ compactionThroughSeq plan.toSummarize
    · obtain ⟨own,summary⟩ := aligned hidden
      have mem := (mem_toSummarize_iff increasing summarizes before hidden).mpr own
      exact .inr ⟨(visible_after summarizes).mpr ⟨.inl rfl,summary⟩,summaryEntry_of summarizes mem⟩
    · have rest := not_not.mp (mt (covered_iff_hidden summarizes he).mpr hidden)
      exact .inl ((visible_after summarizes).mpr ⟨.inr rest,sees⟩)

end

theorem compaction_preserves_iff (c : Compaction) (s : ContextState)
    (increasing : Increasing s.history) (turn : Turn) (later : HistoryView) :
    Preserved c s turn later ↔ Aligned (taken c s turn) (s.nextSeq turn.skipped) turn.view later
      (forModelContext s.history false) := by
  have compacts := compactContextIfNeeded_compacts c s turn
  simp only [Preserved]
  generalize compactContextIfNeeded c s turn = after at compacts ⊢
  cases compacts with
  | keep _ _ idle =>
    refine iff_of_true (fun e he => .inl he) ?_
    rintro label labelled e _ _ ⟨r,mem,_⟩
    rcases idle with idle | idle
    · rw [idle] at mem
      cases mem
    · rw [idle] at labelled
      cases labelled
  | @write _ _ plan n text label summarizes front =>
    have context (e : SessionEntry) : e ∈ visibleHistory later s.history ↔
        e ∈ forModelContext s.history false ∧ later.sees e := by
      rw [visibleHistory,filterHistory_eq,List.mem_filter]
    have summary : later.sees (summaryEntry s turn plan text label) = true ↔ later.entitled label = true ∧
        (later.participants.all fun p => p.admits (s.nextSeq turn.skipped)) = true := Bool.and_eq_true _ _ ▸ Iff.rfl
    rw [front]
    constructor
    · intro preserved label' labelled e mem sees taken
      cases summarizes.labelled.symm.trans labelled
      have he := (context e).mpr ⟨mem,sees⟩
      rw [← summary]
      refine (kept_iff summarizes increasing he).mp ?_ taken
      simpa using preserved e he
    · intro aligned e he
      obtain ⟨mem,sees⟩ := (context e).mp he
      have kept := (kept_iff summarizes increasing he).mpr fun taken => by
        rw [summary]
        exact aligned label summarizes.labelled e mem sees taken
      simpa using kept

def ownReport (label : ScopeId) : ContextState :=
  ⟨"s",[labelledEntry 0 label,labelledEntry 1 "channel:eng",labelledEntry 2 "channel:eng",
    labelledEntry 3 "channel:eng"],[]⟩

def longReports : Compaction where
  tk := ⟨fun _ => 50000,fun _ => ""⟩
  maxContextEntries := 400
  managedGroups := fun _ => false
  compactHistory := some fun _ => "so far"

def engView (audience : List Principal) : HistoryView :=
  ⟨audience,"channel:eng","org:acme",none⟩

def engTurn (audience : List Principal) : Turn := ⟨engView audience,120000,0,0⟩

def bo : Principal := ⟨"bo",none⟩

theorem compaction_preserves_public :
    (compactContextIfNeeded longReports (ownReport "org:acme") (engTurn [ana])).written.isSome ∧
      Preserved longReports (ownReport "org:acme") (engTurn [ana]) (engView [bo]) := by
  refine ⟨by decide +kernel,(compaction_preserves_iff longReports (ownReport "org:acme")
    (by decide) (engTurn [ana]) (engView [bo])).mpr ?_⟩
  intro label labelled e mem _ _
  have seen : (forModelContext (ownReport "org:acme").history false).all (engView [ana]).sees = true := by
    decide +kernel
  have own : compactedScopeLabel (taken longReports (ownReport "org:acme") (engTurn [ana])) "channel:eng" "org:acme" =
      some "channel:eng" := by decide +kernel
  cases own.symm.trans labelled
  exact ⟨List.all_eq_true.mp seen e mem,by decide +kernel,rfl⟩

def seqs (entries : List SessionEntry) : List Nat := entries.map (·.seq)

theorem mem_seqs {entries : List SessionEntry} (h : e ∈ entries) : e.seq ∈ seqs entries :=
  List.mem_map_of_mem h

theorem unseen_report_lost : ¬ Preserved longReports (ownReport "personal:bo") (engTurn [ana]) (engView [bo]) ∧
      ¬ Preserved longReports (ownReport "personal:ana") (engTurn [ana]) (engView [bo]) := by
  constructor
  · intro preserved
    have rest : seqs (visibleHistory (engView [bo]) (compactContextIfNeeded longReports
        (ownReport "personal:bo") (engTurn [ana])).state.history) = [4,3] := by decide +kernel
    have source : (compactContextIfNeeded longReports (ownReport "personal:bo")
        (engTurn [ana])).written.map (fun w => seqs w.2) = some [1,2] := by decide +kernel
    rcases preserved (labelledEntry 0 "personal:bo") (by decide +kernel) with
      still | ⟨summary,origin,written,_,of⟩
    · have mem := mem_seqs still
      rw [rest] at mem
      exact absurd mem (by decide)
    · simp only [written,Option.map_some,Option.some.injEq] at source
      have mem := mem_seqs of.mem
      rw [source] at mem
      exact absurd mem (by decide)
  · intro preserved
    have rest : seqs (visibleHistory (engView [bo]) (compactContextIfNeeded longReports
        (ownReport "personal:ana") (engTurn [ana])).state.history) = [3] := by decide +kernel
    have own : (compactContextIfNeeded longReports (ownReport "personal:ana")
        (engTurn [ana])).written.map (fun w => w.1.seq) = some 4 := by decide +kernel
    rcases preserved (labelledEntry 1 "channel:eng") (by decide +kernel) with
      still | ⟨summary,origin,written,shown,_⟩
    · have mem := mem_seqs still
      rw [rest] at mem
      exact absurd mem (by decide)
    · simp only [written,Option.map_some,Option.some.injEq] at own
      have mem := mem_seqs shown
      rw [rest,own] at mem
      exact absurd mem (by decide)

end CompanyBrain.Harness
