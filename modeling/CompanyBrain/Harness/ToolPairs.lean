import CompanyBrain.Harness.CompactionPlan

namespace CompanyBrain.Harness

open Foundations
open Sessions (SessionEntry)

def paired (call result : SessionEntry) : Bool :=
  call.type = .toolCall && match callId? call with
    | none => false
    | some cid => answers cid result

def ResultsFollowCalls (history : List SessionEntry) : Prop :=
  ∀ j < history.length, ∀ result ∈ history[j]?, result.type = .toolResult →
    ∃ call ∈ history.take j, paired call result = true

instance (history : List SessionEntry) : Decidable (ResultsFollowCalls history) :=
  inferInstanceAs (Decidable (∀ j < history.length, _))

def KeepsPairs (plan : CompactionPlan) : Prop :=
  ∀ call ∈ plan.toSummarize, ∀ result ∈ plan.kept, paired call result = false

instance (plan : CompactionPlan) : Decidable (KeepsPairs plan) :=
  inferInstanceAs (Decidable (∀ call ∈ plan.toSummarize, _))

def OpenAt (entries : List SessionEntry) (cut k : Nat) : Prop :=
  ∃ e, entries[k]? = some e ∧ openCall (entries.take cut) e = true

def ClearCut (entries : List SessionEntry) (cut : Nat) : Prop :=
  ∀ i j call result, entries[i]? = some call → entries[j]? = some result →
    i < cut → cut ≤ j → paired call result = true → ∀ k, i ≤ k → k < cut → OpenAt entries cut k

section

variable {entries : List SessionEntry} {e call result : SessionEntry}

theorem openCall_type (h : openCall entries e) : e.type = .toolCall := by
  simp only [openCall,Bool.and_eq_true,decide_eq_true_eq] at h
  exact h.1

theorem answers_call (h : e.type = .toolCall) (cid : String) : answers cid e = false := by
  simp [answers,h]

theorem paired_types (h : paired call result) : call.type = .toolCall ∧ result.type = .toolResult := by
  simp only [paired,Bool.and_eq_true,decide_eq_true_eq] at h
  refine ⟨h.1,?_⟩
  split at h
  · cases h.2
  · simp only [answers,Bool.and_eq_true,decide_eq_true_eq] at h
    exact h.2.1

theorem openCall_of_subset {more : List SessionEntry} (sub : ∀ x ∈ entries, x ∈ more)
    (h : openCall more e) : openCall entries e := by
  simp only [openCall,Bool.and_eq_true] at h ⊢
  refine ⟨h.1,?_⟩
  split
  next none =>
    rw [none] at h
    cases h.2
  next cid some =>
    rw [some] at h
    simp only [Bool.not_eq_true',List.any_eq_false] at h ⊢
    exact fun x hx => h.2 x (sub x hx)

theorem openCall_snoc {last : SessionEntry} (h : openCall entries e)
    (isCall : last.type = .toolCall) : openCall (entries ++ [last]) e := by
  simp only [openCall,Bool.and_eq_true] at h ⊢
  refine ⟨h.1,?_⟩
  split
  next none =>
    rw [none] at h
    cases h.2
  next cid some =>
    rw [some] at h
    simpa [answers_call isCall] using h.2

theorem pullBack_le (entries : List SessionEntry) (cut : Nat) : pullBack entries cut ≤ cut := by
  induction cut with
  | zero => exact le_refl 0
  | succ n ih =>
    simp only [pullBack]
    split
    · exact le_refl _
    · split
      · exact ih.trans (Nat.le_succ n)
      · exact le_refl _

theorem pullBack_open {cut k : Nat} (low : pullBack entries cut ≤ k) (high : k < cut) : OpenAt entries cut k := by
  induction cut with
  | zero => omega
  | succ n ih =>
    simp only [pullBack] at low
    split at low
    · omega
    next last hlast =>
      split at low
      next isOpen =>
        rcases Nat.lt_succ_iff_lt_or_eq.mp high with before | rfl
        · obtain ⟨e,he,earlier⟩ := ih low before
          refine ⟨e,he,?_⟩
          rw [List.take_add_one,hlast]
          exact openCall_snoc earlier (openCall_type isOpen)
        · exact ⟨last,hlast,isOpen⟩
      · omega

theorem pullBack_stop {cut m : Nat} (h : pullBack entries cut = m+1) (he : entries[m]? = some e) :
    openCall (entries.take (m+1)) e = false := by
  induction cut with
  | zero => cases h
  | succ n ih =>
    simp only [pullBack] at h
    split at h
    next none =>
      cases h
      rw [none] at he
      cases he
    next last hlast =>
      split at h
      · exact ih h
      next shut =>
        cases h
        rw [hlast] at he
        cases he
        simpa using shut

theorem system_of_summary (h : isSummary e) : e.type = .system := by
  simp only [isSummary,contextSummaryPayload] at h
  split at h
  · assumption
  · cases h

end

section

variable {tk : Tokenizer} {cache cache' : TokenCache} {history : List SessionEntry}
  {b : CompactionBudget} {plan : CompactionPlan}

variable {n : Nat}

section

variable (cuts : Cuts history plan n)
include cuts

theorem summarized_call {call : SessionEntry} (mem : call ∈ plan.toSummarize)
    (isCall : call.type = .toolCall) : ∃ i < n, (afterSummary history)[i]? = some call := by
  rw [cuts.toSummarize,List.mem_append,Option.mem_toList] at mem
  rcases mem with latest | taken
  · have system := system_of_summary (findLast_some latest).2
    rw [isCall] at system
    cases system
  · obtain ⟨i,hi⟩ := List.mem_iff_getElem?.mp taken
    rw [List.getElem?_take] at hi
    split at hi
    next below => exact ⟨i,below,hi⟩
    · cases hi

theorem kept_result {result : SessionEntry} (mem : result ∈ plan.kept) :
    ∃ j ≥ n, (afterSummary history)[j]? = some result := by
  rw [cuts.kept] at mem
  obtain ⟨j,hj⟩ := List.mem_iff_getElem?.mp mem
  rw [List.getElem?_drop] at hj
  exact ⟨n + j,Nat.le_add_right n j,hj⟩

theorem mem_toSummarize {i : Nat} {e : SessionEntry}
    (he : (afterSummary history)[i]? = some e) (below : i < n) : e ∈ plan.toSummarize := by
  have taken : ((afterSummary history).take n)[i]? = some e := by
    rw [List.getElem?_take,if_pos below]
    exact he
  rw [cuts.toSummarize]
  exact List.mem_append_right _ (List.mem_of_getElem? taken)

theorem mem_kept {j : Nat} {e : SessionEntry} (he : (afterSummary history)[j]? = some e)
    (above : n ≤ j) : e ∈ plan.kept := by
  have left : ((afterSummary history).drop n)[j - n]? = some e := by
    rw [List.getElem?_drop,Nat.add_sub_of_le above]
    exact he
  rw [cuts.kept]
  exact List.mem_of_getElem? left

end

theorem planCompaction_keeps_pairs_iff (planned : planCompaction tk cache history b = (some plan,cache'))
    (proposes : plan.toSummarize ≠ []) :
    KeepsPairs plan ↔ ClearCut (afterSummary history) (budgetCut tk cache history b) := by
  have cuts := planCompaction_cuts planned proposes
  have low := pullBack_le (afterSummary history) (budgetCut tk cache history b)
  constructor
  · intro keeps i j call result hi hj before after isPair k from_i to_cut
    refine pullBack_open ?_ to_cut
    by_contra late
    have taken := mem_toSummarize cuts hi (by omega)
    have left := mem_kept cuts hj (low.trans after)
    rw [keeps call taken result left] at isPair
    cases isPair
  · intro clear call hcall result hresult
    by_contra split
    have isPair : paired call result = true := by simpa using split
    obtain ⟨isCall,isResult⟩ := paired_types isPair
    obtain ⟨i,hi,atCall⟩ := summarized_call cuts hcall isCall
    obtain ⟨j,hj,atResult⟩ := kept_result cuts hresult
    have beyond : budgetCut tk cache history b ≤ j := by
      by_contra inside
      obtain ⟨e,he,isOpen⟩ := pullBack_open hj (Nat.lt_of_not_le inside)
      rw [atResult] at he
      cases he
      rw [openCall_type isOpen] at isResult
      cases isResult
    obtain ⟨m,hm⟩ := Nat.exists_eq_succ_of_ne_zero (Nat.ne_zero_of_lt hi)
    obtain ⟨e,he,isOpen⟩ := clear i j call result atCall atResult (hi.trans_le low) beyond isPair m
      (by omega) (by omega)
    have stopped := pullBack_stop hm he
    rw [openCall_of_subset ?_ isOpen] at stopped
    · cases stopped
    · intro x hx
      exact (List.take_sublist_take_left (by omega)).subset hx

end

def toolEntry (seq : Nat) (type : Sessions.EntryType) (cid : String) : SessionEntry :=
  ⟨"s",seq,if seq = 0 then none else some (seq - 1),type,.obj [("callId",.str cid)],"org:acme",0⟩

def nestedCalls : List SessionEntry :=
  [toolEntry 0 .toolCall "a",toolEntry 1 .toolCall "b",toolEntry 2 .toolResult "b", toolEntry 3 .toolResult "a"]

def keepOne : CompactionBudget := ⟨2,100,1 / 2,none,none⟩

theorem planCompaction_splits_nested_calls : ResultsFollowCalls nestedCalls ∧
      ∃ plan, (planCompaction oneToken [] nestedCalls keepOne).1 = some plan ∧
        plan.toSummarize = nestedCalls.take 3 ∧ plan.kept = nestedCalls.drop 3 ∧ ¬ KeepsPairs plan := by
  refine ⟨by decide,⟨nestedCalls.take 3,nestedCalls.drop 3,none⟩,?_,rfl,rfl,by decide⟩
  decide +kernel

def adjacentCalls : List SessionEntry :=
  [labelledEntry 0 "org:acme",toolEntry 1 .toolCall "a",toolEntry 2 .toolResult "a"]

theorem planCompaction_keeps_pairs_adjacent :
    ∃ plan, (planCompaction oneToken [] adjacentCalls keepOne).1 = some plan ∧ KeepsPairs plan := by
  have planned : (planCompaction oneToken [] adjacentCalls keepOne).1 =
      some ⟨adjacentCalls.take 1,adjacentCalls.drop 1,none⟩ := by decide +kernel
  have cut : budgetCut oneToken [] adjacentCalls keepOne = 2 := by decide +kernel
  refine ⟨_,planned,(planCompaction_keeps_pairs_iff (Prod.ext planned rfl) (by decide)).mpr ?_⟩
  have all : afterSummary adjacentCalls = adjacentCalls := by decide +kernel
  rw [cut]
  intro i j call result hi _ before _ isPair k from_i to_cut
  rcases Nat.le_one_iff_eq_zero_or_eq_one.mp (Nat.le_of_lt_succ before) with rfl | rfl
  · cases hi
    simp [paired,labelledEntry] at isPair
  · obtain rfl : k = 1 := by omega
    exact ⟨toolEntry 1 .toolCall "a",rfl,by decide⟩

end CompanyBrain.Harness
