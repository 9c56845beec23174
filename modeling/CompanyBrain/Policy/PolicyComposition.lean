import CompanyBrain.Policy.CommandPolicy

namespace CompanyBrain.Policy

open Foundations Util

def CommandDecision.strictness : CommandDecision → Nat
  | allow => 0
  | requireApproval => 1
  | deny => 2

section Matching

variable (engine : RegExpEngine) (scannable : Text)

theorem firstMatch_append (rules more : List CommandRule) : firstMatch engine scannable (rules ++ more) =
      (firstMatch engine scannable rules).or (firstMatch engine scannable more) := by
  induction rules with
  | nil => simp [firstMatch]
  | cons rule _ ih =>
    simp only [List.cons_append,firstMatch]
    cases ruleHit engine scannable rule with
    | none => exact ih
    | some => rfl

theorem firstMatch_eq_none_iff (rules : List CommandRule) : firstMatch engine scannable rules = none ↔
      ∀ rule ∈ rules, ruleHit engine scannable rule = none := by
  induction rules with
  | nil => simp [firstMatch]
  | cons rule _ ih =>
    simp only [firstMatch,List.forall_mem_cons]
    cases ruleHit engine scannable rule with
    | none => simp [ih]
    | some => simp

theorem firstMatch_composed (org scope : CommandPolicy) :
    firstMatch engine scannable (composePolicy org (some scope)).rules =
      (firstMatch engine scannable org.rules).or (firstMatch engine scannable scope.rules) :=
  firstMatch_append engine scannable org.rules scope.rules

def Matches (rules : List CommandRule) : Prop :=
  ∃ rule ∈ rules, (ruleHit engine scannable rule).isSome

theorem matches_iff (rules : List CommandRule) :
    Matches engine scannable rules ↔ firstMatch engine scannable rules ≠ none := by
  simp [Matches,firstMatch_eq_none_iff,Option.isSome_iff_ne_none]

variable {engine scannable}

variable {hit : CommandEvaluation}

theorem evaluateScannable_matched {policy : CommandPolicy} (h : firstMatch engine scannable policy.rules = some hit) :
    evaluateScannable engine scannable policy = hit := by
  simp only [evaluateScannable,h]

theorem decision_unmatched {policy : CommandPolicy} (h : firstMatch engine scannable policy.rules = none) :
    (evaluateScannable engine scannable policy).decision =
      match policy.mode with | .allowlist => .deny | .denylist => .allow := by
  simp only [evaluateScannable,h]
  cases policy.mode <;> rfl

theorem firstMatch_decision {rules : List CommandRule} (h : firstMatch engine scannable rules = some hit) :
    ∃ rule ∈ rules, hit.decision = rule.decision := by
  induction rules with
  | nil => cases h
  | cons rule _ ih =>
    simp only [firstMatch] at h
    split at h
    · obtain ⟨r,hr,heq⟩ := ih h
      exact ⟨r,List.mem_cons_of_mem rule hr,heq⟩
    · cases h
      exact ⟨rule,.head _,rfl⟩

end Matching

def FloorKept (engine : RegExpEngine) (org : CommandPolicy) (scope : Option CommandPolicy) (scannable : Text) : Prop :=
  org.mode = .denylist ∨ Matches engine scannable org.rules ∨
    ∀ policy ∈ scope, ∀ hit ∈ firstMatch engine scannable policy.rules, hit.decision = .deny

theorem deny_le_strictness {d : CommandDecision} : CommandDecision.deny.strictness ≤ d.strictness ↔ d = .deny := by
  cases d <;> decide

theorem strictness_composed_of_matched {engine : RegExpEngine} {org : CommandPolicy}
    {scope : Option CommandPolicy} {scannable : Text} (h : Matches engine scannable org.rules) :
    evaluateScannable engine scannable (composePolicy org scope) = evaluateScannable engine scannable org := by
  obtain ⟨hit,found⟩ := Option.ne_none_iff_exists'.mp ((matches_iff engine scannable _).mp h)
  cases scope with
  | none => rfl
  | some =>
    rw [evaluateScannable_matched found]
    exact evaluateScannable_matched (by rw [firstMatch_composed,found]; rfl)

theorem strictness_composed_iff (engine : RegExpEngine) (org : CommandPolicy)
    (scope : Option CommandPolicy) (scannable : Text) : (evaluateScannable engine scannable org).decision.strictness ≤
        (evaluateScannable engine scannable (composePolicy org scope)).decision.strictness ↔
      FloorKept engine org scope scannable := by
  by_cases matched : Matches engine scannable org.rules
  · simp [FloorKept,matched,strictness_composed_of_matched matched]
  have unmatched : firstMatch engine scannable org.rules = none := by
    simpa [matches_iff] using matched
  cases mode : org.mode with
  | denylist => simp [FloorKept,mode,decision_unmatched unmatched,CommandDecision.strictness]
  | allowlist =>
    simp only [FloorKept,mode,matched,decision_unmatched unmatched,deny_le_strictness]
    cases scope with
    | none => simp [composePolicy,decision_unmatched unmatched,mode]
    | some scope =>
      have composed := firstMatch_composed engine scannable org scope
      rw [unmatched] at composed
      cases found : firstMatch engine scannable scope.rules with
      | none =>
        rw [decision_unmatched (composed.trans found)]
        simp [composePolicy,mode,found]
      | some => simp [evaluateScannable_matched (composed.trans found),found]

theorem composed_at_least_as_strict_iff (engine : RegExpEngine) (org : CommandPolicy)
    (scope : Option CommandPolicy) (command : Text) :
    (∀ alone composed, evaluateCommand engine command org = .ok alone →
        evaluateCommand engine command (composePolicy org scope) = .ok composed →
        alone.decision.strictness ≤ composed.decision.strictness) ↔
      ∀ scannable, scannableCommand command = .ok scannable → FloorKept engine org scope scannable := by
  cases scanned : scannableCommand command with
  | error => simp [evaluateCommand,scanned]
  | ok scannable =>
    simp only [evaluateCommand,scanned,← strictness_composed_iff]
    constructor
    · intro h _ heq
      cases heq
      exact h _ _ rfl rfl
    · rintro h _ _ ⟨⟩ ⟨⟩
      exact h scannable rfl

def literalEngine : RegExpEngine :=
  ⟨fun pattern _ => .ok fun t => ((Regex.all (pattern.map Regex.lit)).exec t).map Hit.text⟩

def noRemoval : CommandPolicy := ⟨.denylist,[⟨"rm".toList,.deny,none⟩]⟩

def closedOrg : CommandPolicy := ⟨.allowlist,[]⟩

def openingScope : CommandPolicy := ⟨.denylist,[⟨"ls".toList,.allow,none⟩]⟩

theorem scope_allow_rule_opens_org_allowlist :
    (evaluateCommand literalEngine "ls".toList closedOrg).map CommandEvaluation.decision = .ok .deny ∧
      (evaluateCommand literalEngine "ls".toList
        (composePolicy closedOrg (some openingScope))).map CommandEvaluation.decision = .ok .allow := by
  decide

end CompanyBrain.Policy
