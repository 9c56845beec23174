import CompanyBrain.Foundations.Fallible
import CompanyBrain.Policy.PolicyComposition
import CompanyBrain.Policy.Wrappers

namespace CompanyBrain.Policy

open Foundations Util

def shellWords (payload : Text) : List Text := ["bash".toList,"-c".toList,payload]

theorem shellWords_first (payload : Text) : CommandFirst (shellWords payload) :=
  ⟨_,_,rfl,by decide⟩

theorem segment_shellWords (payload : Text) : segmentShellPayloads (shellWords payload) = [payload] := by
  rw [segmentShellPayloads,shellWords,List.length_cons,segmentPayloadsFrom,
    commandStart_word (by decide),List.drop_zero]
  dsimp only
  rw [if_pos (by decide)]
  rfl

inductive SplitForm where
  | short (value : Text)
  | long (value : Text)
  | joined (value : Text)
  | compact (value : Text) (nonempty : value ≠ []) (plain : '=' ∉ value)

namespace SplitForm

def value : SplitForm → Text
  | short v | long v | joined v | compact v _ _ => v

def words : SplitForm → List Text
  | short v => ["-S".toList,v]
  | long v => ["--split-string".toList,v]
  | joined v => ["--split-string=".toList ++ v]
  | compact v _ _ => ["-S".toList ++ v]

end SplitForm

structure SplitEnv where
  exe : Text
  before : List Text
  form : SplitForm
  rest : List Text
  named : executableName exe = "env".toList
  starts : isCommandWord exe = true
  unsplit : Unsplit before

namespace SplitEnv

def args (e : SplitEnv) : List Text := e.before ++ (e.form.words ++ e.rest)

def words (e : SplitEnv) : List Text := e.exe :: e.args

def text (e : SplitEnv) : Text := joinWith " ".toList (e.form.value :: e.rest)

variable (e : SplitEnv)
include e

theorem first : CommandFirst e.words := ⟨e.exe,e.args,rfl,e.starts⟩

theorem found : e.args.findIdx? isSplitString = some e.before.length := by
  have head : ∃ word words, e.form.words ++ e.rest = word :: words ∧ isSplitString word = true := by
    cases e.form with
    | short | long => exact ⟨_,_,rfl,by simp [isSplitString]⟩
    | joined => exact ⟨_,_,rfl,by simp [isSplitString,startsWith]⟩
    | compact v _ _ => exact ⟨_,_,rfl,by simp [isSplitString,startsWith]⟩
  obtain ⟨word,words,heq,split⟩ := head
  rw [args,heq,List.findIdx?_append,List.findIdx?_eq_none_iff.mpr e.unsplit]
  simp [List.findIdx?_cons,split]

theorem payload : splitStringPayload e.args e.before.length = (some e.form.value,e.rest) := by
  have placed : e.args[e.before.length]? = (e.form.words ++ e.rest)[0]? := by
    simp [args,List.getElem?_append_right]
  have next : e.args[e.before.length+1]? = (e.form.words ++ e.rest)[1]? := by
    simp [args,List.getElem?_append_right]
  have after (k : Nat) : e.args.drop (e.before.length + k) = (e.form.words ++ e.rest).drop k := by
    simp [args,List.drop_append]
  simp only [splitStringPayload,placed,next,after]
  cases e.form with
  | short | long => simp [SplitForm.words,SplitForm.value,cut,startsWith]
  | joined v =>
    have split : cut '=' ("--split-string=".toList ++ v) = some ("--split-string".toList,v) := by
      have spelled : "--split-string=".toList = "--split-string".toList ++ ['='] := by decide
      rw [spelled,List.append_assoc]
      exact cut_append v (by decide)
    simp only [SplitForm.words,SplitForm.value,List.singleton_append,List.getElem?_cons_zero,
      Option.getD_some,split]
    rfl
  | compact v nonempty plain =>
    have whole : cut '=' ("-S".toList ++ v) = none := cut_eq_none (by simpa using plain)
    have long : 0 < v.length := List.length_pos_iff.mpr nonempty
    simp only [SplitForm.words,SplitForm.value,List.singleton_append,List.getElem?_cons_zero,
      Option.getD_some,whole]
    simp [startsWith,long]

theorem segment : segmentShellPayloads e.words = [e.text] :=
  segment_split e.starts e.args e.named e.found e.payload

end SplitEnv

def Spells (t : Text) (words : List Text) : Prop :=
  ∃ scan, scanShell (stripWrittenHeredocs t) = .ok scan ∧ words ∈ scan.commands

inductive Wraps (payload : Text) : List (List Wrapper) → List Text → Prop where
  | shell {chain : List Wrapper} (fits : Fits chain (shellWords payload)) :
      Wraps payload [chain] (wrap chain (shellWords payload))
  | split {chain : List Wrapper} {e : SplitEnv} (fits : Fits chain e.words)
      {chains : List (List Wrapper)} {words : List Text} (spelled : Spells e.text words)
      (inner : Wraps payload chains words) : Wraps payload (chain :: chains) (wrap chain e.words)

def Block (inner outer : Text) : Prop :=
  ∃ a b, outer = a ++ (inner ++ b) ∧ (a = [] ∨ a.getLast? = some '\n') ∧ (b = [] ∨ b.head? = some '\n')

theorem Block.refl (t : Text) : Block t t := ⟨[],[],by simp,.inl rfl,.inl rfl⟩

variable {t : Text}

theorem Block.trans {u v : Text} (h : Block t u) (k : Block u v) : Block t v := by
  obtain ⟨a,b,rfl,ha,hb⟩ := h
  obtain ⟨c,d,rfl,hc,hd⟩ := k
  refine ⟨c ++ a,b ++ d,by simp,?_,?_⟩
  · rcases ha with rfl | ha
    · simpa using hc
    · exact .inr (by rw [List.getLast?_append,ha]; rfl)
  · rcases hb with rfl | hb
    · simpa using hd
    · exact .inr (by rw [List.head?_append,hb]; rfl)

theorem block_joinWith {parts : List Text} (h : t ∈ parts) : Block t (joinWith "\n".toList parts) := by
  induction parts using joinWith.induct with
  | case1 => cases h
  | case2 =>
    cases List.mem_singleton.mp h
    exact .refl t
  | case3 u ts more ih =>
    rw [joinWith.eq_3 _ u ts more]
    rcases List.mem_cons.mp h with rfl | h
    · exact ⟨[],"\n".toList ++ joinWith "\n".toList ts,by simp,.inl rfl,.inr rfl⟩
    · exact (ih h).trans ⟨u ++ "\n".toList,[],by simp,.inr (by simp),.inl rfl⟩

variable {words : List Text} {payload : Text}

theorem executed_segment {executed : List Text} (spelled : Spells t words)
    (h : executedShellPayloads (stripWrittenHeredocs t) = .ok executed) (mem : payload ∈ segmentShellPayloads words) :
    payload ∈ executed := by
  obtain ⟨scan,scanned,found⟩ := spelled
  obtain ⟨scan',scanned',h⟩ := bind_ok h
  cases scanned.symm.trans scanned'
  obtain ⟨piped,-,h⟩ := bind_ok h
  obtain ⟨hereStrings,-,h⟩ := bind_ok h
  obtain ⟨expanded,-,h⟩ := bind_ok h
  cases h
  have segment : payload ∈ scan.commands.flatMap segmentShellPayloads :=
    List.mem_flatMap.mpr ⟨words,found,mem⟩
  simp [segment]

theorem scannable_executed {n : Nat} {outer : Text} (h : scannableWithin (n+1) t = .ok outer)
    (spelled : Spells t words) (mem : payload ∈ segmentShellPayloads words) :
    ∃ inner, scannableWithin n payload = .ok inner ∧ Block inner outer := by
  obtain ⟨base,-,h⟩ := bind_ok h
  obtain ⟨executed,hexecuted,h⟩ := bind_ok h
  obtain ⟨scans,hscans,h⟩ := bind_ok h
  cases h
  have reached := executed_segment spelled hexecuted mem
  obtain ⟨inner,hinner,scanned⟩ := mapM_ok_of_mem hscans reached
  exact ⟨inner,scanned,block_joinWith (.tail base hinner)⟩

theorem scannable_wrapped {chains : List (List Wrapper)} (wraps : Wraps payload chains words)
    (unbuffered : ∀ chain ∈ chains, buffered chain = false) {outer : Text} {m : Nat} (spelled : Spells t words)
    (h : scannableWithin (chains.length + m) t = .ok outer) :
    ∃ inner, scannableWithin m payload = .ok inner ∧ Block inner outer := by
  induction wraps generalizing t outer with
  | @shell chain fits =>
    have mem : payload ∈ segmentShellPayloads (wrap chain (shellWords payload)) := by
      rw [segment_wrap fits,unbuffered chain (by simp),segment_shellWords]
      simp
    rw [Nat.add_comm] at h
    exact scannable_executed h spelled mem
  | @split chain e fits chains words spelled' inner ih =>
    have mem : e.text ∈ segmentShellPayloads (wrap chain e.words) := by
      rw [segment_wrap fits,unbuffered chain (by simp),e.segment]
      simp
    rw [List.length_cons,Nat.add_right_comm] at h
    obtain ⟨middle,scanned,block⟩ := scannable_executed h spelled mem
    obtain ⟨inner,found,block'⟩ :=
      ih (fun c hc => unbuffered c (.tail chain hc)) spelled' scanned
    exact ⟨inner,found,block'.trans block⟩

def NestsWithin : Nat → Text → Prop
  | 0, t => executedShellPayloads (stripWrittenHeredocs t) = .ok []
  | n+1, t => ∀ executed, executedShellPayloads (stripWrittenHeredocs t) = .ok executed →
      ∀ payload ∈ executed, NestsWithin n payload

theorem scannableWithin_deeper {n : Nat} (h : NestsWithin n t) (k : Nat) :
    scannableWithin (n + k) t = scannableWithin n t := by
  induction n generalizing t with
  | zero =>
    cases k with
    | zero => rfl
    | succ =>
      rw [Nat.zero_add,scannableWithin,scannableWithin,h]
      cases maskQuotes (stripWrittenHeredocs t) <;> rfl
  | succ n ih =>
    rw [Nat.succ_add,scannableWithin,scannableWithin]
    cases executed : executedShellPayloads (stripWrittenHeredocs t) with
    | error => rfl
    | ok payloads =>
      have same : payloads.mapM (scannableWithin (n + k)) = payloads.mapM (scannableWithin n) :=
        mapM_congr_mem fun p hp => ih (h payloads executed p hp)
      cases maskQuotes (stripWrittenHeredocs t) with
      | error => rfl
      | ok base => exact congrArg (· >>= fun scans => .ok (joinWith "\n".toList (base :: scans))) same

section Rules

variable (engine : RegExpEngine)

def LineStable (rule : CommandRule) : Prop :=
  ∀ t u, Block t u → (ruleHit engine t rule).isSome → (ruleHit engine u rule).isSome

def Restricts (policy : CommandPolicy) : Prop :=
  policy.mode = .denylist ∧ ∀ rule ∈ policy.rules, rule.decision ≠ .allow ∧ LineStable engine rule

variable {engine}

theorem Restricts.refused {policy : CommandPolicy} (h : Restricts engine policy) {t u : Text}
    (block : Block t u) (refused : (evaluateScannable engine t policy).decision ≠ .allow) :
    (evaluateScannable engine u policy).decision ≠ .allow := by
  have matched : Matches engine t policy.rules := by
    by_contra unmatched
    have none : firstMatch engine t policy.rules = none := by simpa [matches_iff] using unmatched
    exact refused (by rw [decision_unmatched none,h.1])
  obtain ⟨rule,hrule,hit⟩ := matched
  have stable : Matches engine u policy.rules :=
    ⟨rule,hrule,(h.2 rule hrule).2 t u block hit⟩
  obtain ⟨found,hfound⟩ := Option.ne_none_iff_exists'.mp ((matches_iff engine u _).mp stable)
  rw [evaluateScannable_matched hfound]
  obtain ⟨first,hfirst,heq⟩ := firstMatch_decision hfound
  rw [heq]
  exact (h.2 first hfirst).1

end Rules

theorem wrapped_payload_matched {payload command : Text} {chains : List (List Wrapper)}
    {words : List Text} (wraps : Wraps payload chains words) (spelled : Spells command words)
    (unbuffered : ∀ chain ∈ chains, buffered chain = false) {m : Nat}
    (depth : chains.length + m = maxDepth) (nests : NestsWithin m payload) {inner outer : Text}
    (alone : scannableCommand payload = .ok inner) (wrapped : scannableCommand command = .ok outer) :
    Block inner outer ∧ (∀ engine rule, LineStable engine rule → (ruleHit engine inner rule).isSome →
        (ruleHit engine outer rule).isSome) ∧ ∀ engine policy, Restricts engine policy → ∀ bare chained,
        evaluateCommand engine payload policy = .ok bare →
        evaluateCommand engine command policy = .ok chained →
        bare.decision ≠ .allow → chained.decision ≠ .allow := by
  have block : Block inner outer := by
    rw [scannableCommand,← depth] at wrapped
    obtain ⟨found,scanned,block⟩ := scannable_wrapped wraps unbuffered spelled wrapped
    have same : scannableCommand payload = scannableWithin m payload := by
      rw [scannableCommand,← depth,Nat.add_comm]
      exact scannableWithin_deeper nests chains.length
    rw [same,scanned] at alone
    cases alone
    exact block
  refine ⟨block,fun engine rule stable => stable inner outer block,?_⟩
  intro engine policy restricts bare chained evaluated evaluated'
  rw [evaluateCommand,alone] at evaluated
  rw [evaluateCommand,wrapped] at evaluated'
  cases evaluated
  cases evaluated'
  exact restricts.refused block

def removalText : Text := "rm -rf /".toList

def envWrapper : Wrapper where
  name := .env
  exe := "env".toList
  args := ["FOO=1".toList]
  named := by decide
  starts := by decide
  formed := ⟨[],["FOO=1".toList],.plain .nil,by decide,rfl⟩

def sudoWrapper : Wrapper where
  name := .superuser
  exe := "/usr/bin/sudo".toList
  args := ["-u".toList,"root".toList]
  named := by decide
  starts := by decide
  formed := .plain (.value "root".toList (by decide) (by decide) .nil)

def stdbufWrapper : Wrapper where
  name := .stdbuf
  exe := "stdbuf".toList
  args := ["-o0".toList]
  named := by decide
  starts := by decide
  formed := .plain (.flag (by decide) (by decide) .nil)

theorem removal_nests (n : Nat) : NestsWithin n removalText := by
  have none : executedShellPayloads (stripWrittenHeredocs removalText) = .ok [] := by
    decide +kernel
  cases n with
  | zero => exact none
  | succ =>
    intro executed found
    cases none.symm.trans found
    exact fun payload h => by cases h

theorem removal_scanned : scannableCommand removalText = .ok removalText := by decide +kernel

theorem noRemoval_restricts : Restricts literalEngine noRemoval := by
  refine ⟨rfl,fun rule mem => ?_⟩
  cases List.mem_singleton.mp mem
  refine ⟨by decide,fun t u block hit => ?_⟩
  have literal (t : Text) : ruleHit literalEngine t ⟨"rm".toList,.deny,none⟩ =
      ((Regex.all ("rm".toList.map Regex.lit)).exec t).map Hit.text := rfl
  rw [literal,Option.isSome_map] at hit ⊢
  obtain ⟨a,b,rfl,-,-⟩ := block
  exact Regex.literal_exec_isSome ((Regex.infix_of_literal_exec hit).trans ⟨a,b,by simp⟩)

def wrappedRemoval : Text := "env FOO=1 /usr/bin/sudo -u root bash -c 'rm -rf /'".toList

theorem wrapped_removal_refused : Block removalText "env FOO=1 /usr/bin/sudo -u root bash -c ''\nrm -rf /".toList ∧
      ∀ bare chained, evaluateCommand literalEngine removalText noRemoval = .ok bare →
        evaluateCommand literalEngine wrappedRemoval noRemoval = .ok chained →
        bare.decision ≠ .allow → chained.decision ≠ .allow := by
  have fits : Fits [envWrapper,sudoWrapper] (shellWords removalText) :=
    ⟨fun _ => by decide,⟨fun h => absurd h (by decide),shellWords_first removalText⟩⟩
  have spelled : Spells wrappedRemoval (wrap [envWrapper,sudoWrapper] (shellWords removalText)) :=
    ⟨⟨[wrap [envWrapper,sudoWrapper] (shellWords removalText)],[]⟩,by decide +kernel,by decide⟩
  have wrapped : scannableCommand wrappedRemoval =
      .ok "env FOO=1 /usr/bin/sudo -u root bash -c ''\nrm -rf /".toList := by decide +kernel
  obtain ⟨block,-,refused⟩ := wrapped_payload_matched (.shell fits) spelled (by decide)
    rfl (removal_nests 7) removal_scanned wrapped
  exact ⟨block,refused literalEngine noRemoval noRemoval_restricts⟩

def bufferedRemoval : Text := "stdbuf -o0 bash -c 'rm -rf /'".toList

theorem buffered_removal_allowed : Wraps removalText [[stdbufWrapper]] (wrap [stdbufWrapper] (shellWords removalText)) ∧
      Spells bufferedRemoval (wrap [stdbufWrapper] (shellWords removalText)) ∧
      scannableCommand removalText = .ok removalText ∧
      scannableCommand bufferedRemoval = .ok "stdbuf -o0 bash -c ''".toList ∧
      (evaluateCommand literalEngine removalText noRemoval).map CommandEvaluation.decision = .ok .deny ∧
      (evaluateCommand literalEngine bufferedRemoval noRemoval).map CommandEvaluation.decision = .ok .allow := by
  have wraps : Wraps removalText [[stdbufWrapper]] (wrap [stdbufWrapper] (shellWords removalText)) :=
    .shell ⟨fun h => absurd h (by decide),shellWords_first removalText⟩
  have spelled : Spells bufferedRemoval (wrap [stdbufWrapper] (shellWords removalText)) :=
    ⟨⟨[wrap [stdbufWrapper] (shellWords removalText)],[]⟩,by decide +kernel,by decide⟩
  have buffered : scannableCommand bufferedRemoval = .ok "stdbuf -o0 bash -c ''".toList := by
    decide +kernel
  refine ⟨wraps,spelled,removal_scanned,buffered,?_,?_⟩
  · rw [evaluateCommand]
    decide +kernel
  · rw [evaluateCommand]
    decide +kernel

end CompanyBrain.Policy
