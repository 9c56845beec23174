import CompanyBrain.Policy.ShellPayloads

namespace CompanyBrain.Policy

open Foundations

def isOption (word : Text) : Bool :=
  startsWith "-" word && word ≠ "-".toList && word ≠ "--".toList

inductive Options (table : List Text) : List Text → Prop where
  | nil : Options table []
  | flag {word : Text} {words : List Text} (option : isOption word = true)
      (bare : takesValue table word = false) (later : Options table words) :
      Options table (word :: words)
  | value {word : Text} (value : Text) {words : List Text} (option : isOption word = true)
      (takes : takesValue table word = true) (later : Options table words) :
      Options table (word :: value :: words)

theorem optionCommand_end (table rest : List Text) : optionCommand ("--".toList :: rest) table = 1 := by
  rw [optionCommand.eq_def]
  exact if_pos rfl

variable {word : Text}

theorem optionCommand_stop (h : startsWith "-" word = false)
    (table rest : List Text) : optionCommand (word :: rest) table = 0 := by
  have notEnd : word ≠ "--".toList := by
    rintro rfl
    cases h
  rw [optionCommand.eq_def]
  simp only [if_neg notEnd,h,Bool.not_false,Bool.true_or,if_true]

theorem optionCommand_option (h : isOption word = true) (table rest : List Text) :
    optionCommand (word :: rest) table =
      if takesValue table word then optionCommand rest.tail table + 2
      else optionCommand rest table+1 := by
  simp only [isOption,Bool.and_eq_true,decide_eq_true_eq] at h
  obtain ⟨⟨dashed,notDash⟩,notEnd⟩ := h
  have inner : (!startsWith "-" word || decide (word = "-".toList)) = false := by
    rw [dashed,decide_eq_false notDash]
    rfl
  rw [optionCommand.eq_def]
  simp only [if_neg notEnd,inner]
  cases rest <;> rfl

theorem optionCommand_options {table os : List Text} (h : Options table os) (rest : List Text) :
    optionCommand (os ++ rest) table = os.length + optionCommand rest table := by
  induction h with
  | nil => simp
  | flag isOpt bare _ ih =>
    rw [List.cons_append,optionCommand_option isOpt,bare,List.length_cons]
    simp only [Bool.false_eq_true,if_false]
    omega
  | value _ isOpt takes _ ih =>
    rw [List.cons_append,optionCommand_option isOpt,takes,List.cons_append,List.tail_cons,
      List.length_cons,List.length_cons]
    simp only [if_true]
    omega

inductive OptionWords (table : List Text) : List Text → Prop where
  | plain {os : List Text} (options : Options table os) : OptionWords table os
  | ended {os : List Text} (options : Options table os) : OptionWords table (os ++ ["--".toList])

def Undashed (words : List Text) : Prop := ∀ word ∈ words.head?, startsWith "-" word = false

theorem optionCommand_words {table ws rest : List Text} (h : OptionWords table ws)
    (undashed : Undashed rest) : optionCommand (ws ++ rest) table = ws.length := by
  cases h with
  | plain options =>
    rw [optionCommand_options options]
    cases rest with
    | nil => rfl
    | cons word => rw [optionCommand_stop (undashed word rfl),Nat.add_zero]
  | ended options =>
    rw [List.append_assoc,optionCommand_options options,List.singleton_append,optionCommand_end,
      List.length_append,List.length_singleton]

theorem not_dashed_of_assignment (h : isAssignment word = true) :
    startsWith "-" word = false := by
  cases word with
  | nil => rfl
  | cons c t =>
    by_contra dashed
    have dash : '-' = c := by simpa [startsWith] using dashed
    subst dash
    have found := Regex.test_seq_textStart h
    have stuck : Patterns.nameStart.run ⟨none,'-' :: t,[]⟩ = [] := rfl
    simp only [Regex.matchAt,Patterns.name,Regex.all,Regex.run_seq,stuck,List.flatMap_nil,
      List.head?_nil] at found
    cases found

def isCommandWord (word : Text) : Bool :=
  !isAssignment word && !Patterns.keyword.test word && !Patterns.redirectAlone.test word &&
    !Patterns.redirectTo.test word && !startsWith "-" word

section

variable (h : isCommandWord word = true)
include h

theorem commandStart_word (words : List Text) :
    commandStart (word :: words) = 0 := by
  simp only [isCommandWord,Bool.and_eq_true,Bool.not_eq_true'] at h
  obtain ⟨⟨⟨⟨assignment,keyword⟩,alone⟩,joined⟩,-⟩ := h
  rw [commandStart.eq_def]
  simp only [assignment,keyword,alone,joined,Bool.or_self,Bool.false_eq_true,if_false]

theorem undashed_word (words : List Text) :
    Undashed (word :: words) := by
  simp only [isCommandWord,Bool.and_eq_true,Bool.not_eq_true'] at h
  rintro w ⟨⟩
  exact h.2

theorem skipAssignments_word {assignments : List Text}
    (assigned : ∀ a ∈ assignments, isAssignment a = true) (words : List Text) :
    skipAssignments (assignments ++ word :: words) = word :: words := by
  simp only [isCommandWord,Bool.and_eq_true,Bool.not_eq_true'] at h
  rw [skipAssignments,List.dropWhile_append_of_pos assigned]
  exact List.dropWhile_cons_of_neg (by simp [h.1.1.1.1])

end

variable {args rest : List Text}

theorem commandNext_length (h : commandNext args = some rest) :
    rest.length ≤ args.length := by
  induction args with
  | nil =>
    cases h
    exact Nat.le_refl _
  | cons _ _ ih =>
    simp only [commandNext] at h
    split at h
    · cases h
      exact Nat.le_succ _
    · split at h
      · cases h
      · split at h
        · exact Nat.le_succ_of_le (ih h)
        · cases h
          exact Nat.le_refl _

theorem segmentPayloadsFrom_stable {n m : Nat} {words : List Text} (hn : words.length < n)
    (hm : words.length < m) : segmentPayloadsFrom n words = segmentPayloadsFrom m words := by
  induction n generalizing m words with
  | zero => omega
  | succ n ih =>
    obtain ⟨m,rfl⟩ : ∃ k, m = k+1 := ⟨m - 1,by omega⟩
    simp only [segmentPayloadsFrom]
    cases split : words.drop (commandStart words) with
    | nil => rfl
    | cons _ args =>
      have shorter : args.length < words.length := by
        have := congrArg List.length split
        simp only [List.length_drop,List.length_cons] at this
        omega
      have same {rest : List Text} (h : rest.length ≤ args.length) :
          segmentPayloadsFrom n rest = segmentPayloadsFrom m rest :=
        ih (by omega) (by omega)
      have dropped (k : Nat) : segmentPayloadsFrom n (args.drop k) = segmentPayloadsFrom m (args.drop k) :=
        same (by simp)
      have skipped (k : Nat) : segmentPayloadsFrom n (skipAssignments (args.drop k)) =
          segmentPayloadsFrom m (skipAssignments (args.drop k)) :=
        same (Nat.le_trans (List.dropWhile_suffix _).length_le (by simp))
      dsimp only
      cases next : commandNext args with
      | none => simp only [dropped,skipped,same (Nat.le_refl _)]
      | some => simp only [dropped,skipped,same (Nat.le_refl _),same (commandNext_length next)]

inductive WrapperName where
  | env | command | exec | superuser | nice | timeout | time | nohup | stdbuf
deriving DecidableEq

namespace WrapperName

def text : WrapperName → Text
  | env => "env".toList
  | command => "command".toList
  | exec => "exec".toList
  | superuser => "sudo".toList
  | nice => "nice".toList
  | timeout => "timeout".toList
  | time => "time".toList
  | nohup => "nohup".toList
  | stdbuf => "stdbuf".toList

def valueOptions : WrapperName → List Text
  | env => envOptions
  | command | nohup => []
  | exec => execOptions
  | superuser => sudoOptions
  | nice => niceOptions
  | timeout => timeoutOptions
  | time => timeOptions
  | stdbuf => stdbufOptions

def Formed : WrapperName → List Text → Prop
  | env, args => ∃ os assignments, OptionWords envOptions os ∧
      (∀ a ∈ assignments, isAssignment a = true) ∧ args = os ++ assignments
  | command, args => ∃ n, args = List.replicate n "-p".toList ∨
      args = List.replicate n "-p".toList ++ ["--".toList]
  | timeout, args => ∃ os duration, OptionWords timeoutOptions os ∧
      startsWith "-" duration = false ∧ args = os ++ [duration]
  | name, args => OptionWords name.valueOptions args

end WrapperName

structure Wrapper where
  name : WrapperName
  exe : Text
  args : List Text
  named : executableName exe = name.text
  starts : isCommandWord exe = true
  formed : name.Formed args

def Wrapper.words (w : Wrapper) : List Text := w.exe :: w.args

def wrap (chain : List Wrapper) (inner : List Text) : List Text :=
  chain.flatMap Wrapper.words ++ inner

def CommandFirst (words : List Text) : Prop := ∃ exe args, words = exe :: args ∧ isCommandWord exe = true

theorem wrap_commandFirst (chain : List Wrapper) {inner : List Text} (h : CommandFirst inner) :
    CommandFirst (wrap chain inner) := by
  cases chain with
  | nil => exact h
  | cons w chain => exact ⟨w.exe,w.args ++ wrap chain inner,by simp [wrap,Wrapper.words],w.starts⟩

theorem commandNext_dashes (n : Nat) {rest : List Text} (h : Undashed rest) :
    commandNext (List.replicate n "-p".toList ++ rest) = some rest := by
  induction n with
  | zero =>
    cases rest with
    | nil => rfl
    | cons word =>
      have notDashed : startsWith "-" word = false := h word rfl
      have other {s : Text} (hs : startsWith "-" s = true) : word ≠ s := by
        rintro rfl
        rw [hs] at notDashed
        cases notDashed
      have asks : (decide (word = "-v".toList) || decide (word = "-V".toList)) = false := by
        rw [decide_eq_false (other rfl),decide_eq_false (other rfl)]
        rfl
      simp only [List.replicate_zero,List.nil_append,commandNext]
      rw [if_neg (other rfl),asks,if_neg (by simp),if_neg (other rfl)]
  | succ n ih => exact ih

theorem commandNext_end (n : Nat) (rest : List Text) :
    commandNext (List.replicate n "-p".toList ++ "--".toList :: rest) = some rest := by
  induction n with
  | zero => rfl
  | succ n ih => exact ih

section Walk

variable {exe : Text} (starts : isCommandWord exe = true) (args : List Text)

theorem segment_rest {args rest : List Text} (h : rest.length ≤ args.length) :
    segmentPayloadsFrom (args.length+1) rest = segmentShellPayloads rest :=
  segmentPayloadsFrom_stable (by omega) (Nat.lt_succ_self _)

include starts

theorem segment_env (named : executableName exe = "env".toList) (unsplit : args.findIdx? isSplitString = none) :
    segmentShellPayloads (exe :: args) =
      segmentShellPayloads (skipAssignments (args.drop (optionCommand args envOptions))) := by
  have shorter : (skipAssignments (args.drop (optionCommand args envOptions))).length ≤
      args.length := Nat.le_trans (List.dropWhile_suffix _).length_le (by simp)
  rw [← segment_rest shorter,segmentShellPayloads,List.length_cons,segmentPayloadsFrom,
    commandStart_word starts,List.drop_zero]
  dsimp only
  rw [named,if_neg (by decide),if_neg (by decide),if_pos rfl,unsplit]

theorem segment_split (named : executableName exe = "env".toList) {split : Nat}
    (found : args.findIdx? isSplitString = some split) {value : Text} {rest : List Text}
    (payload : splitStringPayload args split = (some value,rest)) :
    segmentShellPayloads (exe :: args) = [joinWith " ".toList (value :: rest)] := by
  rw [segmentShellPayloads,segmentPayloadsFrom,commandStart_word starts,List.drop_zero]
  dsimp only
  rw [named,if_neg (by decide),if_neg (by decide),if_pos rfl,found]
  dsimp only
  rw [payload]

theorem segment_command (named : executableName exe = "command".toList) {rest : List Text}
    (next : commandNext args = some rest) :
    segmentShellPayloads (exe :: args) = segmentShellPayloads rest := by
  rw [← segment_rest (commandNext_length next),segmentShellPayloads,List.length_cons,
    segmentPayloadsFrom,commandStart_word starts,List.drop_zero]
  dsimp only
  rw [named,if_neg (by decide),if_neg (by decide),if_neg (by decide),if_pos rfl,next]

def tested : List Text := shells ++ texts ["eval","env","command","coproc","xargs"]

theorem segment_other (other : tested.contains (executableName exe) = false) :
    segmentShellPayloads (exe :: args) =
      match wrapperNext (executableName exe) args with
      | some next => segmentShellPayloads (args.drop next)
      | none => [] := by
  have dropped (k : Nat) : segmentPayloadsFrom (args.length+1) (args.drop k) =
      segmentShellPayloads (args.drop k) := segment_rest (by simp)
  have apart : executableName exe ∉ tested := by simpa using other
  have ne (s : String) (hs : s.toList ∈ tested) : executableName exe ≠ s.toList := by
    intro heq
    exact apart (heq ▸ hs)
  have notShell : ¬ shells.contains (executableName exe) = true := by
    intro h
    exact apart (List.mem_append_left _ (List.contains_iff_mem.mp h))
  rw [segmentShellPayloads,segmentPayloadsFrom,commandStart_word starts,List.drop_zero]
  dsimp only
  rw [if_neg notShell,if_neg (ne "eval" (by decide)),if_neg (ne "env" (by decide)),
    if_neg (ne "command" (by decide)),if_neg (ne "coproc" (by decide)),
    if_neg (ne "xargs" (by decide))]
  cases wrapperNext (executableName exe) args with
  | none => rfl
  | some next => exact dropped next

end Walk

def Unsplit (words : List Text) : Prop := ∀ word ∈ words, isSplitString word = false

instance : DecidablePred Unsplit := fun words =>
  inferInstanceAs (Decidable (∀ word ∈ words, isSplitString word = false))

theorem CommandFirst.undashed {words : List Text} (h : CommandFirst words) : Undashed words := by
  obtain ⟨exe,args,rfl,starts⟩ := h
  exact undashed_word starts args

theorem skip_env (formed : WrapperName.env.Formed args) (first : CommandFirst rest) :
    skipAssignments ((args ++ rest).drop (optionCommand (args ++ rest) envOptions)) = rest := by
  obtain ⟨os,assignments,options,assigned,rfl⟩ := formed
  have undashed : Undashed (assignments ++ rest) := by
    cases assignments with
    | nil => exact first.undashed
    | cons a =>
      rintro word ⟨⟩
      exact not_dashed_of_assignment (assigned a (.head _))
  rw [List.append_assoc,optionCommand_words options undashed,List.drop_left]
  obtain ⟨exe,words,rfl,starts⟩ := first
  exact skipAssignments_word starts assigned words

theorem skip_command (formed : WrapperName.command.Formed args)
    (first : CommandFirst rest) : commandNext (args ++ rest) = some rest := by
  obtain ⟨n,rfl | rfl⟩ := formed
  · exact commandNext_dashes n first.undashed
  · rw [List.append_assoc]
    exact commandNext_end n rest

theorem skip_timeout (formed : WrapperName.timeout.Formed args) :
    (args ++ rest).drop (optionCommand (args ++ rest) timeoutOptions+1) = rest := by
  obtain ⟨os,duration,options,undashed,rfl⟩ := formed
  have here : Undashed (duration :: rest) := by
    rintro word ⟨⟩
    exact undashed
  rw [List.append_assoc,List.singleton_append,optionCommand_words options here]
  simp

theorem skip_options {table args rest : List Text} (formed : OptionWords table args)
    (first : CommandFirst rest) : (args ++ rest).drop (optionCommand (args ++ rest) table) = rest := by
  rw [optionCommand_words formed first.undashed,List.drop_left]

theorem segment_wrapper (w : Wrapper) {rest : List Text} (first : CommandFirst rest)
    (unsplit : w.name = .env → Unsplit (w.args ++ rest)) :
    segmentShellPayloads (w.words ++ rest) =
      if w.name = .stdbuf then [] else segmentShellPayloads rest := by
  obtain ⟨name,exe,args,named,starts,formed⟩ := w
  change segmentShellPayloads (exe :: (args ++ rest)) = _
  have plain (next : Nat) (other : tested.contains name.text = false)
      (skips : wrapperNext name.text (args ++ rest) = some next)
      (left : (args ++ rest).drop next = rest) :
      segmentShellPayloads (exe :: (args ++ rest)) = segmentShellPayloads rest := by
    rw [segment_other starts _ (by rw [named]; exact other),named,skips]
    dsimp only
    rw [left]
  cases name with
  | env =>
    have none : (args ++ rest).findIdx? isSplitString = none :=
      List.findIdx?_eq_none_iff.mpr (unsplit rfl)
    rw [segment_env starts _ named none,skip_env formed first,if_neg (by simp)]
  | command =>
    rw [segment_command starts _ named (skip_command formed first),if_neg (by simp)]
  | timeout => exact plain _ (by decide) rfl (skip_timeout formed)
  | stdbuf =>
    rw [segment_other starts _ (by rw [named]; decide),named]
    rfl
  | exec | superuser | nice | time | nohup => exact plain _ (by decide) rfl (skip_options formed first)

def Fits : List Wrapper → List Text → Prop
  | [], inner => CommandFirst inner
  | w :: chain, inner =>
    (w.name = .env → Unsplit (w.args ++ wrap chain inner)) ∧ Fits chain inner

theorem Fits.first {chain : List Wrapper} {inner : List Text} (h : Fits chain inner) : CommandFirst inner := by
  induction chain with
  | nil => exact h
  | cons _ _ ih => exact ih h.2

def buffered (chain : List Wrapper) : Bool := chain.any fun w => w.name = .stdbuf

theorem segment_wrap {chain : List Wrapper} {inner : List Text} (fits : Fits chain inner) :
    segmentShellPayloads (wrap chain inner) =
      if buffered chain then [] else segmentShellPayloads inner := by
  induction chain with
  | nil => rfl
  | cons w chain ih =>
    have split : wrap (w :: chain) inner = w.words ++ wrap chain inner := by simp [wrap]
    rw [split,segment_wrapper w (wrap_commandFirst chain fits.first) fits.1,ih fits.2]
    by_cases h : w.name = .stdbuf <;> simp [buffered,h]

end CompanyBrain.Policy
