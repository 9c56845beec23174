import CompanyBrain.Foundations.History
import CompanyBrain.Foundations.JsText
import Mathlib.Data.List.Nodup
import Mathlib.Logic.Function.Basic

namespace CompanyBrain.Memory

open Foundations Function

variable {δ : Type} [DecidableEq δ] (revisionToken : Text → δ)

inductive MemoryCall (δ : Type) where
  | replaceIfRevision (content : Text) (revision : δ)
  | replace (content : Text)
  | capture (foldCapture : Text → Option Text)

structure Waiting (δ : Type) where
  next : Text
  revision : Option δ

structure Success (δ : Type) where
  revision : δ
  replaced : Text

structure Notebook (δ : Type) where
  content : Text
  past : List Text
  waiting : Nat → Option (Waiting δ)
  successes : List (Success δ)

def normalizeReplace (content : Text) : Text :=
  let trimmed := (content.reverse.dropWhile isJsSpace).reverse
  if trimmed = [] then [] else trimmed ++ ['\n']

inductive FileEvent (δ : Type) where
  | call (i : Nat) (call : MemoryCall δ)
  | write (i : Nat)

namespace Notebook

def start (content : Text) : Notebook δ := ⟨content,[content],fun _ => none,[]⟩

def await (n : Notebook δ) (i : Nat) (w : Waiting δ) : Notebook δ := {n with waiting := update n.waiting i (some w)}

def call (n : Notebook δ) (i : Nat) : MemoryCall δ → Notebook δ
  | .replaceIfRevision content revision =>
    if revisionToken n.content ≠ revision then n else n.await i ⟨normalizeReplace content,some revision⟩
  | .replace content => n.await i ⟨normalizeReplace content,none⟩
  | .capture foldCapture =>
    match foldCapture n.content with
    | some body => n.await i ⟨body ++ ['\n'],none⟩
    | none => n

def write (n : Notebook δ) (i : Nat) (w : Waiting δ) : Notebook δ :=
  ⟨w.next,w.next :: n.past,update n.waiting i none,n.successes ++ (w.revision.map fun r => ⟨r,n.content⟩).toList⟩

def step (n : Notebook δ) : FileEvent δ → Notebook δ
  | .call i call => if (n.waiting i).isSome then n else n.call revisionToken i call
  | .write i => (n.waiting i).elim n (n.write i)

def Alone (n : Notebook δ) : FileEvent δ → Prop
  | .call _ _ => True
  | .write i => ∀ w, n.waiting i = some w → w.next ∉ n.past ∧
      ∀ j w', j ≠ i → n.waiting j = some w' → w'.revision = none

structure Checked (n : Notebook δ) : Prop where
  waiting : ∀ i w, n.waiting i = some w → ∀ r, w.revision = some r → revisionToken n.content = r
  matched : ∀ s ∈ n.successes, revisionToken s.replaced = s.revision
  past : ∀ s ∈ n.successes, s.replaced ∈ n.past ∧ s.replaced ≠ n.content
  current : n.content ∈ n.past
  once : (n.successes.map (·.replaced)).Nodup

variable {revisionToken} {n : Notebook δ} {i : Nat} {w : Waiting δ}

omit [DecidableEq δ] in
theorem checked_await (h : Checked revisionToken n) (seen : ∀ r, w.revision = some r → revisionToken n.content = r) :
    Checked revisionToken (n.await i w) where
  waiting j w' there := by
    simp only [await,update_apply] at there
    split at there
    · cases there
      exact seen
    · exact h.waiting j w' there
  matched := h.matched
  past := h.past
  current := h.current
  once := h.once

theorem checked_call (h : Checked revisionToken n) (call : MemoryCall δ) :
    Checked revisionToken (n.call revisionToken i call) := by
  cases call <;> simp only [Notebook.call] <;> grind [checked_await]

omit [DecidableEq δ] in
theorem checked_write (h : Checked revisionToken n) (here : n.waiting i = some w) (alone : Alone n (.write i)) :
    Checked revisionToken (n.write i w) := by
  obtain ⟨new,others⟩ := alone w here
  obtain ⟨waiting,matched,past,current,once⟩ := h
  cases revision : w.revision <;> constructor <;> simp only [write] <;> grind

theorem checked_step (n : Notebook δ) (e : FileEvent δ) (alone : Alone n e) (h : Checked revisionToken n) :
    Checked revisionToken (n.step revisionToken e) := by
  cases e with
  | call i call =>
    simp only [step]
    split
    · exact h
    · exact checked_call h call
  | write i =>
    simp only [step]
    cases here : n.waiting i with
    | none => exact h
    | some w => exact checked_write h here alone

theorem revision_replaced_once (injective : Injective revisionToken) (content : Text) (events : List (FileEvent δ))
    (alone : Along (step revisionToken) Alone (start content) events) :
    let n := run (step revisionToken) (start content) events
    (∀ s ∈ n.successes, revisionToken s.replaced = s.revision) ∧ (n.successes.map (·.revision)).Nodup := by
  have h : Checked revisionToken (run (step revisionToken) (start content) events) :=
    run_along checked_step _ events alone (by constructor <;> simp [start])
  refine ⟨h.matched,?_⟩
  have tokens := List.Nodup.map injective h.once
  rw [List.map_map] at tokens
  rwa [← List.map_congr_left h.matched]

def replaceTwice : List (FileEvent Text) :=
  [.call 0 (.replaceIfRevision ['b'] ['a']),.write 0,.call 1 (.replaceIfRevision ['c'] ['a']),.write 1]

theorem replaced_alone : let n := run (step id) (start ['a']) replaceTwice
    (∀ s ∈ n.successes, s.replaced = s.revision) ∧ (n.successes.map (·.revision)).Nodup ∧
      n.successes.map (·.revision) = [['a']] ∧ n.content = ['b','\n'] := by
  have alone : Along (step id) Alone (start ['a']) replaceTwice := by
    refine ⟨trivial,fun w here => ?_,trivial,nofun,trivial⟩
    cases here
    refine ⟨by decide,fun j w' other there => ?_⟩
    simp [step,call,await,start,update_of_ne other] at there
  have once := revision_replaced_once injective_id ['a'] replaceTwice alone
  exact ⟨once.1,once.2,by decide,by decide⟩

theorem both_replace : (run (step id) (start ['a']) [.call 0 (.replaceIfRevision ['b'] ['a']),
      .call 1 (.replaceIfRevision ['c'] ['a']),.write 0,.write 1]).successes.map (fun s => (s.revision,s.replaced)) =
    [(['a'],['a']),(['a'],['b','\n'])] := by
  decide

end Notebook

end CompanyBrain.Memory
