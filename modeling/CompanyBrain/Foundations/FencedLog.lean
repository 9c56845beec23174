import Mathlib.Data.List.Induction
import Mathlib.Data.List.Nodup

namespace CompanyBrain.Foundations

inductive LogEvent (τ ε : Type) where
  | grant (token : τ)
  | release (token : τ)
  | force
  | write (token : τ) (entry : ε)

namespace LogEvent

variable {τ ε : Type}

def granted? : LogEvent τ ε → Option τ
  | grant t => some t
  | _ => none

def writer? : LogEvent τ ε → Option τ
  | write t _ => some t
  | _ => none

def entry? : LogEvent τ ε → Option ε
  | write _ e => some e
  | _ => none

def granted (es : List (LogEvent τ ε)) : List τ := es.filterMap granted?

def writers (es : List (LogEvent τ ε)) : List τ := es.filterMap writer?

def written (es : List (LogEvent τ ε)) : List ε := es.filterMap entry?

section

variable (es : List (LogEvent τ ε)) (e : LogEvent τ ε)
include es e

theorem granted_snoc : granted (es ++ [e]) = granted es ++ e.granted?.toList := by
  cases e <;> simp [granted,granted?]

theorem writers_snoc : writers (es ++ [e]) = writers es ++ e.writer?.toList := by
  cases e <;> simp [writers,writer?]

theorem written_snoc : written (es ++ [e]) = written es ++ e.entry?.toList := by
  cases e <;> simp [written, entry?]

end

theorem granted_append (es fs : List (LogEvent τ ε)) : granted (es ++ fs) = granted es ++ granted fs := by
  simp [granted]

theorem sublist_snoc {l ws : List τ} {a v : τ} (h : (l ++ [a]).Sublist (ws ++ [v])) :
    (l ++ [a]).Sublist ws ∨ a = v ∧ l.Sublist ws := by
  rw [← List.reverse_sublist] at h
  simp only [List.reverse_append] at h
  rcases List.cons_sublist_cons'.mp h with inside | ⟨heq,front⟩
  · left
    rw [← List.reverse_sublist]
    simpa using inside
  · exact .inr ⟨heq,List.reverse_sublist.mp front⟩

variable [DecidableEq τ]

def holderAfter (held : Option τ) : LogEvent τ ε → Option τ
  | grant t => some t
  | release t => if held = some t then none else held
  | force => none
  | write _ _ => held

def holder (es : List (LogEvent τ ε)) : Option τ := es.foldl holderAfter none

theorem holder_snoc (es : List (LogEvent τ ε)) (e : LogEvent τ ε) : holder (es ++ [e]) = holderAfter (holder es) e := by
  simp [holder]

variable {es : List (LogEvent τ ε)} {t : τ}

theorem holder_granted (h : holder es = some t) : t ∈ granted es := by
  induction es using List.reverseRecOn with
  | nil => cases h
  | append_singleton _ e ih =>
    rw [holder_snoc] at h
    rw [granted_snoc,List.mem_append]
    cases e with
    | grant =>
      cases h
      exact .inr (by simp [granted?])
    | release =>
      simp only [holderAfter] at h
      split at h
      · cases h
      · exact .inl (ih h)
    | force => cases h
    | write => exact .inl (ih h)

def Fenced (es : List (LogEvent τ ε)) : Prop :=
  ∀ pre t x post, es = pre ++ write t x :: post → holder pre = some t

theorem fenced_nil : Fenced ([] : List (LogEvent τ ε)) := by
  intro pre t x post h
  simp at h

theorem fenced_snoc {e : LogEvent τ ε} :
    Fenced (es ++ [e]) ↔ Fenced es ∧ ∀ t x, e = write t x → holder es = some t := by
  constructor
  · intro h
    refine ⟨?_,?_⟩
    · rintro pre t x post rfl
      exact h pre t x (post ++ [e]) (by simp)
    · rintro t x rfl
      exact h es t x [] rfl
  · rintro ⟨h,last⟩ pre t x post heq
    rcases List.eq_nil_or_concat post with rfl | ⟨post',e',rfl⟩
    · obtain ⟨rfl,hlast⟩ := List.append_inj' heq rfl
      exact last t x (List.head_eq_of_cons_eq hlast)
    · have hcut : es ++ [e] = (pre ++ write t x :: post') ++ [e'] := by simp [heq]
      exact h pre t x post' (List.append_inj' hcut rfl).1

theorem writers_granted (h : Fenced es) (ht : t ∈ writers es) : t ∈ granted es := by
  induction es using List.reverseRecOn with
  | nil => simp [writers] at ht
  | append_singleton _ e ih =>
    obtain ⟨hes,last⟩ := fenced_snoc.mp h
    rw [writers_snoc,List.mem_append] at ht
    rw [granted_snoc,List.mem_append]
    rcases ht with ht | ht
    · exact .inl (ih hes ht)
    · cases e with
      | write u x =>
        simp only [writer?,Option.toList_some,List.mem_singleton] at ht
        exact .inl (holder_granted (ht ▸ last u x rfl))
      | _ => simp [writer?] at ht

theorem lost_for_good {more : List (LogEvent τ ε)} (lost : holder es ≠ some t) (spent : t ∉ granted more) :
    holder (es ++ more) ≠ some t := by
  induction more using List.reverseRecOn with
  | nil => simpa using lost
  | append_singleton _ e ih =>
    rw [granted_snoc,List.mem_append,not_or] at spent
    have hmore := ih spent.1
    rw [← List.append_assoc,holder_snoc]
    cases e with
    | grant u =>
      have hne : t ≠ u := by simpa [granted?] using spent.2
      simpa [holderAfter] using hne.symm
    | release =>
      simp only [holderAfter]
      split
      · simp
      · exact hmore
    | force => simp [holderAfter]
    | write => exact hmore

theorem holder_of_later_write {pre mid post : List (LogEvent τ ε)} {x : ε}
    (fenced : Fenced (pre ++ mid ++ write t x :: post)) (fresh : (granted (pre ++ mid ++ write t x :: post)).Nodup)
    (known : t ∈ granted pre) : holder pre = some t := by
  by_contra lost
  have spent : t ∉ granted mid := by
    intro hm
    rw [List.append_assoc,granted_append,granted_append,List.nodup_append] at fresh
    exact fresh.2.2 t known t (List.mem_append_left _ hm) rfl
  exact lost_for_good lost spent (fenced (pre ++ mid) t x post rfl)

theorem pair_lost (fenced : Fenced es) (fresh : (granted es).Nodup) {u : τ} (hpair : [t,u].Sublist (writers es))
    (hne : u ≠ t) : holder es ≠ some t := by
  induction es using List.reverseRecOn with
  | nil => simp [writers] at hpair
  | append_singleton es e ih =>
    obtain ⟨hes,last⟩ := fenced_snoc.mp fenced
    rw [granted_snoc] at fresh
    have hfresh := (List.nodup_append.mp fresh).1
    rw [writers_snoc] at hpair
    rw [holder_snoc]
    cases e with
    | grant v =>
      simp only [writer?,Option.toList_none,List.append_nil] at hpair
      have ht : t ∈ granted es := writers_granted hes (hpair.subset (by simp))
      have hv : t ≠ v := fun he => (List.nodup_append.mp fresh).2.2 t ht v (by simp [granted?]) he
      simpa [holderAfter] using hv.symm
    | release =>
      simp only [writer?,Option.toList_none,List.append_nil] at hpair
      have hold := ih hes hfresh hpair
      simp only [holderAfter]
      split
      · simp
      · exact hold
    | force => simp [holderAfter]
    | write v x =>
      have hold := last v x rfl
      simp only [holderAfter,hold,ne_eq,Option.some.injEq]
      rintro rfl
      rcases sublist_snoc (l := [v]) hpair with inside | ⟨heq,_⟩
      · exact ih hes hfresh inside hold
      · exact hne heq

theorem writers_blocks (fenced : Fenced es) (fresh : (granted es).Nodup) {u : τ} (h : [t,u,t].Sublist (writers es)) :
    u = t := by
  induction es using List.reverseRecOn with
  | nil => simp [writers] at h
  | append_singleton _ e ih =>
    obtain ⟨hes,last⟩ := fenced_snoc.mp fenced
    rw [granted_snoc] at fresh
    have hfresh := (List.nodup_append.mp fresh).1
    rw [writers_snoc] at h
    cases e with
    | write v x =>
      rcases sublist_snoc (l := [t,u]) h with inside | ⟨heq,front⟩
      · exact ih hes hfresh inside
      · by_contra hne
        exact pair_lost hes hfresh front hne (heq ▸ last v x rfl)
    | _ =>
      simp only [writer?,Option.toList_none,List.append_nil] at h
      exact ih hes hfresh h

end LogEvent

end CompanyBrain.Foundations
