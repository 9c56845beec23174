import CompanyBrain.Sessions.Participants
import Mathlib.Logic.Function.Basic

namespace CompanyBrain.Sessions

open Foundations Function

@[ext] structure RoomView where
  holding : String → Option String
  log : String → List SessionEntry
  spans : String × String → Option MemberEvent.Span

namespace RoomView

def empty : RoomView := ⟨fun _ => none,fun _ => [],fun _ => none⟩

def hold (v : RoomView) (sessionId : String) (token : Option String) : RoomView :=
  {v with holding := update v.holding sessionId token}

def write (v : RoomView) (sessionId : String) (entry : SessionEntry) : RoomView :=
  {v with log := update v.log sessionId (v.log sessionId ++ [entry])}

def move (v : RoomView) (window : String × String) (e : MemberEvent SessionEntry) : RoomView :=
  let span := MemberEvent.spanAfter (v.log window.1).length (v.spans window) e
  {v with spans := update v.spans window span}

def after (v : RoomView) : Seen → RoomView
  | .granted lease => v.hold lease.sessionId (some lease.token)
  | .released lease =>
    if v.holding lease.sessionId = some lease.token then v.hold lease.sessionId none else v
  | .forced sessionId => v.hold sessionId none
  | .appended lease entry => v.write lease.sessionId entry
  | .joined sessionId principalId history => v.move (sessionId,principalId) (.join history)
  | .left sessionId principalId => v.move (sessionId,principalId) .leave

structure Follows (log : List SessionEntry) (sessionId : String) (entry : SessionEntry) : Prop where
  session : entry.sessionId = sessionId
  seq : entry.seq = log.length
  parent : entry.parentSeq = if entry.seq = 0 then none else some (entry.seq - 1)

def Admits (v : RoomView) : Seen → Prop
  | .appended lease entry =>
    v.holding lease.sessionId = some lease.token ∧ Follows (v.log lease.sessionId) lease.sessionId entry
  | _ => True

abbrev Legal (seen : List Seen) : Prop := Along after Admits empty seen

abbrev final (seen : List Seen) : RoomView := run after empty seen

theorem final_snoc (seen : List Seen) (x : Seen) : final (seen ++ [x]) = (final seen).after x := by
  simp [final]

theorem legal_snoc (seen : List Seen) (x : Seen) : Legal (seen ++ [x]) ↔ Legal seen ∧ (final seen).Admits x := by
  simp [along_append,Along]

end RoomView

theorem leaseHistory_snoc (sessionId : String) (seen : List Seen) (x : Seen) : leaseHistory sessionId (seen ++ [x]) =
      leaseHistory sessionId seen ++ (x.logEvent sessionId).toList := by
  simp only [leaseHistory]
  cases h : x.logEvent sessionId <;> simp [h]

theorem memberHistory_snoc (sessionId principalId : String) (seen : List Seen) (x : Seen) :
    memberHistory sessionId principalId (seen ++ [x]) =
      memberHistory sessionId principalId seen ++ (x.memberEvent sessionId principalId).toList := by
  simp only [memberHistory]
  cases h : x.memberEvent sessionId principalId <;> simp [h]

namespace RoomView

open LogEvent MemberEvent

theorem after_session (v : RoomView) (x : Seen) (sessionId : String) : (v.after x).holding sessionId =
      (x.logEvent sessionId).elim (v.holding sessionId) (holderAfter (v.holding sessionId)) ∧
    (v.after x).log sessionId = v.log sessionId ++ ((x.logEvent sessionId).bind LogEvent.entry?).toList := by
  cases x with
  | granted lease | appended lease entry =>
    by_cases hs : lease.sessionId = sessionId
    · simp [after,hold,write,Seen.logEvent,hs,holderAfter, LogEvent.entry?]
    · simp [after,hold,write,Seen.logEvent,hs,update_of_ne (Ne.symm hs)]
  | forced id =>
    by_cases hs : id = sessionId
    · simp [after,hold,Seen.logEvent,hs,holderAfter, LogEvent.entry?]
    · simp [after,hold,Seen.logEvent,hs,update_of_ne (Ne.symm hs)]
  | released lease =>
    by_cases hs : lease.sessionId = sessionId
    · simp only [after,hold,Seen.logEvent,hs]
      split <;> simp [*,holderAfter, LogEvent.entry?]
    · simp only [after,hold,Seen.logEvent]
      split <;> simp [update_of_ne (Ne.symm hs)]
  | joined | left => simp [after,move,Seen.logEvent]

theorem after_spans (v : RoomView) (x : Seen) (sessionId principalId : String) :
    (v.after x).spans (sessionId,principalId) =
      (x.memberEvent sessionId principalId).elim (v.spans (sessionId,principalId))
        (spanAfter (v.log sessionId).length (v.spans (sessionId,principalId))) := by
  cases x with
  | granted | forced => rfl
  | released =>
    simp only [after]
    split
    · rfl
    · rfl
  | appended lease =>
    by_cases hs : lease.sessionId = sessionId
    · simp [after,write,Seen.memberEvent,hs,spanAfter]
    · simp [after,write,Seen.memberEvent,hs]
  | joined id p | left id p =>
    by_cases hw : (id,p) = (sessionId,principalId)
    · cases hw
      simp [after,move,Seen.memberEvent]
    · simp [after,move,Seen.memberEvent,hw,update_of_ne (Ne.symm hw)]

theorem entry_of_events (x : Seen) (sessionId principalId : String) :
    (x.memberEvent sessionId principalId).bind MemberEvent.entry? = (x.logEvent sessionId).bind LogEvent.entry? := by
  cases x with
  | granted lease | released lease =>
    by_cases hs : lease.sessionId = sessionId <;> simp [Seen.memberEvent,Seen.logEvent,hs,LogEvent.entry?]
  | forced id => by_cases hs : id = sessionId <;> simp [Seen.memberEvent,Seen.logEvent,hs, LogEvent.entry?]
  | appended lease entry =>
    by_cases hs : lease.sessionId = sessionId <;>
      simp [Seen.memberEvent,Seen.logEvent,hs, LogEvent.entry?, MemberEvent.entry?]
  | joined | left =>
    simp only [Seen.memberEvent]
    split <;> rfl

section

variable (seen : List Seen)

theorem holding_eq (sessionId : String) :
    (final seen).holding sessionId = holder (leaseHistory sessionId seen) := by
  induction seen using List.reverseRecOn with
  | nil => rfl
  | append_singleton _ x ih =>
    rw [final_snoc,leaseHistory_snoc,(after_session _ x sessionId).1,ih]
    cases x.logEvent sessionId with
    | none => simp
    | some => simp [holder_snoc]

theorem log_eq (sessionId : String) :
    (final seen).log sessionId = written (leaseHistory sessionId seen) := by
  induction seen using List.reverseRecOn with
  | nil => rfl
  | append_singleton _ x ih =>
    rw [final_snoc,leaseHistory_snoc,(after_session _ x sessionId).2,ih]
    cases x.logEvent sessionId with
    | none => simp
    | some => simp [written_snoc]

theorem appended_eq (sessionId principalId : String) :
    appended (memberHistory sessionId principalId seen) = (final seen).log sessionId := by
  induction seen using List.reverseRecOn with
  | nil => rfl
  | append_singleton _ x ih =>
    rw [final_snoc,memberHistory_snoc,(after_session _ x sessionId).2,← ih,← entry_of_events x sessionId principalId]
    cases x.memberEvent sessionId principalId with
    | none => simp
    | some => simp [appended_snoc]

theorem spans_eq (sessionId principalId : String) : (final seen).spans (sessionId,principalId) =
      span (memberHistory sessionId principalId seen) := by
  induction seen using List.reverseRecOn with
  | nil => rfl
  | append_singleton _ x ih =>
    rw [final_snoc,memberHistory_snoc,after_spans,ih]
    cases x.memberEvent sessionId principalId with
    | none => simp
    | some => simp [span_snoc,appended_eq]

end

theorem fenced_of_legal {seen : List Seen} (legal : Legal seen) (sessionId : String) :
    Fenced (leaseHistory sessionId seen) := by
  induction seen using List.reverseRecOn with
  | nil => exact fenced_nil
  | append_singleton seen x ih =>
    obtain ⟨before,admits⟩ := (legal_snoc seen x).mp legal
    rw [leaseHistory_snoc]
    cases hx : x.logEvent sessionId with
    | none => simpa using ih before
    | some =>
      refine fenced_snoc.mpr ⟨ih before,?_⟩
      rintro t entry rfl
      cases x with
      | appended =>
        simp only [Seen.logEvent] at hx
        split at hx
        next hs =>
          cases hx
          rw [← holding_eq,← hs]
          exact admits.1
        · cases hx
      | granted | released | forced => simp [Seen.logEvent] at hx
      | joined | left => cases hx

theorem follows_of_admits {v : RoomView} {x : Seen} (admits : v.Admits x) {sessionId : String}
    {entry : SessionEntry} (h : (x.logEvent sessionId).bind LogEvent.entry? = some entry) :
    Follows (v.log sessionId) sessionId entry := by
  cases x with
  | appended =>
    simp only [Seen.logEvent] at h
    split at h
    next hs =>
      cases h
      exact hs ▸ admits.2
    · cases h
  | granted | released | forced =>
    simp only [Seen.logEvent] at h
    split at h <;> cases h
  | joined | left => cases h

def Chained (sessionId : String) (log : List SessionEntry) : Prop :=
  ∀ e ∈ log, e.sessionId = sessionId ∧ e.parentSeq = if e.seq = 0 then none else some (e.seq - 1)

theorem log_of_legal {seen : List Seen} (legal : Legal seen) (sessionId : String) :
    Numbered SessionEntry.seq ((final seen).log sessionId) ∧ Chained sessionId ((final seen).log sessionId) := by
  induction seen using List.reverseRecOn with
  | nil => exact ⟨numbered_nil,nofun⟩
  | append_singleton seen x ih =>
    obtain ⟨before,admits⟩ := (legal_snoc seen x).mp legal
    obtain ⟨numbered,chained⟩ := ih before
    rw [final_snoc,(after_session _ x sessionId).2]
    cases hx : (x.logEvent sessionId).bind LogEvent.entry? with
    | none => simpa using ⟨numbered,chained⟩
    | some =>
      have follows := follows_of_admits admits hx
      refine ⟨numbered_snoc.mpr ⟨numbered,follows.seq⟩,?_⟩
      exact List.forall_mem_append.mpr
        ⟨chained,fun e he => List.mem_singleton.mp he ▸ ⟨follows.session,follows.parent⟩⟩

end RoomView

structure ExclusiveLog (sessionId : String) (log : List SessionEntry)
    (es : List (LogEvent String SessionEntry)) : Prop where
  written : log = LogEvent.written es
  numbered : Numbered SessionEntry.seq log
  chained : RoomView.Chained sessionId log
  holders : LogEvent.Fenced es
  barred : ∀ pre mid t e post, es = pre ++ mid ++ LogEvent.write t e :: post →
    t ∈ LogEvent.granted pre → LogEvent.holder pre = some t
  blocks : ∀ t u, [t,u,t].Sublist (LogEvent.writers es) → u = t

structure MembershipView (es : List (MemberEvent SessionEntry)) (visible : List SessionEntry) : Prop where
  never : (∀ e ∈ es, e.isJoin = false) → visible = []
  period : (∃ e ∈ es, e.isJoin = true) → ∃ pre h mid rest, MemberEvent.Latest es pre h mid rest
  latest : ∀ pre h mid rest, MemberEvent.Latest es pre h mid rest →
    visible = if h || mid.any MemberEvent.grantsHistory then MemberEvent.appended (pre ++ mid)
      else MemberEvent.appended mid
  hidden : ∀ before e after, es = before ++ MemberEvent.append e :: after →
    MemberEvent.member before = false → e ∈ visible → ∃ x ∈ after, x.grantsHistory = true

def Seen.token? : Seen → Option String
  | granted lease => some lease.token
  | _ => none

namespace RoomView

open LogEvent MemberEvent

def visible (v : RoomView) (sessionId principalId : String) : List SessionEntry :=
  match v.spans (sessionId,principalId) with
  | none => []
  | some w => (v.log sessionId).filter fun e => w.shows e.seq

theorem granted_logEvent (x : Seen) (sessionId : String) : (x.logEvent sessionId).bind granted? = none ∨
      (x.logEvent sessionId).bind granted? = x.token? := by
  cases x with
  | granted =>
    simp only [Seen.logEvent]
    split
    · exact .inr rfl
    · exact .inl rfl
  | released | forced | appended =>
    simp only [Seen.logEvent]
    split <;> exact .inl rfl
  | joined | left => exact .inl rfl

theorem granted_sublist (seen : List Seen) (sessionId : String) :
    (granted (leaseHistory sessionId seen)).Sublist (seen.filterMap Seen.token?) := by
  rw [granted,leaseHistory,List.filterMap_filterMap]
  induction seen with
  | nil => exact List.Sublist.slnil
  | cons x _ ih =>
    rw [List.filterMap_cons,List.filterMap_cons]
    rcases granted_logEvent x sessionId with hx | hx
    · rw [hx]
      cases x.token? with
      | none => exact ih
      | some t => exact ih.cons t
    · rw [hx]
      cases x.token? with
      | none => exact ih
      | some t => exact ih.cons_cons t

variable {seen : List Seen}

theorem exclusive_of_legal (legal : Legal seen) (fresh : (seen.filterMap Seen.token?).Nodup) (sessionId : String) :
    ExclusiveLog sessionId ((final seen).log sessionId) (leaseHistory sessionId seen) := by
  have fenced := fenced_of_legal legal sessionId
  have distinct := fresh.sublist (granted_sublist seen sessionId)
  obtain ⟨numbered,chained⟩ := log_of_legal legal sessionId
  refine ⟨log_eq seen sessionId,numbered,chained,fenced,?_,?_⟩
  · intro pre mid t e post heq known
    rw [heq] at fenced distinct
    exact holder_of_later_write fenced distinct known
  · intro t u h
    exact writers_blocks fenced distinct h

theorem membership_of_legal (legal : Legal seen) (sessionId principalId : String) :
    MembershipView (memberHistory sessionId principalId seen) ((final seen).visible sessionId principalId) := by
  obtain ⟨numbered,_⟩ := log_of_legal legal sessionId
  have hspan := spans_eq seen sessionId principalId
  have hlog := appended_eq seen sessionId principalId
  have sliced : (final seen).visible sessionId principalId =
      slice (span (memberHistory sessionId principalId seen))
        (appended (memberHistory sessionId principalId seen)) := by
    rw [visible,hspan,hlog]
    cases span (memberHistory sessionId principalId seen) with
    | none => rfl
    | some w => exact filter_numbered numbered w
  refine ⟨?_,exists_latest,?_,?_⟩
  · intro noJoin
    rw [sliced,span_none noJoin]
    rfl
  · intro pre h mid rest latest
    rw [sliced,slice_latest latest]
  · intro before e later heq outside hmem
    by_contra none
    have plain : ∀ x ∈ later, x.grantsHistory = false := by
      intro x hx
      by_contra hne
      exact none ⟨x,hx,by simpa using hne⟩
    have seqs : e.seq = (appended before).length := by
      rw [← hlog,heq] at numbered
      have hat : (appended (before ++ append e :: later))[(appended before).length]? = some e := by
        simp [appended, MemberEvent.entry?]
      have := congrArg (·[(appended before).length]?) numbered
      simp only [List.getElem?_map,hat] at this
      have hlt := (List.getElem?_eq_some_iff.mp hat).1
      rw [List.getElem?_range hlt] at this
      simpa using this
    rw [visible,hspan] at hmem
    cases hw : span (memberHistory sessionId principalId seen) with
    | none => simp [hw] at hmem
    | some w =>
      simp only [hw,List.mem_filter,Span.shows,Bool.and_eq_true,decide_eq_true_eq] at hmem
      refine hidden_without_history outside plain w (heq ▸ hw) ⟨seqs ▸ hmem.2.1,?_⟩
      intro stop hstop
      have hbelow := hmem.2.2
      rw [Option.mem_def.mp hstop] at hbelow
      simpa [seqs] using hbelow

def Steps (v v' : RoomView) (seen : List Seen) : Prop :=
  v' = run after v seen ∧ Along after Admits v seen

variable {v : RoomView}

theorem steps_one {v' : RoomView} {x : Seen} (view : v' = v.after x) (admits : v.Admits x) :
    Steps v v' [x] := ⟨view,admits,trivial⟩

theorem steps_none (v : RoomView) : Steps v v [] := ⟨rfl,trivial⟩

structure Reached (v : RoomView) (seen : List Seen) : Prop where
  legal : Legal seen
  view : v = final seen

theorem Reached.more {v' : RoomView} {more : List Seen} (reached : Reached v seen) (steps : Steps v v' more) :
    Reached v' (seen ++ more) := by
  obtain ⟨legal,rfl⟩ := reached
  obtain ⟨hview,hlegal⟩ := steps
  refine ⟨(along_append _ _ _).mpr ⟨legal,hlegal⟩,?_⟩
  rw [hview]
  exact (run_append _ _ _ _).symm

variable (reached : Reached v seen)
include reached

theorem Reached.numbered (sessionId : String) : Numbered SessionEntry.seq (v.log sessionId) := by
  rw [reached.view]
  exact (log_of_legal reached.legal sessionId).1

theorem Reached.exclusive (fresh : (seen.filterMap Seen.token?).Nodup) (sessionId : String) :
    ExclusiveLog sessionId (v.log sessionId) (leaseHistory sessionId seen) := by
  rw [reached.view]
  exact exclusive_of_legal reached.legal fresh sessionId

theorem Reached.membership (sessionId principalId : String) :
    MembershipView (memberHistory sessionId principalId seen) (v.visible sessionId principalId) := by
  rw [reached.view]
  exact membership_of_legal reached.legal sessionId principalId

end RoomView

end CompanyBrain.Sessions
