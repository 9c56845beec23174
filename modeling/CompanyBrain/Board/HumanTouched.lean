import CompanyBrain.Board.Entries
import CompanyBrain.Foundations.History

namespace CompanyBrain.Board

open Foundations Table

inductive EntryCall where
  | put (input : PutEntry) (time : Nat)
  | delete (kind : EntryKind) (ownerUid : Nat) (name : Text) (keepHistory : Bool) (time : Nat)

structure Traced where
  brain : Brain
  byHuman : List EntryKey

def Traced.empty : Traced := ⟨Brain.empty,[]⟩

def writesAsHuman (brain : Brain) (input : PutEntry) (time : Nat) : Bool :=
  match (putEntry brain input time).2 with
  | .ok entry _ _ => isHuman entry.author
  | _ => false

def traceCall (s : Traced) : EntryCall → Traced
  | .put input time =>
    ⟨(putEntry s.brain input time).1,
      if writesAsHuman s.brain input time then ⟨input.kind,input.ownerUid,input.name⟩ :: s.byHuman
      else s.byHuman⟩
  | .delete kind ownerUid name keepHistory time =>
    ⟨(deleteEntry s.brain kind ownerUid name keepHistory time).1,s.byHuman⟩

def Remembered (lower : Text → Text) (s : Traced) : Prop :=
  ∀ w ∈ s.byHuman, humanTouched lower s.brain w.ownerUid w.kind w.name = true ∧
    ∀ verdict improve, needsApproval lower s.brain verdict improve w.ownerUid w.kind w.name = true

def EntryKey.cleaned (w : EntryKey) : EntryKey := ⟨w.kind,w.ownerUid,cleanLine w.name MAX_ENTRY_NAME⟩

inductive LeavesTrace (lower : Text → Text) (brain : Brain) (key gone : EntryKey) (keepHistory : Bool) : Prop
  | row (e : Entry) (mem : e ∈ brain.entries) (stays : e.key ≠ gone) (human : touchedLive lower key e = true)
  | version (v : EntryVersion) (mem : v ∈ brain.versions) (stays : keepHistory = true ∨ v.key ≠ gone)
      (human : touchedVersion lower key v = true)
  | saved (e : Entry) (mem : e ∈ brain.entries) (here : e.key = gone) (kept : keepHistory = true)
      (human : isHuman e.author = true)

def KeepsTrace (lower : Text → Text) (s : Traced) (call : EntryCall) : Prop :=
  ∀ kind ownerUid name keepHistory time, call = .delete kind ownerUid name keepHistory time →
    ∀ w ∈ s.byHuman, looksLike lower w.cleaned (EntryKey.cleaned ⟨kind,ownerUid,name⟩) = true →
    LeavesTrace lower s.brain w.cleaned (EntryKey.cleaned ⟨kind,ownerUid,name⟩) keepHistory

section

variable {lower : Text → Text} {brain brain' : Brain} {input : PutEntry} {time : Nat} {key : EntryKey}

theorem looksLike_self (lower : Text → Text) (key : EntryKey) : looksLike lower key key := by
  simp [looksLike]

theorem touched_iff : touched lower brain key ↔ (∃ e ∈ brain.entries, touchedLive lower key e) ∨
      ∃ v ∈ brain.versions, touchedVersion lower key v := by
  simp only [touched,Bool.or_eq_true,List.any_eq_true,mem_rows]

theorem touchedLive_updated {entry : Entry} (body : Text) (human : touchedLive lower key entry) :
    touchedLive lower key (updatedEntry input entry body time) := by
  simp only [touchedLive,Bool.and_eq_true,Bool.or_eq_true] at human
  simp only [touchedLive,updatedEntry,Bool.and_eq_true,Bool.or_eq_true]
  rcases human with ⟨alike,edited | author⟩
  · exact ⟨alike,.inl (.inl (.inl edited))⟩
  · exact ⟨alike,.inl (.inr author)⟩

theorem touched_set {row : Entry} {versions : List EntryVersion} (n : Nat)
    (replaces : ∀ e ∈ brain.entries, e.key = row.key → touchedLive lower key e → touchedLive lower key row)
    (grows : brain.versions ⊆ versions) (was : touched lower brain key) :
    touched lower ⟨brain.entries.set row,versions,n⟩ key := by
  rw [touched_iff] at was ⊢
  rcases was with live | ⟨v,mem,human⟩
  · exact .inl (exists_set live replaces)
  · exact .inr ⟨v,grows mem,human⟩

theorem touched_put {result : PutEntryResult} (put : Put brain input time brain' result)
    (was : touched lower brain key) : touched lower brain' key := by
  have updates {entry : Entry} (found : brain.entries.find? input.key = some entry) (body : Text) :
      ∀ e ∈ brain.entries, e.key = (updatedEntry input entry body time).key → touchedLive lower key e = true →
        touchedLive lower key (updatedEntry input entry body time) = true := by
    intro e mem here human
    obtain rfl : e = entry := eq_of_key mem (mem_of_find? found) here
    exact touchedLive_updated body human
  cases put with
  | failed => exact was
  | same _ _ found => exact touched_set _ (updates found _) (fun _ h => h) was
  | changed _ _ found =>
    exact touched_set _ (updates found _) (List.subset_append_left _ _) was
  | created _ fresh =>
    refine touched_set _ (fun e mem here _ => ?_) (fun _ h => h) was
    exact absurd here (find?_eq_none.mp fresh e mem)

theorem touched_of_ok {entry : Entry} {created : Bool} {versionId : Option Nat}
    (put : Put brain input time brain' (.ok entry created versionId)) (human : isHuman entry.author) :
    touched lower brain' input.key := by
  have live {row : Entry} (here : row.key = input.key) (author : isHuman row.author = true) :
      touchedLive lower input.key row = true := by
    simp [touchedLive,here,looksLike_self,author]
  cases put with
  | failed _ failed => cases failed
  | same old _ found | changed old _ found =>
    have here : old.key = input.key := key_of_find? found
    exact touched_iff.mpr (.inl ⟨_,mem_set_self _ _,live here human⟩)
  | created =>
    exact touched_iff.mpr (.inl ⟨_,mem_set_self _ _,live rfl human⟩)

theorem touched_delete_iff {kind : EntryKind} {ownerUid : Nat} {name : Text} {keepHistory : Bool}
    (alike : looksLike lower key (EntryKey.cleaned ⟨kind,ownerUid,name⟩)) :
    touched lower (deleteEntry brain kind ownerUid name keepHistory time).1 key ↔
      LeavesTrace lower brain key (EntryKey.cleaned ⟨kind,ownerUid,name⟩) keepHistory := by
  rw [touched_iff,deleteEntry]
  rw [forgetVersions_entries]
  constructor
  · rintro (⟨e,mem,human⟩ | ⟨v,mem,human⟩)
    · obtain ⟨mem,stays⟩ := mem_erase.mp mem
      exact .row e mem stays human
    · rcases mem_forgetVersions.mp mem with ⟨mem,stays⟩ | ⟨kept,e,live,here,rfl⟩
      · exact .version v mem stays human
      · simp only [touchedVersion,Bool.and_eq_true] at human
        exact .saved e live here kept human.2
  · rintro (⟨e,mem,stays,human⟩ | ⟨v,mem,stays,human⟩ | ⟨e,mem,here,kept,human⟩)
    · exact .inl ⟨e,mem_erase.mpr ⟨mem,stays⟩,human⟩
    · exact .inr ⟨v,mem_forgetVersions.mpr (.inl ⟨mem,stays⟩),human⟩
    · refine .inr ⟨_,mem_forgetVersions.mpr (.inr ⟨kept,e,mem,here,rfl⟩),?_⟩
      rw [touchedVersion,here,human,Bool.and_true]
      exact alike

theorem touched_delete_other {kind : EntryKind} {ownerUid : Nat} {name : Text} {keepHistory : Bool}
    (other : ¬looksLike lower key (EntryKey.cleaned ⟨kind,ownerUid,name⟩)) (was : touched lower brain key) :
    touched lower (deleteEntry brain kind ownerUid name keepHistory time).1 key := by
  have stays {k : EntryKey} (alike : looksLike lower key k = true) :
      k ≠ EntryKey.cleaned ⟨kind,ownerUid,name⟩ := fun same => other (same ▸ alike)
  rw [touched_iff] at was
  rw [touched_iff,deleteEntry]
  rw [forgetVersions_entries]
  rcases was with ⟨e,mem,human⟩ | ⟨v,mem,human⟩
  · have alike := human
    simp only [touchedLive,Bool.and_eq_true] at alike
    exact .inl ⟨e,mem_erase.mpr ⟨mem,stays alike.1⟩,human⟩
  · have alike := human
    simp only [touchedVersion,Bool.and_eq_true] at alike
    exact .inr ⟨v,mem_forgetVersions.mpr (.inl ⟨mem,.inr (stays alike.1)⟩),human⟩

variable {s : Traced}

theorem remembered_iff : Remembered lower s ↔ ∀ w ∈ s.byHuman, touched lower s.brain w.cleaned := by
  constructor
  · exact fun h w hw => (h w hw).1
  · intro h w hw
    refine ⟨h w hw,fun verdict improve => ?_⟩
    have human : humanTouched lower s.brain w.ownerUid w.kind w.name = true := h w hw
    rw [needsApproval,human,Bool.or_true]

theorem remembered_put (input : PutEntry) (time : Nat) (was : Remembered lower s) :
    Remembered lower (traceCall s (.put input time)) := by
  rw [remembered_iff] at was ⊢
  have put := putEntry_put s.brain input time
  have old : ∀ w ∈ s.byHuman, touched lower (putEntry s.brain input time).1 w.cleaned = true :=
    fun w hw => touched_put put (was w hw)
  intro w hw
  rw [traceCall] at hw
  split at hw
  next human =>
    rcases List.mem_cons.mp hw with rfl | hw
    · unfold writesAsHuman at human
      split at human
      next ok =>
        rw [ok] at put
        exact touched_of_ok put human
      · cases human
    · exact old w hw
  · exact old w hw

theorem remembered_step_iff (was : Remembered lower s) (call : EntryCall) :
    Remembered lower (traceCall s call) ↔ KeepsTrace lower s call := by
  cases call with
  | put input time =>
    constructor
    · intro _ _ _ _ _ _ deletes
      cases deletes
    · exact fun _ => remembered_put input time was
  | delete kind ownerUid name =>
    rw [remembered_iff] at was ⊢
    constructor
    · intro after _ _ _ _ _ deletes w hw alike
      cases deletes
      exact (touched_delete_iff alike).mp (after w hw)
    · intro keeps w hw
      by_cases alike : looksLike lower w.cleaned (EntryKey.cleaned ⟨kind,ownerUid,name⟩) = true
      · exact (touched_delete_iff alike).mpr (keeps _ _ _ _ _ rfl w hw alike)
      · exact touched_delete_other alike (was w hw)

end

theorem human_edit_remembered_iff (lower : Text → Text) (calls : List EntryCall) :
    Along traceCall (fun s call => Remembered lower (traceCall s call)) Traced.empty calls ↔
      Along traceCall (KeepsTrace lower) Traced.empty calls :=
  along_congr (fun _ call was => remembered_step_iff was call) (fun _ _ _ after => after)
    Traced.empty calls nofun

def writeSkill (author : String) : EntryCall :=
  .put ⟨.skill,1,"Ship".toList,.text "Run the tests.".toList,some (some author),none⟩ 0

def forgottenEdit : List EntryCall :=
  [writeSkill "web",writeSkill "codex",.delete .skill 1 "Ship".toList true 0]

theorem rewritten_edit_forgotten : (run traceCall Traced.empty forgottenEdit).byHuman = [⟨.skill,1,"Ship".toList⟩] ∧
      humanTouched id (run traceCall Traced.empty forgottenEdit).brain 1 .skill "Ship".toList = false ∧
      ¬Along traceCall (fun s call => Remembered id (traceCall s call)) Traced.empty forgottenEdit := by
  have untouched : humanTouched id (run traceCall Traced.empty forgottenEdit).brain 1 .skill
      "Ship".toList = false := by decide +kernel
  have byHuman : (run traceCall Traced.empty forgottenEdit).byHuman = [⟨.skill,1,"Ship".toList⟩] := by
    decide +kernel
  refine ⟨byHuman,untouched,fun along => ?_⟩
  have last : Remembered id (run traceCall Traced.empty forgottenEdit) := along.2.2.1
  have human := (last ⟨.skill,1,"Ship".toList⟩ (byHuman ▸ List.mem_singleton.mpr rfl)).1
  rw [untouched] at human
  cases human

end CompanyBrain.Board
