import CompanyBrain.Sessions.PostgresRoom
import Mathlib.Data.List.TakeWhile

namespace CompanyBrain.Sessions

open Foundations

structure TranscriptWindow where
  tailTurns : Option Nat
  sinceSeq : Option Nat
  beforeSeq : Option Nat

def userTurns (entries : List SessionEntry) : Nat := entries.countP (·.type = .user)

def tailCut (tailTurns : Nat) : List SessionEntry → Nat → Nat
  | [], _ => 0
  | e :: older, turns =>
    if e.type ≠ .user then tailCut tailTurns older turns
    else if turns+1 = tailTurns then older.length
    else tailCut tailTurns older (turns+1)

def TranscriptWindow.ends (window : TranscriptWindow) (entries : List SessionEntry) : List SessionEntry :=
  match window.beforeSeq with
  | some seq => entries.take (entries.findIdx (seq ≤ ·.seq))
  | none => entries

def TranscriptWindow.cut (window : TranscriptWindow) (entries : List SessionEntry) : Nat :=
  match window.sinceSeq,window.tailTurns with
  | some seq,_ => entries.findIdx (seq ≤ ·.seq)
  | none,some tailTurns => if 0 < tailTurns then tailCut tailTurns entries.reverse 0 else 0
  | none,none => 0

def windowedTranscript (entries : List SessionEntry) (window : TranscriptWindow) : List SessionEntry × Nat :=
  let shown := window.ends entries
  let cut := window.cut shown
  (if 0 < cut then shown.drop cut else shown,cut)

def pagesBack (entries : List SessionEntry) (tailTurns : Nat) : Nat → Option Nat → Option (List (List SessionEntry))
  | 0, _ => none
  | fuel+1, beforeSeq =>
    match windowedTranscript entries ⟨some tailTurns,none,beforeSeq⟩ with
    | (page,0) => some [page]
    | ([],_+1) => none
    | (first :: rest,_+1) => (pagesBack entries tailTurns fuel (some first.seq)).map (· ++ [first :: rest])

variable {tailTurns : Nat}

theorem tailCut_turns (back : List SessionEntry) (turns : Nat) (cuts : 0 < tailCut tailTurns back turns) :
    ∃ newer e older, back = newer ++ e :: older ∧ tailCut tailTurns back turns = older.length ∧
      turns + userTurns (newer ++ [e]) = tailTurns := by
  induction back generalizing turns with
  | nil => simp [tailCut] at cuts
  | cons e older ih =>
    rw [tailCut] at cuts ⊢
    split at cuts <;> rename_i user
    · obtain ⟨newer,e',older',rfl,same,count⟩ := ih turns cuts
      exact ⟨e :: newer,e',older',rfl,by rw [if_pos user,same],by simpa [userTurns,user] using count⟩
    · rw [if_neg user]
      split at cuts <;> rename_i last
      · exact ⟨[],e,older,rfl,if_pos last,by simpa [userTurns,not_not.mp user] using last⟩
      · obtain ⟨newer,e',older',rfl,same,count⟩ := ih (turns+1) cuts
        refine ⟨e :: newer,e',older',rfl,by rw [if_neg last,same],?_⟩
        rw [← count]
        simp [userTurns,not_not.mp user]
        omega

theorem tailCut_whole (back : List SessionEntry) (turns : Nat) (whole : tailCut tailTurns back turns = 0)
    (room : turns < tailTurns) : turns + userTurns back ≤ tailTurns := by
  induction back generalizing turns with
  | nil => exact room.le
  | cons e older ih =>
    rw [tailCut] at whole
    split at whole <;> rename_i user
    · simpa [userTurns,user] using ih turns whole room
    · split at whole <;> rename_i last
      · rw [List.length_eq_zero_iff.mp whole]
        simpa [userTurns,not_not.mp user] using last.le
      · have := ih (turns+1) whole (by omega)
        simp [userTurns,not_not.mp user] at this ⊢
        omega

theorem ends_before {entries older newer : List SessionEntry} {e : SessionEntry} (tail : Option Nat)
    (increasing : entries.Pairwise (·.seq < ·.seq)) (split : entries = older ++ e :: newer) :
    (TranscriptWindow.mk tail none (some e.seq)).ends entries = older := by
  subst split
  have below : ∀ x ∈ older, x.seq < e.seq := fun x hx => (List.pairwise_append.mp increasing).2.2 x hx e (by simp)
  have place : (older ++ e :: newer).findIdx (e.seq ≤ ·.seq) = older.length := by
    rw [List.findIdx_append,List.findIdx_eq_length_of_false]
    · simp [List.findIdx_cons]
    · simpa using below
  simp [TranscriptWindow.ends,place]

theorem pagesBack_covers {entries shown newer : List SessionEntry} (increasing : entries.Pairwise (·.seq < ·.seq))
    (pos : 0 < tailTurns) (fuel : Nat) (beforeSeq : Option Nat) (split : entries = shown ++ newer)
    (ends : (TranscriptWindow.mk (some tailTurns) none beforeSeq).ends entries = shown) (enough : shown.length < fuel) :
    ∃ pages, pagesBack entries tailTurns fuel beforeSeq = some pages ∧ pages.flatten = shown ∧
      (∀ page ∈ pages.tail, userTurns page = tailTurns) ∧ ∀ page ∈ pages, userTurns page ≤ tailTurns := by
  induction fuel generalizing shown newer beforeSeq with
  | zero => omega
  | succ _ ih =>
    have window : windowedTranscript entries ⟨some tailTurns,none,beforeSeq⟩ =
        (if 0 < tailCut tailTurns shown.reverse 0 then shown.drop (tailCut tailTurns shown.reverse 0) else shown,
          tailCut tailTurns shown.reverse 0) := by
      simp [windowedTranscript,ends,TranscriptWindow.cut,pos]
    rcases Nat.eq_zero_or_pos (tailCut tailTurns shown.reverse 0) with whole | cuts
    · have few := tailCut_whole shown.reverse 0 whole pos
      refine ⟨[shown],by simp [pagesBack,window,whole],by simp,by simp,?_⟩
      simpa [userTurns] using few
    · obtain ⟨after,e,before,back,cut,count⟩ := tailCut_turns shown.reverse 0 cuts
      obtain rfl : shown = before.reverse ++ e :: after.reverse := by simpa using congrArg List.reverse back
      have next : entries = before.reverse ++ e :: (after.reverse ++ newer) := by simpa using split
      obtain ⟨pages,run,flat,full,few⟩ :=
        ih (some e.seq) next (ends_before _ increasing next) (by simp at enough ⊢; omega)
      obtain ⟨n,length⟩ := Nat.exists_eq_succ_of_ne_zero (cut ▸ cuts).ne'
      have page : windowedTranscript entries ⟨some tailTurns,none,beforeSeq⟩ = (e :: after.reverse,n+1) := by
        rw [window,cut,if_pos (cut ▸ cuts),List.drop_left' List.length_reverse,length]
      have exactly : userTurns (e :: after.reverse) = tailTurns := by
        rw [← count]
        simp [userTurns,List.countP_cons]
      refine ⟨pages ++ [e :: after.reverse],by simp [pagesBack,page,run],by simp [flat],?_,
        forall_snoc few exactly.le⟩
      cases pages with
      | nil => exact nofun
      | cons => exact forall_snoc full exactly

theorem pages_of_transcript (entries : List SessionEntry) (tailTurns fuel : Nat)
    (increasing : entries.Pairwise (·.seq < ·.seq)) (pos : 0 < tailTurns) (enough : entries.length < fuel) :
    ∃ pages, pagesBack entries tailTurns fuel none = some pages ∧ pages.flatten = entries ∧
      (∀ page ∈ pages.tail, userTurns page = tailTurns) ∧ ∀ page ∈ pages, userTurns page ≤ tailTurns :=
  pagesBack_covers increasing pos fuel none (List.append_nil entries).symm rfl enough

def spoken (seq : Nat) (type : EntryType) : SessionEntry := ⟨"s",seq,none,type,.null,"dm",0⟩

theorem pages_of_two_turns :
    ∃ pages, pagesBack [spoken 0 .user,spoken 1 .assistant,spoken 4 .user] 1 4 none = some pages ∧
      pages.flatten = [spoken 0 .user,spoken 1 .assistant,spoken 4 .user] ∧
      (∀ page ∈ pages.tail, userTurns page = 1) ∧ ∀ page ∈ pages, userTurns page ≤ 1 :=
  pages_of_transcript _ 1 4 (by decide) (by decide) (by decide)

def transcriptEntries (entries : List SessionEntry) : List SessionEntry := entries.filter (·.type ≠ .soul)

theorem viewer_pages_complete (cfg : Pg.Config) (acts : List Pg.Act) (sessionId principalId : String) (turns : Nat) :
    let shown := transcriptEntries ((Pg.reached cfg acts).db.visibleEntries sessionId principalId)
    ∃ pages, pagesBack shown (turns+1) (shown.length+1) none = some pages ∧ pages.flatten = shown ∧
      (∀ page ∈ pages.tail, userTurns page = turns+1) ∧ ∀ page ∈ pages, userTurns page ≤ turns+1 := by
  obtain ⟨sound,reached,_⟩ := Pg.pg_run cfg acts
  have numbered := reached.numbered sessionId
  have ordered := List.pairwise_map.mp (numbered ▸ List.pairwise_lt_range)
  refine pagesBack_covers (.filter _ ?_) turns.succ_pos _ none (List.append_nil _).symm rfl (Nat.lt_succ_self _)
  rw [Pg.visibleEntries_eq principalId sound.sequenced numbered,RoomView.visible]
  split
  · exact .nil
  · exact ordered.filter _

end CompanyBrain.Sessions
