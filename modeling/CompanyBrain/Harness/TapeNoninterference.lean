import CompanyBrain.Harness.TapeFold
import Mathlib.Data.List.Forall2

namespace CompanyBrain.Harness

open Foundations Resolution

structure SameOutline (r r' : TapeRecord) : Prop where
  seq : r.seq = r'.seq
  kind : r.kind = r'.kind
  createdAt : r.createdAt = r'.createdAt
  role : r.payload.field "role" = r'.payload.field "role"
  toolCallId : r.payload.field "toolCallId" = r'.payload.field "toolCallId"
  toolName : r.payload.field "toolName" = r'.payload.field "toolName"

structure SameMarks (r r' : TapeRecord) : Prop where
  turnEnd : turnEnd r = turnEnd r'
  entrySeq : r.entrySeq = r'.entrySeq
  interrupt : contextEvent r = some .interrupt ↔ contextEvent r' = some .interrupt

def Alike (entitled : ScopeId → Bool) (Same : TapeRecord → TapeRecord → Prop) (r r' : TapeRecord) : Prop :=
  r = r' ∨ entitled r.scopeLabel = false ∧ entitled r'.scopeLabel = false ∧ Same r r'

def ListsMessages (r : TapeRecord) : Prop :=
  contextEvent r = some .legacyImport ∨ contextEvent r = some .legacyPatch →
    (spread (r.payload.field "messages")).isSome = true

instance (r : TapeRecord) : Decidable (ListsMessages r) := inferInstanceAs (Decidable (_ → _))

def entitledFrom (entitled : ScopeId → Bool) : List TapeRecord → Bool
  | [] => true
  | r :: rows => (rows.any isImport || eventEntitled entitled r) && entitledFrom entitled rows

theorem lastImport_isSome (rows : List TapeRecord) : (lastImport? rows).isSome = rows.any isImport := by
  induction rows with
  | nil => rfl
  | cons r rows ih =>
    rw [lastImport?,List.any_cons,← ih]
    cases lastImport? rows with
    | some => simp
    | none => cases isImport r <;> rfl

theorem entitled_zipIdx (entitled : ScopeId → Bool) (rows : List TapeRecord) (n : Nat) :
    ((rows.zipIdx n).all fun (r,i) =>
        ((lastImport? rows).map (n + ·)).any (i < ·) || eventEntitled entitled r) =
      entitledFrom entitled rows := by
  induction rows generalizing n with
  | nil => rfl
  | cons r rows ih =>
    rw [List.zipIdx_cons,List.all_cons,entitledFrom,← ih (n+1),← lastImport_isSome rows,lastImport?]
    cases hl : lastImport? rows with
    | some i =>
      have shift : n+1 + i = n + (i+1) := by omega
      simp [shift]
    | none =>
      congr 1
      · cases isImport r <;> simp
      · rw [Bool.eq_iff_iff,List.all_eq_true,List.all_eq_true]
        refine forall₂_congr fun p hp => ?_
        have above := List.le_snd_of_mem_zipIdx hp
        have late : ¬ p.2 < n := by omega
        cases isImport r <;> simp [late]

theorem tapeEventsEntitled_eq {rows : List TapeRecord} {audience : List Principal} {sessionScopeId orgScopeId : ScopeId}
    (h : tapeEventsEntitled rows audience sessionScopeId orgScopeId) :
    entitledFrom (audienceEntitled audience sessionScopeId orgScopeId) rows := by
  unfold tapeEventsEntitled at h
  split at h
  · cases h
  · rw [← entitled_zipIdx _ rows 0]
    simpa using h

def visit (render : Json → String) (mask : TapeRecord → Option TapeRecord) (f : Foldable)
    (r : TapeRecord) : Option Foldable :=
  match mask r with
  | none => some f
  | some row => foldRow render f row

theorem foldlM_filterMap (render : Json → String) (mask : TapeRecord → Option TapeRecord)
    (rows : List TapeRecord) (f : Foldable) :
    (rows.filterMap mask).foldlM (foldRow render) f = rows.foldlM (visit render mask) f := by
  induction rows generalizing f with
  | nil => rfl
  | cons r _ ih =>
    rw [List.foldlM_cons,List.filterMap_cons,visit]
    cases mask r with
    | none => exact ih f
    | some =>
      exact congrArg _ (funext ih)

section

variable {audience : List Principal} {sessionScopeId orgScopeId : ScopeId} {r r' : TapeRecord}
  {render : Json → String}

theorem maskRow_other (h : r.kind ≠ .message) : maskRow audience sessionScopeId orgScopeId r = some r := by
  simp [maskRow,h]

theorem contextEvent_kind {ev : TapeEvent} (h : contextEvent r = some ev) : r.kind = .contextEvent := by
  unfold contextEvent at h
  split at h
  · assumption
  · cases h

theorem withheld_payload (same : SameOutline r r') : (withheldRow r).map (fun row => (row.kind,row.payload)) =
      (withheldRow r').map fun row => (row.kind,row.payload) := by
  simp only [withheldRow,same.role,same.toolCallId,same.toolName,same.createdAt]
  split
  · simp [same.kind]
  · rfl

variable (f : Foldable)

theorem foldRow_message (h : r.kind = .message) : foldRow render f r =
      if r.payload ≠ .null then some {f with out := f.out ++ [r.payload]} else some f := by
  have none : contextEvent r = none := by simp [contextEvent,h]
  simp [foldRow,h,none]

theorem withheld_kind {row : TapeRecord} (h : withheldRow r = some row) : row.kind = r.kind := by
  unfold withheldRow at h
  split at h
  · cases h
    rfl
  · cases h

theorem visit_withheld (isMessage : r.kind = .message) (same : SameOutline r r') :
    visit render withheldRow f r = visit render withheldRow f r' := by
  have payloads := withheld_payload same
  unfold visit
  cases h : withheldRow r with
  | none =>
    rw [h] at payloads
    rw [Option.map_eq_none_iff.mp payloads.symm]
  | some row =>
    rw [h] at payloads
    obtain ⟨row',h',equal⟩ := Option.map_eq_some_iff.mp payloads.symm
    obtain ⟨kinds,contents⟩ := Prod.mk.inj equal
    have kind : row.kind = .message := (withheld_kind h).trans isMessage
    rw [h']
    change foldRow render f row = foldRow render f row'
    rw [foldRow_message f kind,foldRow_message f (kinds.trans kind),contents]

theorem entitled_event (h : eventEntitled (audienceEntitled audience sessionScopeId orgScopeId) r)
    (hidden : audienceEntitled audience sessionScopeId orgScopeId r.scopeLabel = false) :
    contextEvent r = none ∨ contextEvent r = some .interrupt := by
  unfold eventEntitled at h
  split at h
  · exact .inl ‹_›
  · exact .inr ‹_›
  all_goals
    rw [hidden] at h
    cases h

theorem foldRow_hidden (kind : r.kind = .contextEvent) (none : contextEvent r = none) :
    foldRow render f r = some f := by
  simp [foldRow,kind,none]

theorem foldRow_interrupt (h : contextEvent r = some .interrupt) :
    foldRow render f r = some {f with out := healDanglingCalls f.out r.createdAt} := by
  simp [foldRow,contextEvent_kind h,h]

theorem visit_alike (alike : Alike (audienceEntitled audience sessionScopeId orgScopeId)
      (fun r r' => SameOutline r r' ∧ SameMarks r r') r r')
    (h : eventEntitled (audienceEntitled audience sessionScopeId orgScopeId) r)
    (h' : eventEntitled (audienceEntitled audience sessionScopeId orgScopeId) r') :
    visit render (maskRow audience sessionScopeId orgScopeId) f r =
      visit render (maskRow audience sessionScopeId orgScopeId) f r' := by
  rcases alike with rfl | ⟨hidden,hidden',outline,marks⟩
  · rfl
  · have kinds := outline.kind
    cases kind : r.kind with
    | message =>
      have masked : visit render withheldRow f r = visit render withheldRow f r' :=
        visit_withheld f kind outline
      simpa [visit,maskRow,kind,← kinds,hidden,hidden'] using masked
    | annotationRow =>
      simp [visit,maskRow,foldRow,kind,← kinds,marks.turnEnd,marks.entrySeq]
    | contextEvent =>
      rw [kind] at kinds
      have other : r.kind ≠ .message := by simp [kind]
      have other' : r'.kind ≠ .message := by simp [← kinds]
      simp only [visit,maskRow_other other,maskRow_other other']
      rcases entitled_event h hidden with none | interrupt
      · rcases entitled_event h' hidden' with none' | interrupt'
        · rw [foldRow_hidden f kind none,foldRow_hidden f kinds.symm none']
        · rw [marks.interrupt.mpr interrupt'] at none
          cases none
      · rw [foldRow_interrupt f interrupt,foldRow_interrupt f (marks.interrupt.mp interrupt), outline.createdAt]

theorem import_entitled (isImp : isImport r)
    (h : eventEntitled (audienceEntitled audience sessionScopeId orgScopeId) r) :
    audienceEntitled audience sessionScopeId orgScopeId r.scopeLabel := by
  have event : contextEvent r = some .legacyImport := by simpa [isImport] using isImp
  by_contra hidden
  rcases entitled_event h (by simpa using hidden) with none | interrupt
  · rw [event] at none
    cases none
  · rw [event] at interrupt
    cases interrupt

theorem visit_import (f f' : Foldable) (isImp : isImport r) :
    visit render (maskRow audience sessionScopeId orgScopeId) f r =
      visit render (maskRow audience sessionScopeId orgScopeId) f' r := by
  have event : contextEvent r = some .legacyImport := by simpa [isImport] using isImp
  have kind := contextEvent_kind event
  simp [visit,maskRow,foldRow,kind,event]

theorem foldRow_isSome (lists : ListsMessages r) : (foldRow render f r).isSome := by
  unfold foldRow
  split
  · split <;> rfl
  · split
    next event => simpa using lists (.inl event)
    next event => simpa using lists (.inr event)
    · rfl
    · rfl
    · split <;> rfl

theorem visit_isSome (lists : ListsMessages r) :
    (visit render (maskRow audience sessionScopeId orgScopeId) f r).isSome := by
  unfold visit maskRow
  split
  · rfl
  next row masked =>
    split at masked
    · cases masked
      exact foldRow_isSome f lists
    next withheld =>
      have isMessage : r.kind = .message := by
        by_contra other
        simp [other] at withheld
      rw [foldRow_message f ((withheld_kind masked).trans isMessage)]
      split <;> rfl

end

section

variable {audience : List Principal} {sessionScopeId orgScopeId : ScopeId}
  {tape tape' : List TapeRecord} {render : Json → String}

variable {Same : TapeRecord → TapeRecord → Prop}

theorem imports_agree
    (alike : List.Forall₂ (Alike (audienceEntitled audience sessionScopeId orgScopeId) Same) tape tape')
    (h : entitledFrom (audienceEntitled audience sessionScopeId orgScopeId) tape)
    (imports : tape.any isImport) : tape'.any isImport := by
  induction alike with
  | nil => cases imports
  | @cons r r' rows rows' pair rest ih =>
    rw [entitledFrom,Bool.and_eq_true] at h
    rw [List.any_cons,Bool.or_eq_true]
    cases later : rows.any isImport with
    | true => exact .inr (ih h.2 later)
    | false =>
      rw [later] at h
      have isImp : isImport r = true := by simpa [later] using imports
      rcases pair with rfl | ⟨hidden,_⟩
      · exact .inl isImp
      · rw [import_entitled isImp h.1] at hidden
        cases hidden

theorem alike_symm {entitled : ScopeId → Bool} (symm : ∀ r r', Same r r' → Same r' r)
    (alike : List.Forall₂ (Alike entitled Same) tape tape') : List.Forall₂ (Alike entitled Same) tape' tape := by
  refine List.Forall₂.flip (alike.imp fun r r' pair => ?_)
  rcases pair with rfl | ⟨hidden,hidden',same⟩
  · exact .inl rfl
  · exact .inr ⟨hidden',hidden,symm r r' same⟩

theorem marked_symm (r r' : TapeRecord) (h : SameOutline r r' ∧ SameMarks r r') :
    SameOutline r' r ∧ SameMarks r' r := by
  obtain ⟨⟨seq,kind,createdAt,role,toolCallId,toolName⟩,⟨turnEnd,entrySeq,interrupt⟩⟩ := h
  exact ⟨⟨seq.symm,kind.symm,createdAt.symm,role.symm,toolCallId.symm,toolName.symm⟩,
    ⟨turnEnd.symm,entrySeq.symm,interrupt.symm⟩⟩

theorem fold_alike (alike : List.Forall₂ (Alike (audienceEntitled audience sessionScopeId orgScopeId)
      (fun r r' => SameOutline r r' ∧ SameMarks r r')) tape tape')
    (h : entitledFrom (audienceEntitled audience sessionScopeId orgScopeId) tape)
    (h' : entitledFrom (audienceEntitled audience sessionScopeId orgScopeId) tape')
    (lists : ∀ r ∈ tape, ListsMessages r) (lists' : ∀ r ∈ tape', ListsMessages r)
    (f f' : Foldable) (reset : tape.any isImport ∨ f = f') :
    tape.foldlM (visit render (maskRow audience sessionScopeId orgScopeId)) f =
      tape'.foldlM (visit render (maskRow audience sessionScopeId orgScopeId)) f' := by
  induction alike generalizing f f' with
  | nil =>
    rcases reset with none | rfl
    · cases none
    · rfl
  | @cons r r' rows rows' pair rest ih =>
    rw [entitledFrom,Bool.and_eq_true] at h h'
    rw [List.forall_mem_cons] at lists lists'
    rw [List.foldlM_cons,List.foldlM_cons]
    have tail := ih h.2 h'.2 lists.2 lists'.2
    have returns : (visit render (maskRow audience sessionScopeId orgScopeId) f r).isSome = true :=
      visit_isSome f lists.1
    have returns' : (visit render (maskRow audience sessionScopeId orgScopeId) f' r').isSome =
        true := visit_isSome f' lists'.1
    obtain ⟨g,hg⟩ := Option.isSome_iff_exists.mp returns
    obtain ⟨g',hg'⟩ := Option.isSome_iff_exists.mp returns'
    have steps : rows.any isImport = true ∨ g = g' := by
      cases later : rows.any isImport with
      | true => exact .inl rfl
      | false =>
        right
        have later' : rows'.any isImport = false := by
          by_contra some
          have back := imports_agree (alike_symm marked_symm rest) h'.2 (by simpa using some)
          rw [later] at back
          cases back
        rw [later] at h
        rw [later'] at h'
        have same : visit render (maskRow audience sessionScopeId orgScopeId) f r =
            visit render (maskRow audience sessionScopeId orgScopeId) f r' :=
          visit_alike f pair h.1 h'.1
        rcases reset with some | rfl
        · have isImp : isImport r = true := by simpa [later] using some
          rcases pair with rfl | ⟨hidden,_⟩
          · rw [visit_import f f' isImp,hg'] at hg
            cases hg
            rfl
          · rw [import_entitled isImp h.1] at hidden
            cases hidden
        · rw [hg,hg'] at same
          cases same
          rfl
    rw [hg,hg']
    exact tail g g' steps

theorem fold_returns (lists : ∀ r ∈ tape, ListsMessages r) (f : Foldable) :
    (tape.foldlM (visit render (maskRow audience sessionScopeId orgScopeId)) f).isSome := by
  induction tape generalizing f with
  | nil => rfl
  | cons r _ ih =>
    rw [List.forall_mem_cons] at lists
    have returns : (visit render (maskRow audience sessionScopeId orgScopeId) f r).isSome = true :=
      visit_isSome f lists.1
    obtain ⟨g,hg⟩ := Option.isSome_iff_exists.mp returns
    rw [List.foldlM_cons,hg]
    exact ih lists.2 g

theorem audience_present (entitled : tapeEventsEntitled tape audience sessionScopeId orgScopeId) :
    audience.isEmpty = false := by
  unfold tapeEventsEntitled at entitled
  split at entitled
  · cases entitled
  next present => simpa using present

theorem foldTape_filter (render : Json → String) (present : audience.isEmpty = false) :
    foldTape render (filterTapeForAudience tape audience sessionScopeId orgScopeId) =
      (tape.foldlM (visit render (maskRow audience sessionScopeId orgScopeId)) ⟨[],[]⟩).map Foldable.out := by
  simp only [foldTape,filterTapeForAudience,present,Bool.false_eq_true,if_false,foldlM_filterMap]

theorem foldTape_noninterference (render : Json → String)
    (alike : List.Forall₂ (Alike (audienceEntitled audience sessionScopeId orgScopeId)
      (fun r r' => SameOutline r r' ∧ SameMarks r r')) tape tape')
    (entitled : tapeEventsEntitled tape audience sessionScopeId orgScopeId = true)
    (entitled' : tapeEventsEntitled tape' audience sessionScopeId orgScopeId = true)
    (lists : ∀ r ∈ tape, ListsMessages r) (lists' : ∀ r ∈ tape', ListsMessages r) : ∃ messages,
      foldTape render (filterTapeForAudience tape audience sessionScopeId orgScopeId) = some messages ∧
      foldTape render (filterTapeForAudience tape' audience sessionScopeId orgScopeId) = some messages := by
  have present := audience_present entitled
  have same : tape.foldlM (visit render (maskRow audience sessionScopeId orgScopeId)) ⟨[],[]⟩ =
      tape'.foldlM (visit render (maskRow audience sessionScopeId orgScopeId)) ⟨[],[]⟩ :=
    fold_alike alike (tapeEventsEntitled_eq entitled) (tapeEventsEntitled_eq entitled') lists lists'
      _ _ (.inr rfl)
  have returns : (tape.foldlM (visit render (maskRow audience sessionScopeId orgScopeId))
      ⟨[],[]⟩).isSome = true := fold_returns lists _
  obtain ⟨g,hg⟩ := Option.isSome_iff_exists.mp returns
  refine ⟨g.out,?_,?_⟩
  · rw [foldTape_filter render present,hg,Option.map_some]
  · rw [foldTape_filter render present,← same,hg,Option.map_some]

end

def tapeRow (seq : Nat) (kind : TapeKind) (label : ScopeId) (payload : Json)
    (entrySeq covers : Option ℚ) : TapeRecord :=
  ⟨"s",seq,0,kind,payload,label,none,entrySeq,covers⟩

def said (text : String) : Json := .obj [("role",.str "user"),("content",.arr [textBlock text])]

def toolAnswer (text : String) : Json :=
  .obj [("role",.str "toolResult"),("toolCallId",.str "c1"),("toolName",.str "reach"),
    ("content",.arr [textBlock text])]

def answeredTape (text : String) : List TapeRecord :=
  [tapeRow 0 .message "org:acme" (said "hello") none none,
    tapeRow 1 .message "personal:bo" (toolAnswer text) none none]

theorem foldTape_noninterference_withheld_answer : ∃ messages,
      foldTape (fun _ => "") (filterTapeForAudience (answeredTape "salary") [⟨"ana",none⟩]
        "channel:c" "org:acme") = some messages ∧
      foldTape (fun _ => "") (filterTapeForAudience (answeredTape "bonus") [⟨"ana",none⟩]
        "channel:c" "org:acme") = some messages := by
  refine foldTape_noninterference (fun _ => "") ?_ (by decide) (by decide) ?_ ?_
  · refine .cons (.inl rfl) (.cons (.inr ⟨by decide,by decide,?_,?_⟩) .nil)
    · exact ⟨rfl,rfl,rfl,rfl,rfl,rfl⟩
    · exact ⟨rfl,rfl,by decide⟩
  · decide
  · decide

def turnTape (ended : Bool) : List TapeRecord :=
  [tapeRow 0 .message "org:acme" (said "hello") none none,
    tapeRow 1 .annotationRow "personal:bo" (.obj [("turnEnd",.bool ended)]) (some 0) none,
    tapeRow 2 .message "org:acme" (said "again") none none,
    tapeRow 3 .contextEvent "org:acme" (.obj [("event",.str "compaction"),("text",.str "s")]) none (some 0)]

theorem turn_end_reaches_fold :
    List.Forall₂ (Alike (audienceEntitled [⟨"ana",none⟩] "channel:c" "org:acme") SameOutline)
        (turnTape true) (turnTape false) ∧
      tapeEventsEntitled (turnTape true) [⟨"ana",none⟩] "channel:c" "org:acme" = true ∧
      tapeEventsEntitled (turnTape false) [⟨"ana",none⟩] "channel:c" "org:acme" = true ∧ foldTape (fun _ => "")
          (filterTapeForAudience (turnTape true) [⟨"ana",none⟩] "channel:c" "org:acme") ≠ foldTape (fun _ => "")
          (filterTapeForAudience (turnTape false) [⟨"ana",none⟩] "channel:c" "org:acme") := by
  refine ⟨?_,by decide,by decide,by decide +kernel⟩
  refine .cons (.inl rfl) (.cons (.inr ⟨by decide,by decide,?_⟩) ?_)
  · exact ⟨rfl,rfl,rfl,rfl,rfl,rfl⟩
  · exact .cons (.inl rfl) (.cons (.inl rfl) .nil)

end CompanyBrain.Harness
