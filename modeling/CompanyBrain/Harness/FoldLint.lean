import CompanyBrain.Harness.TapeFold
import Mathlib.Data.List.Infix

namespace CompanyBrain.Harness

open Foundations

inductive FoldRole where
  | user | assistant | toolResult

def foldRole (m : Json) : Option FoldRole :=
  if m.field "role" = some (.str "user") then some .user
  else if m.field "role" = some (.str "assistant") then some .assistant
  else if m.field "role" = some (.str "toolResult") then some .toolResult
  else none

inductive FoldProblem where
  | firstRole (role : Option Json)
  | unknownRole (i : Nat) (role : Option Json)
  | imageWithoutBytes (i : Nat)
  | duplicateCall (i : Nat) (id : String)
  | orphanResult (i : Nat) (toolCallId : Option Json)
  | userWhileOpen (i calls : Nat)
  | danglingCalls (calls : Nat)

structure Stringify where
  json : Json → String
  string : Json → String

def numbered (i : Nat) (text : String) : String := "#" ++ toString i ++ ": " ++ text

def FoldProblem.text (js : Stringify) : FoldProblem → String
  | .firstRole role => numbered 0 ("first message must be user-role, got " ++ (role.map js.json).getD "undefined")
  | .unknownRole i role => numbered i ("unknown role " ++ (role.map js.json).getD "undefined")
  | .imageWithoutBytes i => numbered i "image block without bytes"
  | .duplicateCall i id => numbered i ("duplicate tool call id " ++ id)
  | .orphanResult i toolCallId =>
    numbered i ("toolResult without a preceding open call (" ++ templateText js.string toolCallId ++ ")")
  | .userWhileOpen i calls => numbered i ("user message while " ++ toString calls ++ " tool call(s) await results")
  | .danglingCalls calls => "end: " ++ toString calls ++ " dangling tool call(s)"

structure FoldScan where
  problems : List FoldProblem
  openCalls : List String
  seenCallIds : List String

def firstProblem (messages : List Json) : List FoldProblem :=
  match messages.head? with
  | none => []
  | some first =>
    if first.isTruthy && first.field "role" ≠ some (.str "user") then [.firstRole (first.field "role")]
    else []

def lacksBytes (block : Json) : Bool :=
  block.field "type" = some (.str "image") && match block.field "data" with
    | some (.str _) => false
    | _ => true

def imageProblems (i : Nat) (m : Json) : List FoldProblem :=
  match m.field "content" with
  | some (.arr blocks) => (blocks.filter lacksBytes).map fun _ => .imageWithoutBytes i
  | _ => []

def addId (ids : List String) (id : String) : List String := if id ∈ ids then ids else ids ++ [id]

def beginCall (i : Nat) (l : FoldScan) (id : String) : FoldScan where
  problems := if id ∈ l.seenCallIds then l.problems ++ [.duplicateCall i id] else l.problems
  openCalls := addId l.openCalls id
  seenCallIds := addId l.seenCallIds id

def callIds (m : Json) : List String := (toolCalls m).map Prod.fst

def FoldScan.report (l : FoldScan) (problems : List FoldProblem) : FoldScan :=
  {l with problems := l.problems ++ problems}

def answerCall (i : Nat) (l : FoldScan) (toolCallId : Option Json) : FoldScan :=
  match toolCallId with
  | some (.str id) =>
    if id ∈ l.openCalls then {l with openCalls := l.openCalls.erase id} else l.report [.orphanResult i toolCallId]
  | _ => l.report [.orphanResult i toolCallId]

def lintMessage (i : Nat) (l : FoldScan) (m : Json) : FoldScan :=
  match foldRole m with
  | none => l.report [.unknownRole i (m.field "role")]
  | some role =>
    let l := l.report (imageProblems i m)
    match role with
    | .assistant => (callIds m).foldl (beginCall i) l
    | .toolResult => answerCall i l (m.field "toolCallId")
    | .user =>
      if l.openCalls = [] then l
      else {l.report [.userWhileOpen i l.openCalls.length] with openCalls := []}

def lintFrom (i : Nat) (l : FoldScan) : List Json → FoldScan
  | [] => l
  | m :: messages => lintFrom (i+1) (lintMessage i l m) messages

structure FoldLint where
  ok : Bool
  problems : List FoldProblem

def scanFold (messages : List Json) : FoldScan := lintFrom 0 ⟨firstProblem messages,[],[]⟩ messages

def danglingProblems (openCalls : List String) : List FoldProblem :=
  if openCalls = [] then [] else [.danglingCalls openCalls.length]

def lintFold (messages : List Json) : FoldLint :=
  let l := scanFold messages
  let problems := l.problems ++ danglingProblems l.openCalls
  ⟨problems.isEmpty,problems⟩

def FoldProblem.atEnd (js : Stringify) (p : FoldProblem) : Bool := "end:".toList.isPrefixOf (p.text js).toList

def needsInterruptHeal (js : Stringify) (folded : List Json) : Bool :=
  let problems := (lintFold folded).problems
  decide (0 < problems.length) && problems.all (FoldProblem.atEnd js)

def healFoldInterrupt (messages : List Json) (timestamp : Int) : List Json := healDanglingCalls messages timestamp

def FoldProblem.inline : FoldProblem → Bool
  | .danglingCalls _ => false
  | _ => true

theorem not_atEnd (js : Stringify) {p : FoldProblem} (inline : p.inline) : ¬ p.atEnd js := by
  cases p with
  | danglingCalls => cases inline
  | _ => simp [FoldProblem.atEnd,FoldProblem.text,numbered]

theorem lintFrom_append (i : Nat) (l : FoldScan) (ms ns : List Json) :
    lintFrom i l (ms ++ ns) = lintFrom (i + ms.length) (lintFrom i l ms) ns := by
  induction ms generalizing i l with
  | nil => rfl
  | cons _ _ ih => rw [List.cons_append,lintFrom,ih,lintFrom,List.length_cons,Nat.add_right_comm,Nat.add_assoc]

def Notes (l l' : FoldScan) : Prop := ∃ more, l'.problems = l.problems ++ more ∧ ∀ p ∈ more, p.inline = true

variable {l l' : FoldScan} {m : Json} {i : Nat}

theorem Notes.refl (l : FoldScan) : Notes l l := ⟨[],(List.append_nil _).symm,by simp⟩

theorem Notes.trans {l'' : FoldScan} (first : Notes l l') (second : Notes l' l'') : Notes l l'' := by
  obtain ⟨more,notes,inline⟩ := first
  obtain ⟨more',notes',inline'⟩ := second
  refine ⟨more ++ more',by rw [notes',notes,List.append_assoc],fun p mem => ?_⟩
  exact (List.mem_append.mp mem).elim (inline p) (inline' p)

theorem Notes.clean (notes : Notes l l') (clean : l'.problems = []) : l.problems = [] := by
  obtain ⟨more,notes,-⟩ := notes
  exact (List.append_eq_nil_iff.mp (notes.symm.trans clean)).1

theorem notes_report {problems : List FoldProblem} (inline : ∀ p ∈ problems, p.inline) :
    Notes l (l.report problems) := ⟨problems,rfl,inline⟩

theorem notes_begin (i : Nat) (ids : List String) (l : FoldScan) : Notes l (ids.foldl (beginCall i) l) := by
  induction ids generalizing l with
  | nil => exact .refl l
  | cons id _ ih =>
    refine Notes.trans ?_ (ih (beginCall i l id))
    by_cases seen : id ∈ l.seenCallIds
    · exact ⟨[.duplicateCall i id],if_pos seen,by simp [FoldProblem.inline]⟩
    · exact ⟨[],(if_neg seen).trans (List.append_nil _).symm,by simp⟩

theorem notes_answer (i : Nat) (l : FoldScan) (toolCallId : Option Json) : Notes l (answerCall i l toolCallId) := by
  have orphan : Notes l (l.report [.orphanResult i toolCallId]) := notes_report (by simp [FoldProblem.inline])
  unfold answerCall
  split
  · split
    · exact .refl l
    · exact orphan
  · exact orphan

theorem notes_images (i : Nat) (l : FoldScan) (m : Json) : Notes l (l.report (imageProblems i m)) := by
  refine notes_report fun p mem => ?_
  unfold imageProblems at mem
  split at mem
  · obtain ⟨_,_,rfl⟩ := List.mem_map.mp mem
    rfl
  · cases mem

theorem notes_role {role : FoldRole} (h : foldRole m = some role) :
    Notes (l.report (imageProblems i m)) (lintMessage i l m) := by
  simp only [lintMessage,h]
  cases role with
  | assistant => exact notes_begin i _ _
  | toolResult => exact notes_answer i _ _
  | user =>
    dsimp only
    split
    · exact .refl _
    · exact notes_report (by simp [FoldProblem.inline])

theorem notes_message (i : Nat) (l : FoldScan) (m : Json) : Notes l (lintMessage i l m) := by
  cases h : foldRole m with
  | none =>
    simp only [lintMessage,h]
    exact notes_report (by simp [FoldProblem.inline])
  | some => exact (notes_images i l m).trans (notes_role h)

theorem notes_from (i : Nat) (l : FoldScan) (ms : List Json) : Notes l (lintFrom i l ms) := by
  induction ms generalizing i l with
  | nil => exact .refl l
  | cons m _ ih => exact (notes_message i l m).trans (ih (i+1) _)

variable {ms : List Json}

theorem role_assistant (h : m.field "role" = some (.str "assistant")) : foldRole m = some .assistant := by
  simp [foldRole,h]

theorem role_toolResult (h : m.field "role" = some (.str "toolResult")) : foldRole m = some .toolResult := by
  simp [foldRole,h]

theorem field_of_toolResult (h : foldRole m = some .toolResult) : m.field "role" = some (.str "toolResult") := by
  unfold foldRole at h
  split at h
  · cases h
  · split at h
    · cases h
    · split at h
      · assumption
      · cases h

theorem callIds_of_role (h : foldRole m ≠ some .assistant) : callIds m = [] := by
  unfold callIds toolCalls
  split
  next isAssistant _ => exact absurd (role_assistant isAssistant) h
  · rfl

theorem answeredCalls_of_role (h : foldRole m ≠ some .toolResult) : answeredCalls [m] = [] := by
  rw [answeredCalls,List.filterMap_cons]
  split
  · rfl
  next answers =>
    split at answers
    next isResult _ => exact absurd (role_toolResult isResult) h
    · cases answers

theorem answeredCalls_result {id : String} (role : m.field "role" = some (.str "toolResult"))
    (answers : m.field "toolCallId" = some (.str id)) : answeredCalls [m] = [id] := by
  simp [answeredCalls,role,answers]

theorem answeredCalls_append (ms ns : List Json) :
    answeredCalls (ms ++ ns) = answeredCalls ms ++ answeredCalls ns := List.filterMap_append

structure Tracks (ms : List Json) (l : FoldScan) : Prop where
  seen : l.seenCallIds = ms.flatMap callIds
  once : l.seenCallIds.Nodup
  awaited : l.openCalls = l.seenCallIds.filter fun id => id ∉ answeredCalls ms
  known : ∀ id ∈ answeredCalls ms, id ∈ l.seenCallIds

theorem openCall_clean {ids : List String} (clean : (ids.foldl (beginCall i) l).problems = [])
    (once : l.seenCallIds.Nodup) (known : ∀ id ∈ l.openCalls, id ∈ l.seenCallIds) :
    (ids.foldl (beginCall i) l).seenCallIds = l.seenCallIds ++ ids ∧
      (ids.foldl (beginCall i) l).openCalls = l.openCalls ++ ids ∧ (l.seenCallIds ++ ids).Nodup := by
  induction ids generalizing l with
  | nil => simpa using once
  | cons id ids ih =>
    have first := (notes_begin i ids (beginCall i l id)).clean clean
    have fresh : id ∉ l.seenCallIds := by
      intro seen
      rw [beginCall,if_pos seen] at first
      exact absurd first (by simp)
    have idle : id ∉ l.openCalls := fun isOpen => fresh (known id isOpen)
    have seen : (beginCall i l id).seenCallIds = l.seenCallIds ++ [id] := if_neg fresh
    have awaits : (beginCall i l id).openCalls = l.openCalls ++ [id] := if_neg idle
    have step := ih clean
      (by
        rw [seen]
        refine List.nodup_append.mpr ⟨once,List.nodup_singleton id,?_⟩
        simpa using fun a ha => ne_of_mem_of_not_mem ha fresh)
      (by
        rw [seen,awaits]
        simpa using fun id' => Or.imp_left (known id'))
    rw [seen,awaits,List.append_assoc,List.append_assoc] at step
    exact step

theorem tracks_quiet {ms : List Json} {l : FoldScan} {m : Json} (tracks : Tracks ms l) (calls : callIds m = [])
    (unanswered : answeredCalls [m] = []) : Tracks (ms ++ [m]) l where
  seen := by rw [tracks.seen,List.flatMap_append,List.flatMap_singleton,calls,List.append_nil]
  once := tracks.once
  awaited := by
    rw [answeredCalls_append,unanswered,List.append_nil]
    exact tracks.awaited
  known := by
    rw [answeredCalls_append,unanswered,List.append_nil]
    exact tracks.known

theorem tracks_calls (tracks : Tracks ms l) (unanswered : answeredCalls [m] = [])
    (clean : ((callIds m).foldl (beginCall i) l).problems = []) :
    Tracks (ms ++ [m]) ((callIds m).foldl (beginCall i) l) := by
  have awaitedSeen : ∀ id ∈ l.openCalls, id ∈ l.seenCallIds := by
    rw [tracks.awaited]
    exact fun id mem => List.mem_of_mem_filter mem
  obtain ⟨seen,awaits,once⟩ := openCall_clean clean tracks.once awaitedSeen
  refine ⟨?_,seen ▸ once,?_,?_⟩
  · rw [seen,tracks.seen,List.flatMap_append,List.flatMap_singleton]
  · rw [seen,awaits,answeredCalls_append,unanswered,List.append_nil,List.filter_append,← tracks.awaited]
    congr 1
    refine (List.filter_eq_self.mpr fun id mem => ?_).symm
    have apart := (List.nodup_append.mp once).2.2
    exact decide_eq_true fun answered => apart id (tracks.known id answered) id mem rfl
  · rw [seen,answeredCalls_append,unanswered,List.append_nil]
    exact fun id mem => List.mem_append_left _ (tracks.known id mem)

theorem tracks_answer {id : String} (tracks : Tracks ms l) (calls : callIds m = []) (answers : answeredCalls [m] = [id])
    (isOpen : id ∈ l.openCalls) : Tracks (ms ++ [m]) {l with openCalls := l.openCalls.erase id} where
  seen := by rw [tracks.seen,List.flatMap_append,List.flatMap_singleton,calls,List.append_nil]
  once := tracks.once
  awaited := by
    have once : l.openCalls.Nodup := tracks.awaited ▸ tracks.once.filter _
    rw [once.erase_eq_filter,tracks.awaited,List.filter_filter,answeredCalls_append,answers]
    refine List.filter_congr fun id' _ => ?_
    rw [Bool.eq_iff_iff]
    simp [and_comm]
  known := by
    rw [answeredCalls_append,answers]
    intro id' mem
    rcases List.mem_append.mp mem with before | now
    · exact tracks.known id' before
    · rw [List.mem_singleton.mp now]
      exact List.mem_of_mem_filter (tracks.awaited ▸ isOpen)

theorem tracks_message (tracks : Tracks ms l) (clean : (lintMessage i l m).problems = []) :
    Tracks (ms ++ [m]) (lintMessage i l m) := by
  cases hrole : foldRole m with
  | none =>
    rw [lintMessage,hrole] at clean
    exact absurd clean (by simp [FoldScan.report])
  | some role =>
    have images := (List.append_eq_nil_iff.mp ((notes_role hrole).clean clean)).2
    have same : l.report (imageProblems i m) = l := by rw [images,FoldScan.report,List.append_nil]
    simp only [lintMessage,hrole,same] at clean ⊢
    cases role with
    | assistant => exact tracks_calls tracks (answeredCalls_of_role (by simp [hrole])) clean
    | toolResult =>
      have calls := callIds_of_role (m := m) (by simp [hrole])
      dsimp only at clean ⊢
      unfold answerCall at clean ⊢
      split at clean
      next id answers =>
        split at clean
        next isOpen =>
          simp only [if_pos isOpen]
          exact tracks_answer tracks calls (answeredCalls_result (field_of_toolResult hrole) answers) isOpen
        · exact absurd clean (by simp [FoldScan.report])
      · exact absurd clean (by simp [FoldScan.report])
    | user =>
      dsimp only at clean ⊢
      split at clean
      next idle =>
        rw [if_pos idle]
        exact tracks_quiet tracks (callIds_of_role (by simp [hrole])) (answeredCalls_of_role (by simp [hrole]))
      · exact absurd clean (by simp [FoldScan.report])

theorem tracks_from {before : List Json} (tracks : Tracks before l) (clean : (lintFrom i l ms).problems = []) :
    Tracks (before ++ ms) (lintFrom i l ms) := by
  induction ms generalizing i before l with
  | nil => simpa [lintFrom] using tracks
  | cons m ms ih =>
    have next := tracks_message tracks ((notes_from _ _ ms).clean clean)
    have rest := ih next clean
    rwa [List.append_assoc] at rest

variable {messages : List Json}

theorem scanFold_tracks (clean : (scanFold messages).problems = []) : Tracks messages (scanFold messages) := by
  have start : Tracks [] ⟨firstProblem messages,[],[]⟩ := ⟨rfl,List.nodup_nil,rfl,fun id mem => by cases mem⟩
  exact tracks_from start clean

def missingCalls (messages : List Json) : List (String × Json) :=
  (messages.flatMap toolCalls).filter fun call => !(answeredCalls messages).contains call.1

def interruptedResults (messages : List Json) (timestamp : Int) : List Json :=
  (missingCalls messages).map fun call => interruptedMessage call.1 call.2 timestamp

theorem healFoldInterrupt_eq (messages : List Json) (timestamp : Int) :
    healFoldInterrupt messages timestamp = messages ++ interruptedResults messages timestamp := rfl

theorem lint_results (i : Nat) (timestamp : Int) (calls : List (String × Json)) (l : FoldScan)
    (awaits : l.openCalls = calls.map Prod.fst) :
    lintFrom i l (calls.map fun call => interruptedMessage call.1 call.2 timestamp) = {l with openCalls := []} := by
  induction calls generalizing i l with
  | nil =>
    rw [List.map_nil] at awaits
    rw [← awaits]
    rfl
  | cons call calls ih =>
    have role : foldRole (interruptedMessage call.1 call.2 timestamp) = some .toolResult := role_toolResult rfl
    have first : lintMessage i l (interruptedMessage call.1 call.2 timestamp) =
        {l with openCalls := calls.map Prod.fst} := by
      have images : imageProblems i (interruptedMessage call.1 call.2 timestamp) = [] := rfl
      have id : (interruptedMessage call.1 call.2 timestamp).field "toolCallId" = some (.str call.1) := rfl
      rw [lintMessage,role]
      dsimp only
      rw [images,FoldScan.report,id,answerCall]
      simp [awaits]
    rw [List.map_cons,lintFrom,first,ih _ _ rfl]

theorem toolCalls_interrupted (messages : List Json) (timestamp : Int) :
    (interruptedResults messages timestamp).flatMap toolCalls = [] := by
  rw [interruptedResults,List.flatMap_map]
  exact List.flatMap_eq_nil_iff.mpr fun _ _ => rfl

theorem answered_interrupted (messages : List Json) (timestamp : Int) :
    answeredCalls (interruptedResults messages timestamp) = (missingCalls messages).map Prod.fst := by
  rw [interruptedResults,answeredCalls,List.filterMap_map]
  exact List.filterMap_eq_map_iff_forall_eq_some.mpr fun _ _ => rfl

theorem missingCalls_healed (messages : List Json) (timestamp : Int) :
    missingCalls (healFoldInterrupt messages timestamp) = [] := by
  rw [missingCalls,healFoldInterrupt_eq,List.flatMap_append,toolCalls_interrupted,List.append_nil,
    answeredCalls_append,answered_interrupted,List.filter_eq_nil_iff]
  intro call mem
  by_cases answered : call.1 ∈ answeredCalls messages
  · simp [answered]
  · have missing : call ∈ missingCalls messages := List.mem_filter.mpr ⟨mem,by simpa using answered⟩
    simp [List.mem_map_of_mem missing]

theorem openCalls_missing (tracks : Tracks messages l) : l.openCalls = (missingCalls messages).map Prod.fst := by
  have ids : messages.flatMap callIds = (messages.flatMap toolCalls).map Prod.fst := by
    rw [List.map_flatMap]
    rfl
  rw [tracks.awaited,tracks.seen,ids,List.filter_map]
  congr 1
  refine List.filter_congr fun call _ => ?_
  simp

theorem firstProblem_append (messages results : List Json) (h : messages = [] → results = []) :
    firstProblem (messages ++ results) = firstProblem messages := by
  cases messages with
  | nil => rw [h rfl]; rfl
  | cons => rfl

theorem scan_clean {js : Stringify} (needs : needsInterruptHeal js messages) : (scanFold messages).problems = [] := by
  refine List.eq_nil_iff_forall_not_mem.mpr fun p mem => ?_
  simp only [needsInterruptHeal,Bool.and_eq_true,List.all_eq_true] at needs
  refine not_atEnd js ?_ (needs.2 p (List.mem_append_left _ mem))
  obtain ⟨more,notes,inline⟩ := notes_from 0 ⟨firstProblem messages,[],[]⟩ messages
  rw [scanFold,notes] at mem
  rcases List.mem_append.mp mem with first | later
  · simp only [firstProblem] at first
    split at first
    · cases first
    · split at first
      · rw [List.mem_singleton.mp first]
        rfl
      · cases first
  · exact inline p later

theorem scan_healed (timestamp : Int) (clean : (scanFold messages).problems = []) :
    scanFold (healFoldInterrupt messages timestamp) = {scanFold messages with openCalls := []} := by
  have tracks := scanFold_tracks clean
  have first : firstProblem (messages ++ interruptedResults messages timestamp) = firstProblem messages :=
    firstProblem_append _ _ fun h => by rw [h]; rfl
  rw [healFoldInterrupt_eq,scanFold,first,lintFrom_append]
  exact lint_results _ timestamp _ (scanFold messages) (openCalls_missing tracks)

theorem interrupt_heals (js : Stringify) (messages : List Json) (timestamp : Int)
    (needs : needsInterruptHeal js messages = true) : messages <+: healFoldInterrupt messages timestamp ∧
      (lintFold (healFoldInterrupt messages timestamp)).ok = true ∧
      ∀ later, healFoldInterrupt (healFoldInterrupt messages timestamp) later =
        healFoldInterrupt messages timestamp := by
  have clean := scan_clean needs
  refine ⟨?_,?_,fun later => ?_⟩
  · rw [healFoldInterrupt_eq]
    exact List.prefix_append _ _
  · rw [lintFold,scan_healed timestamp clean]
    simp [clean,danglingProblems]
  · rw [healFoldInterrupt_eq _ later,interruptedResults,missingCalls_healed,List.map_nil,List.append_nil]

def plainStrings : Stringify := ⟨fun _ => "",fun _ => ""⟩

def callMessage (ids : List String) : Json :=
  .obj [("role",.str "assistant"),
    ("content",.arr (ids.map fun id => .obj [("type",.str "toolCall"),("id",.str id),("name",.str "shell")]))]

def interruptedFold : List Json :=
  [.obj [("role",.str "user"),("content",.str "deploy it")],callMessage ["c1","c2"],
    .obj [("role",.str "toolResult"),("toolCallId",.str "c1"),("content",.str "ok")]]

theorem interrupt_heals_second_call : needsInterruptHeal plainStrings interruptedFold = true ∧
      interruptedFold <+: healFoldInterrupt interruptedFold 5 ∧
      (lintFold (healFoldInterrupt interruptedFold 5)).ok = true ∧
      ∀ later, healFoldInterrupt (healFoldInterrupt interruptedFold 5) later = healFoldInterrupt interruptedFold 5 :=
  have needs : needsInterruptHeal plainStrings interruptedFold = true := by decide +kernel
  ⟨needs,interrupt_heals plainStrings interruptedFold 5 needs⟩

end CompanyBrain.Harness
