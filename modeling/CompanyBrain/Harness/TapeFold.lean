import CompanyBrain.Resolution.ContextFilter

namespace CompanyBrain.Harness

open Foundations Resolution

inductive TapeKind where
  | message | contextEvent | annotationRow
deriving DecidableEq

structure TapeRecord where
  sessionId : String
  seq : Nat
  createdAt : Int
  kind : TapeKind
  payload : Json
  scopeLabel : ScopeId
  harness : Option String
  entrySeq : Option ℚ
  coversEntrySeq : Option ℚ

inductive TapeEvent where
  | compaction | legacyImport | legacyPatch | interrupt
deriving DecidableEq

def contextEvent (row : TapeRecord) : Option TapeEvent :=
  match row.kind with
  | .contextEvent =>
    if row.payload.field "event" = some (.str "compaction") then some .compaction
    else if row.payload.field "event" = some (.str "legacy_import") then some .legacyImport
    else if row.payload.field "event" = some (.str "legacy_patch") then some .legacyPatch
    else if row.payload.field "event" = some (.str "interrupt") then some .interrupt
    else none
  | _ => none

def interruptedToolResult : String :=
  "[interrupted — the platform restarted while this tool call was running and its outcome was not recorded. " ++
    "Check what actually happened before redoing anything with side effects.]"

def textBlock (text : String) : Json := .obj [("type",.str "text"),("text",.str text)]

def interruptedMessage (toolCallId : String) (toolName : Json) (timestamp : Int) : Json :=
  .obj [("role",.str "toolResult"),("toolCallId",.str toolCallId),("toolName",toolName),
    ("content",.arr [textBlock interruptedToolResult]),("isError",.bool true),
    ("timestamp",.num timestamp)]

section

variable (rows : List TapeRecord) (audience : List Principal) (sessionScopeId orgScopeId : ScopeId)

def audienceEntitled (sessionScopeId orgScopeId scope : ScopeId) : Bool :=
  audience.all fun p => principalEntitledToScope p scope sessionScopeId orgScopeId

def withheldRow (r : TapeRecord) : Option TapeRecord :=
  match r.payload.field "role", r.payload.field "toolCallId" with
  | some (.str "toolResult"), some (.str toolCallId) =>
    let toolName := match r.payload.field "toolName" with
      | some (.str name) => name
      | _ => "tool"
    some {r with payload := interruptedMessage toolCallId (.str toolName) r.createdAt}
  | _, _ => none

def maskRow (r : TapeRecord) : Option TapeRecord :=
  if r.kind ≠ .message || audienceEntitled audience sessionScopeId orgScopeId r.scopeLabel then
    some r
  else withheldRow r

def filterTapeForAudience : List TapeRecord :=
  if audience.isEmpty then []
  else rows.filterMap (maskRow audience sessionScopeId orgScopeId)

def isImport (r : TapeRecord) : Bool := contextEvent r = some .legacyImport

def lastImport? : List TapeRecord → Option Nat
  | [] => none
  | r :: rows =>
    match lastImport? rows with
    | some i => some (i+1)
    | none => if isImport r then some 0 else none

def scopesEntitled (entitled : ScopeId → Bool) (r : TapeRecord) : Bool :=
  match r.payload.field "scopes" with
  | some (.arr scopes) => scopes.all fun
    | .str s => entitled s
    | _ => false
  | _ => false

def eventEntitled (entitled : ScopeId → Bool) (r : TapeRecord) : Bool :=
  match contextEvent r with
  | none => true
  | some .interrupt => true
  | some .compaction => entitled r.scopeLabel
  | some .legacyImport => entitled r.scopeLabel && scopesEntitled entitled r
  | some .legacyPatch => entitled r.scopeLabel && scopesEntitled entitled r

def tapeEventsEntitled : Bool :=
  if audience.isEmpty then false
  else
    let lastImport := lastImport? rows
    rows.zipIdx.all fun (r,i) => lastImport.any (i < ·) ||
      eventEntitled (audienceEntitled audience sessionScopeId orgScopeId) r

end

structure Boundary where
  pos : Nat
  entrySeq : ℚ

structure Foldable where
  out : List Json
  boundaries : List Boundary

def answeredCalls (out : List Json) : List String :=
  out.filterMap fun m =>
    match m.field "role", m.field "toolCallId" with
    | some (.str "toolResult"), some (.str id) => some id
    | _, _ => none

def toolCalls (m : Json) : List (String × Json) :=
  match m.field "role", m.field "content" with
  | some (.str "assistant"), some (.arr blocks) =>
    blocks.filterMap fun b =>
      match b.field "type", b.field "id" with
      | some (.str "toolCall"), some (.str id) =>
        let name := match b.field "name" with
          | none => .str "tool"
          | some .null => .str "tool"
          | some name => name
        some (id,name)
      | _, _ => none
  | _, _ => []

def healDanglingCalls (out : List Json) (timestamp : Int) : List Json :=
  let answered := answeredCalls out
  let missing := (out.flatMap toolCalls).filter fun call => !answered.contains call.1
  out ++ missing.map fun call => interruptedMessage call.1 call.2 timestamp

-- Spreading a value that is not iterable throws, which is the outcome none.
def spread : Option Json → Option (List Json)
  | none => some []
  | some .null => some []
  | some (.arr items) => some items
  | some (.str s) => some (s.toList.map fun c => .str (String.singleton c))
  | some _ => none

def templateText (render : Json → String) : Option Json → String
  | none => "undefined"
  | some (.str s) => s
  | some value => render value

def summaryMessage (render : Json → String) (row : TapeRecord) : Json :=
  .obj [("role",.str "user"),("content",.arr [textBlock ("[Earlier conversation summary]\n" ++
      templateText render (row.payload.field "text"))]),
    ("timestamp",.num row.createdAt)]

def Foldable.compact (f : Foldable) (summary : Json) (coversEntrySeq : Option ℚ) : Foldable :=
  let cut := coversEntrySeq.bind fun covers =>
    f.boundaries.reverse.find? fun b => decide (b.entrySeq ≤ covers)
  match cut with
  | some cut =>
    let boundaries := (f.boundaries.filter fun b => decide (cut.pos ≤ b.pos)).map fun b =>
      Boundary.mk (b.pos - cut.pos+1) b.entrySeq
    ⟨summary :: f.out.drop cut.pos,boundaries⟩
  | none => ⟨summary :: f.out,f.boundaries.map fun b => ⟨b.pos+1,b.entrySeq⟩⟩

def turnEnd (row : TapeRecord) : Bool := row.payload.field "turnEnd" = some (.bool true)

def boundaryAt (pos : Nat) (entrySeq : Option ℚ) : List Boundary :=
  entrySeq.toList.map fun seq => ⟨pos,seq⟩

def foldRow (render : Json → String) (f : Foldable) (row : TapeRecord) : Option Foldable :=
  match row.kind with
  | .annotationRow =>
    if turnEnd row then
      some {f with boundaries := f.boundaries ++ boundaryAt f.out.length row.entrySeq}
    else some f
  | _ =>
    match contextEvent row with
    | some .legacyImport =>
      (spread (row.payload.field "messages")).map fun messages =>
        ⟨messages,boundaryAt messages.length row.coversEntrySeq⟩
    | some .legacyPatch =>
      (spread (row.payload.field "messages")).map fun messages =>
        let out := f.out ++ messages
        ⟨out,f.boundaries ++ boundaryAt out.length row.coversEntrySeq⟩
    | some .compaction => some (f.compact (summaryMessage render row) row.coversEntrySeq)
    | some .interrupt => some {f with out := healDanglingCalls f.out row.createdAt}
    | none =>
      if row.kind = .message && row.payload ≠ .null then
        some {f with out := f.out ++ [row.payload]}
      else some f

def foldTape (render : Json → String) (rows : List TapeRecord) : Option (List Json) :=
  (rows.foldlM (foldRow render) ⟨[],[]⟩).map Foldable.out

end CompanyBrain.Harness
