import CompanyBrain.Foundations.JsText
import CompanyBrain.Sessions.MemorySessionStore
import Mathlib.Data.Rat.Floor

namespace CompanyBrain.Harness

open Foundations
open Sessions (SessionEntry)

structure SummaryPayload where
  throughSeq : ℚ
  text : String

def contextSummaryPayload (e : SessionEntry) : Option SummaryPayload :=
  match e.type, e.payload.field "kind", e.payload.field "throughSeq", e.payload.field "text" with
  | .system, some (.str "context_summary"), some (.num throughSeq), some (.str text) =>
    some ⟨throughSeq,text⟩
  | _, _, _, _ => none

def isSummary (e : SessionEntry) : Bool := (contextSummaryPayload e).isSome

def securityTainted (e : SessionEntry) : Bool :=
  e.payload.field "securityTainted" = some (.bool true)

def replayable (e : SessionEntry) : Bool :=
  e.type ≠ .thinking && e.type ≠ .text && e.type ≠ .soul && e.payload.field "kind" ≠ some (.str "turn_failure")

def findLast (p : SessionEntry → Bool) (entries : List SessionEntry) : Option SessionEntry :=
  entries.reverse.find? p

def forModelContext (entries : List SessionEntry) (includeSecurityTainted : Bool) : List SessionEntry :=
  let replay := entries.filter replayable
  let visible := replay.filter fun e => includeSecurityTainted || !securityTainted e
  match findLast isSummary replay with
  | none => visible
  | some latest =>
    match contextSummaryPayload latest with
    | none => visible
    | some summary =>
      (if visible.contains latest then [latest] else []) ++
        visible.filter fun e => !isSummary e && decide (summary.throughSeq < e.seq)

structure Tokenizer where
  countTokens : String → Nat
  stringify : Json → String

abbrev TokenCache := List (String × Nat)

def entryTokenCacheMax : Nat := 50000

section

variable (tk : Tokenizer) (cache : TokenCache) (history : List SessionEntry) (b : CompactionBudget)

def entryText (e : SessionEntry) : String :=
  match e.payload.field "text" with
  | some (.str text) => text
  | _ => tk.stringify (if e.payload = .null then .obj [] else e.payload)

def entryKey (e : SessionEntry) : String :=
  e.sessionId ++ ":" ++ toString e.seq ++ ":" ++ toString (utf16Length (entryText tk e).toList)

def estimateEntryTokens (e : SessionEntry) : Nat × TokenCache :=
  match cache.find? (·.1 = entryKey tk e) with
  | some hit => (hit.2,cache)
  | none =>
    let n := tk.countTokens (entryText tk e)
    let room := if entryTokenCacheMax ≤ cache.length then cache.tail else cache
    (n,room ++ [(entryKey tk e,n)])

def estimateHistoryTokens : Nat × TokenCache :=
  history.foldl (fun acc e =>
    let estimate := estimateEntryTokens tk acc.2 e
    (acc.1 + estimate.1,estimate.2)) (0,cache)

def recentFrom (tk : Tokenizer) (maxCount maxTokens : ℚ) : List SessionEntry → Nat → Nat → TokenCache → Nat × TokenCache
  | [], count, _, cache => (count,cache)
  | e :: older, count, tokens, cache =>
    if maxCount ≤ count then (count,cache)
    else
      let estimate := estimateEntryTokens tk cache e
      let next := tokens + estimate.1
      if 1 ≤ count ∧ maxTokens < next then (count,estimate.2)
      else recentFrom tk maxCount maxTokens older (count+1) next estimate.2

def recentEntryCountWithinBudget (maxCount maxTokens : ℚ) : Nat × TokenCache :=
  recentFrom tk maxCount maxTokens history.reverse 0 0 cache

structure CompactionPlan where
  toSummarize : List SessionEntry
  kept : List SessionEntry
  reuse : Option SessionEntry
deriving DecidableEq

structure ReuseBudget where
  entries : ℚ
  tokens : ℚ

structure CompactionBudget where
  maxEntries : ℚ
  maxTokens : ℚ
  keepRecentTokenFraction : ℚ
  keepRecentEntries : Option ℚ
  reuseBudget : Option ReuseBudget

def CompactionBudget.keepRecent : ℚ :=
  max 1 (b.keepRecentEntries.getD (b.maxEntries - 1))

def CompactionBudget.keepRecentTokens : ℚ :=
  (⌊b.maxTokens * b.keepRecentTokenFraction⌋ : ℤ)

def CompactionBudget.reuse : ReuseBudget :=
  b.reuseBudget.getD ⟨b.maxEntries,b.maxTokens⟩

def latestSummary : Option SessionEntry := findLast isSummary history

def afterSummary : List SessionEntry :=
  let latestPayload := (latestSummary history).bind contextSummaryPayload
  history.filter fun e =>
    !isSummary e && latestPayload.all fun summary => decide (summary.throughSeq < (e.seq : ℚ))

def callId? (e : SessionEntry) : Option String :=
  match e.payload.field "callId" with
  | some (.str cid) => if cid = "" then none else some cid
  | _ => none

def answers (cid : String) (e : SessionEntry) : Bool :=
  e.type = .toolResult && callId? e = some cid

def openCall (entries : List SessionEntry) (last : SessionEntry) : Bool :=
  last.type = .toolCall && match callId? last with
    | none => false
    | some cid => !entries.any (answers cid)

def pullBack (entries : List SessionEntry) : Nat → Nat
  | 0 => 0
  | n+1 =>
    match entries[n]? with
    | none => n+1
    | some last => if openCall (entries.take (n+1)) last then pullBack entries n else n+1

def reusable : Option SessionEntry × TokenCache :=
  match latestSummary history with
  | none => (none,cache)
  | some latest =>
    if ((afterSummary history).length+1 : ℚ) ≤ b.reuse.entries then
      let total := estimateHistoryTokens tk cache (latest :: afterSummary history)
      (if (total.1 : ℚ) ≤ b.reuse.tokens then some latest else none,total.2)
    else (none,cache)

def keptCount : Nat × TokenCache :=
  recentEntryCountWithinBudget tk (reusable tk cache history b).2 (afterSummary history)
    b.keepRecent b.keepRecentTokens

def planCompaction : Option CompactionPlan × TokenCache :=
  match reusable tk cache history b with
  | (some latest,cache) => (some ⟨[],latest :: afterSummary history,some latest⟩,cache)
  | (none,_) =>
    let kept := keptCount tk cache history b
    let overflowCount := pullBack (afterSummary history) ((afterSummary history).length - kept.1)
    let overflow := (afterSummary history).take overflowCount
    let toSummarize := (latestSummary history).toList ++ overflow
    if overflow.isEmpty then (none,kept.2)
    else (some ⟨toSummarize,(afterSummary history).drop overflowCount,none⟩,kept.2)

end

def compactionThroughSeq (entries : List SessionEntry) : ℚ :=
  entries.foldl (fun top e =>
    max top (((contextSummaryPayload e).map SummaryPayload.throughSeq).getD e.seq)) (-1)

end CompanyBrain.Harness
