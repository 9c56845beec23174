import CompanyBrain.Foundations.JsText
import CompanyBrain.Sessions.MemorySessionStore
import Mathlib.Data.List.Forall2
import Mathlib.Data.List.Infix

namespace CompanyBrain.Sessions

open Foundations

def escapeJson (c : Char) : Text :=
  if c = '"' ∨ c = '\\' then ['\\',c]
  else match c.toNat with
    | 8 => ['\\','b']
    | 9 => ['\\','t']
    | 10 => ['\\','n']
    | 12 => ['\\','f']
    | 13 => ['\\','r']
    | n => if n < 32 then ['\\','u','0','0',Nat.digitChar (n / 16),Nat.digitChar (n % 16)] else [c]

def quoteJson (s : Text) : Text := '"' :: s.flatMap escapeJson ++ ['"']

variable (number : ℚ → Text)

mutual

def jsonbSafeStringify : Json → Text
  | .null => "null".toList
  | .bool b => (if b then "true" else "false").toList
  | .num n => number n
  | .str s => quoteJson (s.toList.filter (· ≠ '\x00'))
  | .arr items => '[' :: joinWith [','] (stringifyItems items) ++ [']']
  | .obj fields => '\x7b' :: joinWith [','] (stringifyFields fields) ++ ['\x7d']

def stringifyItems : List Json → List Text
  | [] => []
  | item :: rest => jsonbSafeStringify item :: stringifyItems rest

def stringifyFields : List (String × Json) → List Text
  | [] => []
  | (key,value) :: rest => (quoteJson key.toList ++ ':' :: jsonbSafeStringify value) :: stringifyFields rest

end

def overheardMark : Text := "\"overheard\":true".toList

structure EntryRow where
  seq : Nat
  type : EntryType
  payload : Option (Text)

def notOverheard (row : EntryRow) : Bool := row.payload.all fun text => ¬ overheardMark <:+: text

def userTurn (row : EntryRow) : Bool := row.type = .user && notOverheard row

structure SessionRow where
  entries : List EntryRow
  lastActivity : Option Int
  messages : Option Nat
  turns : Option Nat

def SessionRow.append (s : SessionRow) (entry : NewEntry) (now : Int) : SessionRow :=
  let seq := s.entries.foldl (fun n e => max n (e.seq+1)) 0
  let stored := jsonbSafeStringify number entry.payload
  let entries := s.entries ++ [⟨seq,entry.type,some stored⟩]
  {entries,
    lastActivity := some (max (s.lastActivity.getD 0) now),
    messages := some (seq+1),
    turns := if s.turns = none ∨ s.messages ≠ some seq then some (entries.countP userTurn)
      else s.turns.map (· + if entry.type = .user ∧ ¬ overheardMark <:+: stored then 1 else 0)}

def SessionRow.appends (s : SessionRow) (calls : List (NewEntry × Int)) : SessionRow :=
  calls.foldl (fun s call => s.append number call.1 call.2) s

def isOverheardEntry (e : NewEntry) : Bool := e.type = .user && e.payload.field "overheard" = some (.bool true)

structure SessionSummary where
  turns : Nat
  messages : Nat

def sessionSummary (log : List NewEntry) : SessionSummary :=
  ⟨log.countP fun e => e.type = .user && !isOverheardEntry e,log.length⟩

structure Holds (row : EntryRow) (e : NewEntry) : Prop where
  type : row.type = e.type
  payload : row.payload = some (jsonbSafeStringify number e.payload) ∨ row.payload = none ∧ e.payload = .null

structure Logged (s : SessionRow) (log : List NewEntry) : Prop where
  seqs : s.entries.map (·.seq) = List.range log.length
  rows : List.Forall₂ (Holds number) s.entries log

def Apt (e : NewEntry) : Prop :=
  e.type = .user → overheardMark <:+: jsonbSafeStringify number e.payload → isOverheardEntry e

variable {number}

theorem infix_joinWith (sep : Text) {x : Text} {xs : List Text} (mem : x ∈ xs) : x <:+: joinWith sep xs := by
  induction xs using joinWith.induct with
  | case1 => cases mem
  | case2 => simp_all [joinWith]
  | case3 t ts more ih =>
    rw [joinWith.eq_3 sep t ts more]
    rcases List.mem_cons.mp mem with rfl | later
    · exact ⟨[],sep ++ joinWith sep ts,by simp⟩
    · exact (ih later).trans (List.suffix_append ..).isInfix

theorem mem_stringifyFields {key : String} {value : Json} {fields : List (String × Json)} (mem : (key,value) ∈ fields) :
    quoteJson key.toList ++ ':' :: jsonbSafeStringify number value ∈ stringifyFields number fields := by
  induction fields with
  | nil => cases mem
  | cons _ _ ih =>
    rcases List.mem_cons.mp mem with rfl | later
    · simp [stringifyFields]
    · simp [stringifyFields,ih later]

theorem overheard_marked {e : NewEntry} (overheard : isOverheardEntry e) :
    overheardMark <:+: jsonbSafeStringify number e.payload := by
  simp only [isOverheardEntry,Bool.and_eq_true,decide_eq_true_eq] at overheard
  obtain ⟨_,field⟩ := overheard
  cases payload : e.payload with
  | obj fields =>
    simp only [payload,Json.field,Option.map_eq_some_iff] at field
    obtain ⟨⟨key,value⟩,found,rfl⟩ := field
    obtain rfl : key = "overheard" := by simpa using List.find?_some found
    have mark : quoteJson "overheard".toList ++ ':' :: jsonbSafeStringify number (.bool true) = overheardMark := by
      simp only [jsonbSafeStringify]
      decide
    have listed : overheardMark ∈ stringifyFields number fields :=
      mark ▸ mem_stringifyFields (List.mem_of_find?_eq_some found)
    exact (infix_joinWith [','] listed).trans ⟨['\x7b'],['\x7d'],by simp [jsonbSafeStringify]⟩
  | null | bool | num | str | arr => simp [payload,Json.field] at field

theorem userTurn_eq {row : EntryRow} {e : NewEntry} (holds : Holds number row e) (apt : Apt number e) :
    userTurn row = (e.type = .user && !isOverheardEntry e) := by
  by_cases user : e.type = .user
  · rcases holds.payload with stored | ⟨missing,null⟩
    · have same : overheardMark <:+: jsonbSafeStringify number e.payload ↔ isOverheardEntry e :=
        ⟨apt user,overheard_marked⟩
      simp [userTurn,notOverheard,holds.type,stored,same]
    · simp [userTurn,notOverheard,holds.type,missing,isOverheardEntry,null,Json.field]
  · simp [userTurn,holds.type,user]

theorem turns_eq {rows : List EntryRow} {log : List NewEntry} (holds : List.Forall₂ (Holds number) rows log)
    (apt : ∀ e ∈ log, Apt number e) : rows.countP userTurn = (sessionSummary log).turns := by
  induction holds with
  | nil => rfl
  | cons here _ ih =>
    obtain ⟨apt,later⟩ := List.forall_mem_cons.mp apt
    simpa [sessionSummary,List.countP_cons,userTurn_eq here apt] using ih later

theorem nextSeq_range {rows : List EntryRow} {n : Nat} (seqs : rows.map (·.seq) = List.range n) :
    rows.foldl (fun n e => max n (e.seq+1)) 0 = n := by
  have range : (List.range n).foldl (fun n seq => max n (seq+1)) 0 = n := by
    clear seqs
    induction n with
    | zero => rfl
    | succ n ih => simp [List.range_succ,ih]
  rwa [← seqs,List.foldl_map] at range

structure Settled (number : ℚ → Text) (s : SessionRow) (log : List NewEntry) : Prop extends Logged number s log where
  messages : s.messages = some (sessionSummary log).messages
  turns : s.turns = some (sessionSummary log).turns

variable {s : SessionRow} {log : List NewEntry}

theorem Logged.append (logged : Logged number s log) {e : NewEntry} (apt : ∀ e' ∈ log ++ [e], Apt number e') (now : Int)
    (counters : s.messages = some log.length → s.turns.all (· = (sessionSummary log).turns)) :
    Settled number (s.append number e now) (log ++ [e]) := by
  have seq := nextSeq_range logged.seqs
  have holds : Holds number ⟨log.length,e.type,some (jsonbSafeStringify number e.payload)⟩ e := ⟨rfl,.inl rfl⟩
  have rows := List.rel_append logged.rows (.cons holds .nil)
  refine ⟨⟨?_,?_⟩,?_,?_⟩
  · simp [SessionRow.append,seq,logged.seqs,List.range_succ]
  · simpa only [SessionRow.append,seq] using rows
  · simp [SessionRow.append,seq,sessionSummary]
  · simp only [SessionRow.append,seq]
    split
    · rw [turns_eq rows apt]
    next kept =>
      obtain ⟨present,same⟩ := not_or.mp kept
      obtain ⟨turns,stored⟩ := Option.ne_none_iff_exists'.mp present
      have matched := counters (not_not.mp same)
      rw [stored,Option.all_some,decide_eq_true_eq] at matched
      rw [stored,← turns_eq rows apt,List.countP_append,
        turns_eq logged.rows (fun e' he => apt e' (List.mem_append_left _ he)),
        matched]
      simp [userTurn,notOverheard]

theorem Settled.appends (settled : Settled number s log) (calls : List (NewEntry × Int))
    (apt : ∀ e ∈ log ++ calls.map Prod.fst, Apt number e) :
    Settled number (s.appends number calls) (log ++ calls.map Prod.fst) := by
  induction calls generalizing s log with
  | nil => simpa [SessionRow.appends] using settled
  | cons call _ ih =>
    rw [List.map_cons,List.append_cons] at apt ⊢
    refine ih (settled.toLogged.append (fun e he => apt e (List.mem_append_left _ he)) call.2 ?_) apt
    simp [settled.turns]

theorem append_counters (number : ℚ → Text) (s : SessionRow) (log : List NewEntry) (call : NewEntry × Int)
    (calls : List (NewEntry × Int)) (logged : Logged number s log)
    (counters : s.messages = some log.length → s.turns.all (· = (sessionSummary log).turns))
    (apt : ∀ e ∈ log ++ (call :: calls).map Prod.fst, Apt number e) :
    let after := s.appends number (call :: calls)
    let summary := sessionSummary (log ++ (call :: calls).map Prod.fst)
    after.messages = some summary.messages ∧ after.turns = some summary.turns := by
  rw [List.map_cons,List.append_cons] at apt ⊢
  have first := logged.append (fun e he => apt e (List.mem_append_left _ he)) call.2 counters
  have run := first.appends calls apt
  exact ⟨run.messages,run.turns⟩

def unopened : SessionRow := ⟨[],none,none,none⟩

def flagged (payload : Json) : NewEntry := ⟨.user,payload,"dm"⟩

def overheardThenSaid : List (NewEntry × Int) :=
  [(flagged (.obj [("overheard",.bool true)]),0),(flagged (.str "hi"),5)]

theorem append_counters_heard : let after := unopened.appends (fun _ => []) overheardThenSaid
    let summary := sessionSummary (overheardThenSaid.map Prod.fst)
    after.messages = some summary.messages ∧ after.turns = some summary.turns ∧
      summary.messages = 2 ∧ summary.turns = 1 := by
  have apt : ∀ e ∈ overheardThenSaid.map Prod.fst, Apt (fun _ => []) e := by
    simp only [overheardThenSaid,List.map_cons,List.map_nil,List.forall_mem_cons]
    exact ⟨fun _ _ => rfl,fun _ marked => absurd marked (by decide),nofun⟩
  have counters := append_counters (fun _ => []) unopened [] _ _ ⟨rfl,.nil⟩ (by simp [unopened]) apt
  exact ⟨counters.1,counters.2,by decide⟩

theorem nested_flag_uncounted :
    (unopened.appends (fun _ => []) [(flagged (.obj [("meta",.obj [("overheard",.bool true)])]),0)]).turns = some 0 ∧
      (sessionSummary [flagged (.obj [("meta",.obj [("overheard",.bool true)])])]).turns = 1 := by
  decide

end CompanyBrain.Sessions
