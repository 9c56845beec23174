import CompanyBrain.Board.Untrusted

namespace CompanyBrain.Board

open Foundations

inductive EntryKind where
  | project | memory | skill | process | rule | lesson | record | role
deriving DecidableEq

structure EntryKey where
  kind : EntryKind
  ownerUid : Nat
  name : Text
deriving DecidableEq

structure Entry where
  key : EntryKey
  body : Text
  createdAt : Nat
  updatedAt : Nat
  author : Option String
  humanEdited : Bool

structure EntryVersion where
  id : Nat
  key : EntryKey
  body : Text
  author : Option String
  cause : Option String
  time : Nat
deriving DecidableEq

structure Brain where
  entries : Table Entry.key
  versions : List EntryVersion
  nextVersion : Nat

def Brain.empty : Brain := ⟨Table.empty,[],1⟩

def MAX_ENTRIES_PER_KIND : Nat := 200
def MAX_ENTRY_BODY : Nat := 20000
def MAX_ENTRY_NAME : Nat := 120

def HUMAN_AUTHORS : List String := ["web","starter"]

def isHuman : Option String → Bool
  | none => true
  | some author => HUMAN_AUTHORS.contains author

def dropSource : Text → Option Text
  | [] => none
  | c :: t =>
    if "\nsource: auto\n".toList.isPrefixOf (c :: t) then some (t.drop 12)
    else (dropSource t).map (c :: ·)

section

variable (lower : Text → Text) (brain : Brain) (ownerUid : Nat) (kind : EntryKind)

section

variable (input : PutEntry) (existing : Entry) (body : Text) (time : Nat)

def disownMemory : Text :=
  if kind = .memory then
    match body with
    | '-' :: '-' :: '-' :: '\n' :: t =>
      match dropSource t with
      | some rest => '-' :: '-' :: '-' :: '\n' :: rest
      | none => body
    | _ => body
  else body

inductive NewBody where
  | text (body : Text)
  | revise (next : Option Text → Option Text)

structure PutEntry where
  kind : EntryKind
  ownerUid : Nat
  name : Text
  body : NewBody
  author : Option (Option String)
  cause : Option String

inductive PutEntryResult where
  | ok (entry : Entry) (created : Bool) (versionId : Option Nat)
  | emptyName
  | refused
  | tooLong
  | entryQuota

def PutEntry.key : EntryKey :=
  ⟨input.kind,input.ownerUid,cleanLine input.name MAX_ENTRY_NAME⟩

def nextBody (current : Option Text) : Option Text :=
  match input.body with
  | .text body => some (disownMemory input.kind body)
  | .revise next => next current

def saveVersion (entry : Entry) (cause : Option String) (time : Nat) : Brain :=
  {brain with
    versions := brain.versions ++ [⟨brain.nextVersion,entry.key,entry.body,entry.author,cause,time⟩]
    nextVersion := brain.nextVersion+1}

def updatedEntry : Entry :=
  let author := input.author.getD existing.author
  {existing with
    body := body
    updatedAt := time
    author := author
    humanEdited := existing.humanEdited || isHuman author || isHuman existing.author}

def newEntry : Entry :=
  let author := input.author.getD none
  ⟨input.key,body,time,time,author,isHuman author⟩

def countEntries (ownerUid : Nat) : Nat :=
  (brain.entries.rows.filter fun e => e.key.kind = kind && e.key.ownerUid = ownerUid).length

def putEntry : Brain × PutEntryResult :=
  if input.key.name = [] then (brain,.emptyName)
  else
    let existing := brain.entries.find? input.key
    match nextBody input (existing.map Entry.body) with
    | none => (brain,.refused)
    | some next =>
      if MAX_ENTRY_BODY < utf16Length next then (brain,.tooLong)
      else
        let body := cleanText next MAX_ENTRY_BODY
        match existing with
        | some entry =>
          let updated := updatedEntry input entry body time
          if entry.body = body then
            ({brain with entries := brain.entries.set updated},.ok updated false none)
          else
            let saved := saveVersion brain entry input.cause time
            ({saved with entries := saved.entries.set updated},.ok updated false (some brain.nextVersion))
        | none =>
          if MAX_ENTRIES_PER_KIND ≤ countEntries brain input.kind input.ownerUid then (brain,.entryQuota)
          else
            let entry := newEntry input body time
            ({brain with entries := brain.entries.set entry},.ok entry true none)

def forgetVersions (key : EntryKey) (keepHistory : Bool) (time : Nat) : Brain :=
  if !keepHistory then {brain with versions := brain.versions.filter fun v => v.key ≠ key}
  else
    match brain.entries.find? key with
    | some entry => saveVersion brain entry (some "forget") time
    | none => brain

def deleteEntry (ownerUid : Nat) (name : Text) (keepHistory : Bool) (time : Nat) : Brain × Bool :=
  let key : EntryKey := ⟨kind,ownerUid,cleanLine name MAX_ENTRY_NAME⟩
  let kept := forgetVersions brain key keepHistory time
  ({kept with entries := kept.entries.erase key},(brain.entries.find? key).isSome)

def getEntry (ownerUid : Nat) (name : Text) : Option Entry :=
  brain.entries.find? ⟨kind,ownerUid,cleanLine name MAX_ENTRY_NAME⟩

def liveBody (ownerUid : Nat) (name : Text) : Option Text :=
  (getEntry brain kind ownerUid name).map Entry.body

def entryVersion (id : Nat) : Option EntryVersion :=
  brain.versions.find? fun v => v.key.ownerUid = ownerUid && v.id = id

-- `lower` stands for the database's lower().
def looksLike (lower : Text → Text) (key other : EntryKey) : Bool :=
  other.ownerUid = key.ownerUid && other.kind = key.kind && lower other.name = lower key.name

def touchedLive (key : EntryKey) (e : Entry) : Bool :=
  looksLike lower key e.key && (e.humanEdited || isHuman e.author)

def touchedVersion (key : EntryKey) (v : EntryVersion) : Bool :=
  looksLike lower key v.key && isHuman v.author

def touched (key : EntryKey) : Bool :=
  brain.entries.rows.any (touchedLive lower key) || brain.versions.any (touchedVersion lower key)

def humanTouched (name : Text) : Bool :=
  touched lower brain ⟨kind,ownerUid,cleanLine name MAX_ENTRY_NAME⟩

inductive Verdict where
  | pass | fail | skipped
deriving DecidableEq

def needsApproval (verdict : Verdict) (improve : Bool) (ownerUid : Nat)
    (kind : EntryKind) (name : Text) : Bool :=
  verdict ≠ .pass || kind ≠ .skill || !improve || humanTouched lower brain ownerUid kind name

def PutEntryResult.isOk : PutEntryResult → Bool
  | .ok _ _ _ => true
  | _ => false

def cleanBody (next : Text) : Text := cleanText next MAX_ENTRY_BODY

inductive Put (brain : Brain) (input : PutEntry) (time : Nat) : Brain → PutEntryResult → Prop
  | failed (result : PutEntryResult) (failed : result.isOk = false) : Put brain input time brain result
  | same (entry : Entry) (next : Text) (found : brain.entries.find? input.key = some entry)
      (given : nextBody input (some entry.body) = some next) (same : entry.body = cleanBody next)
      (named : input.key.name ≠ []) :
      Put brain input time
        {brain with entries := brain.entries.set (updatedEntry input entry (cleanBody next) time)}
        (.ok (updatedEntry input entry (cleanBody next) time) false none)
  | changed (entry : Entry) (next : Text) (found : brain.entries.find? input.key = some entry)
      (given : nextBody input (some entry.body) = some next) (differs : entry.body ≠ cleanBody next)
      (named : input.key.name ≠ []) :
      Put brain input time {saveVersion brain entry input.cause time with
          entries := brain.entries.set (updatedEntry input entry (cleanBody next) time)}
        (.ok (updatedEntry input entry (cleanBody next) time) false (some brain.nextVersion))
  | created (next : Text) (fresh : brain.entries.find? input.key = none)
      (given : nextBody input none = some next) (named : input.key.name ≠ []) :
      Put brain input time {brain with entries := brain.entries.set (newEntry input (cleanBody next) time)}
        (.ok (newEntry input (cleanBody next) time) true none)

theorem putEntry_put : Put brain input time (putEntry brain input time).1 (putEntry brain input time).2 := by
  unfold putEntry
  split
  · exact .failed _ rfl
  next named =>
    dsimp only
    split
    · exact .failed _ rfl
    next next given =>
      split
      · exact .failed _ rfl
      · split
        next entry found =>
          rw [found] at given
          split
          next same => exact .same entry next found given same named
          next differs => exact .changed entry next found given differs named
        next fresh =>
          rw [fresh] at given
          split
          · exact .failed _ rfl
          · exact .created next fresh given named

end

end

section

variable {brain : Brain} {time : Nat}

theorem mem_forgetVersions {gone : EntryKey} {keepHistory : Bool} {v : EntryVersion} :
    v ∈ (forgetVersions brain gone keepHistory time).versions ↔ (v ∈ brain.versions ∧ (keepHistory ∨ v.key ≠ gone)) ∨
        (keepHistory ∧ ∃ e ∈ brain.entries, e.key = gone ∧
          v = ⟨brain.nextVersion,e.key,e.body,e.author,some "forget",time⟩) := by
  unfold forgetVersions
  cases keepHistory with
  | false => simp
  | true =>
    cases found : brain.entries.find? gone with
    | none =>
      have absent := Table.find?_eq_none.mp found
      constructor
      · exact fun mem => .inl ⟨mem,.inl rfl⟩
      · rintro (⟨mem,_⟩ | ⟨_,e,mem,here,_⟩)
        · exact mem
        · exact absurd here (absent e mem)
    | some entry =>
      obtain ⟨mem,here⟩ := Table.find?_eq_some.mp found
      simp only [Bool.not_true,Bool.false_eq_true,if_false,saveVersion,List.mem_append,
        List.mem_singleton,true_or,and_true,true_and]
      refine or_congr_right ⟨fun saved => ⟨entry,mem,here,saved⟩,?_⟩
      rintro ⟨e,mem',here',saved⟩
      rw [saved,Table.eq_of_key mem' mem (here'.trans here.symm)]

theorem forgetVersions_entries (brain : Brain) (gone : EntryKey) (keepHistory : Bool) (time : Nat) :
    (forgetVersions brain gone keepHistory time).entries = brain.entries := by
  unfold forgetVersions
  split
  · rfl
  · split <;> rfl

end

end CompanyBrain.Board
