import CompanyBrain.Board.Entries
import CompanyBrain.Board.Posts
import CompanyBrain.Foundations.Ranking
import Mathlib.Data.List.Induction

namespace CompanyBrain.Board

open Foundations Function

def UPLOAD_REPO_ID : Nat := 0

structure DocumentKey where
  ownerUid : Nat
  repoId : Nat
  path : Text
deriving DecidableEq

structure Document where
  key : DocumentKey
  repoName : Text
  title : Text
  body : Text

structure Library where
  documents : Table Document.key
  brain : Brain
  board : BoardData

def ENTRY_KINDS : List EntryKind := [.project,.memory,.skill,.process,.rule,.lesson,.record,.role]

def EntryKind.name : EntryKind → String
  | .project => "project"
  | .memory => "memory"
  | .skill => "skill"
  | .process => "process"
  | .rule => "rule"
  | .lesson => "lesson"
  | .record => "record"
  | .role => "role"

inductive FoundKind where
  | document
  | entry (kind : EntryKind)
deriving DecidableEq

structure Found (ρ : Type) where
  kind : FoundKind
  title : Text
  source : Text
  repo : Option Text
  body : Text
  snippet : Text
  rank : ρ
deriving DecidableEq

structure SearchOptions where
  allow : Text → Nat → Option Bool
  limit : Option Int
  kinds : Option (List String)

-- The database's text search: what a query matches, how well, and the passage it marks.
structure TextSearch (ρ : Type) where
  hit : Text → Text → Bool
  rank : Text → Text → ρ
  headline : Text → Text → Text

def searchWord (w : Text) : Text :=
  (w.filter fun c => c ≠ '"' && c ≠ '\'').dropWhile fun c => c = '-' || c = '!'

def toSearchQuery (text : Text) : Text :=
  joinWith " or ".toList ((((text.splitOnP isJsSpace).map searchWord).filter fun w =>
      w ≠ [] && w.map Char.toLower ≠ "or".toList).take 40)

def SearchOptions.capped (opts : SearchOptions) : Nat := (min (max (opts.limit.getD 8) 1) 25).toNat

def SearchOptions.wanted (opts : SearchOptions) : List String :=
  match opts.kinds with
  | some (kind :: kinds) => kind :: kinds
  | _ => "document" :: ENTRY_KINDS.map EntryKind.name

def SearchOptions.entryKinds (opts : SearchOptions) : List EntryKind :=
  ENTRY_KINDS.filter fun k => opts.wanted.contains k.name

def Document.indexed (d : Document) : Text := d.title ++ ' ' :: d.body

def Entry.indexed (e : Entry) : Text := e.key.name ++ ' ' :: e.body

section

variable {ρ : Type} [LinearOrder ρ] (engine : TextSearch ρ) (ownerUid : Nat) (q : Text)

def matchingDocuments (library : Library) : List Document :=
  ranked (fun d => engine.rank q d.indexed)
    (library.documents.rows.filter fun d => d.key.ownerUid = ownerUid && engine.hit q d.indexed)

def matchingEntries (library : Library) (kinds : List EntryKind) : List Entry :=
  ranked (fun e => engine.rank q e.indexed) (library.brain.entries.rows.filter fun e =>
      e.key.ownerUid = ownerUid && kinds.contains e.key.kind && engine.hit q e.indexed)

def foundDocument (d : Document) : Found ρ :=
  ⟨.document,d.title,d.repoName ++ '/' :: d.key.path,some d.repoName,d.body,engine.headline q d.body,
    engine.rank q d.indexed⟩

def foundEntry (e : Entry) : Found ρ :=
  ⟨.entry e.key.kind,e.key.name,"brain/".toList ++ e.key.kind.name.toList ++ '/' :: e.key.name,none,e.body,
    engine.headline q e.body,engine.rank q e.indexed⟩

end

def repoNames (docs : List Document) : Nat → Option Text :=
  docs.foldl (fun repos d =>
    if d.key.repoId ≠ UPLOAD_REPO_ID then update repos d.key.repoId (some d.repoName) else repos)
    fun _ => none

def verdicts (allow : Text → Nat → Option Bool) (docs : List Document) (repoId : Nat) : Option Bool :=
  (repoNames docs repoId).map fun name => (allow name repoId).getD false

def keptDocuments (allow : Text → Nat → Option Bool) (docs : List Document) : List Document :=
  docs.filter fun d => d.key.repoId = UPLOAD_REPO_ID || verdicts allow docs d.key.repoId = some true

section

variable {ρ : Type} [LinearOrder ρ] (engine : TextSearch ρ)

def documentRows (library : Library) (ownerUid : Nat) (q : Text) (opts : SearchOptions) : List Document :=
  if opts.wanted.contains "document" then
    (matchingDocuments engine ownerUid q library).take (opts.capped * 6)
  else []

def entryRows (library : Library) (ownerUid : Nat) (q : Text) (opts : SearchOptions) : List Entry :=
  if opts.entryKinds ≠ [] then (matchingEntries engine ownerUid q library opts.entryKinds).take opts.capped
  else []

def search (library : Library) (ownerUid : Nat) (query : Text) (opts : SearchOptions) : List (Found ρ) :=
  let q := toSearchQuery (cleanLine query 400)
  if q = [] then []
  else
    let found :=
      (keptDocuments opts.allow (documentRows engine library ownerUid q opts)).map (foundDocument engine q) ++
        (entryRows engine library ownerUid q opts).map (foundEntry engine q)
    (ranked Found.rank found).take opts.capped

end

def readable (may : Nat → Bool) (repoId : Nat) : Bool := repoId = UPLOAD_REPO_ID || may repoId

def Document.readable (may : Nat → Bool) (d : Document) : Bool := Board.readable may d.key.repoId

def Library.withoutRefused (may : Nat → Bool) (library : Library) : Library :=
  {library with
    documents := library.documents.filter (Document.readable may)
    board := {library.board with
      posts := library.board.posts.filter fun p => p.type ≠ .decision || readable may p.repoId}}

def Answers (allow : Text → Nat → Option Bool) (may : Nat → Bool) (docs : List Document) : Prop :=
  ∀ d ∈ docs, d.key.repoId ≠ UPLOAD_REPO_ID → (allow d.repoName d.key.repoId).getD false = may d.key.repoId

theorem repoNames_append (docs : List Document) (d : Document) :
    repoNames (docs ++ [d]) = if d.key.repoId ≠ UPLOAD_REPO_ID then
      update (repoNames docs) d.key.repoId (some d.repoName) else repoNames docs := by
  unfold repoNames
  rw [List.foldl_append,List.foldl_cons,List.foldl_nil]

variable {docs : List Document}

theorem mem_of_repoNames {repoId : Nat} {name : Text} (stored : repoNames docs repoId = some name) :
    ∃ d ∈ docs, d.key.repoId = repoId ∧ d.repoName = name ∧ repoId ≠ UPLOAD_REPO_ID := by
  induction docs using List.reverseRecOn with
  | nil => cases stored
  | append_singleton docs d ih =>
    rw [repoNames_append] at stored
    have earlier (h : repoNames docs repoId = some name) :
        ∃ e ∈ docs ++ [d], e.key.repoId = repoId ∧ e.repoName = name ∧ repoId ≠ UPLOAD_REPO_ID := by
      obtain ⟨e,mem,same⟩ := ih h
      exact ⟨e,List.mem_append_left _ mem,same⟩
    split at stored
    next repo =>
      by_cases same : repoId = d.key.repoId
      · rw [same,update_self] at stored
        exact ⟨d,by simp,same.symm,Option.some.inj stored,same ▸ repo⟩
      · rw [update_of_ne same] at stored
        exact earlier stored
    · exact earlier stored

theorem repoNames_of_mem {d : Document} (mem : d ∈ docs) (repo : d.key.repoId ≠ UPLOAD_REPO_ID) :
    ∃ name, repoNames docs d.key.repoId = some name := by
  induction docs using List.reverseRecOn with
  | nil => cases mem
  | append_singleton docs e ih =>
    rw [repoNames_append]
    by_cases same : d.key.repoId = e.key.repoId
    · exact ⟨e.repoName,by rw [if_pos (same ▸ repo),same,update_self]⟩
    · have inside : d ∈ docs := by
        rcases List.mem_append.mp mem with h | h
        · exact h
        · exact absurd (congrArg (fun d => d.key.repoId) (List.mem_singleton.mp h)) same
      obtain ⟨name,stored⟩ := ih inside
      refine ⟨name,?_⟩
      split
      · rw [update_of_ne same,stored]
      · exact stored

theorem keptDocuments_eq {allow : Text → Nat → Option Bool} {may : Nat → Bool} (answers : Answers allow may docs) :
    keptDocuments allow docs = docs.filter (Document.readable may) := by
  refine List.filter_congr fun d mem => ?_
  by_cases upload : d.key.repoId = UPLOAD_REPO_ID
  · simp [Document.readable,readable,upload]
  · obtain ⟨name,stored⟩ := repoNames_of_mem mem upload
    obtain ⟨e,inside,repo,named,_⟩ := mem_of_repoNames stored
    have same := answers e inside (repo ▸ upload)
    rw [repo,named] at same
    simp [Document.readable,readable,verdicts,stored,same]

section

variable {ρ : Type} [LinearOrder ρ] {engine : TextSearch ρ} {library : Library} {ownerUid : Nat} {q : Text}
  {opts : SearchOptions} {may : Nat → Bool} {d : Document}

theorem mem_matchingDocuments : d ∈ matchingDocuments engine ownerUid q library ↔
    d ∈ library.documents ∧ d.key.ownerUid = ownerUid ∧ engine.hit q d.indexed := by
  rw [matchingDocuments,mem_ranked,List.mem_filter,Bool.and_eq_true,decide_eq_true_iff]
  exact Iff.rfl

theorem mem_documentRows (mem : d ∈ documentRows engine library ownerUid q opts) :
    d ∈ matchingDocuments engine ownerUid q library := by
  unfold documentRows at mem
  split at mem
  · exact List.mem_of_mem_take mem
  · cases mem

theorem matchingDocuments_withoutRefused : matchingDocuments engine ownerUid q (library.withoutRefused may) =
    (matchingDocuments engine ownerUid q library).filter (Document.readable may) := by
  unfold matchingDocuments
  rw [filter_ranked]
  simp only [Library.withoutRefused,Table.filter,List.filter_filter,Bool.and_comm]

theorem answers_documentRows
    (answers : Answers opts.allow may (library.documents.rows.filter fun d => d.key.ownerUid = ownerUid)) :
    Answers opts.allow may (documentRows engine library ownerUid q opts) := by
  intro d mem
  obtain ⟨stored,owned,_⟩ := mem_matchingDocuments.mp (mem_documentRows mem)
  exact answers d (List.mem_filter.mpr ⟨stored,decide_eq_true owned⟩)

theorem answers_withoutRefused {allow : Text → Nat → Option Bool}
    (answers : Answers allow may (library.documents.rows.filter fun d => d.key.ownerUid = ownerUid)) :
    Answers allow may ((library.withoutRefused may).documents.rows.filter fun d => d.key.ownerUid = ownerUid) := by
  intro d mem
  obtain ⟨stored,owned⟩ := List.mem_filter.mp mem
  exact answers d (List.mem_filter.mpr ⟨(Table.mem_filter.mp stored).1,owned⟩)

end

section

variable {ρ : Type} [LinearOrder ρ] (engine : TextSearch ρ)

def firstMissed (may : Nat → Bool) (library : Library) (ownerUid : Nat) (q : Text) (opts : SearchOptions) :
    Option Document :=
  ((matchingDocuments engine ownerUid q library).filter (Document.readable may))[
    ((documentRows engine library ownerUid q opts).filter (Document.readable may)).length]?

-- When readable documents lie beyond the row limit, enough results outrank the first of them.
def Undisplaced (may : Nat → Bool) (library : Library) (ownerUid : Nat) (q : Text) (opts : SearchOptions) : Prop :=
  q ≠ [] → opts.wanted.contains "document" = true →
    ∀ d, firstMissed engine may library ownerUid q opts = some d →
      opts.capped ≤ ((documentRows engine library ownerUid q opts).filter (Document.readable may)).length +
        ((entryRows engine library ownerUid q opts).filter fun e =>
          engine.rank q d.indexed < engine.rank q e.indexed).length

variable {engine} {library : Library} {ownerUid : Nat} {q : Text} {opts : SearchOptions} {may : Nat → Bool}

section

variable (wanted : opts.wanted.contains "document")
include wanted

theorem documentRows_withoutRefused :
    documentRows engine (library.withoutRefused may) ownerUid q opts =
      (documentRows engine library ownerUid q opts).filter (Document.readable may) ++
        (((matchingDocuments engine ownerUid q library).drop (opts.capped * 6)).filter
          (Document.readable may)).take (opts.capped * 6 -
            ((documentRows engine library ownerUid q opts).filter (Document.readable may)).length) := by
  have short : ((documentRows engine library ownerUid q opts).filter (Document.readable may)).length ≤
      opts.capped * 6 := by
    unfold documentRows
    rw [if_pos wanted]
    exact le_trans (List.length_filter_le _ _) (List.length_take_le _ _)
  have parts : (matchingDocuments engine ownerUid q library).filter (Document.readable may) =
      (documentRows engine library ownerUid q opts).filter (Document.readable may) ++
        ((matchingDocuments engine ownerUid q library).drop (opts.capped * 6)).filter (Document.readable may) := by
    unfold documentRows
    rw [if_pos wanted,← List.filter_append,List.take_append_drop]
  conv_lhs => unfold documentRows
  rw [if_pos wanted,matchingDocuments_withoutRefused,parts,List.take_append,List.take_of_length_le short]

omit wanted in
theorem entryRows_withoutRefused :
    entryRows engine (library.withoutRefused may) ownerUid q opts = entryRows engine library ownerUid q opts := rfl

theorem beyond_sorted {d : Document} {later : List Document}
    (beyond : ((matchingDocuments engine ownerUid q library).drop (opts.capped * 6)).filter
      (Document.readable may) = d :: later) :
    (∀ y ∈ (documentRows engine library ownerUid q opts).filter (Document.readable may),
        engine.rank q d.indexed ≤ engine.rank q y.indexed) ∧
      ∀ y ∈ later, engine.rank q y.indexed ≤ engine.rank q d.indexed := by
  have sorted : (matchingDocuments engine ownerUid q library).Pairwise
      fun x y => engine.rank q y.indexed ≤ engine.rank q x.indexed := pairwise_ranked
  rw [← List.take_append_drop (opts.capped * 6) (matchingDocuments engine ownerUid q library)] at sorted
  obtain ⟨_,tail,across⟩ := List.pairwise_append.mp sorted
  have member (y : Document) (mem : y ∈ d :: later) :
      y ∈ (matchingDocuments engine ownerUid q library).drop (opts.capped * 6) :=
    List.mem_of_mem_filter (beyond ▸ mem)
  constructor
  · intro y mem
    unfold documentRows at mem
    rw [if_pos wanted] at mem
    exact across y (List.mem_of_mem_filter mem) d (member d (.head _))
  · have kept := tail.filter (Document.readable may)
    rw [beyond] at kept
    exact (List.pairwise_cons.mp kept).1

theorem firstMissed_eq : firstMissed engine may library ownerUid q opts =
      (((matchingDocuments engine ownerUid q library).drop (opts.capped * 6)).filter
        (Document.readable may)).head? := by
  unfold firstMissed documentRows
  rw [if_pos wanted]
  conv_lhs =>
    enter [1]
    rw [← List.take_append_drop (opts.capped * 6) (matchingDocuments engine ownerUid q library),
      List.filter_append]
  rw [List.getElem?_append_right le_rfl,Nat.sub_self,List.head?_eq_getElem?]

end

variable {query : Text}

section

variable (answers : Answers opts.allow may (library.documents.rows.filter fun d => d.key.ownerUid = ownerUid))
include answers

theorem search_eq
    (asked : toSearchQuery (cleanLine query 400) = q) (worded : q ≠ []) : search engine library ownerUid query opts =
      (ranked Found.rank (((documentRows engine library ownerUid q opts).filter (Document.readable may)).map
            (foundDocument engine q) ++
          (entryRows engine library ownerUid q opts).map (foundEntry engine q))).take opts.capped := by
  subst asked
  unfold search
  rw [if_neg worded,keptDocuments_eq (answers_documentRows answers)]

theorem found_readable
    {f : Found ρ}
    (mem : f ∈ search engine library ownerUid query opts) (document : f.kind = .document) :
    ∃ d ∈ library.documents, d.key.ownerUid = ownerUid ∧ d.readable may ∧
      f = foundDocument engine (toSearchQuery (cleanLine query 400)) d := by
  by_cases asked : toSearchQuery (cleanLine query 400) = []
  · rw [search,if_pos asked] at mem
    cases mem
  · rw [search_eq answers rfl asked] at mem
    have inside := mem_ranked.mp (List.mem_of_mem_take mem)
    rcases List.mem_append.mp inside with inside | inside
    · obtain ⟨d,row,rfl⟩ := List.mem_map.mp inside
      obtain ⟨row,allowed⟩ := List.mem_filter.mp row
      obtain ⟨stored,owned,_⟩ := mem_matchingDocuments.mp (mem_documentRows row)
      exact ⟨d,stored,owned,allowed,rfl⟩
    · obtain ⟨e,_,rfl⟩ := List.mem_map.mp inside
      cases document

omit answers in
theorem take_found_eq_iff {rows later : List Document} {d : Document} (entries : List Entry) (n room : Nat)
    (above : ∀ y ∈ rows, engine.rank q d.indexed ≤ engine.rank q y.indexed)
    (below : ∀ y ∈ later, engine.rank q y.indexed ≤ engine.rank q d.indexed) :
    (ranked Found.rank (rows.map (foundDocument engine q) ++ entries.map (foundEntry engine q))).take n =
        (ranked Found.rank ((rows ++ (d :: later).take (room+1)).map (foundDocument engine q) ++
          entries.map (foundEntry engine q))).take n ↔
      n ≤ rows.length + (entries.filter fun e => engine.rank q d.indexed < engine.rank q e.indexed).length := by
  rw [List.take_succ_cons,List.map_append,List.append_assoc,List.map_cons,take_ranked_eq_iff,
    List.length_map,List.filter_map,List.length_map]
  · rfl
  · intro f mem
    obtain ⟨y,row,rfl⟩ := List.mem_map.mp mem
    exact above y row
  · intro f mem
    obtain ⟨y,row,rfl⟩ := List.mem_map.mp mem
    exact below y (List.mem_of_mem_take row)
  · intro mem
    obtain ⟨e,_,same⟩ := List.mem_map.mp mem
    exact nomatch congrArg Found.kind same

theorem search_eq_iff
    :
    search engine library ownerUid query opts = search engine (library.withoutRefused may) ownerUid query opts ↔
      Undisplaced engine may library ownerUid (toSearchQuery (cleanLine query 400)) opts := by
  generalize asked : toSearchQuery (cleanLine query 400) = q
  by_cases worded : q ≠ []
  swap
  · rw [not_not] at worded
    subst worded
    unfold search
    rw [if_pos asked,if_pos asked]
    exact iff_of_true rfl fun h => absurd rfl h
  rw [search_eq answers asked worded,search_eq (answers_withoutRefused answers) asked worded,
    entryRows_withoutRefused]
  by_cases wanted : opts.wanted.contains "document" = true
  swap
  · refine iff_of_true ?_ fun _ h => absurd h wanted
    unfold documentRows
    rw [if_neg wanted,if_neg wanted]
  have unrefused : (documentRows engine (library.withoutRefused may) ownerUid q opts).filter
      (Document.readable may) = documentRows engine (library.withoutRefused may) ownerUid q opts := by
    rw [List.filter_eq_self]
    intro d mem
    exact (Table.mem_filter.mp (mem_matchingDocuments.mp (mem_documentRows mem)).1).2
  rw [unrefused,documentRows_withoutRefused wanted]
  unfold Undisplaced
  rw [firstMissed_eq wanted]
  cases beyond : ((matchingDocuments engine ownerUid q library).drop (opts.capped * 6)).filter
      (Document.readable may) with
  | nil =>
    rw [List.take_nil,List.append_nil]
    exact iff_of_true rfl fun _ _ d missed => nomatch missed
  | cons d later =>
    obtain ⟨above,below⟩ := beyond_sorted wanted beyond
    cases room : opts.capped * 6 -
        ((documentRows engine library ownerUid q opts).filter (Document.readable may)).length with
    | zero =>
      rw [List.take_zero,List.append_nil]
      exact iff_of_true rfl fun _ _ _ _ => by omega
    | succ room =>
      rw [take_found_eq_iff _ _ _ above below]
      constructor
      · rintro enough _ _ e ⟨⟩
        exact enough
      · intro enough
        exact enough worded wanted d rfl

end

variable (engine may library ownerUid opts)

theorem search_ignores_refused (query : Text) (answers : Answers opts.allow may
      (library.documents.rows.filter fun d => d.key.ownerUid = ownerUid)) :
    (∀ f ∈ search engine library ownerUid query opts, f.kind = .document →
        ∃ d ∈ library.documents, d.key.ownerUid = ownerUid ∧ d.readable may = true ∧
          f = foundDocument engine (toSearchQuery (cleanLine query 400)) d) ∧
      (search engine library ownerUid query opts = search engine (library.withoutRefused may) ownerUid query opts ↔
        Undisplaced engine may library ownerUid (toSearchQuery (cleanLine query 400)) opts) :=
  ⟨fun _ mem document => found_readable answers mem document,search_eq_iff answers⟩

end

def byLength : TextSearch Nat := ⟨fun q t => q.isPrefixOf t,fun _ t => t.length,fun _ t => t⟩

def onlyOpen (_ : Text) (repoId : Nat) : Option Bool := some (repoId = 9)

def openPlan : Document := ⟨⟨1,9,"plan.md".toList⟩,"acme/open".toList,"plan".toList,"ship".toList⟩

def hiddenPlan (path : Text) : Document :=
  ⟨⟨1,7,path⟩,"acme/hidden".toList,"plan".toList,"ship quietly".toList⟩

def sixHidden : Library :=
  ⟨⟨openPlan :: (["a","b","c","d","e","f"].map fun path => hiddenPlan path.toList),by decide⟩,Brain.empty,
    BoardData.empty⟩

theorem two_results_undisplaced : search byLength sixHidden 1 "plan".toList ⟨onlyOpen,some 2,none⟩ =
      search byLength (sixHidden.withoutRefused (· = 9)) 1 "plan".toList ⟨onlyOpen,some 2,none⟩ :=
  (search_ignores_refused byLength sixHidden 1 ⟨onlyOpen,some 2,none⟩ (· = 9) "plan".toList
    (by unfold Answers; decide +kernel)).2.mpr fun _ _ d missed =>
      nomatch missed.symm.trans (show firstMissed _ _ _ _ _ _ = none by decide +kernel)

theorem hidden_displace_open : search byLength sixHidden 1 "plan".toList ⟨onlyOpen,some 1,none⟩ = [] ∧
      search byLength (sixHidden.withoutRefused (· = 9)) 1 "plan".toList ⟨onlyOpen,some 1,none⟩ =
        [foundDocument byLength "plan".toList openPlan] := by
  decide +kernel

end CompanyBrain.Board
