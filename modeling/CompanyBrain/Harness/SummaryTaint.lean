import CompanyBrain.Harness.CompactionRaces

namespace CompanyBrain.Harness

open Foundations Race
open Sessions (SessionEntry NewEntry Lease LeaseHolder Store Clock)

inductive ComputedFrom (origins : List (SessionEntry × List SessionEntry)) : SessionEntry → SessionEntry → Prop where
  | direct {summary e : SessionEntry} {origin : List SessionEntry} (written : (summary,origin) ∈ origins)
      (mem : e ∈ origin) : ComputedFrom origins summary e
  | through {summary earlier e : SessionEntry} {origin : List SessionEntry} (written : (summary,origin) ∈ origins)
      (mem : earlier ∈ origin) (computed : ComputedFrom origins earlier e) : ComputedFrom origins summary e

def MarkedFor (written : Written) : Prop := written.summarized.securityTainted = written.origin.any securityTainted

structure Marked (w : Race) : Prop where
  jobs : ∀ i written seen, (w.jobs i).planned = some (written,seen) → MarkedFor written
  origins : ∀ summary origin, (summary,origin) ∈ w.origins → securityTainted summary = origin.any securityTainted

theorem untainted_sources {origins : List (SessionEntry × List SessionEntry)}
    (marked : ∀ summary origin, (summary,origin) ∈ origins → securityTainted summary = origin.any securityTainted)
    {summary e : SessionEntry} (computed : ComputedFrom origins summary e) (clean : securityTainted summary = false) :
    securityTainted e = false := by
  have sources {summary e : SessionEntry} {origin : List SessionEntry} (written : (summary,origin) ∈ origins)
      (mem : e ∈ origin) (clean : securityTainted summary = false) : securityTainted e = false := by
    rw [marked summary origin written,List.any_eq_false] at clean
    exact Bool.not_eq_true _ ▸ clean e mem
  induction computed with
  | direct written mem => exact sources written mem clean
  | through written mem _ ih => exact ih (sources written mem clean)

section

variable {w : Race}

theorem marked_put {i : Nat} {job : Job} (marked : Marked w)
    (planned : ∀ written seen, job.planned = some (written,seen) → MarkedFor written) : Marked (w.put i job) := by
  refine ⟨fun j written seen h => ?_,marked.origins⟩
  rw [put_job] at h
  split at h
  · exact planned written seen h
  · exact marked.jobs j written seen h

theorem marked_store (marked : Marked w) (st : Store) (cache : TokenCache) : Marked ⟨st,cache,w.jobs,w.origins⟩ :=
  ⟨marked.jobs,marked.origins⟩

theorem marked_acquire (marked : Marked w) (sessionId : String) (i : Nat) (holder : LeaseHolder) (uuid : String)
    (clock : Clock) {next : String → Job}
    (planned : ∀ token written seen, (next token).planned = some (written,seen) → MarkedFor written) :
    Marked (w.acquire sessionId i holder uuid clock next) := by
  simp only [acquire]
  split
  · exact marked_put (marked_store marked _ _) (planned _)
  · exact marked_store marked _ _

theorem marked_writeSummary (marked : Marked w) (sessionId : String) (i : Nat) (token : String) {written : Written}
    (clock : Clock) {next : Job} (mark : MarkedFor written) (unplanned : next.planned = none) :
    Marked (w.writeSummary sessionId i token written clock next) := by
  have appends := append_appends w.store ⟨sessionId,token⟩ (writeCompaction written.summarized) clock
  unfold writeSummary
  generalize w.store.append ⟨sessionId,token⟩ (writeCompaction written.summarized) clock = result at appends
  cases appends with
  | refused => exact marked_put (marked_store marked _ _) (by simp [Job.planned])
  | written now =>
    refine marked_put ⟨marked.jobs,fun summary origin mem => ?_⟩ (by simp [unplanned])
    rcases List.mem_append.mp mem with old | new
    · exact marked.origins summary origin old
    · cases List.mem_singleton.mp new
      exact (written_tainted written.summarized _ _ now).trans mark

theorem marked_step (c : Compaction) (sessionId : String) (marked : Marked w) (e : RaceEvent) :
    Marked (w.step c sessionId e) := by
  cases e with
  | openTurn i uuid clock =>
    simp only [step]
    split
    · exact marked_acquire marked sessionId i .turn uuid clock (by simp [Job.planned])
    · exact marked
  | append | forceRelease => exact marked_store marked _ _
  | compact _ view =>
    simp only [step,compactForeground]
    split
    · split
      next written cache attempted =>
        have mark := (attempt_advances (seen_visible view (w.log sessionId)) attempted).2
        refine marked_put (marked_store marked _ _) fun written' seen' h => ?_
        cases h
        exact mark
      · exact marked_store marked _ _
    · exact marked
  | snapshot _ tainted =>
    simp only [step,snapshotBackground]
    split
    · split
      next written cache attempted =>
        have mark := (attempt_advances (seen_context (w.log sessionId) tainted) attempted).2
        refine marked_put (marked_store marked _ _) fun written' seen' h => ?_
        cases h
        exact mark
      · exact marked_put (marked_store marked _ _) (by simp [Job.planned])
    · exact marked
  | takeLease i uuid clock =>
    simp only [step]
    split
    next written seen job =>
      refine marked_acquire marked sessionId i .compaction uuid clock fun token written' seen' h => ?_
      exact marked.jobs i written' seen' (by rw [job]; exact h)
    · exact marked
  | recheck i =>
    simp only [step,recheck]
    split
    next token written seen job =>
      split
      · exact marked_put marked (by simp [Job.planned])
      · exact marked_put marked fun written' seen' h => marked.jobs i written' seen' (by rw [job]; exact h)
    · exact marked
  | write i clock =>
    simp only [step,write]
    split
    next token written seen job =>
      exact marked_writeSummary marked sessionId i token clock (marked.jobs i written seen (by rw [job]; rfl)) rfl
    next token written seen job =>
      exact marked_writeSummary marked sessionId i token clock (marked.jobs i written seen (by rw [job]; rfl)) rfl
    · exact marked
  | release =>
    simp only [step]
    split
    · exact marked_put (marked_store marked _ _) (by simp [Job.planned])
    · exact marked_put (marked_store marked _ _) (by simp [Job.planned])
    · exact marked
  | fail =>
    simp only [step]
    split
    all_goals first | exact marked | exact marked_put marked (by simp [Job.planned])

theorem marked_run (c : Compaction) (sessionId : String) (events : List RaceEvent) (marked : Marked w) :
    Marked (run (step c sessionId) w events) := by
  induction events generalizing w with
  | nil => exact marked
  | cons e _ ih => exact ih (marked_step c sessionId marked e)

end

theorem context_untainted {log : List SessionEntry} {e : SessionEntry} (shown : e ∈ forModelContext log false) :
    securityTainted e = false := by
  rw [forModelContext_eq,List.mem_append,Option.mem_toList] at shown
  have passed : passes false e = true := by
    rcases shown with summary | rest
    · exact (Option.filter_eq_some_iff.mp summary).2
    · exact (mem_shownRest.mp rest).2.1
  simpa [passes] using (Bool.and_eq_true_iff.mp passed).2

theorem clean_context (c : Compaction) (sessionId : String) (store : Store) (cache : TokenCache)
    (events : List RaceEvent)
    (e : SessionEntry)
    (shown : e ∈ forModelContext ((run (step c sessionId) (.start store cache) events).log sessionId) false) :
    securityTainted e = false ∧ ∀ x, ComputedFrom (run (step c sessionId) (.start store cache) events).origins e x →
        securityTainted x = false := by
  have start : Marked (.start store cache) := ⟨by simp [start,Job.planned],by simp [start]⟩
  have marked := marked_run c sessionId events start
  have clean := context_untainted shown
  exact ⟨clean,fun x computed => untainted_sources marked.origins computed clean⟩

def taintedReport : SessionEntry :=
  {labelledEntry 0 "channel:eng" with payload := .obj [("securityTainted",.bool true)]}

def taintedStore : Store :=
  ⟨100,.empty,.empty,Table.empty.set ("s",[taintedReport,labelledEntry 1 "channel:eng",
    labelledEntry 2 "channel:eng",labelledEntry 3 "channel:eng"]),.empty⟩

def taintedSummary : List RaceEvent :=
  [.snapshot 0 true ⟨"channel:eng","org:acme",120000,"all"⟩,.takeLease 0 "t1" (fun _ => 0),.recheck 0,
    .write 0 (fun _ => 1)]

theorem clean_context_tainted_summary :
    ((run (step longReports "s") (.start taintedStore []) taintedSummary).origins.map fun o =>
        (o.1.seq,securityTainted o.1,seqs o.2)) = [(4,true,[0,1,2])] ∧
      seqs (forModelContext ((run (step longReports "s") (.start taintedStore []) taintedSummary).log "s") false) =
        [3] ∧
      securityTainted (labelledEntry 3 "channel:eng") = false :=
  ⟨by decide +kernel,by decide +kernel,
    (clean_context longReports "s" taintedStore [] taintedSummary (labelledEntry 3 "channel:eng")
      (by decide +kernel)).1⟩

end CompanyBrain.Harness
