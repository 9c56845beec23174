import CompanyBrain.Harness.CompactionAudience
import CompanyBrain.Sessions.Participants

namespace CompanyBrain.Harness

open Foundations Table
open Resolution
open Sessions (SessionEntry NewEntry Lease LeaseHolder HeldLease Store Clock)

structure CompactionRequest where
  scopeId : ScopeId
  orgScopeId : ScopeId
  maxContextTokens : ℚ
  text : String

def Compaction.summarizeVisible (c : Compaction) (cache : TokenCache) (visible : List SessionEntry)
    (r : CompactionRequest) : Option Written × TokenCache :=
  if c.isManagedGroupScope r.scopeId || c.compactHistory.isNone then (none,cache)
  else
    let budget := c.budget r.maxContextTokens
    let result := summarizeForCompaction c.tk cache visible budget r.scopeId r.orgScopeId r.text
    (result.1.map fun s => ⟨s,handed c.tk cache visible budget⟩,result.2)

def Compaction.attempt (c : Compaction) (cache : TokenCache) (visible : List SessionEntry)
    (fraction : ℚ) (r : CompactionRequest) : Option Written × TokenCache :=
  match overBudgetFraction c.tk cache visible c.maxContextEntries r.maxContextTokens fraction with
  | (false,cache) => (none,cache)
  | (true,cache) => c.summarizeVisible cache visible r

inductive Job where
  | idle
  | turn (token : String)
  | compacting (token : String) (written : Written) (seen : List SessionEntry)
  | summarized (written : Written) (seen : List SessionEntry)
  | leased (token : String) (written : Written) (seen : List SessionEntry)
  | checked (token : String) (written : Written) (seen : List SessionEntry)
  | closing (token : String)
  | done

structure Race where
  store : Store
  cache : TokenCache
  jobs : Nat → Job
  origins : List (SessionEntry × List SessionEntry)

inductive RaceEvent where
  | openTurn (i : Nat) (uuid : String) (clock : Clock)
  | append (lease : Lease) (entry : NewEntry) (clock : Clock)
  | compact (i : Nat) (view : HistoryView) (maxContextTokens : ℚ) (text : String)
  | snapshot (i : Nat) (includeSecurityTainted : Bool) (request : CompactionRequest)
  | takeLease (i : Nat) (uuid : String) (clock : Clock)
  | recheck (i : Nat)
  | write (i : Nat) (clock : Clock)
  | release (i : Nat)
  | fail (i : Nat)
  | forceRelease

def RaceEvent.draws : RaceEvent → List String
  | openTurn _ uuid _ => [uuid]
  | takeLease _ uuid _ => [uuid]
  | _ => []

def writesSummary (entry : NewEntry) : Bool := isSummary (stored "" 0 entry 0)

def RaceEvent.plain : RaceEvent → Bool
  | append _ entry _ => !writesSummary entry
  | _ => true

namespace Race

variable (c : Compaction) (sessionId : String)

def start (store : Store) (cache : TokenCache) : Race := ⟨store,cache,fun _ => .idle,[]⟩

section

variable (w : Race) (i : Nat) (token : String)

def put (job : Job) : Race :=
  {w with jobs := fun j => if j = i then job else w.jobs j}

def log (w : Race) : List SessionEntry := w.store.log sessionId

def acquire (holder : LeaseHolder) (uuid : String) (clock : Clock) (next : String → Job) : Race :=
  let (store,attempt) := w.store.acquireLease sessionId (some holder) uuid clock
  match attempt.lease with
  | some lease => {w with store := store}.put i (next lease.token)
  | none => {w with store := store}

def compactForeground (view : HistoryView) (maxContextTokens : ℚ) (text : String) : Race :=
  match w.jobs i with
  | .turn token =>
    let entries := w.log sessionId
    let request := ⟨view.scopeId,view.orgScopeId,maxContextTokens,text⟩
    match c.attempt w.cache (visibleHistory view entries) compactHardFraction request with
    | (some written,cache) => {w with cache := cache}.put i (.compacting token written entries)
    | (none,cache) => {w with cache := cache}
  | _ => w

def snapshotBackground (includeSecurityTainted : Bool) (request : CompactionRequest) : Race :=
  match w.jobs i with
  | .idle =>
    let entries := w.log sessionId
    let history := forModelContext entries includeSecurityTainted
    match c.attempt w.cache history compactSoftFraction request with
    | (some written,cache) => {w with cache := cache}.put i (.summarized written entries)
    | (none,cache) => {w with cache := cache}.put i .done
  | _ => w

def snapshotSeq (seen : List SessionEntry) : Int := (seen.getLast?.map fun e => (e.seq : Int)).getD (-1)

def since (seen : List SessionEntry) : List SessionEntry :=
  (w.log sessionId).filter fun e => snapshotSeq seen+1 ≤ e.seq

def recheck : Race :=
  match w.jobs i with
  | .leased token written seen =>
    if (w.since sessionId seen).any isSummary then w.put i (.closing token)
    else w.put i (.checked token written seen)
  | _ => w

def writeSummary (written : Written) (clock : Clock) (next : Job) : Race :=
  match w.store.append ⟨sessionId,token⟩ (writeCompaction written.summarized) clock with
  | (store,.ok summary) => {w with store := store, origins := w.origins ++ [(summary,written.origin)]}.put i next
  | (store,.error _) => {w with store := store}.put i (.closing token)

def write (clock : Clock) : Race :=
  match w.jobs i with
  | .compacting token written _ => w.writeSummary sessionId i token written clock (.turn token)
  | .checked token written _ => w.writeSummary sessionId i token written clock (.closing token)
  | _ => w

def release : Race :=
  {w with store := w.store.releaseLease ⟨sessionId,token⟩}.put i .done

def step : RaceEvent → Race
  | .openTurn i uuid clock =>
    match w.jobs i with
    | .idle => w.acquire sessionId i .turn uuid clock .turn
    | _ => w
  | .append lease entry clock => {w with store := (w.store.append lease entry clock).1}
  | .compact i view maxContextTokens text => w.compactForeground c sessionId i view maxContextTokens text
  | .snapshot i includeSecurityTainted request => w.snapshotBackground c sessionId i includeSecurityTainted request
  | .takeLease i uuid clock =>
    match w.jobs i with
    | .summarized written seen => w.acquire sessionId i .compaction uuid clock (.leased · written seen)
    | _ => w
  | .recheck i => w.recheck sessionId i
  | .write i clock => w.write sessionId i clock
  | .release i =>
    match w.jobs i with
    | .turn token => w.release sessionId i token
    | .closing token => w.release sessionId i token
    | _ => w
  | .fail i =>
    match w.jobs i with
    | .turn token => w.put i (.closing token)
    | .compacting token _ _ => w.put i (.closing token)
    | .leased token _ _ => w.put i (.closing token)
    | .checked token _ _ => w.put i (.closing token)
    | .summarized _ _ => w.put i .done
    | _ => w
  | .forceRelease => {w with store := w.store.forceReleaseLease sessionId}

end

end Race

def held (st : Store) (sessionId : String) : Option String := (st.leases.find? sessionId).map HeldLease.token

inductive Appends (st : Store) (lease : Lease) (entry : NewEntry) : Store × Except String SessionEntry → Prop where
  | refused {st' : Store} (reason : String) (log : ∀ s, st'.log s = st.log s) (same : ∀ s, held st' s = held st s) :
      Appends st lease entry (st',.error reason)
  | written {st' : Store} (now : Int) (holds : held st lease.sessionId = some lease.token)
      (log : ∀ s, st'.log s = if s = lease.sessionId
        then st.log s ++ [stored s (st.log s).length entry now] else st.log s)
      (same : ∀ s, held st' s = held st s) :
      Appends st lease entry (st',.ok (stored lease.sessionId (st.log lease.sessionId).length entry now))

theorem held_renewed {st : Store} {sessionId : String} {lease : HeldLease}
    (found : st.leases.find? sessionId = some lease)
    (expiresAt : Int) (s : String) :
    ((st.leases.set {lease with expiresAt := expiresAt}).find? s).map HeldLease.token = held st s := by
  have key := key_of_find? found
  rw [find?_set]
  split
  next here =>
    have same : s = sessionId := here.trans key
    rw [held,same,found]
    rfl
  next => rfl

theorem append_appends (st : Store) (lease : Lease) (entry : NewEntry) (clock : Clock) :
    Appends st lease entry (st.append lease entry clock) := by
  unfold Store.append
  cases found : st.leases.find? lease.sessionId with
  | none => exact .refused _ (fun _ => rfl) fun _ => rfl
  | some =>
    dsimp only
    split
    next => exact .refused _ (fun _ => rfl) fun _ => rfl
    next mine =>
      have renewed := held_renewed found (clock 0 + st.leaseTtlMs)
      cases opened : st.entries.find? lease.sessionId with
      | none => exact .refused _ (fun _ => rfl) renewed
      | some row =>
        obtain ⟨id,log⟩ := row
        have log_eq : st.log lease.sessionId = log := by simp [Store.log,opened]
        have holds : held st lease.sessionId = some lease.token := by
          rw [held,found]
          exact congrArg some (not_not.mp mine)
        rw [← log_eq]
        refine .written (clock 1) holds (fun s => ?_) renewed
        rw [Store.log,find?_set]
        by_cases here : s = lease.sessionId
        · rw [if_pos here,if_pos here,here]
          rfl
        · rw [if_neg here,if_neg here]
          rfl

inductive Acquires (st : Store) (sessionId uuid : String) : Store × Sessions.LeaseAttempt → Prop where
  | refused {attempt : Sessions.LeaseAttempt} (none' : attempt.lease = none) : Acquires st sessionId uuid (st,attempt)
  | granted {st' : Store} {attempt : Sessions.LeaseAttempt} (lease : attempt.lease = some ⟨sessionId,uuid⟩)
      (log : ∀ s, st'.log s = st.log s) (holds : ∀ s, held st' s = if s = sessionId then some uuid else held st s) :
      Acquires st sessionId uuid (st',attempt)

theorem acquire_acquires (st : Store) (sessionId : String) (holder : Option LeaseHolder) (uuid : String)
    (clock : Clock) :
    Acquires st sessionId uuid (st.acquireLease sessionId holder uuid clock) := by
  have holds (fresh : HeldLease) (key : fresh.sessionId = sessionId) (token : fresh.token = uuid) (s : String) :
      ((st.leases.set fresh).find? s).map HeldLease.token = if s = sessionId then some uuid else held st s := by
    rw [find?_set,key]
    split
    · exact congrArg some token
    · rfl
  simp only [Store.acquireLease]
  split
  · split
    · exact .refused rfl
    · exact .granted rfl (fun _ => rfl) (holds _ rfl rfl)
  · exact .granted rfl (fun _ => rfl) (holds _ rfl rfl)

theorem release_held (st : Store) (lease : Lease) (s t : String) (still : held (st.releaseLease lease) s = some t) :
    held st s = some t := by
  unfold Store.releaseLease at still
  split at still
  · split at still
    · rw [held,find?_erase] at still
      split at still
      · cases still
      · exact still
    · exact still
  · exact still

theorem release_log (st : Store) (lease : Lease) (s : String) : (st.releaseLease lease).log s = st.log s := by
  unfold Store.releaseLease
  split
  · split <;> rfl
  · rfl

theorem force_held (st : Store) (sessionId s t : String) (still : held (st.forceReleaseLease sessionId) s = some t) :
    held st s = some t := by
  rw [Store.forceReleaseLease,held,find?_erase] at still
  split at still
  · cases still
  · exact still

def throughs (log : List SessionEntry) : List ℚ :=
  log.filterMap fun e => (contextSummaryPayload e).map SummaryPayload.throughSeq

def Ascending (log : List SessionEntry) : Prop := (throughs log).Pairwise (· < ·)

variable {e : SessionEntry}

theorem summary_replayable (h : isSummary e) : replayable e := by
  obtain ⟨summary,payload⟩ := payload_of_summary h
  unfold contextSummaryPayload at payload
  split at payload
  next type kind _ _ => simp [replayable,type,kind]
  next => cases payload

theorem throughs_snoc_plain (log : List SessionEntry) (plain : isSummary e = false) :
    throughs (log ++ [e]) = throughs log := by
  have none : contextSummaryPayload e = none := by simpa [isSummary] using plain
  simp [throughs,none]

theorem cutAt_eq (log : List SessionEntry) : cutAt log = (throughs log).getLast? := by
  induction log using List.reverseRecOn with
  | nil => rfl
  | append_singleton log e ih =>
    cases own : isSummary e with
    | true =>
      obtain ⟨summary,payload⟩ := payload_of_summary own
      rw [(cutAt_snoc log (summary_replayable own) payload).1]
      simp [throughs,payload]
    | false =>
      rw [throughs_snoc_plain log own,← ih,cutAt,cutAt,List.filter_append,findLast_append]
      have skipped : findLast isSummary ([e].filter replayable) = none :=
        findLast_none fun x hx => by
          rw [List.mem_singleton.mp (List.mem_filter.mp hx).1]
          exact own
      rw [skipped,Option.none_or]

variable {log : List SessionEntry}

theorem ascending_snoc {summary : SummaryPayload} (ascending : Ascending log)
    (payload : contextSummaryPayload e = some summary)
    (beyond : ∀ bound, cutAt log = some bound → bound < summary.throughSeq) : Ascending (log ++ [e]) := by
  have whole : throughs (log ++ [e]) = throughs log ++ [summary.throughSeq] := by simp [throughs,payload]
  rw [Ascending,whole,List.pairwise_append]
  refine ⟨ascending,List.pairwise_singleton _ _,fun x hx y hy => ?_⟩
  rw [List.mem_singleton.mp hy]
  obtain ⟨init,last,split⟩ := (List.eq_nil_or_concat' (throughs log)).resolve_left (List.ne_nil_of_mem hx)
  have under := beyond last (by rw [cutAt_eq,split,List.getLast?_concat])
  rw [Ascending,split] at ascending
  rw [split] at hx
  rcases List.mem_append.mp hx with earlier | here
  · exact ((List.pairwise_append.mp ascending).2.2 x earlier last (List.mem_singleton.mpr rfl)).trans under
  · rw [List.mem_singleton.mp here]
    exact under

def Advances (seen : List SessionEntry) (written : Written) : Prop :=
  ∀ bound, cutAt seen = some bound → bound < written.summarized.throughSeq

variable {tainted : Bool} {r : CompactionRequest} {history visible : List SessionEntry}

theorem summarizeVisible_advances {c : Compaction} {cache cache' : TokenCache} {written : Written}
    (seen : Seen history tainted visible) (h : c.summarizeVisible cache visible r = (some written,cache')) :
    Advances history written ∧ written.summarized.securityTainted = written.origin.any securityTainted := by
  unfold Compaction.summarizeVisible at h
  split at h
  · cases h
  · obtain ⟨s,summarizes,rfl⟩ := Option.map_eq_some_iff.mp (Prod.mk.inj h).1
    obtain ⟨plan,n,label,cuts,origin,-,rfl⟩ := summarizeForCompaction_cases summarizes
    refine ⟨fun bound cut => through_past_cut seen cuts cut,?_⟩
    rw [origin]
    rfl

theorem attempt_advances {c : Compaction} {cache cache' : TokenCache} {fraction : ℚ} {written : Written}
    (seen : Seen history tainted visible) (h : c.attempt cache visible fraction r = (some written,cache')) :
    Advances history written ∧ written.summarized.securityTainted = written.origin.any securityTainted := by
  unfold Compaction.attempt at h
  split at h
  · cases h
  · exact summarizeVisible_advances seen h

def Job.token : Job → Option String
  | turn token => some token
  | compacting token _ _ => some token
  | leased token _ _ => some token
  | checked token _ _ => some token
  | closing token => some token
  | _ => none

def Job.planned : Job → Option (Written × List SessionEntry)
  | compacting _ written seen => some (written,seen)
  | summarized written seen => some (written,seen)
  | leased _ written seen => some (written,seen)
  | checked _ written seen => some (written,seen)
  | _ => none

def Job.ready : Job → Option (String × Written × List SessionEntry)
  | compacting token written seen => some (token,written,seen)
  | checked token written seen => some (token,written,seen)
  | _ => none

def Unsummarized (log seen : List SessionEntry) : Prop := ∀ e ∈ log.drop seen.length, isSummary e = false

structure Orderly (sessionId : String) (draws : List String) (w : Race) : Prop where
  numbered : Numbered SessionEntry.seq (w.log sessionId)
  ascending : Ascending (w.log sessionId)
  drawn : ∀ i t, (w.jobs i).token = some t → t ∈ draws
  apart : ∀ i j t, (w.jobs i).token = some t → (w.jobs j).token = some t → i = j
  planned : ∀ i written seen, (w.jobs i).planned = some (written,seen) → seen <+: w.log sessionId ∧
    Advances seen written
  guarded : ∀ i t written seen, (w.jobs i).ready = some (t,written,seen) → held w.store sessionId = some t →
    Unsummarized (w.log sessionId) seen

section

variable {sessionId : String} {draws : List String} {w : Race}

theorem put_job (w : Race) (i j : Nat) (job : Job) : (w.put i job).jobs j = if j = i then job else w.jobs j := rfl

theorem orderly_more (orderly : Orderly sessionId draws w) (more : List String) : Orderly sessionId (draws ++ more) w :=
  {orderly with drawn := fun i t h => List.mem_append_left more (orderly.drawn i t h)}

variable {job : Job} {i : Nat} {st : Store} {seen : List SessionEntry}

theorem unsummarized_snoc (read : seen <+: log) (before : Unsummarized log seen) (plain : isSummary e = false) :
    Unsummarized (log ++ [e]) seen := by
  intro x hx
  rw [List.drop_append_of_le_length read.length_le,List.mem_append] at hx
  rcases hx with old | new
  · exact before x old
  · rw [List.mem_singleton.mp new]
    exact plain

theorem planned_of_ready {t : String} {written : Written} (h : job.ready = some (t,written,seen)) :
    job.planned = some (written,seen) ∧ job.token = some t := by
  cases job <;> simp_all [Job.ready,Job.planned,Job.token]

theorem unready_of_unplanned (h : job.planned = none) (t : String) (written : Written) (seen : List SessionEntry) :
    job.ready ≠ some (t,written,seen) := by
  intro ready
  rw [(planned_of_ready ready).1] at h
  cases h

theorem snapshotSeq_numbered (numbered : Numbered SessionEntry.seq seen) : Race.snapshotSeq seen+1 = seen.length := by
  rcases List.eq_nil_or_concat' seen with rfl | ⟨init,last,rfl⟩
  · rfl
  · have seq := (numbered_snoc.mp numbered).2
    simp [Race.snapshotSeq,seq]

theorem since_eq (numbered : Numbered SessionEntry.seq (w.log sessionId)) (read : seen <+: w.log sessionId) :
    w.since sessionId seen = (w.log sessionId).drop seen.length := by
  have counted : Numbered SessionEntry.seq seen := by
    rw [List.prefix_iff_eq_take.mp read]
    exact numbered_take numbered seen.length
  rw [Race.since,snapshotSeq_numbered counted,← filter_from numbered seen.length]
  refine List.filter_congr fun e _ => ?_
  exact decide_eq_decide.mpr (Int.ofNat_le)

theorem cutAt_unsummarized (read : seen <+: log) (clear : Unsummarized log seen) : cutAt log = cutAt seen := by
  have nothing : throughs (log.drop seen.length) = [] :=
    List.filterMap_eq_nil_iff.mpr fun e he => by simpa [isSummary] using clear e he
  have whole : log = seen ++ log.drop seen.length := by
    conv_lhs => rw [← List.take_append_drop seen.length log,← List.prefix_iff_eq_take.mp read]
  rw [cutAt_eq,cutAt_eq,whole,throughs,List.filterMap_append]
  change (throughs seen ++ throughs (log.drop seen.length)).getLast? = _
  rw [nothing,List.append_nil]

theorem unsummarized_self (log : List SessionEntry) : Unsummarized log log := by
  intro e he
  rw [List.drop_length] at he
  cases he

section

variable (orderly : Orderly sessionId draws w)
include orderly

section

variable (planned : ∀ written seen, job.planned = some (written,seen) → seen <+: w.log sessionId ∧
    Advances seen written)
  (guarded : ∀ t written seen, job.ready = some (t,written,seen) → held w.store sessionId = some t →
    Unsummarized (w.log sessionId) seen)
include planned guarded

theorem orderly_grants {more : List String} (token : ∀ t, job.token = some t → (w.jobs i).token = some t ∨
    t ∈ more ∧ t ∉ draws) :
    Orderly sessionId (draws ++ more) (w.put i job) := by
  have tokens (j : Nat) (t : String) (h : ((w.put i job).jobs j).token = some t) :
      (w.jobs j).token = some t ∨ j = i ∧ t ∈ more ∧ t ∉ draws := by
    rw [put_job] at h
    split at h
    next here =>
      subst here
      exact (token t h).imp_right fun new => ⟨rfl,new⟩
    next => exact .inl h
  refine ⟨orderly.numbered,orderly.ascending,fun j t h => ?_,fun j k t hj hk => ?_,fun j written seen h => ?_,
    fun j t written seen h => ?_⟩
  · rcases tokens j t h with old | ⟨_,new,_⟩
    · exact List.mem_append_left _ (orderly.drawn j t old)
    · exact List.mem_append_right _ new
  · rcases tokens j t hj with oldj | ⟨hji,_,newj⟩ <;> rcases tokens k t hk with oldk | ⟨hki,_,newk⟩
    · exact orderly.apart j k t oldj oldk
    · exact absurd (orderly.drawn j t oldj) newk
    · exact absurd (orderly.drawn k t oldk) newj
    · rw [hji,hki]
  · rw [put_job] at h
    split at h
    · exact planned written seen h
    · exact orderly.planned j written seen h
  · rw [put_job] at h
    split at h
    · exact guarded t written seen h
    · exact orderly.guarded j t written seen h

theorem orderly_put (token : ∀ t, job.token = some t → (w.jobs i).token = some t) :
    Orderly sessionId draws (w.put i job) := by
  have grants : Orderly sessionId (draws ++ []) (w.put i job) :=
    orderly_grants orderly planned guarded fun t h => .inl (token t h)
  rwa [List.append_nil] at grants

end

theorem orderly_idles (token : ∀ t, job.token = some t → (w.jobs i).token = some t) (unplanned : job.planned = none) :
    Orderly sessionId draws (w.put i job) := by
  refine orderly_put orderly (fun _ _ h => ?_) (fun t written seen h => ?_) token
  · rw [unplanned] at h
    cases h
  · exact absurd h (unready_of_unplanned unplanned t written seen)

variable {origins : List (SessionEntry × List SessionEntry)}

theorem orderly_store {cache : TokenCache} (log : st.log sessionId = w.log sessionId)
    (still : ∀ i t written seen, (w.jobs i).ready = some (t,written,seen) → held st sessionId = some t →
      held w.store sessionId = some t) :
    Orderly sessionId draws ⟨st,cache,w.jobs,origins⟩ := by
  have same : Race.log sessionId ⟨st,cache,w.jobs,origins⟩ = w.log sessionId := log
  refine ⟨?_,?_,orderly.drawn,orderly.apart,fun i written seen h => ?_,fun i t written seen h holds => ?_⟩
  · rw [same]
    exact orderly.numbered
  · rw [same]
    exact orderly.ascending
  · rw [same]
    exact orderly.planned i written seen h
  · rw [same]
    exact orderly.guarded i t written seen h (still i t written seen h holds)

theorem orderly_extend
    (log : st.log sessionId = w.log sessionId ++ [e]) (same : held st sessionId = held w.store sessionId)
    (seq : e.seq = (w.log sessionId).length) (ascending : Ascending (w.log sessionId ++ [e]))
    (quiet : isSummary e = false ∨ ∀ i t written seen, (w.jobs i).ready = some (t,written,seen) →
      held w.store sessionId ≠ some t) :
    Orderly sessionId draws {w with store := st, origins := origins} := by
  have extended : Race.log sessionId {w with store := st, origins := origins} = w.log sessionId ++ [e] := log
  refine ⟨?_,?_,orderly.drawn,orderly.apart,fun i written seen h => ?_,fun i t written seen h holds => ?_⟩
  · rw [extended]
    exact numbered_snoc.mpr ⟨orderly.numbered,seq⟩
  · rw [extended]
    exact ascending
  · obtain ⟨read,advances⟩ := orderly.planned i written seen h
    rw [extended]
    exact ⟨read.trans (List.prefix_append _ _),advances⟩
  · rw [extended]
    have before : held w.store sessionId = some t := same ▸ holds
    rcases quiet with plain | others
    · have read := (orderly.planned i written seen (planned_of_ready h).1).1
      exact unsummarized_snoc read (orderly.guarded i t written seen h before) plain
    · exact absurd before (others i t written seen h)

theorem orderly_granted {uuid : String} (fresh : uuid ∉ draws) (log : st.log sessionId = w.log sessionId)
    (holds : held st sessionId = some uuid) : Orderly sessionId draws {w with store := st} := by
  refine orderly_store orderly log fun j t written seen h current => ?_
  have drawn := orderly.drawn j t (planned_of_ready h).2
  rw [← Option.some.inj (holds.symm.trans current)] at drawn
  exact absurd drawn fresh

theorem orderly_acquire {holder : LeaseHolder} {uuid : String} {clock : Clock} {next : String →
    Job} (fresh : uuid ∉ draws) (token : (next uuid).token = some uuid)
    (unready : (next uuid).ready = none)
    (planned : ∀ written seen, (next uuid).planned = some (written,seen) → seen <+: w.log sessionId ∧
      Advances seen written) :
    Orderly sessionId (draws ++ [uuid]) (w.acquire sessionId i holder uuid clock next) := by
  unfold Race.acquire
  have acquires := acquire_acquires w.store sessionId (some holder) uuid clock
  generalize w.store.acquireLease sessionId (some holder) uuid clock = result at acquires
  cases acquires with
  | refused none' =>
    dsimp only
    rw [none']
    exact orderly_more orderly _
  | granted lease log holds =>
    dsimp only
    rw [lease]
    have same := log sessionId
    refine orderly_grants (orderly_granted orderly fresh same ((holds sessionId).trans (if_pos rfl))) ?_
      (fun t written seen h => ?_)
      (fun t h => .inr ?_)
    · change ∀ written seen, _ → seen <+: Store.log _ sessionId ∧ _
      rw [same]
      exact planned
    · rw [unready] at h
      cases h
    · rw [← Option.some.inj (token.symm.trans h)]
      exact ⟨List.mem_singleton.mpr rfl,fresh⟩

theorem orderly_recheck (i : Nat) :
    Orderly sessionId draws (w.recheck sessionId i) := by
  unfold Race.recheck
  split
  next token written seen job =>
    have reads := orderly.planned i written seen (by rw [job]; rfl)
    split
    next => exact orderly_idles orderly (fun t h => by rw [job]; exact h) rfl
    next clear =>
      refine orderly_put orderly (fun written' seen' h => ?_) (fun t written' seen' h _ => ?_)
        fun t h => by rw [job]; exact h
      · cases h
        exact reads
      · cases h
        rw [since_eq orderly.numbered reads.1,Bool.not_eq_true,List.any_eq_false] at clear
        exact fun e he => Bool.not_eq_true _ ▸ clear e he
  next => exact orderly

theorem orderly_writeSummary {token : String} {written : Written} {next : Job}
    (ready : (w.jobs i).ready = some (token,written,seen)) (clock : Clock) (keeps : next.token = some token)
    (unplanned : next.planned = none) :
    Orderly sessionId draws (w.writeSummary sessionId i token written clock next) := by
  obtain ⟨planned,own⟩ := planned_of_ready ready
  have parks {job : Job} (token' : job.token = some token) (none' : job.planned = none) :
    Orderly sessionId draws (w.put i job) :=
    orderly_idles orderly (fun t h => by rw [own,← token',h]) none'
  unfold Race.writeSummary
  have appends := append_appends w.store ⟨sessionId,token⟩ (writeCompaction written.summarized) clock
  generalize w.store.append ⟨sessionId,token⟩ (writeCompaction written.summarized) clock = result at appends
  cases appends with
  | refused _ log same =>
    exact orderly_store (parks rfl rfl) (log sessionId) fun _ _ _ _ _ h => (same sessionId).symm.trans h
  | written now holds log same =>
    obtain ⟨read,advances⟩ := orderly.planned i written seen planned
    have clear := orderly.guarded i token written seen ready holds
    have payload := written_payload written.summarized sessionId (w.log sessionId).length now
    refine orderly_extend (parks keeps unplanned) ((log sessionId).trans (if_pos rfl)) (same sessionId) rfl ?_ (.inr ?_)
    · refine ascending_snoc orderly.ascending payload fun bound cut => advances bound ?_
      rw [← cutAt_unsummarized read clear]
      exact cut
    · intro j t written' seen' h current
      rw [put_job] at h
      split at h
      next => exact unready_of_unplanned unplanned t written' seen' h
      next other =>
        have mine : some t = some token := current.symm.trans holds
        have same := (planned_of_ready h).2
        rw [mine] at same
        exact other (orderly.apart j i token same own)

theorem orderly_write (i : Nat) (clock : Clock) :
    Orderly sessionId draws (w.write sessionId i clock) := by
  unfold Race.write
  split
  next token written seen job => exact orderly_writeSummary orderly (by rw [job]; rfl) clock rfl rfl
  next token written seen job => exact orderly_writeSummary orderly (by rw [job]; rfl) clock rfl rfl
  next => exact orderly

theorem orderly_appended (lease : Lease) {entry : NewEntry} (clock : Clock)
    (plain : writesSummary entry = false) :
    Orderly sessionId draws {w with store := (w.store.append lease entry clock).1} := by
  have appends := append_appends w.store lease entry clock
  generalize w.store.append lease entry clock = result at appends
  cases appends with
  | refused _ log same => exact orderly_store orderly (log sessionId) fun _ _ _ _ _ h => (same sessionId).symm.trans h
  | written now _ log same =>
    by_cases here : sessionId = lease.sessionId
    · have extended := (log sessionId).trans (if_pos here)
      have quiet : isSummary (stored sessionId (w.store.log sessionId).length entry now) = false := plain
      refine orderly_extend orderly extended (same sessionId) rfl ?_ (.inl quiet)
      rw [Ascending]
      exact (throughs_snoc_plain _ quiet).symm ▸ orderly.ascending
    · exact orderly_store orderly ((log sessionId).trans (if_neg here)) fun _ _ _ _ _ h => (same sessionId).symm.trans h

theorem orderly_cache (cache : TokenCache) :
    Orderly sessionId draws {w with cache := cache} := orderly_store orderly rfl fun _ _ _ _ _ h => h

theorem orderly_foreground (c : Compaction) (i : Nat) (view : HistoryView)
    (maxContextTokens : ℚ) (text : String) :
    Orderly sessionId draws (w.compactForeground c sessionId i view maxContextTokens text) := by
  unfold Race.compactForeground
  split
  next token job =>
    dsimp only
    split
    next written cache attempted =>
      have advances := (attempt_advances (seen_visible view (w.log sessionId)) attempted).1
      refine orderly_put (orderly_cache orderly cache) (fun written' seen' h => ?_) (fun t written' seen' h _ => ?_)
        fun t h => by rw [job]; exact h
      · cases h
        exact ⟨List.prefix_rfl,advances⟩
      · cases h
        exact unsummarized_self _
    next => exact orderly_cache orderly _
  next => exact orderly

theorem orderly_background (c : Compaction) (i : Nat) (tainted : Bool)
    (request : CompactionRequest) : Orderly sessionId draws (w.snapshotBackground c sessionId i tainted request) := by
  unfold Race.snapshotBackground
  split
  next job =>
    dsimp only
    split
    next written cache attempted =>
      have advances := (attempt_advances (seen_context (w.log sessionId) tainted) attempted).1
      refine orderly_put (orderly_cache orderly cache) (fun written' seen' h => ?_) (by simp [Job.ready])
        (by simp [Job.token])
      cases h
      exact ⟨List.prefix_rfl,advances⟩
    next => exact orderly_idles (orderly_cache orderly _) (by simp [Job.token]) rfl
  next => exact orderly

theorem orderly_release (i : Nat) (token : String) :
    Orderly sessionId draws (w.release sessionId i token) := by
  refine orderly_idles (orderly_store orderly (release_log w.store _ sessionId) fun _ _ _ _ _ => ?_)
    (by simp [Job.token]) rfl
  exact release_held w.store _ sessionId _

theorem orderly_parked {token : String} (own : (w.jobs i).token = some token) :
    Orderly sessionId draws (w.put i (.closing token)) :=
  orderly_idles orderly (fun _ h => own.trans h) rfl

theorem orderly_fail (c : Compaction) (i : Nat) :
    Orderly sessionId draws (w.step c sessionId (.fail i)) := by
  simp only [Race.step]
  split
  next token job => exact orderly_parked orderly (by rw [job]; rfl)
  next token _ _ job => exact orderly_parked orderly (by rw [job]; rfl)
  next token _ _ job => exact orderly_parked orderly (by rw [job]; rfl)
  next token _ _ job => exact orderly_parked orderly (by rw [job]; rfl)
  next => exact orderly_idles orderly (by simp [Job.token]) rfl
  next => exact orderly

theorem orderly_step (c : Compaction) (e : RaceEvent) (plain : e.plain)
    (fresh : ∀ u ∈ e.draws, u ∉ draws) : Orderly sessionId (draws ++ e.draws) (w.step c sessionId e) := by
  cases e with
  | openTurn _ uuid =>
    have new := fresh uuid (List.mem_singleton.mpr rfl)
    simp only [Race.step]
    split
    next => exact orderly_acquire orderly new rfl rfl (by simp [Job.planned])
    next => exact orderly_more orderly _
  | takeLease i uuid =>
    have new := fresh uuid (List.mem_singleton.mpr rfl)
    simp only [Race.step]
    split
    next written seen job =>
      refine orderly_acquire orderly new rfl rfl fun written' seen' h => ?_
      exact orderly.planned i written' seen' (by rw [job]; exact h)
    next => exact orderly_more orderly _
  | append lease _ clock =>
    exact orderly_more (orderly_appended orderly lease clock (by simpa [RaceEvent.plain] using plain)) _
  | compact i view maxContextTokens text =>
    exact orderly_more (orderly_foreground orderly c i view maxContextTokens text) _
  | snapshot i tainted request => exact orderly_more (orderly_background orderly c i tainted request) _
  | recheck i => exact orderly_more (orderly_recheck orderly i) _
  | write i clock => exact orderly_more (orderly_write orderly i clock) _
  | release i =>
    refine orderly_more ?_ _
    simp only [Race.step]
    split
    · exact orderly_release orderly i _
    · exact orderly_release orderly i _
    · exact orderly
  | fail i => exact orderly_more (orderly_fail orderly c i) _
  | forceRelease =>
    have freed : Orderly sessionId draws {w with store := w.store.forceReleaseLease sessionId} :=
      orderly_store orderly rfl fun _ t _ _ _ => force_held w.store sessionId sessionId t
    exact orderly_more freed _

end

theorem orderly_run (c : Compaction) {events : List RaceEvent} (orderly : Orderly sessionId draws w)
    (plain : ∀ e ∈ events, e.plain) (fresh : (draws ++ events.flatMap RaceEvent.draws).Nodup) :
    Orderly sessionId (draws ++ events.flatMap RaceEvent.draws) (run (Race.step c sessionId) w events) := by
  induction events generalizing draws w with
  | nil => simpa using orderly
  | cons e _ ih =>
    rw [List.flatMap_cons,← List.append_assoc] at fresh ⊢
    have new : ∀ u ∈ e.draws, u ∉ draws := fun u hu old =>
      (List.nodup_append.mp (List.nodup_append.mp fresh).1).2.2 u old u hu rfl
    exact ih (orderly_step orderly c e (plain e (.head _)) new) (fun d hd => plain d (.tail e hd)) fresh

end

theorem latest_covers_most (ascending : Ascending log) (shown : e ∈ forModelContext log tainted)
    (own : isSummary e) : ∀ through ∈ throughs log, through ≤ covered e := by
  rw [forModelContext_eq,List.mem_append,Option.mem_toList] at shown
  rcases shown with latest | rest
  · have cut := covered_shown e latest
    rw [cutAt_eq] at cut
    obtain ⟨init,split⟩ := List.getLast?_eq_some_iff.mp cut.symm
    rw [Ascending,split] at ascending
    intro through mem
    rw [split] at mem
    rcases List.mem_append.mp mem with earlier | here
    · exact ((List.pairwise_append.mp ascending).2.2 through earlier _ (List.mem_singleton.mpr rfl)).le
    · exact (List.mem_singleton.mp here).le
  · rw [(mem_shownRest.mp rest).2.2.1] at own
    cases own

theorem summaries_ascend (c : Compaction) (sessionId : String) (store : Store) (cache : TokenCache)
    (numbered : Numbered SessionEntry.seq (store.log sessionId)) (ascending : Ascending (store.log sessionId))
    (events : List RaceEvent) (plain : ∀ e ∈ events, e.plain = true) (fresh : (events.flatMap RaceEvent.draws).Nodup) :
    let log := (run (Race.step c sessionId) (.start store cache) events).log sessionId
    Ascending log ∧ ∀ tainted e, e ∈ forModelContext log tainted → isSummary e = true →
      ∀ through ∈ throughs log, through ≤ covered e := by
  have start : Orderly sessionId [] (.start store cache) :=
    ⟨numbered,ascending,by simp [Race.start,Job.token],by simp [Race.start,Job.token],
      by simp [Race.start,Job.planned],by simp [Race.start,Job.ready]⟩
  have orderly := orderly_run c start plain fresh
  exact ⟨orderly.ascending,fun _ _ => latest_covers_most orderly.ascending⟩

def reportStore : Store :=
  ⟨100,.empty,.empty,empty.set ("s",(ownReport "org:acme").history),.empty⟩

def overtaken : List RaceEvent :=
  [.snapshot 0 false ⟨"channel:eng","org:acme",120000,"early"⟩,.openTurn 1 "t1" (fun _ => 0),
    .compact 1 (engView [ana]) 120000 "late",.write 1 (fun _ => 1),.takeLease 0 "t2" (fun _ => 500),.recheck 0,
    .write 0 (fun _ => 501)]

theorem summaries_ascend_overtaken :
    seqs ((run (Race.step longReports "s") (.start reportStore []) overtaken).log "s") = [0,1,2,3,4] ∧
      Ascending ((run (Race.step longReports "s") (.start reportStore []) overtaken).log "s") := by
  have plain : overtaken.all RaceEvent.plain = true := by decide +kernel
  have empty : throughs (reportStore.log "s") = [] := by decide +kernel
  refine ⟨by decide +kernel,(summaries_ascend longReports "s" reportStore [] rfl ?_ overtaken
    (List.all_eq_true.mp plain) (by decide)).1⟩
  rw [Ascending,empty]
  exact .nil

end CompanyBrain.Harness
