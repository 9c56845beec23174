import CompanyBrain.Resolution.Souls

namespace CompanyBrain.Resolution

open Foundations Table

structure HistoryOk (bound : Nat) (history : List SoulRevision) : Prop where
  distinct : (history.map SoulRevision.version).Nodup
  bounded : ∀ r ∈ history, r.version ≤ bound

def SoulOk (soul : PersistedSoul) : Prop := ∀ history, soul.history = some history → HistoryOk soul.version history

section

variable {bound : Nat} {history legacy : List SoulRevision} {r : SoulRevision} {current : PersistedSoul}

section

variable (ok : HistoryOk bound history)
include ok

theorem HistoryOk.ranked : HistoryOk bound (ranked SoulRevision.version history) where
  distinct := (ranked_perm.map SoulRevision.version).nodup_iff.mpr ok.distinct
  bounded x mem := ok.bounded x (mem_ranked.mp mem)

theorem HistoryOk.snoc (fresh : ∀ x ∈ history, x.version ≠ r.version)
    (small : r.version ≤ bound) : HistoryOk bound (history ++ [r]) where
  distinct := by
    rw [List.map_append,List.nodup_append]
    refine ⟨ok.distinct,List.nodup_singleton _,?_⟩
    intro v hv w hw
    obtain ⟨x,mem,rfl⟩ := List.mem_map.mp hv
    obtain rfl := List.mem_singleton.mp hw
    exact fresh x mem
  bounded := forall_snoc ok.bounded small

theorem HistoryOk.cons (newer : bound < r.version) : HistoryOk r.version (r :: history) where
  distinct := by
    rw [List.map_cons,List.nodup_cons]
    refine ⟨fun mem => ?_,ok.distinct⟩
    obtain ⟨x,inside,same⟩ := List.mem_map.mp mem
    exact absurd (ok.bounded x inside) (Nat.not_le.mpr (same ▸ newer))
  bounded := List.forall_mem_cons.mpr ⟨le_rfl,fun x mem => le_of_lt (lt_of_le_of_lt (ok.bounded x mem) newer)⟩

end

theorem historyOk_merge {embedded : Option (List SoulRevision)} (small : ∀ x ∈ legacy, x.version ≤ bound)
    (embedded_small : ∀ x ∈ embedded.getD [], x.version ≤ bound) :
    HistoryOk bound (mergeSoulHistory embedded legacy) := by
  refine HistoryOk.ranked ⟨nodup _,fun x mem => ?_⟩
  rcases mem_foldl_set mem with mem | mem
  · rcases List.mem_append.mp mem with mem | mem
    · exact small x mem
    · exact embedded_small x mem
  · exact absurd mem (not_mem_empty x)

theorem mem_merge (ok : HistoryOk bound history) (mem : r ∈ history) : r ∈ mergeSoulHistory (some history) [] :=
  mem_ranked.mpr (mem_foldl_set_of_nodup ok.distinct (.inl mem))

theorem historyOk_including (ok : HistoryOk current.version (mergeSoulHistory current.history legacy)) :
    HistoryOk current.version (historyIncludingCurrent current legacy) := by
  simp only [historyIncludingCurrent]
  split
  · exact ok
  next absent =>
    refine (ok.snoc (fun x mem same => absent ?_) le_rfl).ranked
    exact List.any_eq_true.mpr ⟨x,mem,decide_eq_true same⟩

theorem mem_including (mem : r ∈ mergeSoulHistory current.history legacy) :
    r ∈ historyIncludingCurrent current legacy := by
  simp only [historyIncludingCurrent]
  split
  · exact mem
  · exact mem_ranked.mpr (List.mem_append_left _ mem)

structure Holds (soul : PersistedSoul) (r : SoulRevision) : Prop where
  version : soul.version = r.version
  ok : SoulOk soul
  history : ∃ history, soul.history = some history ∧ r ∈ history

structure Extends (current soul : PersistedSoul) : Prop where
  newer : current.version < soul.version
  carries : ∀ x ∈ current.history.getD [], x ∈ soul.history.getD []

theorem holds_cons (ok : HistoryOk bound history) (newer : bound < r.version) :
    Holds (r.persisted (r :: history)) r where
  version := rfl
  ok := by
    rintro _ ⟨⟩
    exact ok.cons newer
  history := ⟨_,rfl,.head _⟩

theorem historyOk_carried (ok : SoulOk current)
    (small : current.history = none → ∀ x ∈ legacy, x.version ≤ current.version) : HistoryOk current.version
      (historyIncludingCurrent current (if current.history = none then legacy else [])) := by
  refine historyOk_including (historyOk_merge ?_ ?_)
  · split
    next absent => exact small absent
    · exact nofun
  · cases stored : current.history with
    | none => exact nofun
    | some history => exact (ok history stored).bounded

theorem carries_extendHistory (ok : SoulOk current) (x : SoulRevision) (mem : x ∈ current.history.getD []) :
    x ∈ (extendHistory current legacy r).history.getD [] := by
  refine List.mem_cons_of_mem r (mem_including ?_)
  cases stored : current.history with
  | none =>
    rw [stored] at mem
    cases mem
  | some history =>
    rw [stored] at mem
    exact mem_merge (ok history stored) mem

end

def inOrder (base : Nat) (s : SoulStore) : SoulLabel → Bool
  | .put read _ =>
    match s.durable with
    | some current => current.version ≤ read.version && read.history.getD [] = current.history.getD []
    | none => base ≤ read.version && read.history.getD [] = []
  | .delete => s.durable = none
  | .append _ _ legacy | .compare _ _ legacy =>
    s.durable.all fun current => current.history ≠ none || legacy.all (·.version ≤ current.version)
  | .create _ r => s.durable ≠ none || base < r.version
  | .silent => true

def baseVersion (fallback : Option CachedSoul) : Nat := (fallback.map CachedSoul.version).getD 0

def orderly (fallback : Option CachedSoul) (pool : SoulPool) : SoulStep → Bool
  | .run i | .lose i => (pool.threads i).label.all (inOrder (baseVersion fallback) pool.shared)
  | _ => true

structure Versioned (s : SoulStore) : Prop where
  ok : ∀ soul, s.durable = some soul → SoulOk soul
  kept : ∀ a ∈ s.log, ∃ soul history, s.durable = some soul ∧ soul.history = some history ∧ a.revision ∈ history
  increasing : s.log.Pairwise fun a b => a.revision.version < b.revision.version
  latest : ∀ a ∈ s.log, ∀ soul, s.durable = some soul → a.revision.version ≤ soul.version
  conditional : ∀ a ∈ s.log, ∀ e, a.expected = some e → a.revision.version = e+1

inductive Changed (base : Nat) (s s' : SoulStore) : Prop
  | same (durable : s'.durable = s.durable) (log : s'.log = s.log)
  | accept (soul : PersistedSoul) (a : Accepted) (durable : s'.durable = some soul) (log : s'.log = s.log ++ [a])
      (holds : Holds soul a.revision) (extending : ∀ current, s.durable = some current → Extends current soul)
      (first : s.durable = none → base < a.revision.version)
      (conditional : ∀ e, a.expected = some e → a.revision.version = e+1 ∧
        ∀ current, s.durable = some current → current.version = e)

section

variable {base : Nat} {s s' : SoulStore}

theorem Versioned.changed (versioned : Versioned s) (changed : Changed base s s') : Versioned s' := by
  cases changed with
  | same durable log =>
    exact {
      ok := durable ▸ versioned.ok
      kept := durable ▸ log ▸ versioned.kept
      increasing := log ▸ versioned.increasing
      latest := durable ▸ log ▸ versioned.latest
      conditional := log ▸ versioned.conditional}
  | accept soul a durable log holds extending _ conditional =>
    have earlier (b : Accepted) (mem : b ∈ s.log) :
        b.revision.version < a.revision.version ∧ b.revision ∈ soul.history.getD [] := by
      obtain ⟨current,history,stored,carried,inside⟩ := versioned.kept b mem
      obtain ⟨newer,carries⟩ := extending current stored
      refine ⟨?_,carries _ (by rw [carried]; exact inside)⟩
      rw [← holds.version]
      exact lt_of_le_of_lt (versioned.latest b mem current stored) newer
    have logged (b : Accepted) (mem : b ∈ s'.log) : b ∈ s.log ∨ b = a := by
      rw [log] at mem
      simpa using mem
    obtain ⟨history,stored,inside⟩ := holds.history
    exact {
      ok := by
        intro soul' is
        cases durable.symm.trans is
        exact holds.ok
      kept := by
        intro b mem
        refine ⟨soul,history,durable,stored,?_⟩
        rcases logged b mem with mem | rfl
        · simpa only [stored,Option.getD_some] using (earlier b mem).2
        · exact inside
      increasing := by
        rw [log,List.pairwise_append]
        refine ⟨versioned.increasing,List.pairwise_singleton _ _,fun b mem c last => ?_⟩
        obtain rfl := List.mem_singleton.mp last
        exact (earlier b mem).1
      latest := by
        intro b mem soul' is
        cases durable.symm.trans is
        rw [holds.version]
        rcases logged b mem with mem | rfl
        · exact le_of_lt (earlier b mem).1
        · exact le_rfl
      conditional := by
        intro b mem e is
        rcases logged b mem with mem | rfl
        · exact versioned.conditional b mem e is
        · exact (conditional e is).1}

end

inductive SoulNode : SoulLabel → (SoulStore → SoulStore) → Prop
  | silent (act : SoulStore → SoulStore) (durable : ∀ s, (act s).durable = s.durable)
      (log : ∀ s, (act s).log = s.log) : SoulNode .silent act
  | put (read : SoulCache) (r : SoulRevision) (next : r.version = read.version+1) :
      SoulNode (.put read r) (putSoul r (read.history.getD []))
  | delete : SoulNode .delete deleteSoul
  | append (content : String) (updatedBy : Option String) (legacy : List SoulRevision) :
      SoulNode (.append content updatedBy legacy) fun s => (appendSoul content updatedBy legacy s).1
  | create (expected : Option Nat) (r : SoulRevision) (next : ∀ e, expected = some e → r.version = e+1) :
      SoulNode (.create expected r) fun s => (createSoul expected r s).1
  | compare (expected : Nat) (r : SoulRevision) (legacy : List SoulRevision) (next : r.version = expected+1) :
      SoulNode (.compare expected r legacy) fun s => (compareSoul expected r legacy s).1

abbrev SoulTask.Sound (t : SoulTask) : Prop := t.All fun l act _ _ => SoulNode l act

section

variable {ρ : Type}

theorem sound_read {get : SoulStore → ρ} {next : ρ → SoulTask} (rest : ∀ x, (next x).Sound) :
    SoulTask.Sound (.read .silent get .done next) :=
  ⟨.silent id (fun _ => rfl) fun _ => rfl,fun s => rest (get s),trivial⟩

theorem sound_call {l : SoulLabel} {act : SoulStore → SoulStore × ρ} {next : ρ → SoulTask}
    (node : SoulNode l fun s => (act s).1) (rest : ∀ x, (next x).Sound) : SoulTask.Sound (.call l act .done next) :=
  ⟨node,fun s => rest (act s).2,trivial⟩

theorem sound_done : SoulTask.Sound .done := trivial

theorem sound_loadCache (i : Nat) (soul : PersistedSoul) : SoulTask.Sound (loadCache i soul) :=
  sound_call (.silent _ (fun _ => rfl) fun _ => rfl) fun _ => sound_done

section

variable (i : Nat) (content : String) (updatedBy : Option String)
include i content updatedBy

theorem sound_setSoul : SoulTask.Sound (setSoul i content updatedBy) :=
  ⟨.silent _ (fun _ => rfl) fun _ => rfl,fun _ => sound_call (.put _ _ rfl) fun _ => sound_done,trivial⟩

theorem sound_append (legacy : List SoulRevision)
    {next : Option PersistedSoul → SoulTask} (saved : ∀ soul, next (some soul) = loadCache i soul)
    (absent : (next none).Sound) :
    SoulTask.Sound (.call (.append content updatedBy legacy) (appendSoul content updatedBy legacy) .done next) := by
  refine sound_call (.append content updatedBy legacy) fun result => ?_
  cases result with
  | none => exact absent
  | some soul =>
    rw [saved]
    exact sound_loadCache i soul

theorem sound_setSoulLatest : SoulTask.Sound (setSoulLatest i content updatedBy) := by
  refine sound_read fun legacy => sound_append i content updatedBy legacy (fun _ => rfl) ?_
  refine sound_read fun r => sound_call (.create none r nofun) fun created => ?_
  cases created with
  | true => exact sound_loadCache i _
  | false => exact sound_append i content updatedBy legacy (fun _ => rfl) sound_done

end

theorem sound_setSoulIfVersion (i expected : Nat) (content : String) (updatedBy : Option String) :
    SoulTask.Sound (setSoulIfVersion i expected content updatedBy) := by
  refine ⟨.silent id (fun _ => rfl) fun _ => rfl,fun s => sound_read fun durable => ?_,trivial⟩
  cases durable with
  | none =>
    refine sound_read fun version => ?_
    split
    · exact sound_done
    · refine sound_call (.create _ _ ?_) fun created => ?_
      · rintro e ⟨⟩
        rfl
      · cases created with
        | true => exact sound_loadCache i _
        | false => exact sound_done
  | some =>
    refine sound_call (.compare _ _ _ rfl) fun result => ?_
    cases result with
    | none => exact sound_done
    | some soul => exact sound_loadCache i soul

theorem sound_clearSoul (fallback : Option CachedSoul) (i : Nat) : SoulTask.Sound (clearSoul fallback i) :=
  sound_call (.silent _ (fun _ => rfl) fun _ => rfl) fun _ => sound_call .delete fun _ => sound_done

theorem sound_task (fallback : Option CachedSoul) (request : SoulRequest) :
    SoulTask.Sound ((soulSystem fallback).program request) := by
  cases request with
  | set => exact sound_setSoul ..
  | latest => exact sound_setSoulLatest ..
  | ifVersion => exact sound_setSoulIfVersion ..
  | clear i => exact sound_clearSoul fallback i

end

section

variable {base : Nat} {s : SoulStore} {r : SoulRevision} {legacy : List SoulRevision} {current : PersistedSoul}

theorem small_legacy (stored : s.durable = some current)
    (fits : (s.durable.all fun current => current.history ≠ none || legacy.all (·.version ≤ current.version))) :
    current.history = none → ∀ x ∈ legacy, x.version ≤ current.version := by
  intro absent
  rw [stored] at fits
  simpa [absent] using fits

theorem changed_extend (versioned : Versioned s) (stored : s.durable = some current)
    (small : current.history = none → ∀ x ∈ legacy, x.version ≤ current.version)
    (next : r.version = current.version+1) (expected : Option Nat)
    (conditional : ∀ e, expected = some e → current.version = e) :
    Changed base s (s.accept (extendHistory current legacy r) r expected) := by
  have newer : current.version < r.version := by omega
  have ok := versioned.ok current stored
  refine .accept _ ⟨r,expected⟩ rfl rfl (holds_cons (historyOk_carried ok small) newer) ?_ ?_ ?_
  · intro current' is
    cases stored.symm.trans is
    exact ⟨newer,carries_extendHistory ok⟩
  · intro absent
    cases stored.symm.trans absent
  · intro e is
    refine ⟨(conditional e is) ▸ next,fun current' here => ?_⟩
    cases stored.symm.trans here
    exact conditional e is

theorem historyOk_stored (ok : SoulOk current) : HistoryOk current.version (current.history.getD []) := by
  cases stored : current.history with
  | none => exact ⟨List.nodup_nil,nofun⟩
  | some history => exact ok history stored

theorem holds_single (r : SoulRevision) : Holds (r.persisted [r]) r where
  version := rfl
  ok := by
    rintro _ ⟨⟩
    refine ⟨List.nodup_singleton _,fun x mem => ?_⟩
    obtain rfl := List.mem_singleton.mp mem
    exact le_rfl
  history := ⟨_,rfl,.head _⟩

theorem changed_first (absent : s.durable = none) (above : base < r.version) (expected : Option Nat)
    (next : ∀ e, expected = some e → r.version = e+1) : Changed base s (s.accept (r.persisted [r]) r expected) := by
  have nothing (current : PersistedSoul) : s.durable ≠ some current := absent ▸ nofun
  exact .accept _ ⟨r,expected⟩ rfl rfl (holds_single r) (fun current is => absurd is (nothing current))
    (fun _ => above) fun e is => ⟨next e is,fun current is => absurd is (nothing current)⟩

theorem changed_put (versioned : Versioned s) (stored : s.durable = some current)
    (newer : current.version < r.version) : Changed base s (putSoul r (current.history.getD []) s) := by
  refine .accept _ ⟨r,none⟩ rfl rfl (holds_cons (historyOk_stored (versioned.ok current stored)) newer) ?_ ?_ nofun
  · intro current' is
    cases stored.symm.trans is
    exact ⟨newer,fun x mem => List.mem_cons_of_mem r mem⟩
  · intro absent
    cases stored.symm.trans absent

theorem changed_node {l : SoulLabel} {act : SoulStore → SoulStore} (node : SoulNode l act)
    (versioned : Versioned s) (fits : inOrder base s l) : Changed base s (act s) := by
  cases node with
  | silent _ durable log => exact .same (durable s) (log s)
  | put read r next =>
    cases stored : s.durable with
    | none =>
      simp only [inOrder,stored,Bool.and_eq_true,decide_eq_true_iff] at fits
      rw [fits.2]
      exact changed_first stored (by omega) none nofun
    | some =>
      simp only [inOrder,stored,Bool.and_eq_true,decide_eq_true_iff] at fits
      rw [fits.2]
      exact changed_put versioned stored (by omega)
  | delete => exact .same (of_decide_eq_true fits).symm rfl
  | append =>
    dsimp only [appendSoul]
    split
    · exact .same rfl rfl
    next current stored => exact changed_extend versioned stored (small_legacy stored fits) rfl none nofun
  | create expected r next =>
    dsimp only [createSoul]
    split
    next absent => exact changed_first absent (by simpa [inOrder,absent] using fits) expected next
    · exact .same rfl rfl
  | compare _ _ _ next =>
    dsimp only [compareSoul]
    split
    · exact .same rfl rfl
    next current stored =>
      split
      next same =>
        refine changed_extend versioned stored (small_legacy stored fits) (same ▸ next) _ ?_
        rintro e ⟨⟩
        exact same
      · exact .same rfl rfl

end

def SoulStore.start (durable : Option PersistedSoul) (caches : Nat → SoulCache) : SoulStore :=
  ⟨0,durable,caches,[]⟩

section

variable {fallback : Option CachedSoul} {pool : SoulPool}

theorem changed_step (sound : ∀ j, SoulTask.Sound (pool.threads j)) (versioned : Versioned pool.shared)
    (a : SoulStep) (order : orderly fallback pool a) :
    Changed (baseVersion fallback) pool.shared ((soulSystem fallback).step pool a).shared := by
  rcases System.step_shared sound a with same | ⟨e,_,same⟩ | ⟨i,l,act,_,_,acts,label,node,same⟩ <;> rw [same]
  · exact .same rfl rfl
  · cases e <;> exact .same rfl rfl
  · refine changed_node node versioned ?_
    rcases acts with rfl | rfl <;> simpa [orderly,label] using order

structure PoolOk (pool : SoulPool) : Prop where
  sound : ∀ j, SoulTask.Sound (pool.threads j)
  versioned : Versioned pool.shared

section

variable (ok : PoolOk pool)
include ok

theorem poolOk_step (a : SoulStep) (order : orderly fallback pool a) :
    PoolOk ((soulSystem fallback).step pool a) where
  sound := System.all_stepped (sound_task fallback) ((soulSystem fallback).step_stepped pool a) ok.sound
  versioned := ok.versioned.changed (changed_step ok.sound ok.versioned a order)

omit ok in
theorem poolOk_start {durable : Option PersistedSoul} (caches : Nat → SoulCache)
    (start : ∀ soul, durable = some soul → SoulOk soul) : PoolOk (Pool.idle (SoulStore.start durable caches)) where
  sound _ := trivial
  versioned := ⟨start,nofun,.nil,nofun,nofun⟩

abbrev Orderly (fallback : Option CachedSoul) (pool : SoulPool) (events : List SoulStep) : Prop :=
  Along (soulSystem fallback).step (fun pool a => orderly fallback pool a = true) pool events

theorem poolOk_run (events : List SoulStep) (order : Orderly fallback pool events) :
    PoolOk (run (soulSystem fallback).step pool events) :=
  @run_along _ _ _ _ PoolOk (fun _ a order ok => poolOk_step ok a order) pool events order ok

theorem unchanged_or_newer {current : PersistedSoul} (stored : pool.shared.durable = some current)
    (events : List SoulStep) (order : Orderly fallback pool events) :
    ((run (soulSystem fallback).step pool events).shared.durable = some current ∧
        (run (soulSystem fallback).step pool events).shared.log = pool.shared.log) ∨
      ∃ soul, (run (soulSystem fallback).step pool events).shared.durable = some soul ∧
        current.version < soul.version := by
  induction events generalizing pool current with
  | nil => exact .inl ⟨stored,rfl⟩
  | cons a _ ih =>
    have ok' := poolOk_step ok a order.1
    cases changed_step ok.sound ok.versioned a order.1 with
    | same durable log =>
      rcases ih ok' (durable.trans stored) order.2 with ⟨kept,same⟩ | newer
      · exact .inl ⟨kept,same.trans log⟩
      · exact .inr newer
    | accept soul _ durable _ _ extending =>
      have newer := (extending current stored).newer
      rcases ih ok' durable order.2 with ⟨kept,_⟩ | ⟨soul',kept,later⟩
      · exact .inr ⟨soul,kept,newer⟩
      · exact .inr ⟨soul',kept,Nat.lt_trans newer later⟩

theorem absent_or_above (absent : pool.shared.durable = none) (events : List SoulStep)
    (order : Orderly fallback pool events) : (run (soulSystem fallback).step pool events).shared.durable = none ∨
      ∃ soul, (run (soulSystem fallback).step pool events).shared.durable = some soul ∧
        baseVersion fallback < soul.version := by
  induction events generalizing pool with
  | nil => exact .inl absent
  | cons a events ih =>
    have ok' := poolOk_step ok a order.1
    cases changed_step ok.sound ok.versioned a order.1 with
    | same durable => exact ih ok' (durable.trans absent) order.2
    | accept soul _ durable _ holds _ first =>
      have above : baseVersion fallback < soul.version := holds.version ▸ first absent
      rcases unchanged_or_newer ok' durable events order.2 with ⟨kept,_⟩ | ⟨soul',kept,later⟩
      · exact .inr ⟨soul,kept,above⟩
      · exact .inr ⟨soul',kept,Nat.lt_trans above later⟩

theorem expected_of_accepted {a : SoulStep} (order : orderly fallback pool a)
    {last : Accepted} (accepted : ((soulSystem fallback).step pool a).shared.log = pool.shared.log ++ [last])
    {e : Nat} (conditional : last.expected = some e) :
    ∀ current, pool.shared.durable = some current → current.version = e := by
  cases changed_step ok.sound ok.versioned a order with
  | same _ log =>
    rw [log] at accepted
    exact absurd (congrArg List.length accepted) (by simp)
  | accept _ _ _ log _ _ _ expects =>
    obtain rfl := List.singleton_injective (List.append_cancel_left (log.symm.trans accepted))
    exact (expects e conditional).2

def UnchangedSince (fallback : Option CachedSoul) (start : SoulPool) (read later : List SoulStep) (a : SoulStep) :
    Prop :=
  let before := (run (soulSystem fallback).step start (read ++ later)).shared
  let done := (run (soulSystem fallback).step start (read ++ later ++ [a])).shared
  ∀ last e, done.log = before.log ++ [last] → last.expected = some e →
    match (run (soulSystem fallback).step start read).shared.durable with
    | some current => current.version = e →
        before.durable = some current ∧ before.log = (run (soulSystem fallback).step start read).shared.log
    | none => e = baseVersion fallback → before.durable = none

theorem unchangedSince {read later : List SoulStep} {a : SoulStep}
    (order : Orderly fallback pool (read ++ later ++ [a])) : UnchangedSince fallback pool read later a := by
  obtain ⟨order,last_order⟩ := (along_append _ _ _).mp order
  obtain ⟨read_order,later_order⟩ := (along_append _ _ _).mp order
  have ok_read := poolOk_run ok read read_order
  have ok_before := poolOk_run ok (read ++ later) order
  intro last e accepted conditional
  rw [run_append _ _ (read ++ later)] at accepted
  have expected := expected_of_accepted ok_before last_order.1 accepted conditional
  rw [run_append] at expected ⊢
  split
  next current stored =>
    intro same
    rcases unchanged_or_newer ok_read stored later later_order with kept | ⟨soul,kept,newer⟩
    · exact kept
    · have := expected soul kept
      omega
  next absent =>
    intro same
    rcases absent_or_above ok_read absent later later_order with kept | ⟨soul,kept,above⟩
    · exact kept
    · have := expected soul kept
      omega

end

variable (fallback)

theorem souls_versioned {durable : Option PersistedSoul} (caches : Nat → SoulCache)
    (start : ∀ soul, durable = some soul → SoulOk soul) (events : List SoulStep)
    (order : Orderly fallback (Pool.idle (SoulStore.start durable caches)) events) :
    let s := (run (soulSystem fallback).step (Pool.idle (SoulStore.start durable caches)) events).shared
    (s.log.Pairwise fun a b => a.revision.version < b.revision.version) ∧
      (∀ a ∈ s.log, ∃ soul history, s.durable = some soul ∧ soul.history = some history ∧ a.revision ∈ history) ∧
      (s.log.Pairwise fun a b => a.expected = b.expected → a.expected = none) ∧
      ∀ read later a, events = read ++ later ++ [a] →
        UnchangedSince fallback (Pool.idle (SoulStore.start durable caches)) read later a := by
  have ok := poolOk_start caches start
  have versioned := (poolOk_run ok events order).versioned
  refine ⟨versioned.increasing,versioned.kept,?_,?_⟩
  · refine versioned.increasing.imp_of_mem fun {a b} ha hb less same => ?_
    cases expected : a.expected with
    | none => rfl
    | some e =>
      have := versioned.conditional a ha e expected
      have := versioned.conditional b hb e (same ▸ expected)
      omega
  · rintro read later a rfl
    exact unchangedSince ok order

end

def firstRevision : SoulRevision := ⟨"Be brief.",1,0,some "ana"⟩

def cachedFirst : SoulCache := ⟨some ⟨"Be brief.",1⟩,some [firstRevision],none⟩

def sharedFirst : SoulPool :=
  Pool.idle (SoulStore.start (some (firstRevision.persisted [firstRevision])) fun _ => cachedFirst)

def finishing (i : Nat) (request : SoulRequest) (steps : Nat) : List SoulStep :=
  .spawn i request :: List.replicate steps (.run i)

def setThenConditional : List SoulStep :=
  finishing 1 (.latest 1 "Cite sources." none) 3 ++ finishing 2 (.set 1 "Be kind." none) 2 ++
    finishing 3 (.ifVersion 2 3 "Ask first." none) 4 ++ finishing 4 (.ifVersion 1 3 "Never ask." none) 3

theorem conditional_update_accepted_once :
    ((run (soulSystem none).step sharedFirst setThenConditional).shared.log.Pairwise
        fun a b => a.revision.version < b.revision.version) ∧
      (run (soulSystem none).step sharedFirst setThenConditional).shared.log.map
        (fun a => (a.revision.version,a.expected)) = [(2,none),(3,none),(4,some 3)] := by
  constructor
  · refine (souls_versioned none (fun _ => cachedFirst) ?_ setThenConditional (by decide +kernel)).1
    rintro _ ⟨⟩ _ ⟨⟩
    exact ⟨by decide,by decide⟩
  · decide +kernel

def setFromStaleCache : List SoulStep :=
  finishing 1 (.latest 1 "Cite sources." none) 3 ++ finishing 2 (.ifVersion 1 2 "Ask first." none) 4 ++
    finishing 3 (.set 2 "Be kind." none) 2 ++ finishing 4 (.ifVersion 1 2 "Never ask." none) 4

theorem stale_set_loses_revisions : (run (soulSystem none).step sharedFirst setFromStaleCache).shared.log.map
        (fun a => (a.revision.version,a.expected)) = [(2,none),(3,some 2),(2,none),(3,some 2)] ∧
      ⟨"Cite sources.",2,0,none⟩ ∉ ((run (soulSystem none).step sharedFirst setFromStaleCache).shared.durable.bind
          PersistedSoul.history).getD [] := by
  decide +kernel

end CompanyBrain.Resolution
