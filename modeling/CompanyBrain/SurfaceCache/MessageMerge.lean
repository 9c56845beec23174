import CompanyBrain.SurfaceCache.SurfaceCache

namespace CompanyBrain.SurfaceCache

open Foundations PostgresCache IngestEvent Table

inductive Change where
  | event (e : IngestEvent) (now : Nat)
  | handled (now : Nat)

abbrev MessageKey := String × String

def CacheCall.changes (k : MessageKey) : CacheCall → List Change
  | .ingest events now => (events.filter fun e => (e.container,e.ts) = k).map fun e => .event e now
  | .markHandled container ts now => if (container,ts) = k then [.handled now] else []

def changesOf (k : MessageKey) (calls : List CacheCall) : List Change := calls.flatMap (CacheCall.changes k)

def Change.event? : Change → Option IngestEvent
  | .event e _ => some e
  | .handled _ => none

def eventsOf (changes : List Change) : List IngestEvent := changes.filterMap Change.event?

def IngestEvent.carriesText (e : IngestEvent) : Bool := !e.deleted && e.text.isSome

def textsOf (changes : List Change) : List IngestEvent := (eventsOf changes).filter carriesText

def Change.deletes : Change → Bool
  | .event e _ => e.deleted
  | .handled _ => false

def Change.handles : Change → Bool
  | .event e _ => e.handled
  | .handled _ => true

def MemoryCache.apply (k : MessageKey) (m : Option CachedMessage) : Change → Option CachedMessage
  | .event e now => if accepts m e then some (merged m e now) else m
  | .handled now => some (handledMessage m k.1 k.2 now)

def PostgresCache.apply (k : MessageKey) (m : Option CachedMessage) : Change → Option CachedMessage
  | .event e now => some (upsert m (inserted e now)).1
  | .handled now => some (handledRow m k.1 k.2 now)

section

variable {k : MessageKey} {e : IngestEvent} (named : k.1 ≠ "" ∧ k.2 ≠ "")
include named

theorem skipped_other (here : (e.container,e.ts) = k) : e.skipped = false := by
  subst here
  simpa [skipped] using named

theorem memory_event (texts : Texts) (now : Nat) (cache : Cache × Nat) (e : IngestEvent) :
    (MemoryCache.ingestEvent texts now cache e).1.messages.find? k =
      if (e.container,e.ts) = k then MemoryCache.apply k (cache.1.messages.find? k) (.event e now)
      else cache.1.messages.find? k := by
  have row (m : Option CachedMessage) : (MemoryCache.merged m e now).key = (e.container,e.ts) := rfl
  simp only [MemoryCache.ingestEvent,MemoryCache.apply]
  split
  next skipped =>
    split
    next here => cases (skipped_other named here).symm.trans skipped
    next => rfl
  next =>
    split
    next => rw [find?_set_row _ (row _)]; split <;> simp_all
    next => split <;> simp_all

omit named in
theorem changes_cons (e : IngestEvent) (events : List IngestEvent) (now : Nat) :
    (CacheCall.ingest (e :: events) now).changes k =
      (if (e.container,e.ts) = k then [.event e now] else []) ++ (CacheCall.ingest events now).changes k := by
  by_cases here : (e.container,e.ts) = k <;> simp [CacheCall.changes,here]

theorem memory_ingest (texts : Texts) (now : Nat) (events : List IngestEvent)
    (cache : Cache × Nat) : (events.foldl (MemoryCache.ingestEvent texts now) cache).1.messages.find? k =
      ((CacheCall.ingest events now).changes k).foldl (MemoryCache.apply k) (cache.1.messages.find? k) := by
  induction events generalizing cache with
  | nil => rfl
  | cons _ _ ih =>
    rw [List.foldl_cons,ih,memory_event named,changes_cons]
    split <;> rfl

omit named in
theorem handled_key (m : Option CachedMessage) (container ts : String) (now : Nat)
    (stored : ∀ r, m = some r → r.key = (container,ts)) :
    (MemoryCache.handledMessage m container ts now).key = (container,ts) := by
  cases m with
  | none => rfl
  | some r => exact stored r rfl

theorem memory_exec (texts : Texts) (c : Cache) (call : CacheCall) :
    (MemoryCache.exec texts c call).messages.find? k =
      (call.changes k).foldl (MemoryCache.apply k) (c.messages.find? k) := by
  cases call with
  | ingest events now => exact memory_ingest named texts now events (c,0)
  | markHandled container ts now =>
    have row := handled_key (c.messages.find? (container,ts)) container ts now fun r => key_of_find?
    rw [MemoryCache.exec,MemoryCache.markHandled,find?_set_row _ row,CacheCall.changes]
    split
    next here =>
      subst here
      rfl
    next => rfl

theorem memory_run (texts : Texts) (calls : List CacheCall) (c : Cache) :
    (run (MemoryCache.exec texts) c calls).messages.find? k =
      (changesOf k calls).foldl (MemoryCache.apply k) (c.messages.find? k) := by
  induction calls generalizing c with
  | nil => rfl
  | cons _ _ ih =>
    rw [run_cons,ih,memory_exec named,changesOf,changesOf,List.flatMap_cons,List.foldl_append]

def numeric (texts : Texts) (e : IngestEvent) : Bool := e.skipped || (texts.number e.ts).isSome

def NumericState (texts : Texts) (c : Cache) : Prop :=
  ∀ st ∈ c.state, ∀ ts, st.oldestTs = some ts → (texts.number ts).isSome = true

variable {texts : Texts}

omit named in
theorem nextState_some (state : Option ContainerState) (now : Nat)
    (stored : ∀ st, state = some st → ∀ ts, st.oldestTs = some ts → (texts.number ts).isSome)
    (number : (texts.number e.ts).isSome) : ∃ st, nextState texts state e now = some st ∧
      ∀ ts, st.oldestTs = some ts → (texts.number ts).isSome := by
  obtain ⟨n,hn⟩ := Option.isSome_iff_exists.mp number
  cases state with
  | none => exact ⟨_,rfl,fun ts h => by rwa [← Option.some.inj h]⟩
  | some st =>
    have oldest : ∃ ts, oldestTs texts st.oldestTs e.ts = some ts ∧ (texts.number ts).isSome = true := by
      cases here : st.oldestTs with
      | none => exact ⟨e.ts,rfl,number⟩
      | some ts =>
        have numbered := stored st rfl ts here
        obtain ⟨o,ho⟩ := Option.isSome_iff_exists.mp numbered
        refine ⟨if n < o then e.ts else ts,by simp [oldestTs,hn,ho],?_⟩
        split
        · exact number
        · exact numbered
    obtain ⟨ts,found,numbered⟩ := oldest
    rw [nextState,found]
    exact ⟨_,rfl,fun t h => by rwa [← Option.some.inj h]⟩

omit named in
theorem upsert_key {m : Option CachedMessage} (now : Nat) (stored : ∀ r, m = some r → r.key = (e.container,e.ts)) :
    (upsert m (inserted e now)).1.key = (e.container,e.ts) := by
  cases m with
  | none => rfl
  | some r =>
    rw [upsert]
    split <;> exact stored r rfl

theorem postgres_event (now : Nat) {cache : Cache × Nat}
    (state : NumericState texts cache.1) (number : numeric texts e) :
    ∃ cache', ingestEvent texts now cache e = some cache' ∧ NumericState texts cache'.1 ∧ cache'.1.messages.find? k =
        if (e.container,e.ts) = k then apply k (cache.1.messages.find? k) (.event e now)
        else cache.1.messages.find? k := by
  obtain ⟨c,n⟩ := cache
  cases skipped : e.skipped with
  | true =>
    have other : (e.container,e.ts) ≠ k := by
      intro here
      rw [skipped_other named here] at skipped
      cases skipped
    exact ⟨(c,n),by simp [ingestEvent,skipped],state,by rw [if_neg other]⟩
  | false =>
    rw [numeric,skipped] at number
    obtain ⟨st,next,numbered⟩ := nextState_some (c.state.find? e.container) now
      (fun st found => state st (mem_of_find? found)) number
    have row := upsert_key (m := c.messages.find? (e.container,e.ts)) now fun r => key_of_find?
    obtain ⟨files,upserted,done⟩ : ∃ files upserted, ingestEvent texts now (c,n) e =
        some (⟨c.messages.set (upsert (c.messages.find? (e.container,e.ts))
          (inserted e now)).1,files,c.state.set st⟩,upserted) := by
      simp only [ingestEvent,skipped,next]
      exact ⟨_,_,rfl⟩
    refine ⟨_,done,?_,?_⟩
    · intro st' mem ts oldest
      rcases mem_set.mp mem with rfl | ⟨mem,_⟩
      · exact numbered ts oldest
      · exact state st' mem ts oldest
    · rw [find?_set_row _ row]
      split
      next here =>
        subst here
        rfl
      next => rfl

theorem postgres_ingest (now : Nat) {events : List IngestEvent} (cache : Cache × Nat)
    (state : NumericState texts cache.1) (numbers : ∀ e ∈ events, numeric texts e) :
    ∃ cache', events.foldlM (ingestEvent texts now) cache = some cache' ∧ NumericState texts cache'.1 ∧
      cache'.1.messages.find? k =
        ((CacheCall.ingest events now).changes k).foldl (apply k) (cache.1.messages.find? k) := by
  induction events generalizing cache with
  | nil => exact ⟨cache,rfl,state,rfl⟩
  | cons e _ ih =>
    obtain ⟨mid,first,state',here⟩ := postgres_event named now state (numbers e (.head _))
    obtain ⟨last,rest,state'',found⟩ := ih mid state' fun e mem => numbers e (.tail _ mem)
    refine ⟨last,by rw [List.foldlM_cons,first]; exact rest,state'',?_⟩
    rw [found,here,changes_cons]
    split <;> rfl

def CacheCall.numeric (texts : Texts) : CacheCall → Bool
  | .ingest events _ => events.all (SurfaceCache.numeric texts)
  | .markHandled _ _ _ => true

theorem postgres_exec {c : Cache} (state : NumericState texts c) {call : CacheCall}
    (numbers : call.numeric texts) : NumericState texts (exec texts c call) ∧ (exec texts c call).messages.find? k =
        (call.changes k).foldl (apply k) (c.messages.find? k) := by
  cases call with
  | ingest _ now =>
    obtain ⟨last,done,state',found⟩ :=
      postgres_ingest named now (c,0) state (List.all_eq_true.mp numbers)
    rw [exec,ingest,done]
    exact ⟨state',found⟩
  | markHandled container ts now =>
    refine ⟨state,?_⟩
    have row : (handledRow (c.messages.find? (container,ts)) container ts now).key = (container,ts) := by
      cases found : c.messages.find? (container,ts) with
      | none => rfl
      | some r =>
        have key : r.key = (container,ts) := key_of_find? found
        exact key
    rw [exec,markHandled,find?_set_row _ row,CacheCall.changes]
    split
    next here =>
      subst here
      rfl
    next => rfl

theorem postgres_run {calls : List CacheCall} {c : Cache} (state : NumericState texts c)
    (numbers : ∀ call ∈ calls, call.numeric texts) : (run (exec texts) c calls).messages.find? k =
      (changesOf k calls).foldl (apply k) (c.messages.find? k) := by
  induction calls generalizing c with
  | nil => rfl
  | cons call _ ih =>
    obtain ⟨state',here⟩ := postgres_exec named state (numbers call (.head _))
    rw [run_cons,ih state' fun call mem => numbers call (.tail _ mem),here,changesOf,changesOf,
      List.flatMap_cons,List.foldl_append]

end

def timeOf (m : Option CachedMessage) : Nat := (m.map CachedMessage.time).getD 0

inductive Absorbed (m : Option CachedMessage) : Change → Option CachedMessage → Prop
  | written (e : IngestEvent) (now : Nat) (n : CachedMessage) (time : n.time = max e.time (timeOf m))
      (accepted : m = none ∨ e.deleted = true ∨ timeOf m ≤ e.time ∨ e.handled = true)
      (text : e.deleted = false → n.text = e.text.getD "")
      (kept : e.deleted = true → ∀ o, m = some o → n.text = o.text)
      (deleted : n.deleted = (m.any CachedMessage.deleted || e.deleted))
      (handled : n.handled = (m.any CachedMessage.handled || e.handled)) : Absorbed m (.event e now) (some n)
  | ignored (e : IngestEvent) (now : Nat) (shown : e.deleted = false) (older : e.time < timeOf m) :
      Absorbed m (.event e now) m
  | marked (now : Nat) (n : CachedMessage) (time : n.time = timeOf m) (text : ∀ o, m = some o → n.text = o.text)
      (deleted : n.deleted = m.any CachedMessage.deleted) (handled : n.handled = true) :
      Absorbed m (.handled now) (some n)

theorem memory_absorbed (k : MessageKey) (m : Option CachedMessage) (c : Change) :
    Absorbed m c (MemoryCache.apply k m c) := by
  cases c with
  | event e now =>
    rw [MemoryCache.apply]
    split
    next accepted =>
      refine .written e now _ ?_ ?_ ?_ ?_ rfl (Bool.or_comm ..)
      · have time : (MemoryCache.merged m e now).time = max e.time (timeOf m) := by
          rw [CachedMessage.time,MemoryCache.merged]
          simp only
          split
          · rfl
          next zero => exact (Nat.eq_zero_of_not_pos zero).symm
        exact time
      · cases m with
        | none => exact .inl rfl
        | some =>
          simp only [MemoryCache.accepts,Option.all_some,Bool.or_eq_true,decide_eq_true_eq] at accepted
          exact .inr (accepted.imp_right .inl)
      · intro shown
        simp [MemoryCache.merged,shown]
      · intro gone o here
        simp [MemoryCache.merged,gone,here]
    next refused =>
      cases m with
      | none => exact absurd rfl refused
      | some =>
        simp only [MemoryCache.accepts,Option.all_some,Bool.or_eq_true,decide_eq_true_eq,not_or,not_le,
          Bool.not_eq_true] at refused
        exact .ignored e now refused.1 refused.2
  | handled now =>
    cases m with
    | none => exact .marked now _ rfl (fun o here => by cases here) rfl rfl
    | some o => exact .marked now _ rfl (fun o here => by cases here; rfl) rfl rfl

theorem postgres_absorbed (k : MessageKey) (m : Option CachedMessage) (c : Change) : Absorbed m c (apply k m c) := by
  cases c with
  | event e now =>
    rw [apply]
    cases m with
    | none =>
      refine .written e now _ (Nat.max_eq_left (Nat.zero_le _)).symm (.inl rfl) (fun _ => rfl) ?_ rfl rfl
      intro _ o here
      cases here
    | some o =>
      rw [upsert]
      split
      next accepted =>
        have test : (e.deleted || decide (o.time ≤ e.time) || e.handled) = true := accepted
        simp only [Bool.or_eq_true,decide_eq_true_eq,or_assoc] at test
        refine .written e now _ rfl (.inr test) ?_ ?_ rfl rfl
        · intro shown
          simp [updated,inserted,shown]
        · intro gone o' here
          cases here
          simp [updated,inserted,gone]
      next refused =>
        have test : ¬ (e.deleted || decide (o.time ≤ e.time) || e.handled) = true := refused
        simp only [Bool.or_eq_true,decide_eq_true_eq,not_or,not_le,Bool.not_eq_true] at test
        exact .ignored e now test.1.1 test.1.2
  | handled now =>
    cases m with
    | none => exact .marked now _ rfl (fun o here => by cases here) rfl rfl
    | some o => exact .marked now _ rfl (fun o here => by cases here; rfl) rfl rfl

structure Mergeable (changes : List Change) : Prop where
  texted : ∀ e ∈ eventsOf changes, e.deleted = false → e.text.isSome = true
  handledNewest : ∀ e ∈ eventsOf changes, e.handled = true → e.deleted = false → ∀ g ∈ textsOf changes, g.time ≤ e.time
  deletedUndated : ∀ e ∈ eventsOf changes, e.deleted = true → ∀ g ∈ textsOf changes, e.time ≤ g.time

structure Merged (seen : List Change) (m : Option CachedMessage) : Prop where
  fresh : m = none → seen = []
  bound : ∀ e ∈ eventsOf seen, e.time ≤ timeOf m
  attained : timeOf m = 0 ∨ ∃ e ∈ eventsOf seen, e.time = timeOf m
  text : ∀ f ∈ textsOf seen, (∀ g ∈ textsOf seen, g.time ≤ f.time) → m.map CachedMessage.text = some (f.text.getD "")
  deleted : m.any CachedMessage.deleted = seen.any Change.deletes
  handled : m.any CachedMessage.handled = seen.any Change.handles

section

variable {all seen : List Change} {m m' : Option CachedMessage} {e : IngestEvent} {now : Nat}

theorem mem_textsOf : e ∈ textsOf seen ↔ e ∈ eventsOf seen ∧ e.deleted = false ∧ e.text.isSome := by
  simp [textsOf,carriesText]

theorem eventsOf_snoc : eventsOf (seen ++ [.event e now]) = eventsOf seen ++ [e] := by
  simp [eventsOf,Change.event?]

theorem eventsOf_handled : eventsOf (seen ++ [.handled now]) = eventsOf seen := by
  simp [eventsOf,Change.event?]

theorem textsOf_handled : textsOf (seen ++ [.handled now]) = textsOf seen := by
  rw [textsOf,textsOf,eventsOf_handled]

variable {f : IngestEvent}

theorem mem_textsOf_snoc : f ∈ textsOf (seen ++ [.event e now]) ↔ f ∈ textsOf seen ∨ (f = e ∧ e.carriesText) := by
  rw [textsOf,eventsOf_snoc,List.filter_append,List.mem_append,← textsOf,List.mem_filter,List.mem_singleton]
  constructor
  all_goals
    rintro (old | ⟨rfl,text⟩)
    · exact .inl old
    · exact .inr ⟨rfl,text⟩

structure Within (all seen : List Change) (c : Change) : Prop where
  mergeable : Mergeable all
  unique : ∀ f ∈ textsOf all, ∀ g ∈ textsOf all, f.time = g.time → f.text = g.text
  events : ∀ e ∈ eventsOf (seen ++ [c]), e ∈ eventsOf all

variable {c : Change}

theorem Within.texts (within : Within all seen c) (mem : f ∈ textsOf (seen ++ [c])) : f ∈ textsOf all := by
  obtain ⟨event,text⟩ := mem_textsOf.mp mem
  exact mem_textsOf.mpr ⟨within.events f event,text⟩

theorem Within.event (within : Within all seen (.event e now)) : e ∈ eventsOf all :=
  within.events e (by simp [eventsOf_snoc])

theorem Within.old (within : Within all seen c) (mem : f ∈ textsOf seen) : f ∈ textsOf all := by
  refine within.texts (mem_textsOf.mpr ?_)
  obtain ⟨event,text⟩ := mem_textsOf.mp mem
  exact ⟨by simp only [eventsOf,List.filterMap_append,List.mem_append]; exact .inl event,text⟩

theorem Merged.newer (merged : Merged seen m) (within : Within all seen (.event e now)) (shown : e.deleted = false)
    (older : e.time < timeOf m) : ∃ h ∈ textsOf seen, e.time < h.time := by
  have text : e ∈ textsOf all :=
    mem_textsOf.mpr ⟨within.event,shown,within.mergeable.texted e within.event shown⟩
  rcases merged.attained with zero | ⟨h,mem,time⟩
  · omega
  · have event : h ∈ eventsOf all := within.events h (by simp [eventsOf_snoc,mem])
    cases deleted : h.deleted with
    | true =>
      have undated := within.mergeable.deletedUndated h event deleted e text
      omega
    | false => exact ⟨h,mem_textsOf.mpr ⟨mem,deleted,within.mergeable.texted h event deleted⟩,by omega⟩

theorem any_handles (e : IngestEvent) (now : Nat) (seen : List Change) :
    (seen ++ [Change.event e now]).any Change.handles = (seen.any Change.handles || e.handled) := by
  simp [Change.handles]

theorem any_deletes (e : IngestEvent) (now : Nat) (seen : List Change) :
    (seen ++ [Change.event e now]).any Change.deletes = (seen.any Change.deletes || e.deleted) := by
  simp [Change.deletes]

theorem merged_ignored (merged : Merged seen m) (within : Within all seen (.event e now)) (shown : e.deleted = false)
    (older : e.time < timeOf m) : Merged (seen ++ [.event e now]) m := by
  obtain ⟨h,stored,newer⟩ := merged.newer within shown older
  refine ⟨fun none => ?_,fun f mem => ?_,?_,fun f mem newest => ?_,?_,?_⟩
  · rw [none] at older
    exact absurd older (Nat.not_lt_zero _)
  · rw [eventsOf_snoc,List.mem_append,List.mem_singleton] at mem
    rcases mem with mem | rfl
    · exact merged.bound f mem
    · exact older.le
  · refine merged.attained.imp_right fun ⟨f,mem,time⟩ => ⟨f,?_,time⟩
    rw [eventsOf_snoc]
    exact List.mem_append_left _ mem
  · rcases mem_textsOf_snoc.mp mem with old | ⟨rfl,_⟩
    · exact merged.text f old fun g mem => newest g (mem_textsOf_snoc.mpr (.inl mem))
    · have := newest h (mem_textsOf_snoc.mpr (.inl stored))
      omega
  · rw [any_deletes,shown,Bool.or_false]
    exact merged.deleted
  · have unhandled : e.handled = false := by
      rw [Bool.eq_false_iff]
      intro handled
      have := within.mergeable.handledNewest e within.event handled shown h (within.old stored)
      omega
    rw [any_handles,unhandled,Bool.or_false]
    exact merged.handled

theorem merged_text (merged : Merged seen m) (within : Within all seen (.event e now)) {n : CachedMessage}
    (accepted : m = none ∨ e.deleted ∨ timeOf m ≤ e.time ∨ e.handled)
    (text : e.deleted = false → n.text = e.text.getD "")
    (kept : e.deleted → ∀ o, m = some o → n.text = o.text) (f : IngestEvent)
    (mem : f ∈ textsOf (seen ++ [.event e now])) (newest : ∀ g ∈ textsOf (seen ++ [.event e now]), g.time ≤ f.time) :
    (some n).map CachedMessage.text = some (f.text.getD "") := by
  rw [Option.map_some]
  cases deleted : e.deleted with
  | true =>
    rcases mem_textsOf_snoc.mp mem with old | ⟨rfl,carries⟩
    · have stored := merged.text f old fun g mem => newest g (mem_textsOf_snoc.mpr (.inl mem))
      cases m with
      | none => cases stored
      | some o =>
        rw [kept deleted o rfl]
        exact stored
    · simp [carriesText,deleted] at carries
  | false =>
    rw [text deleted]
    rcases mem_textsOf_snoc.mp mem with old | ⟨rfl,_⟩
    · have given := within.mergeable.texted e within.event deleted
      have carries : e.carriesText = true := by simp [carriesText,deleted,given]
      have here : e ∈ textsOf (seen ++ [.event e now]) := mem_textsOf_snoc.mpr (.inr ⟨rfl,carries⟩)
      have bounded : f.time ≤ e.time := by
        rcases accepted with none | gone | late | handled
        · rw [merged.fresh none] at old
          cases old
        · rw [deleted] at gone
          cases gone
        · exact (merged.bound f (mem_textsOf.mp old).1).trans late
        · exact within.mergeable.handledNewest e within.event handled deleted f (within.texts mem)
      rw [within.unique f (within.texts mem) e (within.texts here) (le_antisymm bounded (newest e here))]
    · rfl

theorem merged_absorbed (merged : Merged seen m) (within : Within all seen c) (absorbed : Absorbed m c m') :
    Merged (seen ++ [c]) m' := by
  cases absorbed with
  | ignored _ _ shown older => exact merged_ignored merged within shown older
  | marked _ n time text deleted handled =>
    have same : timeOf (some n) = timeOf m := time
    refine ⟨fun none => absurd none (Option.some_ne_none n),?_,?_,?_,?_,?_⟩
    · rw [eventsOf_handled,same]
      exact merged.bound
    · rw [eventsOf_handled,same]
      exact merged.attained
    · rw [textsOf_handled]
      intro f mem newest
      have stored := merged.text f mem newest
      cases m with
      | none => cases stored
      | some o =>
        rw [Option.map_some,text o rfl]
        exact stored
    · simpa [Change.deletes,deleted] using merged.deleted
    · simp [Change.handles,handled]
  | written e _ n time accepted text kept deleted handled =>
    have same : timeOf (some n) = max e.time (timeOf m) := time
    refine ⟨fun none => absurd none (Option.some_ne_none n),fun f mem => ?_,?_,fun f mem newest => ?_,?_,?_⟩
    · rw [eventsOf_snoc,List.mem_append,List.mem_singleton] at mem
      rw [same]
      rcases mem with mem | rfl
      · exact le_max_of_le_right (merged.bound f mem)
      · exact le_max_left ..
    · rw [same,eventsOf_snoc]
      rcases le_total (timeOf m) e.time with le | le
      · exact .inr ⟨e,by simp,(max_eq_left le).symm⟩
      · rw [max_eq_right le]
        exact merged.attained.imp_right fun ⟨f,mem,time⟩ => ⟨f,List.mem_append_left _ mem,time⟩
    · exact merged_text merged within accepted text kept f mem newest
    · rw [Option.any_some,deleted,merged.deleted,any_deletes]
    · rw [Option.any_some,handled,merged.handled,any_handles]

theorem merged_foldl {apply : Option CachedMessage → Change → Option CachedMessage}
    (absorbs : ∀ m c, Absorbed m c (apply m c)) (mergeable : Mergeable all)
    (distinct : ((textsOf all).map time).Nodup) : Merged all (all.foldl apply none) := by
  have unique : ∀ f ∈ textsOf all, ∀ g ∈ textsOf all, f.time = g.time → f.text = g.text := fun f hf g hg time => by
    rw [List.inj_on_of_nodup_map distinct hf hg time]
  have prefixes (seen rest : List Change) (whole : seen ++ rest = all) : Merged seen (seen.foldl apply none) := by
    induction seen using List.reverseRecOn generalizing rest with
    | nil =>
      exact ⟨fun _ => rfl,fun e mem => absurd mem List.not_mem_nil,.inl rfl,
        fun f mem => absurd mem List.not_mem_nil,rfl,rfl⟩
    | append_singleton _ c ih =>
      rw [List.append_assoc] at whole
      rw [List.foldl_append]
      refine merged_absorbed (ih ([c] ++ rest) whole) ⟨mergeable,unique,fun e mem => ?_⟩ (absorbs _ c)
      rw [← whole,← List.append_assoc,eventsOf,List.filterMap_append]
      exact List.mem_append_left _ mem
  exact prefixes all [] (List.append_nil all)

end

structure Settled (changes : List Change) (m : Option CachedMessage) : Prop where
  text : ∀ f ∈ textsOf changes, (∀ g ∈ textsOf changes, g.time ≤ f.time) →
    m.map CachedMessage.text = some (f.text.getD "")
  deleted : m.any CachedMessage.deleted = true ↔ ∃ c ∈ changes, c.deletes = true
  handled : m.any CachedMessage.handled = true ↔ ∃ c ∈ changes, c.handles = true

theorem Merged.settled {changes : List Change} {m : Option CachedMessage} (merged : Merged changes m) :
    Settled changes m :=
  ⟨merged.text,by rw [merged.deleted,List.any_eq_true],by rw [merged.handled,List.any_eq_true]⟩

theorem messages_settle (memoryTexts postgresTexts : Texts) (calls : List CacheCall) (container ts : String)
    (named : container ≠ "" ∧ ts ≠ "") (distinct : ((textsOf (changesOf (container,ts) calls)).map time).Nodup)
    (mergeable : Mergeable (changesOf (container,ts) calls))
    (numbers : ∀ call ∈ calls, call.numeric postgresTexts = true) : Settled (changesOf (container,ts) calls)
        ((run (MemoryCache.exec memoryTexts) .empty calls).messages.find? (container,ts)) ∧
      Settled (changesOf (container,ts) calls)
        ((run (exec postgresTexts) .empty calls).messages.find? (container,ts)) := by
  have blank : NumericState postgresTexts .empty := nofun
  rw [memory_run named,postgres_run named blank numbers]
  exact ⟨(merged_foldl (memory_absorbed _) mergeable distinct).settled,
    (merged_foldl (postgres_absorbed _) mergeable distinct).settled⟩

def decimal : Texts where
  above _ _ := false
  number t :=
    if t.toList.all Char.isDigit then some (t.toList.foldl (fun n c => 10 * n + c.toNat - 48) 0 : Nat)
    else none

def posted (text : String) (handled : Bool) : IngestEvent :=
  {container := "C1", ts := "17", text := some text, handled := handled}

def edited (text : String) (editedAt : Nat) : IngestEvent :=
  {container := "C1", ts := "17", text := some text, editedAt := some editedAt}

def removed : IngestEvent := {container := "C1", ts := "17", deleted := true}

def anyOrder : List CacheCall :=
  [.ingest [edited "hi there" 5,removed] 9,.markHandled "C1" "17" 9,.ingest [posted "hi" false] 10]

theorem messages_settle_any_order : Settled (changesOf ("C1","17") anyOrder)
        ((run (MemoryCache.exec decimal) .empty anyOrder).messages.find? ("C1","17")) ∧
      Settled (changesOf ("C1","17") anyOrder) ((run (exec decimal) .empty anyOrder).messages.find? ("C1","17")) :=
  messages_settle decimal decimal anyOrder "C1" "17" (by decide) (by decide) ⟨by decide,by decide,by decide⟩
    (by decide +kernel)

def handledAfterEdit : List CacheCall := [.ingest [edited "new" 5] 9,.ingest [posted "old" true] 10]

theorem handled_after_edit_unsettled : ((textsOf (changesOf ("C1","17") handledAfterEdit)).map time).Nodup ∧
      ((run (MemoryCache.exec decimal) .empty handledAfterEdit).messages.find? ("C1","17")).map
        (fun m => (m.text,m.handled)) = some ("new",false) ∧
      ((run (exec decimal) .empty handledAfterEdit).messages.find? ("C1","17")).map
        (fun m => (m.text,m.handled)) = some ("old",true) := by
  decide +kernel

end CompanyBrain.SurfaceCache
