import CompanyBrain.Foundations.History
import CompanyBrain.Persistence.DurableMap

namespace CompanyBrain.Persistence

open Foundations Table

def cacheMaxAgeMs : Int := 15000

structure Cache where
  v : Option Nat
  fetchedAt : Int
  entries : List (String × JsonObject)

inductive Listing where
  | all
  | entries

inductive Listed where
  | all (values : List JsonObject)
  | entries (rows : List (String × JsonObject))

def Listing.reply (rows : List (String × JsonObject)) : Listing → Listed
  | all => .all (rows.map (·.2))
  | entries => .entries rows

inductive Snapshot where
  | idle
  | begun (listing : Listing)
  | versioned (listing : Listing) (v : Option Nat)
  | refreshing (listing : Listing) (v : Option Nat)
  | fetched (listing : Listing) (v : Option Nat) (rows : List (String × JsonObject))
  | returned (listed : Listed)
  | failed

structure World where
  db : Db
  cache : Option Cache
  calls : Nat → Snapshot

namespace World

def start (db : Db) : World := ⟨db,none,fun _ => .idle⟩

def put (w : World) (i : Nat) (call : Snapshot) : World :=
  {w with calls := fun j => if j = i then call else w.calls j}

def fresh (w : World) (v : Option Nat) (now : Int) : Option Cache :=
  w.cache.filter fun cache => cache.v = v && now - cache.fetchedAt ≤ cacheMaxAgeMs

end World

inductive Event where
  | commit (write : Write)
  | begin (i : Nat) (listing : Listing)
  | readVersion (i : Nat)
  | compare (i : Nat) (now : Int)
  | readRows (i : Nat)
  | store (i : Nat) (now : Int)
  | fail (i : Nat)

variable (idLe : String → String → Bool)

-- A query reads the committed state; what follows its answer runs without a pause to the next query.
def step (w : World) : Event → World
  | .commit write => {w with db := (w.db.withBump write).1}
  | .begin i listing =>
    match w.calls i with
    | .idle => w.put i (.begun listing)
    | _ => w
  | .readVersion i =>
    match w.calls i with
    | .begun listing => w.put i (.versioned listing w.db.version)
    | _ => w
  | .compare i now =>
    match w.calls i with
    | .versioned listing v =>
      match w.fresh v now with
      | some cache => w.put i (.returned (listing.reply cache.entries))
      | none => w.put i (.refreshing listing v)
    | _ => w
  | .readRows i =>
    match w.calls i with
    | .refreshing listing v => w.put i (.fetched listing v (w.db.select idLe))
    | _ => w
  | .store i now =>
    match w.calls i with
    | .fetched listing v rows => {w.put i (.returned (listing.reply rows)) with cache := some ⟨v,now,rows⟩}
    | _ => w
  | .fail i =>
    match w.calls i with
    | .idle => w
    | .returned _ => w
    | _ => w.put i .failed

variable (db : Db)

def dbAt (events : List Event) (n : Nat) : Db := (moment (step idLe) (.start db) events n).db

def Began (events : List Event) (i : Nat) (listing : Listing) (b : Nat) : Prop := events[b]? = some (.begin i listing)

def Traced (events : List Event) (i : Nat) : Snapshot → Prop
  | .idle => True
  | .begun listing => ∃ b, Began events i listing b
  | .versioned listing v => ∃ b m, Began events i listing b ∧ b < m ∧ m ≤ events.length ∧
      (dbAt idLe db events m).version = v
  | .refreshing listing v => ∃ b m, Began events i listing b ∧ b < m ∧ m ≤ events.length ∧
      (dbAt idLe db events m).version = v
  | .fetched listing v rows => ∃ b m n, Began events i listing b ∧ b < m ∧ m ≤ n ∧ n ≤ events.length ∧
      (dbAt idLe db events m).version = v ∧ (dbAt idLe db events n).select idLe = rows
  | .returned listed => ∃ b n listing, Began events i listing b ∧ b < n ∧ n ≤ events.length ∧
      listed = listing.reply ((dbAt idLe db events n).select idLe)
  | .failed => True

def CacheTraced (events : List Event) (cache : Cache) : Prop :=
  ∃ m n, m ≤ n ∧ n ≤ events.length ∧ (dbAt idLe db events m).version = cache.v ∧
    (dbAt idLe db events n).select idLe = cache.entries

structure Current (events : List Event) (w : World) : Prop where
  calls : ∀ i, Traced idLe db events i (w.calls i)
  cache : ∀ cache, w.cache = some cache → CacheTraced idLe db events cache

variable {idLe db}

variable {events : List Event} {listing : Listing} {i : Nat}

theorem began_lt {b : Nat} (began : Began events i listing b) :
    b < events.length := (List.getElem?_eq_some_iff.mp began).1

theorem began_append {b : Nat} (began : Began events i listing b) (e : Event) : Began (events ++ [e]) i listing b := by
  rw [Began,List.getElem?_append_left (began_lt began)]
  exact began

variable {n : Nat}

theorem dbAt_append (h : n ≤ events.length) (e : Event) :
    dbAt idLe db (events ++ [e]) n = dbAt idLe db events n := congrArg World.db (moment_append _ _ _ _ h)

theorem dbAt_now (events : List Event) :
    dbAt idLe db events events.length = (run (step idLe) (.start db) events).db :=
      congrArg World.db (moment_length _ _ _)

theorem length_le_append (events : List Event) (e : Event) (h : n ≤ events.length) : n ≤ (events ++ [e]).length := by
  rw [List.length_append]
  omega

theorem traced_append {call : Snapshot} (traced : Traced idLe db events i call) (e : Event) :
    Traced idLe db (events ++ [e]) i call := by
  cases call with
  | idle | failed => trivial
  | begun =>
    obtain ⟨b,began⟩ := traced
    exact ⟨b,began_append began e⟩
  | versioned | refreshing =>
    obtain ⟨b,m,began,bm,hm,version⟩ := traced
    exact ⟨b,m,began_append began e,bm,length_le_append events e hm,by rw [dbAt_append hm,version]⟩
  | fetched =>
    obtain ⟨b,m,n,began,bm,mn,hn,version,select⟩ := traced
    exact ⟨b,m,n,began_append began e,bm,mn,length_le_append events e hn,
      by rw [dbAt_append (le_trans mn hn),version],by rw [dbAt_append hn,select]⟩
  | returned =>
    obtain ⟨b,n,listing,began,bn,hn,reply⟩ := traced
    exact ⟨b,n,listing,began_append began e,bn,length_le_append events e hn,by rw [dbAt_append hn,reply]⟩

variable {cache : Cache}

theorem cacheTraced_append (traced : CacheTraced idLe db events cache) (e : Event) :
    CacheTraced idLe db (events ++ [e]) cache := by
  obtain ⟨m,n,mn,hn,version,entries⟩ := traced
  exact ⟨m,n,mn,length_le_append events e hn,by rw [dbAt_append (le_trans mn hn),version],
    by rw [dbAt_append hn,entries]⟩

variable {w : World}

theorem current_append (current : Current idLe db events w) (e : Event) : Current idLe db (events ++ [e]) w :=
  ⟨fun i => traced_append (current.calls i) e,fun cache found => cacheTraced_append (current.cache cache found) e⟩

theorem current_put {call : Snapshot} (current : Current idLe db events w) (traced : Traced idLe db events i call) :
    Current idLe db events (w.put i call) := by
  refine ⟨fun j => ?_,current.cache⟩
  by_cases here : j = i
  · subst here
    simpa [World.put] using traced
  · simpa [World.put,here] using current.calls j

variable (idLe) in
theorem step_db (w : World) (e : Event) : (step idLe w e).db = w.db ∨
    ∃ write, (step idLe w e).db = (w.db.withBump write).1 := by
  cases e with
  | commit write => exact .inr ⟨write,rfl⟩
  | _ =>
    refine .inl ?_
    simp only [step]
    repeat' split
    all_goals rfl

theorem bump_ranks (version : Option Nat) : version.getD 0 < (bump version).getD 0 := by
  cases version <;> simp [bump]

theorem versions_rank : Ranked (step idLe) (fun w => w.db.version.getD 0) World.db := by
  intro w e
  rcases step_db idLe w e with same | ⟨write,written⟩
  · exact .inl ⟨congrArg (fun db => db.version.getD 0) same,same⟩
  · refine .inr (Nat.lt_of_lt_of_eq (bump_ranks w.db.version) ?_)
    exact congrArg (fun db => db.version.getD 0) written.symm

theorem select_between {l m : Nat} (lm : l ≤ m) (mn : m ≤ n)
    (same : (dbAt idLe db events l).version = (dbAt idLe db events n).version) :
    dbAt idLe db events m = dbAt idLe db events n :=
  versions_rank.view_between (.start db) events lm mn (congrArg (Option.getD · 0) same)

theorem fresh_eq_some {v : Option Nat} {now : Int} (fresh : w.fresh v now = some cache) :
    w.cache = some cache ∧ cache.v = v := by
  obtain ⟨found,test⟩ := Option.filter_eq_some_iff.mp fresh
  exact ⟨found,of_decide_eq_true (Bool.and_eq_true_iff.mp test).1⟩

theorem cached_traced {v : Option Nat} (versioned : Traced idLe db events i (.versioned listing v))
    (cached : CacheTraced idLe db events cache) (same : cache.v = v) :
    Traced idLe db events i (.returned (listing.reply cache.entries)) := by
  obtain ⟨b,m,began,bm,hm,version⟩ := versioned
  obtain ⟨m',n',mn',hn',version',entries⟩ := cached
  rcases Nat.le_total m n' with later | earlier
  · exact ⟨b,n',listing,began,lt_of_lt_of_le bm later,hn',by rw [entries]⟩
  · have unchanged := select_between mn' earlier (version'.trans (same.trans version.symm))
    exact ⟨b,m,listing,began,bm,hm,by rw [← unchanged,entries]⟩

theorem current_step (now : dbAt idLe db events events.length = w.db) (current : Current idLe db events w) (e : Event) :
    Current idLe db (events ++ [e]) (step idLe w e) := by
  have kept := current_append current e
  cases e with
  | commit => exact ⟨kept.calls,kept.cache⟩
  | begin =>
    simp only [step]
    split
    · exact current_put kept ⟨events.length,by simp [Began]⟩
    · exact kept
  | readVersion i =>
    simp only [step]
    split
    next listing call =>
      have traced := current.calls i
      rw [call] at traced
      obtain ⟨b,began⟩ := traced
      refine current_put kept (traced_append ?_ _)
      exact ⟨b,events.length,began,began_lt began,le_rfl,by rw [now]⟩
    · exact kept
  | compare i =>
    simp only [step]
    split
    next listing v call =>
      have traced := current.calls i
      rw [call] at traced
      split
      next cache fresh =>
        obtain ⟨found,same⟩ := fresh_eq_some fresh
        exact current_put kept (traced_append (cached_traced traced (current.cache cache found) same) _)
      next => exact current_put kept (traced_append traced _)
    · exact kept
  | readRows i =>
    simp only [step]
    split
    next listing v call =>
      have traced := current.calls i
      rw [call] at traced
      obtain ⟨b,m,began,bm,hm,version⟩ := traced
      refine current_put kept (traced_append ?_ _)
      exact ⟨b,m,events.length,began,bm,hm,le_rfl,version,by rw [now]⟩
    · exact kept
  | store i =>
    simp only [step]
    split
    next listing v rows call =>
      have traced := current.calls i
      rw [call] at traced
      obtain ⟨b,m,n,began,bm,mn,hn,version,select⟩ := traced
      have returns : Traced idLe db events i (.returned (listing.reply rows)) :=
        ⟨b,n,listing,began,lt_of_lt_of_le bm mn,hn,by rw [select]⟩
      refine ⟨(current_put kept (traced_append returns _)).calls,fun cache found => ?_⟩
      rw [← Option.some.inj found]
      exact cacheTraced_append ⟨m,n,mn,hn,version,select⟩ _
    · exact kept
  | fail =>
    simp only [step]
    split
    · exact kept
    · exact kept
    · exact current_put kept trivial

variable (idLe db) in
theorem current_run (events : List Event) : Current idLe db events (run (step idLe) (.start db) events) := by
  induction events using List.reverseRecOn with
  | nil =>
    refine ⟨fun _ => trivial,fun cache found => ?_⟩
    cases found
  | append_singleton events e ih =>
    rw [run_append]
    exact current_step (dbAt_now events) ih e

theorem lists_are_current (idLe : String → String → Bool) (db : Db) (events : List Event) (i : Nat) (listed : Listed)
    (returns : (run (step idLe) (.start db) events).calls i = .returned listed) :
    ∃ b n listing, events[b]? = some (.begin i listing) ∧ b < n ∧ n ≤ events.length ∧
      listed = listing.reply ((moment (step idLe) (.start db) events n).db.select idLe) := by
  have traced := (current_run idLe db events).calls i
  rw [returns] at traced
  exact traced

def idOrder (a b : String) : Bool := a ≤ b

def overtakenRead : List Event :=
  [.begin 0 .all,.readVersion 0,.compare 0 10,.commit (.put "a" empty),.readRows 0,.store 0 20]

theorem lists_are_current_overtaken_read :
    ∃ b n listing, overtakenRead[b]? = some (.begin 0 listing) ∧ b < n ∧ n ≤ overtakenRead.length ∧
      Listed.all [empty] =
        listing.reply ((moment (step idOrder) (.start ⟨empty,none⟩) overtakenRead n).db.select idOrder) :=
  lists_are_current idOrder ⟨empty,none⟩ overtakenRead 0 (.all [empty]) rfl

end CompanyBrain.Persistence
