import CompanyBrain.Idempotency.OncePerKey

namespace CompanyBrain.Idempotency

open Foundations Table
open Function

structure Fits (opts : Options) (clock : Int) (key : String) (cached lastRun : Option Int)
    (p : Call) : Prop where
  looking : ∀ c, p.cutoff = some c → c ≤ clock - opts.retentionMs ∧ ∀ x, cached = some x → x < c
  found : ∀ c r, p = .got c (some r) → r.key = key
  answer : ∀ c r, p = .got c r → ∀ a, lastRun = some a → clock - opts.retentionMs ≤ a → r = some ⟨key,a⟩
  clear : p = .clear → ∀ a, lastRun = some a → a < clock - opts.retentionMs
  saving : ∀ t, p.saving = some t → t ≤ clock ∧ lastRun = some t

def Kept (s : Store) (key : String) (time : Int) : Prop :=
  ∃ b, s.backing = some b ∧ b.find? key = some ⟨key,time⟩ ∧
    ∀ i cutoff rows, s.prune i = .sweeping cutoff rows → ∀ r ∈ rows, r.key = key → r.time = time

def Remembered (keys : Nat → String) (s : Store) (key : String) (time : Int) : Prop :=
  s.done key = some time ∨ Kept s key time ∨ ∃ i, keys i = key ∧ (s.call i).saving = some time

structure Retained (opts : Options) (keys : Nat → String) (s : Store) : Prop where
  fits : ∀ i, Fits opts s.clock (keys i) (s.done (keys i)) (s.lastRun (keys i)) (s.call i)
  pruning : ∀ i c, (s.prune i).cutoff = some c → c ≤ s.clock - opts.retentionMs
  memory : ∀ k a, s.lastRun k = some a → s.clock - opts.retentionMs ≤ a → Remembered keys s k a
  spaced : ∀ st ∈ s.started, ∀ a, st.lastRun = some a → a < st.time - opts.retentionMs

def Call.plain : Call → Bool
  | reading _ => false
  | got _ _ => false
  | clear => false
  | storing _ => false
  | stored _ => false
  | _ => true

section

variable {opts : Options} {keys : Nat → String} {s s' : Store} {i : Nat} {p : Call}
  {clock : Int} {key : String} {cached lastRun : Option Int}

theorem fits_plain (plain : p.plain = true) : Fits opts clock key cached lastRun p := by
  cases p <;> first | (cases plain; done) | exact ⟨nofun,nofun,nofun,nofun,nofun⟩

theorem fits_saving {t : Int} (saving : p = .storing t ∨ p = .stored t) (past : t ≤ clock)
    (last : lastRun = some t) : Fits opts clock key cached lastRun p := by
  rcases saving with rfl | rfl
  all_goals
    refine ⟨nofun,nofun,nofun,nofun,?_⟩
    rintro _ ⟨⟩
    exact ⟨past,last⟩

theorem Fits.mono (fits : Fits opts clock key cached lastRun p) {clock' : Int}
    {cached' : Option Int} (time : clock ≤ clock') (fewer : ∀ x, cached' = some x → cached = some x) :
    Fits opts clock' key cached' lastRun p where
  looking c hc := by
    obtain ⟨past,below⟩ := fits.looking c hc
    exact ⟨by omega,fun x hx => below x (fewer x hx)⟩
  found := fits.found
  answer c r hp a ha fresh := fits.answer c r hp a ha (by omega)
  clear hp a ha := by
    have := fits.clear hp a ha
    omega
  saving t ht := by
    obtain ⟨past,last⟩ := fits.saving t ht
    exact ⟨by omega,last⟩

theorem plain_of_inactive (h : p.active = false) : p.plain = true := by
  cases p <;> first | rfl | cases h

theorem active_of_saving {t : Int} (h : p.saving = some t) : p.active = true := by
  cases p <;> first | rfl | cases h

theorem fits_apart (locked : Locked keys s) (active : (s.call i).active = true) {j : Nat} (hj : j ≠ i)
    (apart : keys j ≠ keys i → Fits opts clock (keys j) cached lastRun (s.call j)) :
    Fits opts clock (keys j) cached lastRun (s.call j) := by
  by_cases busy : (s.call j).active = true
  · exact apart fun same => hj (locked.single j i busy active same)
  · exact fits_plain (plain_of_inactive (by simpa using busy))

variable {k : String}

theorem ne_of_key_ne {j : Nat} (hk : k ≠ keys i) (hj : keys j = k) : j ≠ i :=
  fun same => hk (hj.symm.trans (congrArg keys same))

theorem Remembered.mono {a : Int} (h : Remembered keys s k a) (done : s.done k = some a → s'.done k = some a)
    (kept : Kept s k a → Kept s' k a)
    (saving : ∀ j, keys j = k → (s.call j).saving = some a → (s'.call j).saving = some a) : Remembered keys s' k a := by
  rcases h with h | h | ⟨j,hj,h⟩
  · exact .inl (done h)
  · exact .inr (.inl (kept h))
  · exact .inr (.inr ⟨j,hj,saving j hj h⟩)

section

variable (h : Retained opts keys s)
include h

theorem Retained.waited (ms : Nat) :
    Retained opts keys {s with clock := s.clock + ms} where
  fits j := (h.fits j).mono (Int.le_add_of_nonneg_right (Int.natCast_nonneg ms)) fun _ hx => hx
  pruning j c hc := by
    have := h.pruning j c hc
    simp only
    omega
  memory k a last fresh := h.memory k a last (by simp only at fresh; omega)
  spaced := h.spaced

theorem Retained.to (calls : s'.call = update s.call i p)
    (clock : s'.clock = s.clock) (done : s'.done = s.done) (last : s'.lastRun = s.lastRun)
    (backing : s'.backing = s.backing) (prune : s'.prune = s.prune)
    (fits : Fits opts s.clock (keys i) (s.done (keys i)) (s.lastRun (keys i)) p)
    (idle : (s.call i).saving = none)
    (spaced : ∀ st ∈ s'.started, ∀ a, st.lastRun = some a → a < st.time - opts.retentionMs) :
    Retained opts keys s' where
  fits := by
    rw [calls,clock,done,last]
    exact (forall_update_iff s.call fun j => Fits opts s.clock (keys j) (s.done (keys j)) (s.lastRun (keys j))).mpr
      ⟨fits,fun j _ => h.fits j⟩
  pruning := by
    rw [prune,clock]
    exact h.pruning
  memory k a ha fresh := by
    rw [last] at ha
    rw [clock] at fresh
    refine (h.memory k a ha fresh).mono (by simp [done]) ?_ ?_
    · rw [Kept,Kept,backing,prune]
      exact id
    · intro j _ saving
      by_cases hj : j = i
      · rw [hj,idle] at saving
        cases saving
      · rw [calls,update_of_ne hj]
        exact saving
  spaced := spaced

theorem lookup_fits (locked : Locked keys s) (free : s.inflight (keys i) = false) :
    Fits opts s.clock (keys i) (s.done (keys i)) (s.lastRun (keys i)) (lookup opts s (keys i)) := by
  unfold lookup
  simp only
  split
  · exact fits_plain rfl
  next missing =>
    have below : ∀ x, s.done (keys i) = some x → x < s.clock - opts.retentionMs := by
      intro x hx
      simp only [hx,Option.any_some,decide_eq_true_eq] at missing
      omega
    split
    · refine ⟨?_,nofun,nofun,nofun,nofun⟩
      rintro _ ⟨⟩
      exact ⟨Int.le_refl _,below⟩
    next none =>
      refine ⟨nofun,nofun,nofun,fun _ a last => ?_,nofun⟩
      by_contra fresh
      rcases h.memory (keys i) a last (Int.not_lt.mp fresh) with cached | ⟨b,backing,_⟩ | ⟨j,hj,saving⟩
      · exact fresh (below a cached)
      · simp [backing] at none
      · have held := locked.held j (active_of_saving saving)
        rw [hj,free] at held
        cases held

end

variable {cutoff : Int}

theorem read_fits (h : Retained opts keys s) (locked : Locked keys s) (call : s.call i = .reading cutoff) :
    Fits opts s.clock (keys i) (s.done (keys i)) (s.lastRun (keys i))
      (.got cutoff (s.backing.bind fun b => b.find? (keys i))) := by
  obtain ⟨past,below⟩ := (h.fits i).looking cutoff (by rw [call]; rfl)
  refine ⟨?_,?_,?_,nofun,nofun⟩
  · rintro _ ⟨⟩
    exact ⟨past,below⟩
  · intro c r hp
    obtain ⟨_,hr⟩ := Call.got.inj hp
    obtain ⟨b,_,hb⟩ := Option.bind_eq_some_iff.mp hr
    exact key_of_find? hb
  · intro c r hp a last fresh
    obtain ⟨_,rfl⟩ := Call.got.inj hp
    rcases h.memory (keys i) a last fresh with cached | ⟨b,backing,found,_⟩ | ⟨j,hj,saving⟩
    · have := below a cached
      omega
    · simp [backing,found]
    · have same : j = i :=
        locked.single j i (active_of_saving saving) (by rw [call]; rfl) hj
      rw [same,call] at saving
      cases saving

theorem cleared_fits (h : Retained opts keys s) {r : Option IdempotencyRecord} (call : s.call i = .got cutoff r)
    (stale : ∀ x, r = some x → x.time < cutoff) :
    Fits opts s.clock (keys i) (s.done (keys i)) (s.lastRun (keys i)) .clear := by
  obtain ⟨past,_⟩ := (h.fits i).looking cutoff (by rw [call]; rfl)
  refine ⟨nofun,nofun,nofun,fun _ a last => ?_,nofun⟩
  by_contra fresh
  have seen := (h.fits i).answer cutoff r call a last (Int.not_lt.mp fresh)
  have old : a < cutoff := stale _ seen
  omega

structure Apart (opts : Options) (keys : Nat → String) (i : Nat) (s s' : Store) : Prop where
  clock : s'.clock = s.clock
  calls : ∀ j, j ≠ i → s'.call j = s.call j
  lastRun : ∀ k, k ≠ keys i → s'.lastRun k = s.lastRun k
  fewer : ∀ k, k ≠ keys i → ∀ x, s'.done k = some x → s.done k = some x
  keeps : ∀ k, k ≠ keys i → ∀ x, s.done k = some x → s.clock - opts.retentionMs ≤ x → s'.done k = some x
  kept : ∀ k, k ≠ keys i → ∀ a, Kept s k a → Kept s' k a

section

variable (h : Retained opts keys s) (locked : Locked keys s)
include h locked

theorem Retained.touch (active : (s.call i).active) (apart : Apart opts keys i s s')
    (fits : Fits opts s.clock (keys i) (s'.done (keys i)) (s'.lastRun (keys i)) (s'.call i))
    (memory : ∀ a, s'.lastRun (keys i) = some a → s.clock - opts.retentionMs ≤ a → Remembered keys s' (keys i) a)
    (pruning : ∀ j c, (s'.prune j).cutoff = some c → c ≤ s.clock - opts.retentionMs)
    (started : s'.started = s.started) : Retained opts keys s' where
  fits j := by
    rw [apart.clock]
    by_cases hj : j = i
    · rw [hj]
      exact fits
    · rw [apart.calls j hj]
      refine fits_apart locked active hj fun other => ?_
      rw [apart.lastRun _ other]
      exact (h.fits j).mono (Int.le_refl _) (apart.fewer _ other)
  pruning := by
    rw [apart.clock]
    exact pruning
  memory k a last fresh := by
    rw [apart.clock] at fresh
    by_cases hk : k = keys i
    · rw [hk] at last ⊢
      exact memory a last fresh
    · rw [apart.lastRun k hk] at last
      refine (h.memory k a last fresh).mono (fun cached => apart.keeps k hk a cached fresh) (apart.kept k hk a) ?_
      intro j hj saving
      rw [apart.calls j (ne_of_key_ne hk hj)]
      exact saving
  spaced := by
    rw [started]
    exact h.spaced

theorem Retained.found {r : IdempotencyRecord} (call : s.call i = .got cutoff (some r)) :
    Retained opts keys ({s with done := update s.done r.key (some r.time)}.to i .committed) := by
  have key : r.key = keys i := (h.fits i).found cutoff r call
  have apart : Apart opts keys i s ({s with done := update s.done r.key (some r.time)}.to i .committed) := by
    constructor <;> simp +contextual [Store.to,key,Kept]
  refine h.touch locked (by rw [call]; rfl) apart (fits_plain (by simp [Store.to,Call.plain])) ?_ h.pruning rfl
  intro a last fresh
  have seen := (h.fits i).answer cutoff (some r) call a last fresh
  left
  simp [Store.to,Option.some_inj.mp seen]

theorem Retained.completed (call : s.call i = .running) : Retained opts keys ({s with
      lastRun := update s.lastRun (keys i) (some s.clock)
      completed := s.completed ++ [i]}.to i (.storing s.clock)) := by
  refine h.touch locked (by rw [call]; rfl) ?_ (fits_saving (.inl ?_) (Int.le_refl _) ?_) ?_ h.pruning rfl
  · constructor <;> simp +contextual [Store.to,Kept]
  · simp [Store.to]
  · simp [Store.to]
  · intro a last _
    exact .inr (.inr ⟨i,rfl,by simpa [Store.to,Call.saving] using last⟩)

theorem Retained.put {time : Int} (call : s.call i = .storing time) : Retained opts keys ({s with
      backing := s.backing.map fun b =>
        set b (⟨keys i,time⟩ : IdempotencyRecord)}.to i (.stored time)) := by
  have saved := (h.fits i).saving time (by rw [call]; rfl)
  refine h.touch locked (by rw [call]; rfl) ⟨rfl,?_,fun _ _ => rfl,fun _ _ _ => id,fun _ _ _ cached _ => cached,?_⟩
    (fits_saving (.inr ?_) saved.1 saved.2) ?_ h.pruning rfl
  · simp +contextual [Store.to]
  · rintro k hk a ⟨b,backing,found,sweeping⟩
    refine ⟨b.set ⟨keys i,time⟩,by simp [Store.to,backing],?_,sweeping⟩
    rw [find?_set,if_neg hk]
    exact found
  · simp [Store.to]
  · intro a last _
    refine .inr (.inr ⟨i,rfl,?_⟩)
    simpa [Store.to,Call.saving] using saved.2.symm.trans last

end

theorem Retained.pruned (h : Retained opts keys s) (calls : s'.call = s.call) (clock : s'.clock = s.clock)
    (done : s'.done = s.done) (last : s'.lastRun = s.lastRun) (started : s'.started = s.started)
    (pruning : ∀ j c, (s'.prune j).cutoff = some c → (s.prune j).cutoff = some c)
    (kept : ∀ k a, s.clock - opts.retentionMs ≤ a → Kept s k a → Kept s' k a) : Retained opts keys s' where
  fits := by
    rw [calls,clock,done,last]
    exact h.fits
  pruning j c cutoff := by
    rw [clock]
    exact h.pruning j c (pruning j c cutoff)
  memory k a ha fresh := by
    rw [last] at ha
    rw [clock] at fresh
    refine (h.memory k a ha fresh).mono ?_ (kept k a fresh) ?_
    · rw [done]
      exact id
    · rw [calls]
      exact fun _ _ => id
  spaced := by
    rw [started]
    exact h.spaced

theorem Retained.readAll (h : Retained opts keys s) {b : Table IdempotencyRecord.key}
    (prune : s.prune i = .reading cutoff) (backing : s.backing = some b) :
    Retained opts keys {s with prune := update s.prune i (.sweeping cutoff b.rows)} := by
  refine h.pruned rfl rfl rfl rfl rfl (fun j c => ?_) fun k a _ kept => ?_
  · by_cases hj : j = i
    · simp [hj,prune,Prune.cutoff]
    · simp [hj]
  · obtain ⟨b',backing',found,sweeping⟩ := kept
    refine ⟨b',backing',found,fun j c rows hp r hr key => ?_⟩
    by_cases hj : j = i
    · rw [hj] at hp
      simp only [update_self] at hp
      obtain ⟨_,rfl⟩ := Prune.sweeping.inj hp
      cases backing.symm.trans backing'
      have same := find?_eq_some.mpr ⟨hr,key⟩
      rw [found] at same
      rw [← Option.some_inj.mp same]
    · simp only [update_of_ne hj] at hp
      exact sweeping j c rows hp r hr key

structure Pruned (opts : Options) (time : Int) (s t : Store) : Prop where
  clock : t.clock = s.clock
  lastRun : t.lastRun = s.lastRun
  backing : t.backing = s.backing
  started : t.started = s.started
  fewer : ∀ k x, t.done k = some x → s.done k = some x
  keeps : ∀ k x, s.done k = some x → time - opts.retentionMs ≤ x → t.done k = some x
  prune : ∀ j, t.prune j = s.prune j ∨ t.prune j = .reading (time - opts.retentionMs)

theorem pruned_pruneIfDue (time : Int) : Pruned opts time s (s.pruneIfDue opts i time) := by
  unfold Store.pruneIfDue
  split
  · exact ⟨rfl,rfl,rfl,rfl,fun _ _ h => h,fun _ _ h _ => h,fun _ => .inl rfl⟩
  · refine ⟨rfl,rfl,rfl,rfl,fun k x h => (Option.filter_eq_some_iff.mp h).1,?_,fun j => ?_⟩
    · intro k x h fresh
      exact Option.filter_eq_some_iff.mpr ⟨h,by simpa using fresh⟩
    · simp only
      split
      · by_cases hj : j = i
        · exact .inr (by rw [hj,update_self])
        · exact .inl (update_of_ne hj _ _)
      · exact .inl rfl

theorem Retained.finished (h : Retained opts keys s) (locked : Locked keys s) {time : Int}
    (call : s.call i = .stored time) :
    Retained opts keys (((({s with done := update s.done (keys i) (some time)}).pruneIfDue
      opts i time).lock (keys i) false).to i (.returned true)) := by
  obtain ⟨past,saved⟩ := (h.fits i).saving time (by rw [call]; rfl)
  have pruned : Pruned opts time {s with done := update s.done (keys i) (some time)}
      ({s with done := update s.done (keys i) (some time)}.pruneIfDue opts i time) :=
    pruned_pruneIfDue time
  have calls : ({s with done := update s.done (keys i) (some time)}.pruneIfDue opts i time).call = s.call := by simp
  generalize {s with done := update s.done (keys i) (some time)}.pruneIfDue opts i time = t at pruned calls
  have old (j : Nat) (c : Int) (rows : List IdempotencyRecord) (hp : t.prune j = .sweeping c rows) :
      s.prune j = .sweeping c rows := by
    rcases pruned.prune j with same | new
    · exact same.symm.trans hp
    · cases new.symm.trans hp
  refine h.touch locked (by rw [call]; rfl) ⟨pruned.clock,?_,fun k _ => congrFun pruned.lastRun k,?_,?_,?_⟩
    (fits_plain (by simp [Store.to,Call.plain])) (fun a last fresh => .inl ?_) (fun j c cutoff => ?_) pruned.started
  · simp +contextual [Store.to,Store.lock,calls]
  · intro k hk x cached
    simpa [hk] using pruned.fewer k x cached
  · intro k hk x cached fresh
    exact pruned.keeps k x (by simpa [hk] using cached) (by omega)
  · rintro k hk a ⟨b,backing,found,sweeping⟩
    exact ⟨b,pruned.backing.trans backing,found,fun j c rows hp => sweeping j c rows (old j c rows hp)⟩
  · cases saved.symm.trans ((congrFun pruned.lastRun _).symm.trans last)
    exact pruned.keeps _ time (by simp) (by omega)
  · rcases pruned.prune j with same | new
    · exact h.pruning j c (same ▸ cutoff)
    · simp only [Store.to,Store.lock,new,Prune.cutoff,Option.some_inj] at cutoff
      omega

variable {rows rest : List IdempotencyRecord}

theorem kept_swept {a : Int} (kept : Kept s k a) (prune : s.prune i = .sweeping cutoff rows)
    (fewer : ∀ r ∈ rest, r ∈ rows) (prunes : s'.prune = update s.prune i (.sweeping cutoff rest))
    (stored : ∀ b, s.backing = some b → ∃ b', s'.backing = some b' ∧ b'.find? k = b.find? k) : Kept s' k a := by
  obtain ⟨b,backing,found,sweeping⟩ := kept
  obtain ⟨b',backing',same⟩ := stored b backing
  refine ⟨b',backing',same.trans found,fun j c rows' hp r hr key => ?_⟩
  rw [prunes] at hp
  by_cases hj : j = i
  · rw [hj,update_self] at hp
    obtain ⟨rfl,rfl⟩ := Prune.sweeping.inj hp
    exact sweeping i cutoff rows prune r (fewer r hr) key
  · rw [update_of_ne hj] at hp
    exact sweeping j c rows' hp r hr key

theorem Retained.swept (h : Retained opts keys s) (key : String) (prune : s.prune i = .sweeping cutoff rows) :
    Retained opts keys (s.sweepRow i cutoff rows key) := by
  unfold Store.sweepRow
  split
  · exact h
  next r hr =>
    have fewer : ∀ x ∈ rows.filter (·.key ≠ key), x ∈ rows := fun x hx => (List.mem_filter.mp hx).1
    have row : r ∈ rows ∧ r.key = key :=
      ⟨List.mem_of_find?_eq_some hr,by simpa using List.find?_some hr⟩
    have past := h.pruning i cutoff (by rw [prune]; rfl)
    have pruning : ∀ j c, (update s.prune i (.sweeping cutoff (rows.filter (·.key ≠ key))) j).cutoff =
        some c → (s.prune j).cutoff = some c := by
      intro j c
      by_cases hj : j = i
      · simp [hj,prune,Prune.cutoff]
      · simp [hj]
    simp only [Store.delete]
    split
    next expired =>
      split
      next none =>
        refine h.pruned rfl rfl rfl rfl rfl pruning fun k a _ kept => ?_
        obtain ⟨b,backing,_⟩ := kept
        cases backing.symm.trans none
      next b backing =>
        refine h.pruned rfl rfl rfl rfl rfl pruning fun k a fresh kept => ?_
        by_cases hk : k = key
        · obtain ⟨_,_,_,sweeping⟩ := kept
          have same := sweeping i cutoff rows prune r row.1 (row.2.trans hk.symm)
          omega
        · refine kept_swept kept prune fewer rfl fun b' backing' => ?_
          cases backing.symm.trans backing'
          exact ⟨b.erase key,rfl,by rw [find?_erase,if_neg hk]⟩
    · refine h.pruned rfl rfl rfl rfl rfl pruning fun k a _ kept => ?_
      exact kept_swept kept prune fewer rfl fun b backing => ⟨b,backing,rfl⟩

theorem retained_move (h : Retained opts keys s) (locked : Locked keys s)
    (move : Move opts keys s s') : Retained opts keys s' := by
  cases move with
  | nothing => exact h
  | waited ms => exact h.waited ms
  | refused call | failed call | left call =>
    exact h.to rfl rfl rfl rfl rfl rfl (fits_plain rfl) (by rw [call]; rfl) h.spaced
  | entered call free =>
    exact h.to rfl rfl rfl rfl rfl rfl (lookup_fits h locked free) (by rw [call]; rfl) h.spaced
  | read call =>
    exact h.to rfl rfl rfl rfl rfl rfl (read_fits h locked call) (by rw [call]; rfl) h.spaced
  | found call => exact h.found locked call
  | cleared call stale =>
    exact h.to rfl rfl rfl rfl rfl rfl (cleared_fits h call stale) (by rw [call]; rfl) h.spaced
  | started call =>
    refine h.to rfl rfl rfl rfl rfl rfl (fits_plain rfl) (by rw [call]; rfl) fun st hst a last => ?_
    rcases List.mem_append.mp hst with old | new
    · exact h.spaced st old a last
    · rw [List.mem_singleton.mp new] at last ⊢
      exact (h.fits _).clear call a last
  | completed call => exact h.completed locked call
  | put call => exact h.put locked call
  | finished call => exact h.finished locked call
  | readAll prune backing => exact h.readAll prune backing
  | swept key prune => exact h.swept key prune

end

end CompanyBrain.Idempotency
