import CompanyBrain.Credentials.ServiceCredentials
import CompanyBrain.Foundations.Fallible

namespace CompanyBrain.Credentials.Services

open Foundations

variable {rendering : Rendering} {orgScopeId slug : String}

theorem record_version {now : Int} {input : ServiceCredentialInput} {prior : Option KeychainCredential}
    {rec : KeychainCredential} (made : serviceCredentialRecord rendering now orgScopeId input prior = .ok rec) :
    rec.updatedAt = serviceVersion now prior := by
  obtain ⟨_,_,made⟩ := bind_ok made
  cases made
  rfl

theorem serviceVersion_above (now : Int) (prior : KeychainCredential) :
    prior.updatedAt < serviceVersion now (some prior) := by
  simp only [serviceVersion,Option.map_some,Option.getD_some]
  omega

def newer (s : ServiceSlot) (rec : KeychainCredential) : Bool := s.newest.all (· < rec.updatedAt)

def inOrder (s : ServiceSlot) : ServiceLabel → Bool
  | .put rec prior => (prior ≠ none && s.stored = prior) || newer s rec
  | .insertIfAbsent rec => s.stored ≠ none || newer s rec
  | .read | .updateIfCurrent _ _ _ | .delete | .deleteIfCurrent _ _ => true

def orderly (pool : ServicePool) : ServiceStep → Bool
  | .run i | .lose i => (pool.threads i).label.all (inOrder pool.shared)
  | _ => true

def Versioned (s : ServiceSlot) : Prop := ∀ rec, s.stored = some rec → s.newest = some rec.updatedAt

inductive Changed (s s' : ServiceSlot) : Prop
  | same (stored : s'.stored = s.stored) (newest : s'.newest = s.newest) (writes : s'.writes = s.writes)
  | write (rec : KeychainCredential) (stored : s'.stored = some rec) (newest : s'.newest = some rec.updatedAt)
      (above : ∀ n, s.newest = some n → n < rec.updatedAt) (writes : s'.writes = s.writes+1)
  | delete (stored : s'.stored = none) (newest : s'.newest = s.newest) (writes : s'.writes = s.writes+1)

section

variable {s s' : ServiceSlot} {rec prior : KeychainCredential}

theorem Versioned.changed (versioned : Versioned s) (changed : Changed s s') : Versioned s' := by
  intro rec is
  cases changed with
  | same stored newest => exact newest.trans (versioned rec (stored.symm.trans is))
  | write _ stored newest =>
    cases stored.symm.trans is
    exact newest
  | delete stored => cases stored.symm.trans is

theorem changed_put (above : ∀ n, s.newest = some n → n < rec.updatedAt) : Changed s (s.put rec) := by
  refine .write rec rfl ?_ above rfl
  simp only [ServiceSlot.put]
  cases newest : s.newest with
  | none => rw [Option.getD_none,Int.max_self]
  | some n => rw [Option.getD_some,Int.max_eq_left (Int.le_of_lt (above n newest))]

theorem above_of_newer (test : newer s rec) (n : Int) (is : s.newest = some n) : n < rec.updatedAt := by
  rw [newer,is] at test
  simpa using test

theorem above_of_stored (versioned : Versioned s) (stored : s.stored = some prior)
    (less : prior.updatedAt < rec.updatedAt) (n : Int) (is : s.newest = some n) : n < rec.updatedAt := by
  cases (versioned prior stored).symm.trans is
  exact less

theorem changed_delete (s : ServiceSlot) : Changed s s.delete := by
  unfold ServiceSlot.delete
  split
  · exact .delete rfl rfl rfl
  · exact .same rfl rfl rfl

end

inductive ServiceNode (rendering : Rendering) : ServiceLabel → (ServiceSlot → ServiceSlot) → Prop
  | read : ServiceNode rendering .read id
  | put (rec : KeychainCredential) (prior : Option KeychainCredential)
      (later : ∀ p, prior = some p → p.updatedAt < rec.updatedAt) :
      ServiceNode rendering (.put rec prior) fun s => s.put rec
  | insertIfAbsent (rec : KeychainCredential) :
      ServiceNode rendering (.insertIfAbsent rec) fun s => (s.insertIfAbsent rec).1
  | updateIfCurrent (orgScopeId : String) (input : ServiceCredentialInput) (expectedUpdatedAt : Int) :
      ServiceNode rendering (.updateIfCurrent orgScopeId input expectedUpdatedAt)
        fun s => (s.updateIfCurrent rendering orgScopeId input expectedUpdatedAt).1
  | delete : ServiceNode rendering .delete fun s => s.delete
  | deleteIfCurrent (orgScopeId : String) (expectedUpdatedAt : Int) :
      ServiceNode rendering (.deleteIfCurrent orgScopeId expectedUpdatedAt)
        fun s => (s.deleteIfCurrent orgScopeId expectedUpdatedAt).1

abbrev Sound (rendering : Rendering) (t : ServiceTask) : Prop :=
  t.All fun l act _ _ => ServiceNode rendering l act

theorem sound_task (rendering : Rendering) (orgScopeId slug : String) (request : ServiceRequest) :
    Sound rendering ((serviceSystem rendering orgScopeId slug).program request) := by
  cases request with
  | set =>
    refine ⟨.read,fun s => ?_,trivial⟩
    dsimp only
    split
    next prior rec read =>
      obtain ⟨rfl,made⟩ := Prod.mk.inj read
      refine ⟨.put rec _ ?_,fun _ => trivial,trivial⟩
      intro p is
      rw [record_version made,is]
      exact serviceVersion_above s.clock p
    · trivial
  | setIfAbsent =>
    refine ⟨.read,fun s => ?_,trivial⟩
    dsimp only
    split
    next rec made => exact ⟨.insertIfAbsent rec,fun _ => trivial,trivial⟩
    · trivial
  | setIfCurrent _ expected => exact ⟨.updateIfCurrent _ _ expected,fun _ => trivial,trivial⟩
  | delete => exact ⟨.delete,fun _ => trivial,trivial⟩
  | deleteIfCurrent expected => exact ⟨.deleteIfCurrent _ expected,fun _ => trivial,trivial⟩

def expectedVersion : ServiceLabel → Option Int
  | .updateIfCurrent _ _ expectedUpdatedAt | .deleteIfCurrent _ expectedUpdatedAt => some expectedUpdatedAt
  | .read | .put _ _ | .insertIfAbsent _ | .delete => none

section

variable {s : ServiceSlot} {l : ServiceLabel} {act : ServiceSlot → ServiceSlot}

theorem current_version {expected : Int} {prior : KeychainCredential}
    (current : ServiceSlot.current orgScopeId expected prior) : prior.updatedAt = expected := by
  simp only [ServiceSlot.current,Bool.and_eq_true,decide_eq_true_iff] at current
  exact current.2

theorem node_expected (node : ServiceNode rendering l act) {e : Int} (expected : expectedVersion l = some e)
    (effect : (act s).writes ≠ s.writes) : ∃ rec, s.stored = some rec ∧ rec.updatedAt = e := by
  cases node with
  | read | put | insertIfAbsent | delete => cases expected
  | updateIfCurrent =>
    cases expected
    simp only [ServiceSlot.updateIfCurrent] at effect
    split at effect
    · exact absurd rfl effect
    next prior stored =>
      split at effect
      next current => exact ⟨prior,stored,current_version current⟩
      · exact absurd rfl effect
  | deleteIfCurrent =>
    cases expected
    simp only [ServiceSlot.deleteIfCurrent] at effect
    split at effect
    next current =>
      obtain ⟨prior,stored,current⟩ := (Option.any_eq_true _ _).mp current
      exact ⟨prior,stored,current_version current⟩
    · exact absurd rfl effect

theorem changed_node (node : ServiceNode rendering l act) (versioned : Versioned s)
    (fits : inOrder s l) : Changed s (act s) := by
  cases node with
  | read => exact .same rfl rfl rfl
  | put _ _ later =>
    refine changed_put ?_
    rcases Bool.or_eq_true_iff.mp fits with found | above
    · simp only [Bool.and_eq_true,decide_eq_true_iff] at found
      obtain ⟨p,is⟩ := Option.ne_none_iff_exists'.mp found.1
      exact above_of_stored versioned (found.2.trans is) (later p is)
    · exact above_of_newer above
  | insertIfAbsent =>
    dsimp only [ServiceSlot.insertIfAbsent]
    split
    · exact .same rfl rfl rfl
    next absent =>
      refine changed_put (above_of_newer ?_)
      simpa [inOrder,absent] using fits
  | updateIfCurrent =>
    dsimp only [ServiceSlot.updateIfCurrent]
    split
    · exact .same rfl rfl rfl
    next prior stored =>
      split
      · split
        next next made =>
          refine changed_put (above_of_stored versioned stored ?_)
          rw [record_version made]
          exact serviceVersion_above s.clock prior
        · exact .same rfl rfl rfl
      · exact .same rfl rfl rfl
  | delete => exact changed_delete s
  | deleteIfCurrent =>
    dsimp only [ServiceSlot.deleteIfCurrent]
    split
    · exact changed_delete s
    · exact .same rfl rfl rfl

end

def startSlot (clock : Int) (stored : Option KeychainCredential) : ServiceSlot :=
  ⟨clock,stored,stored.map KeychainCredential.updatedAt,0⟩

structure PoolOk (rendering : Rendering) (pool : ServicePool) : Prop where
  sound : ∀ j, Sound rendering (pool.threads j)
  versioned : Versioned pool.shared

abbrev Orderly (rendering : Rendering) (orgScopeId slug : String) (pool : ServicePool) (events : List ServiceStep) :
    Prop :=
  Along (serviceSystem rendering orgScopeId slug).step (fun pool a => orderly pool a = true) pool events

def expects (pool : ServicePool) : ServiceStep → Option Int
  | .run i | .lose i => (pool.threads i).label.bind expectedVersion
  | _ => none

section

variable {pool : ServicePool}

section

variable (ok : PoolOk rendering pool) (a : ServiceStep)
include ok a

theorem changed_step (order : orderly pool a) :
    Changed pool.shared ((serviceSystem rendering orgScopeId slug).step pool a).shared := by
  rcases System.step_shared ok.sound a with same | ⟨e,_,same⟩ | ⟨i,l,act,_,_,acts,label,node,same⟩ <;> rw [same]
  · exact .same rfl rfl rfl
  · exact .same rfl rfl rfl
  · refine changed_node node ok.versioned ?_
    rcases acts with rfl | rfl <;> simpa [orderly,label] using order

theorem expected_step {e : Int} (expected : expects pool a = some e)
    (effect : ((serviceSystem rendering orgScopeId slug).step pool a).shared.writes ≠ pool.shared.writes) :
    ∃ rec, pool.shared.stored = some rec ∧ rec.updatedAt = e := by
  rcases System.step_shared ok.sound a with
    same | ⟨_,_,same⟩ | ⟨i,l,act,_,_,acts,label,node,same⟩ <;> rw [same] at effect
  · exact absurd rfl effect
  · exact absurd rfl effect
  · refine node_expected node ?_ effect
    rcases acts with rfl | rfl <;> simpa [expects,label] using expected

theorem poolOk_step (order : orderly pool a) :
    PoolOk rendering ((serviceSystem rendering orgScopeId slug).step pool a) where
  sound := System.all_stepped (sound_task rendering orgScopeId slug)
    ((serviceSystem rendering orgScopeId slug).step_stepped pool a) ok.sound
  versioned := ok.versioned.changed (changed_step ok a order)

end

theorem poolOk_run (ok : PoolOk rendering pool) (events : List ServiceStep)
    (order : Orderly rendering orgScopeId slug pool events) :
    PoolOk rendering (run (serviceSystem rendering orgScopeId slug).step pool events) :=
  @run_along _ _ _ _ (PoolOk rendering) (fun _ a order ok => poolOk_step ok a order) pool events order ok

theorem poolOk_start (clock : Int) (stored : Option KeychainCredential) :
    PoolOk rendering (Pool.idle (startSlot clock stored)) where
  sound _ := trivial
  versioned rec is := by
    change stored = some rec at is
    simp only [Pool.idle,startSlot,is,Option.map_some]

structure Since (s : ServiceSlot) (n : Int) (s' : ServiceSlot) : Prop where
  newest : ∃ m, s'.newest = some m ∧ n ≤ m
  stored : (s'.stored = s.stored ∧ s'.writes = s.writes) ∨ ∀ rec, s'.stored = some rec → n < rec.updatedAt

theorem Since.changed {s s₁ s₂ : ServiceSlot} {n : Int} (since : Since s n s₁) (changed : Changed s₁ s₂) :
    Since s n s₂ := by
  obtain ⟨m,newest,le⟩ := since.newest
  cases changed with
  | same stored newest' writes =>
    exact ⟨⟨m,newest'.trans newest,le⟩,stored ▸ writes ▸ since.stored⟩
  | write rec stored newest' above =>
    have less := above m newest
    refine ⟨⟨rec.updatedAt,newest',by omega⟩,.inr fun rec' is => ?_⟩
    cases stored.symm.trans is
    omega
  | delete stored newest' =>
    refine ⟨⟨m,newest'.trans newest,le⟩,.inr fun rec is => ?_⟩
    cases stored.symm.trans is

theorem since_run (ok : PoolOk rendering pool) {rec : KeychainCredential} (stored : pool.shared.stored = some rec)
    (events : List ServiceStep) (order : Orderly rendering orgScopeId slug pool events) :
    Since pool.shared rec.updatedAt (run (serviceSystem rendering orgScopeId slug).step pool events).shared := by
  induction events using List.reverseRecOn with
  | nil => exact ⟨⟨_,ok.versioned rec stored,Int.le_refl _⟩,.inl ⟨rfl,rfl⟩⟩
  | append_singleton events a ih =>
    obtain ⟨before,last⟩ := (along_append _ _ _).mp order
    rw [run_append]
    exact (ih before).changed (changed_step (poolOk_run ok events before) a last.1)

end

def ConditionalOnRead (rendering : Rendering) (orgScopeId slug : String) (start : ServicePool)
    (read later : List ServiceStep) (a : ServiceStep) : Prop :=
  let atRead := run (serviceSystem rendering orgScopeId slug).step start read
  let before := run (serviceSystem rendering orgScopeId slug).step start (read ++ later)
  ∀ rec, atRead.shared.stored = some rec → expects before a = some rec.updatedAt →
    ((serviceSystem rendering orgScopeId slug).step before a).shared.writes ≠ before.shared.writes →
    before.shared.stored = some rec ∧ before.shared.writes = atRead.shared.writes

theorem conditional_calls_need_their_record (rendering : Rendering) (orgScopeId slug : String) (clock : Int)
    (stored : Option KeychainCredential) (read later : List ServiceStep) (a : ServiceStep)
    (order : Orderly rendering orgScopeId slug (Pool.idle (startSlot clock stored)) (read ++ later)) :
    ConditionalOnRead rendering orgScopeId slug (Pool.idle (startSlot clock stored)) read later a := by
  intro rec held expected effect
  have ok : PoolOk rendering (Pool.idle (startSlot clock stored)) := poolOk_start clock stored
  obtain ⟨read_order,later_order⟩ := (along_append _ _ _).mp order
  have since := since_run (poolOk_run ok read read_order) held later later_order
  obtain ⟨rec',stored',same⟩ := expected_step (poolOk_run ok (read ++ later) order) a expected effect
  rw [run_append] at stored' ⊢
  rcases since.stored with kept | above
  · exact ⟨kept.1.trans held,kept.2⟩
  · have := above rec' stored'
    omega

def plainRendering : Rendering := ⟨id,fun s => s.getD "null"⟩

def serviceInput (secret : String) : ServiceCredentialInput :=
  ⟨"github","GitHub",some secret,none,none,"api.github.com",none,none,none,none,none⟩

def serviceStart : ServicePool := Pool.idle (startSlot 5 none)

def setOnce (i : Nat) (secret : String) : List ServiceStep :=
  [.spawn i (.set (serviceInput secret)),.run i,.run i]

def replaceIfCurrent (i : Nat) (secret : String) (expectedUpdatedAt : Int) : List ServiceStep :=
  [.spawn i (.setIfCurrent (serviceInput secret) expectedUpdatedAt)]

abbrev serviceRun : List ServiceStep → ServicePool :=
  run (serviceSystem plainRendering "org:acme" "github").step serviceStart

theorem conditional_set_finds_its_record :
    ∃ rec, (serviceRun (setOnce 0 "one" ++ setOnce 1 "two")).shared.stored = some rec ∧
      (serviceRun (setOnce 0 "one" ++ setOnce 1 "two" ++ replaceIfCurrent 2 "three" 6)).shared.stored = some rec ∧
      (serviceRun (setOnce 0 "one" ++ setOnce 1 "two" ++ replaceIfCurrent 2 "three" 6 ++ [.run 2])).shared.writes =
        3 := by
  refine ⟨((serviceRun (setOnce 0 "one" ++ setOnce 1 "two")).shared.stored).get (by decide +kernel),by decide +kernel,
    ?_,
    by decide +kernel⟩
  exact (conditional_calls_need_their_record plainRendering "org:acme" "github" 5 none
    (setOnce 0 "one" ++ setOnce 1 "two") (replaceIfCurrent 2 "three" 6) (.run 2) (by decide +kernel) _
    (by decide +kernel) (by decide +kernel) (by decide +kernel)).1

def bothSet : List ServiceStep :=
  [.spawn 0 (.set (serviceInput "one")),.spawn 1 (.set (serviceInput "two")),.run 0,.run 1,.run 0]

def otherWrites : List ServiceStep := [.run 1,.spawn 2 (.setIfCurrent (serviceInput "three") 5)]

def createdAgain : List ServiceStep :=
  [.spawn 1 .delete,.run 1,.spawn 2 (.setIfAbsent (serviceInput "two")),.run 2,.run 2,.spawn 3 (.deleteIfCurrent 5)]

theorem conditional_calls_hit_another_record :
    ¬ConditionalOnRead plainRendering "org:acme" "github" serviceStart bothSet otherWrites (.run 2) ∧
      ¬ConditionalOnRead plainRendering "org:acme" "github" serviceStart (setOnce 0 "one") createdAgain (.run 3) := by
  constructor
  · intro conditional
    have kept := conditional ((serviceRun bothSet).shared.stored.get (by decide +kernel)) (by decide +kernel)
      (by decide +kernel) (by decide +kernel)
    exact absurd kept.2 (by decide +kernel)
  · intro conditional
    have kept := conditional ((serviceRun (setOnce 0 "one")).shared.stored.get (by decide +kernel)) (by decide +kernel)
      (by decide +kernel) (by decide +kernel)
    exact absurd kept.2 (by decide +kernel)

end CompanyBrain.Credentials.Services
