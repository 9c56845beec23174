import CompanyBrain.Deploy.DeployService

namespace CompanyBrain.Deploy

open Foundations Contract Function

structure Sees (slot : Nat) (s s' : DeployState) : Prop where
  puts : ∀ id, s.unlockedPuts id ≤ s'.unlockedPuts id
  lock : ∀ id, s'.locks id = some slot ↔ s.locks id = some slot
  row : ∀ id, s.locks id = some slot → s'.unlockedPuts id = s.unlockedPuts id →
    s'.deployments.find? id = s.deployments.find? id

theorem Sees.refl (slot : Nat) (s : DeployState) : Sees slot s s :=
  ⟨fun _ => Nat.le_refl _,fun _ => Iff.rfl,fun _ _ _ => rfl⟩

theorem Sees.trans {slot : Nat} {s s' s'' : DeployState} (first : Sees slot s s')
    (next : Sees slot s' s'') : Sees slot s s'' where
  puts := fun id => Nat.le_trans (first.puts id) (next.puts id)
  lock := fun id => (next.lock id).trans (first.lock id)
  row := by
    intro id own same
    have le := first.puts id
    have le' := next.puts id
    rw [next.row id ((first.lock id).mpr own) (by omega),first.row id own (by omega)]

theorem le_bump (count : String → Nat) (id other : String) : count other ≤ bump count id other := by
  by_cases here : other = id
  · rw [here,bump,update_self]
    exact Nat.le_succ _
  · exact Nat.le_of_eq (update_of_ne here _ _).symm

theorem update_lock {locks : String → Option Nat} {other : Nat} {id : String}
    {before after : Option Nat} (was : locks id = before) (apart : before ≠ some other)
    (apart' : after ≠ some other) (key : String) :
    update locks id after key = some other ↔ locks key = some other := by
  by_cases here : key = id
  · rw [here,update_self,was]
    exact iff_of_false apart' apart
  · rw [update_of_ne here]

theorem sees_put {s : DeployState} {d : Deployment} {held : Bool} {slot other : Nat}
    (differ : slot ≠ other) (own : held → s.locks d.id = some slot) : Sees other s (s.put held d) where
  puts := by
    intro id
    simp only [DeployState.put]
    split
    · exact Nat.le_refl _
    · exact le_bump _ _ _
  lock := fun _ => Iff.rfl
  row := by
    intro id mine same
    rw [DeployState.put,Table.find?_set]
    refine if_neg fun here => ?_
    cases held with
    | true =>
      rw [here,own rfl] at mine
      exact differ (Option.some.inj mine)
    | false =>
      simp only [DeployState.put,here,Bool.false_eq_true,if_false,bump,update_self] at same
      omega

def Fresh (held : Bool) (slot : Nat) (read : Deployment) (seen : Nat) (s : DeployState) : Prop :=
  held = true → s.locks read.id = some slot ∧ seen ≤ s.unlockedPuts read.id ∧
    (s.unlockedPuts read.id = seen → s.deployments.find? read.id = some read)

theorem Fresh.later {held : Bool} {slot : Nat} {read : Deployment} {seen : Nat} {s s' : DeployState}
    (fresh : Fresh held slot read seen s) (sees : Sees slot s s') : Fresh held slot read seen s' := by
  intro locked
  obtain ⟨own,le,row⟩ := fresh locked
  have le' := sees.puts read.id
  refine ⟨(sees.lock _).mpr own,Nat.le_trans le le',fun same => ?_⟩
  rw [sees.row _ own (by omega),row (by omega)]

def Snapshot (inv : DeployState → Prop) (rows : List Deployment) : Prop :=
  ∃ s, inv s ∧ s.deployments.rows = rows

def WellMade (inv : DeployState → Prop) (checked : List Deployment) (read : Deployment) : Update → Prop
  | .addVersion v => v.version = read.versions.length+1
  | .name name => (∀ d, named checked name = some d → d.id = read.id) ∧ Snapshot inv checked
  | _ => True

structure WellCreated (d : Deployment) (checked : List Deployment) : Prop where
  numbered : d.versions.map DeploymentVersion.version = [1]
  unnamed : ∀ name, d.name = some name → named checked name = none

structure Rules where
  inv : DeployState → Prop
  fits : DeployState → DeployLabel → Bool
  same : ∀ s s', s.deployments = s'.deployments → inv s → inv s'
  put : ∀ slot s p, inv s → fits s (.put p) = true → Fresh p.held slot p.read p.unlockedPuts s →
    WellMade inv p.checked p.read p.update → inv (s.put p.held (p.update.apply p.read))
  create : ∀ s d checked, inv s → fits s (.create d checked) = true → WellCreated d checked →
    inv (s.put false d)

inductive Acts (R : Rules) (slot : Nat) : DeployLabel → DeployState → DeployState → Prop
  | read (s : DeployState) : Acts R slot .read s s
  | git (s : DeployState) (refs : String → String → Option String) :
    Acts R slot .git s {s with refs := refs}
  | locked (s : DeployState) (id : String) : Acts R slot (.lock id) s s
  | lock (s : DeployState) (id : String) (free : s.locks id = none) :
    Acts R slot (.lock id) s {s with locks := update s.locks id (some slot)}
  | unlocked (s : DeployState) (id : String) : Acts R slot (.unlock id) s s
  | unlock (s : DeployState) (id : String) (own : s.locks id = some slot) :
    Acts R slot (.unlock id) s {s with locks := update s.locks id none}
  | create (s : DeployState) (d : Deployment) (checked : List Deployment)
      (fits : R.fits s (.create d checked) = true) : Acts R slot (.create d checked) s (s.put false d)
  | put (s : DeployState) (p : Put) (fits : R.fits s (.put p) = true)
      (fresh : Fresh p.held slot p.read p.unlockedPuts s) :
    Acts R slot (.put p) s (s.put p.held (p.update.apply p.read))

theorem acts_apart {R : Rules} {slot other : Nat} {l : DeployLabel} {s s' : DeployState}
    (differ : slot ≠ other) (acts : Acts R slot l s s') : Sees other s s' := by
  cases acts with
  | read | locked | unlocked => exact Sees.refl other s
  | git _ => exact ⟨fun _ => Nat.le_refl _,fun _ => Iff.rfl,fun _ _ _ => rfl⟩
  | lock _ _ free =>
    refine ⟨fun _ => Nat.le_refl _,fun key => ?_,fun _ _ _ => rfl⟩
    exact update_lock free (by simp) (by simpa using differ) key
  | unlock _ _ own =>
    refine ⟨fun _ => Nat.le_refl _,fun key => ?_,fun _ _ _ => rfl⟩
    exact update_lock own (by simpa using differ) (by simp) key
  | create => exact sees_put differ (by simp)
  | put _ _ _ fresh =>
    refine sees_put differ fun locked => ?_
    rw [Update.apply_id]
    exact (fresh locked).1

def Rules.contract (R : Rules) : Contract DeployState DeployLabel where
  inv := R.inv
  guar := Acts R
  rely := Sees
  fits := R.fits
  refl := Sees.refl
  trans := fun _ _ _ _ => Sees.trans
  apart := fun _ _ _ _ _ => acts_apart

section

variable {R : Rules} {slot : Nat} {s : DeployState} {α β : Type} {held : Bool} {id : String}

abbrev Runs (R : Rules) (slot : Nat) (m : Deploys α) (post : α → DeployState → Prop) (s : DeployState) : Prop :=
  R.contract.Wp slot m post s

theorem runs_read {read : DeployState → α} {post : α → DeployState → Prop}
    (ok : ∀ s', Sees slot s s' → R.inv s' → post (read s') s') : Runs R slot (Prog.get .read .lost read) post s :=
  wp_stmt fun s' sees inv _ => ⟨inv,.read s',ok s' sees inv⟩

theorem runs_put {p : Put} (fresh : Fresh p.held slot p.read p.unlockedPuts s)
    (made : WellMade R.inv p.checked p.read p.update) :
    Runs R slot (put p) (fun _ s' => p.held → s'.locks p.read.id = some slot) s := by
  refine wp_stmt fun s' sees inv fits => ?_
  have fresh' := fresh.later sees
  exact ⟨R.put slot s' p inv fits fresh' made,.put s' p fits fresh',fun locked => (fresh' locked).1⟩

def Steady (R : Rules) (held : Bool) (slot : Nat) (id : String) (m : Deploys α) : Prop :=
  ∀ s, (held = true → s.locks id = some slot) →
    Runs R slot m (fun _ s' => held = true → s'.locks id = some slot) s

theorem steady_pure (a : α) : Steady R held slot id (pure a : Deploys α) :=
  fun _ own => wp_pure own

theorem steady_throw (e : Failure) : Steady R held slot id (throw e : Deploys α) :=
  fun _ _ => wp_throw e

theorem steady_bind {m : Deploys α} {f : α → Deploys β} (first : Steady R held slot id m)
    (rest : ∀ a, Steady R held slot id (f a)) : Steady R held slot id (m >>= f) :=
  fun s own => wp_bind (wp_mono (first s own) fun a s' _ own' => rest a s' own')

theorem steady_read (read : DeployState → α) : Steady R held slot id (Prog.get .read .lost read : Deploys α) :=
  fun _ own => runs_read fun _ sees _ locked => (sees.lock id).mpr (own locked)

theorem steady_setRef (id' ref : String) (commit : Option String) : Steady R held slot id (setRef id' ref commit) := by
  intro s own
  refine wp_stmt fun s' sees inv _ => ⟨R.same s' _ rfl inv,.git s' _,fun locked => ?_⟩
  exact (sees.lock id).mpr (own locked)

theorem steady_discard {m : Deploys α} (first : Steady R held slot id m) : Steady R held slot id (discard m) := by
  change Steady R held slot id (m >>= fun _ => pure ())
  exact steady_bind first fun _ => steady_pure ()

theorem runs_fetch {post : Option (Deployment × Nat) → DeployState → Prop} (own : held → s.locks id = some slot)
    (none : ∀ s', (held → s'.locks id = some slot) → post none s')
    (some : ∀ d seen s', d.id = id → Fresh held slot d seen s' → post (some (d,seen)) s') :
    Runs R slot (fetch id) post s := by
  refine runs_read fun s' sees _ => ?_
  have own' := fun locked => (sees.lock id).mpr (own locked)
  cases here : s'.deployments.find? id with
  | none => exact none s' own'
  | some d =>
    have same : d.id = id := Table.key_of_find? here
    refine some d _ s' same fun locked => ?_
    rw [same]
    exact ⟨own' locked,Nat.le_refl _,fun _ => here⟩

theorem steady_updateVersionRef (id' : String) (v : DeploymentVersion) :
    Steady R held slot id (updateVersionRef id' v) := by
  unfold updateVersionRef
  split
  · exact steady_pure ()
  · exact steady_bind (steady_setRef _ _ _) fun _ => steady_setRef _ _ _

theorem runs_addVersion {d : Deployment} {seen : Nat} {v : DeploymentVersion} {γ : Type} (result : γ)
    (fresh : Fresh held slot d seen s) (same : d.id = id) (number : v.version = d.versions.length+1) : Runs R slot (do
      put ⟨.addVersion v,d,seen,held,[]⟩
      updateVersionRef id v
      return result) (fun _ s' => held → s'.locks id = some slot) s := by
  refine wp_bind (wp_mono (runs_put fresh number) fun _ s' _ own => ?_)
  rw [same] at own
  exact steady_bind (steady_updateVersionRef id v) (fun _ => steady_pure result) s' own

theorem steady_addVersion (input : VersionInput) : Steady R held slot id (addVersion held id input) := by
  intro s own
  refine wp_bind (runs_fetch own (fun s' _ => wp_throw _) fun d seen s' same fresh => ?_)
  refine wp_bind (wp_bind (runs_read fun s'' sees _ => wp_pure ?_))
  exact runs_addVersion _ (fresh.later sees) same rfl

theorem steady_addVersionFromCommit (commit : String) (now : Nat) :
    Steady R held slot id (addVersionFromCommit held id commit now) := by
  intro s own
  refine wp_bind (runs_fetch own (fun s' _ => wp_throw _) fun d seen s' same fresh => ?_)
  simp only
  split
  · exact wp_pure fun locked => same ▸ (fresh locked).1
  · exact runs_addVersion _ fresh same rfl

theorem steady_modify {checked : List Deployment} {update : Deployment → Except Failure Update}
    (made : ∀ d u, d.id = id → update d = .ok u → WellMade R.inv checked d u) :
    Steady R held slot id (modify held id checked update) := by
  intro s own
  refine wp_bind (runs_fetch own (fun s' own' => wp_pure own') fun d seen s' same fresh => ?_)
  simp only
  cases h : update d with
  | error e => exact wp_throw e
  | ok u =>
    have put := runs_put (p := ⟨u,d,seen,held,checked⟩) fresh (made d u same h)
    exact wp_bind (wp_mono put fun _ s'' _ own' => wp_pure (same ▸ own'))

theorem made_ofVersion {version : Nat} {u : Update} (made : ∀ d, WellMade R.inv [] d u) (d : Deployment)
    (u' : Update) (_ : d.id = id) (h : ofVersion version u d = .ok u') : WellMade R.inv [] d u' := by
  unfold ofVersion at h
  split at h
  · cases h
  · cases h
    exact made d

theorem steady_setCurrentVersion (version : Nat) : Steady R held slot id (setCurrentVersion held id version) :=
  steady_discard (steady_modify (made_ofVersion fun _ => trivial))

theorem steady_setVersionImage (version : Nat) (image : String) :
    Steady R held slot id (setVersionImage held id version image) :=
  steady_discard (steady_modify (made_ofVersion fun _ => trivial))

theorem steady_set {checked : List Deployment} {u : Update} (made : ∀ d, d.id = id → WellMade R.inv checked d u) :
    Steady R held slot id (discard (modify held id checked fun _ => .ok u)) := by
  refine steady_discard (steady_modify fun d u' own same => ?_)
  cases same
  exact made d own

theorem steady_setAppliedVersion (version : Nat) : Steady R held slot id (setAppliedVersion held id version) := by
  refine steady_bind (steady_modify (made_ofVersion fun _ => trivial)) fun d => ?_
  split
  · exact steady_pure ()
  · exact steady_setRef _ _ _

section

variable (provider : Provider) (d : Deployment) (version : DeploymentVersion) (fromVersion : Option Nat)

theorem steady_provide : Steady R held slot id (provide provider d version fromVersion) := by
  unfold provide
  split <;> exact steady_read _

theorem steady_applyVersion : Steady R held slot id (applyVersion provider held id version fromVersion) := by
  refine steady_bind (steady_read _) fun d => ?_
  cases d with
  | none => exact steady_throw _
  | some d =>
    refine steady_bind (steady_provide provider d version fromVersion) fun endpoint => ?_
    split
    · split
      · exact steady_bind (steady_setVersionImage _ _) fun _ => steady_pure endpoint
      · exact steady_pure endpoint
    · exact steady_pure endpoint

theorem steady_publish : Steady R held slot id (publish provider held id version fromVersion) := by
  refine steady_bind (steady_applyVersion provider version fromVersion) fun endpoint => ?_
  refine steady_bind ?_ fun _ => steady_pure endpoint
  refine steady_bind (steady_set fun _ _ => trivial) fun _ => ?_
  exact steady_bind (steady_set fun _ _ => trivial) fun _ => steady_setAppliedVersion _

abbrev Runnable (R : Rules) (slot : Nat) (m : Deploys α) : Prop := ∀ s, Runs R slot m (fun _ _ => True) s

theorem runnable_of_steady (id : String) {m : Deploys α} (steady : Steady R false slot id m) : Runnable R slot m :=
  fun s => wp_mono (steady s (by simp)) fun _ _ _ _ => trivial

theorem runnable_bind {m : Deploys α} {f : α → Deploys β} (first : Runnable R slot m)
    (rest : ∀ a, Runnable R slot (f a)) : Runnable R slot (m >>= f) :=
  fun s => wp_bind (wp_mono (first s) fun a s' _ _ => rest a s')

theorem runnable_release : Runnable R slot (release slot id) := by
  intro s
  refine wp_stmt fun s' _ inv _ => ?_
  simp only
  split
  next own => exact ⟨R.same s' _ rfl inv,.unlock s' id own,trivial⟩
  · exact ⟨inv,.unlocked s' id,trivial⟩

theorem runnable_withDeployLock {body : Deploys α}
    (inside : ∀ s, s.locks id = some slot → Runs R slot body (fun _ _ => True) s) :
    Runnable R slot (withDeployLock slot id body) := by
  intro s
  have taken : Runs R slot (acquire slot id) (fun got s' => got = true → s'.locks id = some slot) s := by
    refine wp_stmt fun s' _ inv _ => ?_
    cases h : s'.locks id with
    | some => exact ⟨inv,.locked s' id,by simp⟩
    | none => exact ⟨R.same s' _ rfl inv,.lock s' id h,fun _ => update_self ..⟩
  refine wp_bind (wp_mono taken fun got s' _ own => ?_)
  cases got with
  | false => exact wp_throw _
  | true =>
    refine wp_bind (wp_mono (wp_tryCatch (inside s' (own rfl)) ?_) ?_)
    · exact fun e s'' => wp_bind (wp_mono (runnable_release s'') fun _ _ _ _ =>
        wp_throw e)
    · exact fun result s'' _ _ => wp_bind (wp_mono (runnable_release s'') fun _ _ _ _ =>
        wp_pure trivial)

theorem runnable_locked {body : Deploys α} (steady : Steady R true slot id body) :
    Runnable R slot (withDeployLock slot id body) :=
  runnable_withDeployLock fun s own =>
    wp_mono (steady s fun _ => own) fun _ _ _ _ => trivial

theorem steady_validateName (name : String) : Steady R held slot id (validateName name) := by
  unfold validateName
  split
  · exact steady_pure ()
  · exact steady_throw _

theorem runnable_create (input : CreateInput) {checked : List Deployment}
    (unnamed : ∀ name, input.name = some name → named checked name = none) :
    Runnable R slot (create input checked) := by
  intro s
  refine wp_bind (wp_bind (runs_read fun s' _ _ => wp_pure ?_))
  refine wp_bind (wp_stmt fun s'' _ inv fits => ?_)
  refine ⟨R.create s'' _ checked inv fits ⟨rfl,fun name h => ?_⟩,.create s'' _ checked fits,?_⟩
  · exact unnamed name (Option.filter_eq_some_iff.mp h).1
  · exact runnable_of_steady input.id (steady_bind (steady_updateVersionRef _ _) fun _ => steady_pure _) _

theorem runs_checkName (name : Option String) :
    Runs R slot (checkName name) (fun rows _ => ∀ n, name = some n → named rows n = none) s := by
  cases name with
  | none => exact wp_pure fun n h => by cases h
  | some name =>
    have valid := @runnable_of_steady R slot _ name _ (steady_validateName name) s
    refine wp_bind (wp_mono valid fun _ s' _ _ => ?_)
    refine wp_bind (runs_read fun s'' _ _ => ?_)
    split
    · exact wp_bind (wp_throw _)
    next free =>
      refine wp_pure fun n h => ?_
      cases h
      simpa using free

theorem runnable_deploy (input : CreateInput) : Runnable R slot (deploy provider input) := by
  intro s
  refine wp_bind (wp_mono (runs_checkName input.name) fun checked s' _ unnamed => ?_)
  refine runnable_bind (runnable_of_steady input.id (steady_read _)) (fun version => ?_) s'
  refine runnable_bind (runnable_create _ unnamed) fun d => ?_
  refine runnable_of_steady d.id ?_
  split
  · exact steady_throw _
  · exact steady_bind (steady_discard (steady_publish provider _ _)) fun _ => steady_read _

theorem runnable_redeploy (input : VersionInput) : Runnable R slot (redeploy provider slot id input) := by
  refine runnable_locked ?_
  refine steady_bind (steady_read _) fun before => steady_bind (steady_read _) fun input => ?_
  refine steady_bind (steady_addVersion input) fun v => steady_bind (steady_read _) fun d => ?_
  split
  · exact steady_throw _
  · exact steady_bind (steady_discard (steady_publish provider v _)) fun _ => steady_read _

theorem runnable_rollback (version : Nat) :
    Runnable R slot (rollbackDeployment provider slot id version) := by
  refine runnable_locked ?_
  refine steady_bind (steady_read _) fun before => steady_bind (steady_setCurrentVersion version) fun _ => ?_
  refine steady_bind (steady_read _) fun found => steady_bind (steady_read _) fun d => ?_
  split
  · exact steady_discard (steady_publish provider _ _)
  · exact steady_pure ()

end

theorem runnable_archive : Runnable R slot (archiveDeployment slot id) := by
  refine runnable_locked (steady_bind (steady_read _) fun d => ?_)
  split
  · exact steady_pure ()
  · refine steady_bind (steady_read _) fun _ => ?_
    exact steady_bind (steady_set fun _ _ => trivial) fun _ => steady_set fun _ _ => trivial

theorem runnable_rename (name : String) : Runnable R slot (renameDeployment slot id name) := by
  refine runnable_locked (steady_bind (steady_validateName name) fun _ => steady_bind (steady_read _) fun d => ?_)
  split
  · exact steady_throw _
  · refine fun s own => wp_bind (runs_read fun s' sees inv => ?_)
    split
    · exact wp_bind (wp_throw _)
    next free =>
      have set : Steady R true slot id (setName true s'.deployments.rows id name) := by
        refine steady_set fun d same => ⟨fun clash found => ?_,s',inv,rfl⟩
        rw [found] at free
        rw [same]
        simpa using free
      exact steady_bind set (fun _ => steady_read _) s' fun locked => (sees.lock id).mpr (own locked)

variable (provider : Provider)
include provider

theorem runnable_resolveAgain (resolve : Nat → Deployment → DeploymentVersion → Option DeployEndpoint) (d : Deployment)
    (version : DeploymentVersion) : Runnable R slot (resolveAgain provider resolve slot d version) := by
  refine runnable_locked fun s own => wp_bind (runs_read fun s' sees _ => ?_)
  have own' := fun locked => (sees.lock d.id).mpr (own locked)
  have same : ((s'.deployments.find? d.id).getD d).id = d.id := by
    cases h : s'.deployments.find? d.id with
    | none => rfl
    | some => exact Table.key_of_find? h
  generalize (s'.deployments.find? d.id).getD d = cur at same ⊢
  rw [← same] at own' ⊢
  refine steady_bind (steady_read _) (fun again => ?_) s' own'
  split
  · split
    · exact steady_bind (steady_set fun _ _ => trivial) fun _ => steady_pure _
    · exact steady_pure _
  · exact steady_publish provider _ _

theorem runnable_liveEndpoint (d : Deployment) (endpoint : DeployEndpoint) :
    Runnable R slot (liveEndpoint provider slot d endpoint) := by
  unfold liveEndpoint
  split
  · refine runnable_bind (runnable_of_steady d.id (steady_read _)) fun resolved => ?_
    split
    · refine runnable_of_steady d.id ?_
      split
      · exact steady_bind (steady_set fun _ _ => trivial) fun _ => steady_pure _
      · exact steady_pure _
    · exact runnable_resolveAgain provider _ d _
  · exact runnable_of_steady d.id (steady_pure _)

theorem runnable_reach (idOrName : String) (allowed : Bool) (now : Nat) :
    Runnable R slot (reachDeployment provider slot idOrName allowed now) := by
  refine runnable_bind (runnable_of_steady idOrName ?_) fun found => ?_
  · refine steady_bind (steady_read _) fun byId => ?_
    split
    · exact steady_pure _
    · exact steady_bind (steady_read _) fun rows => steady_pure _
  · split
    · exact runnable_of_steady idOrName (steady_pure _)
    · split
      · refine runnable_bind (runnable_of_steady idOrName (steady_read _)) fun allowed => ?_
        split
        · exact runnable_of_steady idOrName (steady_pure _)
        · refine runnable_bind (runnable_liveEndpoint provider _ _) fun endpoint => ?_
          exact runnable_of_steady _ (steady_bind (steady_set fun _ _ => trivial) fun _ => steady_pure _)
      · exact runnable_of_steady idOrName (steady_pure _)

theorem runnable_pushGit (receive : (String → Option String) → (String → Option String) × Bool) (now : Nat) :
    Runnable R slot (pushGit provider slot id receive now) := by
  have received : Steady R true slot id (runReceivePack id receive) := by
    intro s own
    refine wp_stmt fun s' sees inv _ => ⟨R.same s' _ rfl inv,.git s' _,fun locked => ?_⟩
    exact (sees.lock id).mpr (own locked)
  have registered : Steady R true slot id (registerPush provider id now) := by
    refine steady_bind (steady_read _) fun before => ?_
    split
    · exact steady_pure ()
    · refine steady_bind (steady_read _) fun pushed => ?_
      split
      · exact steady_pure ()
      · refine steady_bind (steady_addVersionFromCommit _ now) fun v => ?_
        split
        · exact steady_pure ()
        · exact steady_discard (steady_publish provider _ _)
  refine runnable_withDeployLock fun s own => ?_
  refine wp_bind (wp_mono (received s fun _ => own) fun ok s' _ own' => ?_)
  split
  · refine wp_tryCatch ?_ fun _ _ => wp_pure trivial
    exact wp_mono (registered s' own') fun _ _ _ _ => trivial
  · exact wp_pure trivial

end

theorem Rules.upholds (R : Rules) : R.contract.Upholds deploySystem where
  programs := by
    intro slot call s inv
    cases call with
    | deploy provider input => exact safe_toTask (runnable_deploy provider input s) inv
    | redeploy provider _ input => exact safe_toTask (runnable_redeploy provider input s) inv
    | pushGit provider _ receive now =>
      exact safe_toTask (runnable_pushGit provider receive now s) inv
    | rollback provider _ version => exact safe_toTask (runnable_rollback provider version s) inv
    | archive => exact safe_toTask (runnable_archive s) inv
    | rename _ name => exact safe_toTask (runnable_rename name s) inv
    | reach provider idOrName allowed now =>
      exact safe_toTask (runnable_reach provider idOrName allowed now s) inv
  env := fun e => e.elim

end CompanyBrain.Deploy
