import CompanyBrain.Deploy.DeployRules
import Mathlib.Data.List.Infix

namespace CompanyBrain.Deploy

open Foundations Table

def Numbered (d : Deployment) : Prop :=
  d.versions.map DeploymentVersion.version = List.range' 1 d.versions.length

instance decidableNumbered (d : Deployment) : Decidable (Numbered d) :=
  inferInstanceAs (Decidable (_ = _))

def recorded (d : Deployment) : List DeploymentVersion :=
  d.versions.map fun v => {v with image := none}

def Update.Sound (d : Deployment) : Update → Prop
  | .addVersion v => v.version = d.versions.length+1
  | _ => True

variable {d : Deployment}

theorem numbered_addVersion {v : DeploymentVersion} (numbered : Numbered d) (sound : v.version = d.versions.length+1) :
    Numbered ((Update.addVersion v).apply d) := by
  simp only [Numbered] at numbered ⊢
  simp only [Update.apply,List.map_append,List.map_cons,List.length_append,
    List.length_cons,List.length_nil,numbered]
  rw [List.range'_concat,sound]
  simp [Nat.add_comm]

theorem map_versionImage (versions : List DeploymentVersion) (n : Nat) (built : String) :
    (versions.map fun v => if v.version = n then {v with image := some built} else v).map
      DeploymentVersion.version = versions.map DeploymentVersion.version := by
  rw [List.map_map]
  refine List.map_congr_left fun v _ => ?_
  simp only [Function.comp_apply]
  split <;> rfl

theorem numbered_apply {u : Update} (numbered : Numbered d) (sound : u.Sound d) : Numbered (u.apply d) := by
  cases u with
  | addVersion => exact numbered_addVersion numbered sound
  | versionImage =>
    simp only [Numbered,Update.apply,List.length_map] at numbered ⊢
    rw [map_versionImage,numbered]
  | _ => exact numbered

theorem recorded_apply (d : Deployment) (u : Update) : recorded d <+: recorded (u.apply d) := by
  cases u with
  | addVersion v => exact ⟨[{v with image := none}],by simp [recorded,Update.apply]⟩
  | versionImage n built =>
    have same : recorded ((Update.versionImage n built).apply d) = recorded d := by
      simp only [recorded,Update.apply,List.map_map]
      refine List.map_congr_left fun v _ => ?_
      simp only [Function.comp_apply]
      split <;> rfl
    rw [same]
  | _ => exact List.prefix_rfl

def inTime (s : DeployState) : DeployLabel → Bool
  | .put p => (p.held && s.unlockedPuts p.read.id = p.unlockedPuts) ||
      (s.deployments.find? p.read.id).any fun stored => p.update.apply p.read = p.update.apply stored
  | .create d _ => (s.deployments.find? d.id).isNone
  | .read | .git | .lock _ | .unlock _ => true

variable {s : DeployState} {slot : Nat}

theorem fresh_stored {p : Put} (fresh : Fresh p.held slot p.read p.unlockedPuts s) (fits : inTime s (.put p)) :
    ∃ stored, s.deployments.find? p.read.id = some stored ∧ p.update.apply p.read = p.update.apply stored := by
  simp only [inTime,Bool.or_eq_true,Bool.and_eq_true,decide_eq_true_eq] at fits
  rcases fits with ⟨locked,same⟩ | stored
  · exact ⟨p.read,(fresh locked).2.2 same,rfl⟩
  · obtain ⟨stored,here,same⟩ := Option.any_eq_true _ _ |>.mp stored
    exact ⟨stored,here,of_decide_eq_true same⟩

theorem sound_stored {d' : Deployment} {u : Update} (sound : u.Sound d) (same : u.apply d = u.apply d') :
    u.Sound d' := by
  cases u with
  | addVersion =>
    have versions := congrArg Deployment.versions same
    rw [Update.Sound,← List.append_cancel_right versions]
    exact sound
  | _ => trivial

theorem numbered_put {p : Put} {inv : DeployState → Prop} (numbered : ∀ d ∈ s.deployments, Numbered d)
    (fits : inTime s (.put p)) (fresh : Fresh p.held slot p.read p.unlockedPuts s)
    (made : WellMade inv p.checked p.read p.update) :
    ∀ d ∈ (s.put p.held (p.update.apply p.read)).deployments, Numbered d := by
  obtain ⟨stored,here,same⟩ := fresh_stored fresh fits
  have sound : p.update.Sound p.read := by
    cases h : p.update with
    | addVersion =>
      rw [h] at made
      exact made
    | _ => trivial
  refine forall_set ?_ numbered
  rw [same]
  exact numbered_apply (numbered stored (mem_of_find? here)) (sound_stored sound same)

def versionRules : Rules where
  inv := fun s => ∀ d ∈ s.deployments, Numbered d
  fits := inTime
  same := fun _ _ same numbered => same ▸ numbered
  put := fun _ _ _ numbered fits fresh made => numbered_put numbered fits fresh made
  create := by
    intro s d checked numbered _ created
    refine forall_set ?_ numbered
    have one := congrArg List.length created.numbered
    rw [List.length_map] at one
    rw [Numbered,created.numbered,one]
    rfl

def meant (s : DeployState) (id : String) : DeployLabel → Option Deployment
  | .put p =>
    if id = p.read.id then (s.deployments.find? id).map fun d => p.update.apply d
    else s.deployments.find? id
  | .create d _ => if id = d.id then some d else s.deployments.find? id
  | .read | .git | .lock _ | .unlock _ => s.deployments.find? id

variable {s' : DeployState}

theorem acts_meant {l : DeployLabel} (acts : Acts versionRules slot l s s') (id : String) :
    s'.deployments.find? id = meant s id l := by
  cases acts with
  | read | git | locked | lock | unlocked | unlock => rfl
  | create => rw [DeployState.put,find?_set,meant]
  | put _ p fits fresh =>
    obtain ⟨stored,here,same⟩ := fresh_stored fresh fits
    rw [DeployState.put,find?_set,Update.apply_id,meant,same]
    split
    next own => rw [own,here,Option.map_some]
    · rfl

def Kept (s s' : DeployState) : Prop :=
  ∀ d ∈ s.deployments, ∃ d' ∈ s'.deployments, d'.id = d.id ∧ recorded d <+: recorded d'

theorem Kept.refl (s : DeployState) : Kept s s := fun d mem => ⟨d,mem,rfl,List.prefix_rfl⟩

theorem Kept.trans {s'' : DeployState} (first : Kept s s') (next : Kept s' s'') : Kept s s'' := by
  intro d mem
  obtain ⟨d',mem',same,le⟩ := first d mem
  obtain ⟨d'',mem'',same',le'⟩ := next d' mem'
  exact ⟨d'',mem'',same'.trans same,le.trans le'⟩

theorem kept_of_find
    (h : ∀ id d, s.deployments.find? id = some d → ∃ d', s'.deployments.find? id = some d' ∧
      recorded d <+: recorded d') :
    Kept s s' := by
  intro d mem
  obtain ⟨d',here,le⟩ := h d.id d (find?_eq_some.mpr ⟨mem,rfl⟩)
  exact ⟨d',mem_of_find? here,key_of_find? here,le⟩

theorem acts_kept {l : DeployLabel} (acts : Acts versionRules slot l s s') : Kept s s' := by
  refine kept_of_find fun id d here => ?_
  rw [acts_meant acts id]
  cases acts with
  | read | git | locked | lock | unlocked | unlock => exact ⟨d,here,List.prefix_rfl⟩
  | create _ d' _ fits =>
    have fresh := Option.isNone_iff_eq_none.mp fits
    have other : id ≠ d'.id := by
      rintro rfl
      rw [here] at fresh
      cases fresh
    exact ⟨d,by rw [meant,if_neg other,here],List.prefix_rfl⟩
  | put _ p =>
    by_cases same : id = p.read.id
    · exact ⟨p.update.apply d,by rw [meant,if_pos same,here,Option.map_some],recorded_apply d _⟩
    · exact ⟨d,by rw [meant,if_neg same,here],List.prefix_rfl⟩

def meantBy (pool : Pool DeployState DeployLabel) (a : DeployStep) (id : String) : Option Deployment :=
  match a.carries pool with
  | some (_,l) => meant pool.shared id l
  | none => pool.shared.deployments.find? id

def Meant (pool : Pool DeployState DeployLabel) (a : DeployStep) : Prop :=
  ∀ id, (deployStep pool a).shared.deployments.find? id = meantBy pool a id

structure Intact (start : DeployState) (schedule : List DeployStep) : Prop where
  kept : ∀ before after, schedule = before ++ after →
    Kept (deploysAfter start before).shared (deploysAfter start schedule).shared
  numbered : ∀ before after, schedule = before ++ after →
    ∀ d ∈ (deploysAfter start before).shared.deployments, Numbered d
  meant : Along deployStep Meant (Pool.idle start) schedule

def InTime (start : DeployState) (schedule : List DeployStep) : Prop :=
  versionRules.contract.Fitting deploySystem (Pool.idle start) schedule

variable {pool : Pool DeployState DeployLabel}

theorem moves_meant {a : DeployStep}
    (moves : versionRules.contract.Moves deploySystem pool a (deployStep pool a).shared) :
    Meant pool a ∧ Kept pool.shared (deployStep pool a).shared := by
  unfold Meant meantBy
  generalize (deployStep pool a).shared = s at moves ⊢
  cases moves with
  | still none =>
    rw [none]
    exact ⟨fun _ => rfl,Kept.refl _⟩
  | acts here acts =>
    rw [here]
    exact ⟨acts_meant acts,acts_kept acts⟩
  | env e => exact e.elim

theorem kept_run {schedule : List DeployStep}
    (along : Along deployStep (fun pool a => Kept pool.shared (deployStep pool a).shared) pool schedule) :
    Kept pool.shared (run deployStep pool schedule).shared := by
  induction schedule generalizing pool with
  | nil => exact Kept.refl _
  | cons _ _ ih => exact along.1.trans (ih along.2)

theorem deployments_intact (start : DeployState) (numbered : ∀ d ∈ start.deployments, Numbered d)
    (schedule : List DeployStep) (inTime : InTime start schedule) : Intact start schedule := by
  have ok : versionRules.contract.Ok (Pool.idle start) := Contract.ok_idle numbered
  have moves := along_mono (fun pool a h => moves_meant h.2) _ _
    (Contract.moves_along versionRules.upholds ok schedule inTime)
  refine ⟨?_,?_,along_mono (fun _ _ h => h.1) _ _ moves⟩
  · rintro before after rfl
    have rest := ((along_append _ before after).mp (along_mono (fun _ _ h => h.2) _ _ moves)).2
    rw [deploysAfter,deploysAfter,run_append]
    exact kept_run rest
  · rintro before after rfl
    have fits := ((along_append _ before after).mp inTime).1
    exact (Contract.ok_run versionRules.upholds ok before fits).inv

def firstVersion : DeploymentVersion := ⟨1,0,"run","/snap/1",none,none,none,none,none⟩

def published : Deployment :=
  ⟨"d1","personal:ana","ana",none,some "site",1,.running,some (endpointOf 80),none,some 1, [firstVersion]⟩

def onePublished : DeployState := ⟨empty.set published,fun _ => none,fun _ _ => none,fun _ => 0⟩

def secondInput : VersionInput := ⟨"run","/snap/2",none,none,none,5⟩

def visit : DeployCall := .reach stubProvider "d1" true 9

def visitThenRedeploy : List DeployStep :=
  (.spawn 0 visit :: runs 0 4) ++ (.spawn 1 (.redeploy stubProvider "d1" secondInput) :: runs 1 18)

theorem deployments_intact_visit :
    (∀ d ∈ onePublished.deployments, Numbered d) ∧ InTime onePublished visitThenRedeploy ∧
      Intact onePublished visitThenRedeploy := by
  have numbered : ∀ d ∈ onePublished.deployments.rows, Numbered d := by decide
  have inTime : InTime onePublished visitThenRedeploy := by
    unfold InTime
    decide +kernel
  exact ⟨numbered,inTime,deployments_intact onePublished numbered visitThenRedeploy inTime⟩

def around (call : DeployCall) : List DeployStep :=
  (.spawn 0 visit :: runs 0 3) ++ (.spawn 1 call :: runs 1 18)

def stored (schedule : List DeployStep) : Option (Nat × DeploymentStatus) :=
  ((deploysAfter onePublished schedule).shared.deployments.find? "d1").map
    fun d => (d.versions.length,d.status)

theorem lost_version (kept : Kept s s') (here : s.deployments.find? d.id = some d) {d' : Deployment}
    (there : s'.deployments.find? d.id = some d') : d.versions.length ≤ d'.versions.length := by
  obtain ⟨e,mem,same,le⟩ := kept d (mem_of_find? here)
  have found : s'.deployments.find? d.id = some e := find?_eq_some.mpr ⟨mem,same⟩
  rw [there,Option.some.injEq] at found
  have length := le.length_le
  simpa [recorded,found] using length

theorem touch_restores_record :
    let redeployed := around (.redeploy stubProvider "d1" secondInput)
    let archived := around (.archive "d1")
    (stored redeployed = some (2,.running) ∧ stored (redeployed ++ [.run 0]) = some (1,.running) ∧
      ¬ Intact onePublished (redeployed ++ [.run 0])) ∧
    (stored archived = some (1,.archived) ∧ stored (archived ++ [.run 0]) = some (1,.running) ∧
      ¬ Intact onePublished (archived ++ [.run 0])) := by
  intro redeployed archived
  have two : stored redeployed = some (2,.running) := by decide +kernel
  have one : stored (redeployed ++ [.run 0]) = some (1,.running) := by decide +kernel
  have put_away : stored archived = some (1,.archived) := by decide +kernel
  have back : stored (archived ++ [.run 0]) = some (1,.running) := by decide +kernel
  refine ⟨⟨two,one,fun intact => ?_⟩,put_away,back,fun intact => ?_⟩
  · obtain ⟨d,here,count⟩ := Option.map_eq_some_iff.mp two
    obtain ⟨d',there,count'⟩ := Option.map_eq_some_iff.mp one
    have own : d.id = "d1" := key_of_find? here
    rw [← own] at here there
    have le := lost_version (intact.kept redeployed [.run 0] rfl) here there
    simp only [Prod.mk.injEq] at count count'
    omega
  · have last := ((along_append _ archived [.run 0]).mp intact.meant).2.1 "d1"
    have kept : (meantBy (deploysAfter onePublished archived) (.run 0) "d1").map Deployment.status =
        some .archived := by decide +kernel
    obtain ⟨d,here,undone⟩ := Option.map_eq_some_iff.mp back
    rw [deploysAfter,run_append] at here
    rw [deploysAfter,← last] at kept
    rw [run_cons,run_nil] at here
    rw [here,Option.map_some,Option.some.injEq] at kept
    simp [kept] at undone

end CompanyBrain.Deploy
