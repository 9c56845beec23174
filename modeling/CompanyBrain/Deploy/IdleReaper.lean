import CompanyBrain.Deploy.DeployStore

namespace CompanyBrain.Deploy.Reaper

open Foundations Table

inductive Phase where
  | away
  | visiting (rest : List Deployment)
  | waiting (d : Deployment) (rest : List Deployment)
  | stopping (cur : Deployment) (rest : List Deployment)
  | marking (id : String) (rest : List Deployment)
  | clearing (id : String) (rest : List Deployment)

structure State where
  deployments : Table Deployment.id
  ttlMs : Int
  now : Int
  phase : Phase

-- `put`: another call writes its update of the record it has read, at any time before.
inductive Event where
  | put (u : Update) (read : Deployment)
  | sweep (ttlMs now : Int) (managedScaleToZero : Bool)
  | next

def newest (d : Deployment) : Option Nat := d.versions.getLast?.map DeploymentVersion.createdAt

def last (d : Deployment) : Nat := (d.lastAccessAt.or (newest d)).getD 0

def setField (t : Table Deployment.id) (id : String) (u : Update) : Table Deployment.id :=
  match t.find? id with
  | none => t
  | some d => t.set (u.apply d)

def advance (s : State) : State :=
  match s.phase with
  | .away => s
  | .visiting [] => {s with phase := .away}
  | .visiting (d :: rest) =>
    if d.status ≠ .running ∨ s.now - last d < s.ttlMs then {s with phase := .visiting rest}
    else {s with phase := .waiting d rest}
  | .waiting d rest =>
    match s.deployments.find? d.id with
    | none => {s with phase := .visiting rest}
    | some cur =>
      if cur.status = .running then {s with phase := .stopping cur rest} else {s with phase := .visiting rest}
  | .stopping cur rest => {s with phase := .marking cur.id rest}
  | .marking id rest => {s with deployments := setField s.deployments id (.status .stopped), phase := .clearing id rest}
  | .clearing id rest => {s with deployments := setField s.deployments id (.endpoint none), phase := .visiting rest}

def step (s : State) : Event → State
  | .put u read => {s with deployments := s.deployments.set (u.apply read)}
  | .sweep ttlMs now managedScaleToZero =>
    match s.phase, managedScaleToZero with
    | .away, false => {s with ttlMs := ttlMs, now := now, phase := .visiting s.deployments.rows}
    | _, _ => s
  | .next => advance s

structure Idle (ttlMs now : Int) (d : Deployment) : Prop where
  access : ∀ t, d.lastAccessAt = some t → ttlMs ≤ now - t
  version : ∀ t, newest d = some t → ttlMs ≤ now - t

def Phase.ahead : Phase → List Deployment
  | .away => []
  | .visiting rest | .stopping _ rest | .marking _ rest | .clearing _ rest => rest
  | .waiting d rest => d :: rest

def Undisturbed (s : State) : Event → Prop
  | .put u read => read.id ∈ s.phase.ahead.map Deployment.id → Idle s.ttlMs s.now (u.apply read)
  | .sweep ttlMs now _ => ∀ d ∈ s.deployments, d.lastAccessAt.isSome → ttlMs ≤ now - last d → Idle ttlMs now d
  | .next => True

structure Settled (s : State) : Prop where
  ahead : ∀ d ∈ s.phase.ahead, s.ttlMs ≤ s.now - last d → ∀ cur, s.deployments.find? d.id = some cur →
    Idle s.ttlMs s.now cur
  waiting : ∀ d rest, s.phase = .waiting d rest → s.ttlMs ≤ s.now - last d
  stopping : ∀ cur rest, s.phase = .stopping cur rest → Idle s.ttlMs s.now cur

theorem idle_of_last {ttlMs now : Int} {d : Deployment} (never : d.lastAccessAt = none) (late : ttlMs ≤ now - last d) :
    Idle ttlMs now d :=
  ⟨by simp [never],fun t version => by simpa [last,never,version] using late⟩

theorem find?_setField {t : Table Deployment.id} {id k : String} {u : Update} {cur : Deployment} {ttlMs now : Int}
    (same : ∀ d, Idle ttlMs now d → Idle ttlMs now (u.apply d)) (h : (setField t id u).find? k = some cur)
    (idle : ∀ d, t.find? k = some d → Idle ttlMs now d) : Idle ttlMs now cur := by
  unfold setField at h
  split at h
  · exact idle cur h
  · next d found =>
    rw [find?_set,Update.apply_id,key_of_find? found] at h
    split at h
    · next here => exact Option.some.inj h ▸ same d (idle d (here ▸ found))
    · exact idle cur h

theorem settled_put {s : State} (settled : Settled s) (u : Update) (read : Deployment)
    (undisturbed : Undisturbed s (.put u read)) :
    Settled (step s (.put u read)) := by
  refine ⟨fun d mem late cur found => ?_,settled.waiting,settled.stopping⟩
  simp only [step,find?_set,Update.apply_id] at found
  split at found
  · next here => exact Option.some.inj found ▸ undisturbed (here ▸ List.mem_map_of_mem mem)
  · exact settled.ahead d mem late cur found

theorem settled_advance {s : State} (settled : Settled s) : Settled (advance s) := by
  obtain ⟨deployments,ttlMs,now,phase⟩ := s
  obtain ⟨ahead,waiting,stopping⟩ := settled
  cases phase with
  | away => exact ⟨ahead,waiting,stopping⟩
  | visiting rest =>
    cases rest with
    | nil => exact ⟨by simp [advance,Phase.ahead],by simp [advance],by simp [advance]⟩
    | cons =>
      simp only [advance]
      split
      · exact ⟨fun d' mem => ahead d' (.tail _ mem),by simp,by simp⟩
      · exact ⟨ahead,by grind,by simp⟩
  | waiting d rest =>
    have later : ∀ d' ∈ rest, _ := fun d' mem => ahead d' (.tail _ mem)
    have here := ahead d (.head _) (waiting d rest rfl)
    simp only [advance]
    cases found : deployments.find? d.id with
    | none => exact ⟨later,by simp,by simp⟩
    | some cur =>
      simp only
      split
      · exact ⟨later,by simp,by rintro _ _ ⟨⟩; exact here cur found⟩
      · exact ⟨later,by simp,by simp⟩
  | stopping => exact ⟨ahead,by simp [advance],by simp [advance]⟩
  | marking | clearing =>
    refine ⟨fun d mem late cur found => ?_,by simp [advance],by simp [advance]⟩
    refine find?_setField ?_ found (ahead d mem late)
    exact fun _ idle => ⟨idle.access,idle.version⟩

theorem settled_step (s : State) (e : Event) (undisturbed : Undisturbed s e) (settled : Settled s) :
    Settled (step s e) := by
  cases e with
  | put u read => exact settled_put settled u read undisturbed
  | next => exact settled_advance settled
  | sweep =>
    simp only [step]
    split
    · refine ⟨fun d mem late cur found => ?_,by simp,by simp⟩
      obtain rfl := Option.some.inj (found.symm.trans (find?_eq_some.mpr ⟨mem,rfl⟩))
      cases access : cur.lastAccessAt with
      | none => exact idle_of_last access late
      | some => exact undisturbed cur mem (by simp [access]) late
    · exact settled

theorem reaper_spares_active (deployments : Table Deployment.id) (ttlMs now : Int) (events : List Event)
    (undisturbed : Along step Undisturbed ⟨deployments,ttlMs,now,.away⟩ events) (cur : Deployment)
    (rest : List Deployment)
    (stopping : (run step ⟨deployments,ttlMs,now,.away⟩ events).phase = .stopping cur rest) :
    Idle (run step ⟨deployments,ttlMs,now,.away⟩ events).ttlMs
      (run step ⟨deployments,ttlMs,now,.away⟩ events).now cur := by
  have start : Settled ⟨deployments,ttlMs,now,.away⟩ := ⟨by simp [Phase.ahead],by simp,by simp⟩
  exact (run_along settled_step _ events undisturbed start).stopping cur rest stopping

def site (lastAccessAt : Nat) (createdAt : List Nat) : Deployment :=
  ⟨"site","scope","ana",none,none,1,.running,none,some lastAccessAt,none,
    createdAt.zipIdx.map fun (t,i) => ⟨i+1,t,"serve","/snap",none,none,none,none,none⟩⟩

def hosting (d : Deployment) : State := ⟨empty.set d,0,0,.away⟩

theorem reaper_spares_active_idle_site :
    (∃ rest, (run step (hosting (site 20 [10])) [.sweep 50 100 false,.next,.next]).phase =
      .stopping (site 20 [10]) rest) ∧
      Idle 50 100 (site 20 [10]) := by
  have listed : ∀ d ∈ (empty.set (site 20 [10]) : Table Deployment.id), Idle 50 100 d := by
    intro d mem
    obtain rfl := (mem_set.mp mem).resolve_right fun h => not_mem_empty d h.1
    exact ⟨by rintro t ⟨⟩; decide,by rintro t ⟨⟩; decide⟩
  refine ⟨⟨[],by rfl⟩,
    reaper_spares_active (empty.set (site 20 [10])) 0 0 [.sweep 50 100 false,.next,.next] ?_ _ [] (by rfl)⟩
  exact ⟨fun d mem _ _ => listed d mem,trivial,trivial,trivial⟩

theorem active_site_is_stopped :
    ((∃ rest, (run step (hosting (site 20 [10]))
      [.sweep 50 100 false,.next,.put (.lastAccessAt 99) (site 20 [10]),.next]).phase =
        .stopping (site 99 [10]) rest) ∧ ¬Idle 50 100 (site 99 [10])) ∧
      (∃ rest, (run step (hosting (site 20 [10,99])) [.sweep 50 100 false,.next,.next]).phase =
        .stopping (site 20 [10,99]) rest) ∧
        ¬Idle 50 100 (site 20 [10,99]) := by
  refine ⟨⟨⟨[],by rfl⟩,fun idle => ?_⟩,⟨[],by rfl⟩,fun idle => ?_⟩
  · exact absurd (idle.access 99 rfl) (by decide)
  · exact absurd (idle.version 99 rfl) (by decide)

end CompanyBrain.Deploy.Reaper
