import CompanyBrain.Deploy.DeployRules

namespace CompanyBrain.Deploy

open Foundations Table

def UniqueNames (rows : List Deployment) : Prop :=
  ∀ d ∈ rows, ∀ d' ∈ rows, ∀ name, d.name = some name → d'.name = some name → d.id = d'.id

def untaken (s : DeployState) (checked : List Deployment) (id : String) (name : String) : Bool :=
  s.deployments.rows.all fun d => d.id = id || d.name ≠ some name ||
    checked.any fun c => c.id = d.id && c.name = some name

def nameInTime (s : DeployState) : DeployLabel → Bool
  | .put p =>
    match p.update with
    | .name name => untaken s p.checked p.read.id name
    | _ => (s.deployments.find? p.read.id).any fun stored => stored.name = p.read.name
  | .create d checked =>
    (s.deployments.find? d.id).isNone && d.name.all (untaken s checked d.id)
  | .read | .git | .lock _ | .unlock _ => true

section

variable {s : DeployState} {checked : List Deployment} {d e : Deployment} {id name : String}

theorem taken_before (free : untaken s checked id name) (mem : e ∈ s.deployments)
    (other : e.id ≠ id) (same : e.name = some name) : ∃ c ∈ checked, c.id = e.id ∧ c.name = some name := by
  have here := List.all_eq_true.mp free e mem
  simpa [other,same] using here

variable {held : Bool}

variable (unique : UniqueNames s.deployments.rows)
include unique

theorem unique_set
    (alone : ∀ e ∈ s.deployments, ∀ name, d.name = some name → e.name = some name → e.id = d.id) :
    UniqueNames (s.put held d).deployments.rows := by
  intro a hA b hB name nameA nameB
  rcases mem_set.mp hA with rfl | ⟨oldA,_⟩ <;> rcases mem_set.mp hB with rfl | ⟨oldB,_⟩
  · rfl
  · exact (alone b oldB name nameA nameB).symm
  · exact alone a oldA name nameB nameA
  · exact unique a oldA b oldB name nameA nameB

omit unique in
theorem named_of_mem {rows : List Deployment} (mem : d ∈ rows) (same : d.name = some name) :
    ∃ first ∈ rows, named rows name = some first ∧ first.name = some name := by
  cases h : named rows name with
  | none =>
    have none := List.find?_eq_none.mp h d mem
    simp [same] at none
  | some first =>
    exact ⟨first,List.mem_of_find?_eq_some h,rfl,by simpa using List.find?_some h⟩

theorem unique_takes
    (made : WellMade (fun s => UniqueNames s.deployments.rows) checked d (.name name))
    (free : untaken s checked d.id name) : UniqueNames (s.put held ((Update.name name).apply d)).deployments.rows := by
  refine unique_set unique fun e mem n taken same => ?_
  obtain rfl : name = n := by simpa [Update.apply] using taken
  by_contra other
  obtain ⟨c,hc,own,before⟩ := taken_before free mem other same
  obtain ⟨first,hfirst,found,firstName⟩ := named_of_mem hc before
  obtain ⟨clash,s₀,unique₀,rfl⟩ := made
  have shared := unique₀ c hc first hfirst name before firstName
  rw [own,clash first found] at shared
  exact other shared

theorem unique_keeps {u : Update} (keeps : (u.apply d).name = d.name)
    (here : (s.deployments.find? d.id).any (fun stored => stored.name = d.name)) :
    UniqueNames (s.put held (u.apply d)).deployments.rows := by
  obtain ⟨stored,found,same⟩ := (Option.any_eq_true _ _).mp here
  have same : stored.name = d.name := of_decide_eq_true same
  have own : stored.id = d.id := key_of_find? found
  refine unique_set unique fun e mem n taken name => ?_
  rw [keeps,← same] at taken
  rw [Update.apply_id,← own]
  exact unique e mem stored (mem_of_find? found) n name taken

end

def nameRules : Rules where
  inv := fun s => UniqueNames s.deployments.rows
  fits := nameInTime
  same := fun _ _ same unique => same ▸ unique
  put := by
    intro slot s p unique fits _ made
    obtain ⟨update,read,seen,held,checked⟩ := p
    cases update with
    | name name => exact unique_takes unique made fits
    | _ => exact unique_keeps unique rfl fits
  create := by
    intro s d checked unique fits created
    obtain ⟨fresh,free⟩ := Bool.and_eq_true_iff.mp fits
    refine unique_set unique fun e mem name taken same => ?_
    by_contra other
    rw [taken] at free
    obtain ⟨c,hc,_,before⟩ := taken_before free mem other same
    obtain ⟨first,_,found,_⟩ := named_of_mem hc before
    rw [created.unnamed name taken] at found
    cases found

def NamesInTime (start : DeployState) (schedule : List DeployStep) : Prop :=
  nameRules.contract.Fitting deploySystem (Pool.idle start) schedule

theorem at_most_one {s : DeployState} (unique : UniqueNames s.deployments.rows) (name : String) :
    (s.deployments.rows.filter fun d => d.name = some name).length ≤ 1 := by
  have nodup : (s.deployments.rows.filter fun d => d.name = some name).Nodup :=
    (List.Nodup.of_map _ s.deployments.nodup).filter _
  rcases h : s.deployments.rows.filter (fun d => d.name = some name) with _ | ⟨a,_ | ⟨b,rest⟩⟩
  · simp [h]
  · simp [h]
  · have first : a ∈ s.deployments.rows.filter fun d => d.name = some name := by simp [h]
    have second : b ∈ s.deployments.rows.filter fun d => d.name = some name := by simp [h]
    obtain ⟨memA,nameA⟩ := List.mem_filter.mp first
    obtain ⟨memB,nameB⟩ := List.mem_filter.mp second
    have same := unique a memA b memB name (of_decide_eq_true nameA) (of_decide_eq_true nameB)
    rw [h,eq_of_key memA memB same] at nodup
    simp at nodup

theorem names_stay_unique (start : DeployState) (unique : UniqueNames start.deployments.rows)
    (schedule : List DeployStep) (inTime : NamesInTime start schedule)
    (before after : List DeployStep) (split : schedule = before ++ after) :
    UniqueNames (deploysAfter start before).shared.deployments.rows ∧
      ∀ name, ((deploysAfter start before).shared.deployments.rows.filter fun d => d.name = some name).length ≤ 1 := by
  subst split
  have fits := ((along_append _ before after).mp inTime).1
  have ok := Contract.ok_run nameRules.upholds (Contract.ok_idle unique) before fits
  exact ⟨ok.inv,at_most_one ok.inv⟩

def emptyStore : DeployState := ⟨empty,fun _ => none,fun _ _ => none,fun _ => 0⟩

def deploySite (id : String) : DeployCall :=
  .deploy stubProvider ⟨id,"personal:ana","ana",some "site",none,⟨"run","/snap",none,none,none,0⟩⟩

def renameThenReuse : List DeployStep :=
  (.spawn 0 (deploySite "d1") :: runs 0 14) ++ (.spawn 0 (.rename "d1" "old") :: runs 0 7) ++
    (.spawn 0 (deploySite "d2") :: runs 0 14)

theorem names_stay_unique_renamed : NamesInTime emptyStore renameThenReuse ∧
      UniqueNames (deploysAfter emptyStore renameThenReuse).shared.deployments.rows ∧
      (deploysAfter emptyStore renameThenReuse).shared.deployments.rows.map Deployment.name =
        [some "old",some "site"] := by
  have inTime : NamesInTime emptyStore renameThenReuse := by
    unfold NamesInTime
    decide +kernel
  have unique : UniqueNames emptyStore.deployments.rows := fun _ mem => nomatch mem
  exact ⟨inTime,(names_stay_unique emptyStore unique renameThenReuse inTime renameThenReuse []
    (List.append_nil _).symm).1,by decide +kernel⟩

def bothCheck : List DeployStep :=
  [.spawn 0 (deploySite "d1"),.spawn 1 (deploySite "d2"),.run 0,.run 1] ++ runs 0 3 ++ runs 1 3

def renamedWhilePublishing : List DeployStep :=
  (.spawn 0 (deploySite "d1") :: runs 0 9) ++ (.spawn 1 (.rename "d1" "old") :: runs 1 7) ++
    (.spawn 1 (deploySite "d2") :: runs 1 14) ++ [.run 0]

def storedNames (schedule : List DeployStep) : List (String × Option String) :=
  (deploysAfter emptyStore schedule).shared.deployments.rows.map fun d => (d.id,d.name)

theorem names_collide : storedNames bothCheck = [("d1",some "site"),("d2",some "site")] ∧
      storedNames renamedWhilePublishing = [("d1",some "site"),("d2",some "site")] := by
  decide +kernel

end CompanyBrain.Deploy
