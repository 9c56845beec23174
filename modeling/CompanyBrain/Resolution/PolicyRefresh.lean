import CompanyBrain.Foundations.History
import Mathlib.Data.List.Nodup
import Mathlib.Logic.Function.Basic

namespace CompanyBrain.Resolution

open Foundations Function

inductive Slot where
  | soul | policy | egress
deriving DecidableEq

structure SlotKey where
  slot : Slot
  scope : String
deriving DecidableEq

structure QueuedWrite (V : Type) where
  id : Nat
  value : Option V
  written : Bool

structure Cell (V : Type) where
  memory : Option V
  durable : Option V
  queue : List (QueuedWrite V)
  pending : Option Nat
  source : Option Nat
  committed : List Nat
  finished : List Nat
  unsaved : Bool

namespace Cell

variable {V : Type}

def start (memory durable : Option V) : Cell V := ⟨memory,durable,[],none,none,[],[],false⟩

def persist (c : Cell V) (id : Nat) (value : Option V) : Cell V :=
  {c with queue := c.queue ++ [⟨id,value,false⟩], pending := some id}

def write (c : Cell V) (id : Nat) (memory value : Option V) : Cell V :=
  {c with memory := memory, source := some id}.persist id value

def commit (c : Cell V) : Cell V :=
  match c.queue with
  | w :: rest =>
    if w.written then c
    else {c with
      durable := w.value
      queue := {w with written := true} :: rest
      committed := c.committed ++ [w.id]}
  | [] => c

def settle (c : Cell V) : Cell V :=
  match c.queue with
  | w :: rest =>
    if w.written then
      {c with
        queue := rest
        pending := if c.pending = some w.id then none else c.pending
        finished := c.finished ++ [w.id]
        unsaved := false}
    else c
  | [] => c

def fail (c : Cell V) : Cell V :=
  match c.queue with
  | _ :: rest => {c with queue := rest, unsaved := true}
  | [] => c

def installed (c : Cell V) (keep : Bool) (value : Option V) : Option V :=
  match value with
  | some v => some v
  | none => if keep then c.memory else none

def refresh (c : Cell V) (keep : Bool) (value : Option V) : Cell V :=
  if c.pending = none then
    {c with
      memory := c.installed keep value
      source := if value = none ∧ keep = true then c.source else none}
  else c

end Cell

structure ReadValue (V : Type) where
  value : Option V
  committed : List Nat
  finished : List Nat
deriving DecidableEq

structure Refresh (V : Type) where
  scope : String
  soul : Option (ReadValue V)
  policy : Option (ReadValue V)
  egress : Option (ReadValue V)
deriving DecidableEq

def Refresh.got {V : Type} (r : Refresh V) : Slot → Option (ReadValue V)
  | .soul => r.soul
  | .policy => r.policy
  | .egress => r.egress

def Refresh.receive {V : Type} (r : Refresh V) (slot : Slot) (value : ReadValue V) : Refresh V :=
  match slot with
  | .soul => {r with soul := some value}
  | .policy => {r with policy := some value}
  | .egress => {r with egress := some value}

structure ConfigState (V : Type) where
  cells : SlotKey → Cell V
  refreshes : Nat → Option (Refresh V)
  nextId : Nat

inductive ConfigEvent (V : Type) where
  | set (k : SlotKey) (v : V)
  | clear (k : SlotKey)
  | commit (k : SlotKey)
  | settle (k : SlotKey)
  | fail (k : SlotKey)
  | foreign (k : SlotKey) (v : Option V)
  | start (i : Nat) (scope : String)
  | read (i : Nat) (slot : Slot)
  | apply (i : Nat)
  | drop (i : Nat)

structure OrgDefaults (V : Type) where
  org : String
  value : Slot → V

section

variable {V : Type} (defaults : OrgDefaults V)

def OrgDefaults.cleared (k : SlotKey) : Option V :=
  if k.scope = defaults.org then some (defaults.value k.slot) else none

def ConfigState.start (memory durable : SlotKey → Option V) : ConfigState V :=
  ⟨fun k => Cell.start (memory k) (durable k),fun _ => none,0⟩

def ConfigState.setCell (s : ConfigState V) (k : SlotKey) (c : Cell V) : ConfigState V :=
  {s with cells := update s.cells k c}

def ConfigState.setRefresh (s : ConfigState V) (i : Nat) (r : Option (Refresh V)) : ConfigState V :=
  {s with refreshes := update s.refreshes i r}

def Cell.snapshot (c : Cell V) : ReadValue V := ⟨c.durable,c.committed,c.finished⟩

def refreshCells [DecidableEq V] (s : ConfigState V) (r : Refresh V) (k : SlotKey) : Cell V :=
  match r.got k.slot with
  | some read =>
    if k.scope = r.scope then (s.cells k).refresh (k.scope = defaults.org) read.value else s.cells k
  | none => s.cells k

def Refresh.ready (r : Refresh V) : Bool := r.soul.isSome && r.policy.isSome && r.egress.isSome

def ConfigState.step [DecidableEq V] (s : ConfigState V) : ConfigEvent V → ConfigState V
  | .set k v => {s.setCell k ((s.cells k).write s.nextId (some v) (some v)) with nextId := s.nextId+1}
  | .clear k =>
    {s.setCell k ((s.cells k).write s.nextId (defaults.cleared k) none) with nextId := s.nextId+1}
  | .commit k => s.setCell k (s.cells k).commit
  | .settle k => s.setCell k (s.cells k).settle
  | .fail k => s.setCell k (s.cells k).fail
  | .foreign k v => s.setCell k {s.cells k with durable := v}
  | .start i scope =>
    match s.refreshes i with
    | none => s.setRefresh i (some ⟨scope,none,none,none⟩)
    | some _ => s
  | .read i slot =>
    match s.refreshes i with
    | some r =>
      if r.got slot = none then s.setRefresh i (some (r.receive slot (s.cells ⟨slot,r.scope⟩).snapshot)) else s
    | none => s
  | .apply i =>
    match s.refreshes i with
    | some r => if r.ready then {s.setRefresh i none with cells := refreshCells defaults s r} else s
    | none => s
  | .drop i => s.setRefresh i none

end

structure CellOk {V : Type} (bound : Nat) (c : Cell V) : Prop where
  ids : ∀ w ∈ c.queue, w.id < bound
  nodup : (c.queue.map QueuedWrite.id).Nodup
  busy : ∀ w, c.queue.getLast? = some w → c.pending = some w.id
  quiet : c.queue = [] → (c.pending = none ↔ c.unsaved = false)
  source : ∀ id, c.source = some id → c.pending = some id ∨ id ∈ c.finished
  saved : c.finished ⊆ c.committed
  written : ∀ w ∈ c.queue, w.written = true → w.id ∈ c.committed

section

variable {V : Type} {bound : Nat} {c : Cell V}

theorem cellOk_start (memory durable : Option V) : CellOk bound (Cell.start memory durable) where
  ids := nofun
  nodup := List.nodup_nil
  busy := nofun
  quiet _ := ⟨fun _ => rfl,fun _ => rfl⟩
  source := nofun
  saved := List.Subset.refl _
  written := nofun

theorem CellOk.mono (ok : CellOk bound c) {bound' : Nat} (more : bound ≤ bound') : CellOk bound' c :=
  {ok with ids := fun w mem => Nat.lt_of_lt_of_le (ok.ids w mem) more}

theorem CellOk.write (ok : CellOk bound c) (memory value : Option V) :
    CellOk (bound+1) (c.write bound memory value) where
  ids := forall_snoc (fun w mem => Nat.lt_succ_of_lt (ok.ids w mem)) (Nat.lt_succ_self bound)
  nodup := by
    change ((c.queue ++ [_]).map QueuedWrite.id).Nodup
    rw [List.map_append,List.nodup_append]
    refine ⟨ok.nodup,List.nodup_singleton _,?_⟩
    intro x hx y hy
    obtain ⟨w,mem,rfl⟩ := List.mem_map.mp hx
    obtain rfl := List.mem_singleton.mp hy
    exact Nat.ne_of_lt (ok.ids w mem)
  busy w last := by
    change (c.queue ++ [_]).getLast? = some w at last
    rw [List.getLast?_append] at last
    cases last
    rfl
  quiet empty := absurd empty (by simp [Cell.write,Cell.persist])
  source id is := .inl is
  saved := ok.saved
  written := forall_snoc ok.written fun is => by cases is

theorem CellOk.commit (ok : CellOk bound c) : CellOk bound c.commit := by
  unfold Cell.commit
  split
  next w rest queue =>
    split
    · exact ok
    have ids := ok.ids
    have nodup := ok.nodup
    have busy := ok.busy
    have written := ok.written
    rw [queue] at ids nodup busy written
    exact {
      ids := by simpa using ids
      nodup := by simpa using nodup
      busy := by
        intro last is
        cases rest with
        | nil =>
          cases is
          exact busy w rfl
        | cons => exact busy last is
      quiet := nofun
      source := ok.source
      saved := fun id mem => List.mem_append_left _ (ok.saved mem)
      written := List.forall_mem_cons.mpr ⟨fun _ => List.mem_append_right _ (List.mem_singleton.mpr rfl),
        fun x mem is => List.mem_append_left _ (written x (.tail w mem) is)⟩}
  · exact ok

section

variable {w x : QueuedWrite V} {rest : List (QueuedWrite V)}

theorem mem_queue (queue : c.queue = w :: rest) (mem : x ∈ rest) : x ∈ c.queue := by
  rw [queue]
  exact .tail w mem

variable (ok : CellOk bound c)
include ok

theorem CellOk.nodup_tail (queue : c.queue = w :: rest) :
    w.id ∉ rest.map QueuedWrite.id ∧ (rest.map QueuedWrite.id).Nodup := by
  have nodup := ok.nodup
  rw [queue] at nodup
  exact List.nodup_cons.mp nodup

theorem CellOk.pending_last (queue : c.queue = w :: rest) (last : rest.getLast? = some x) :
    c.pending = some x.id ∧ x.id ≠ w.id := by
  constructor
  · apply ok.busy
    rw [queue,List.getLast?_cons,last]
    rfl
  · intro same
    exact (ok.nodup_tail queue).1 (List.mem_map.mpr ⟨x,List.mem_of_getLast? last,same⟩)

theorem CellOk.pending_only (queue : c.queue = [w]) : c.pending = some w.id := by
  apply ok.busy
  rw [queue]
  rfl

end

variable (ok : CellOk bound c)
include ok

theorem CellOk.settle : CellOk bound c.settle := by
  unfold Cell.settle
  split
  next w rest queue =>
    split
    next done =>
      exact {
        ids := fun x mem => ok.ids x (mem_queue queue mem)
        nodup := (ok.nodup_tail queue).2
        busy := by
          intro x last
          obtain ⟨pending,other⟩ := ok.pending_last queue last
          have later : ¬c.pending = some w.id := fun same => other (Option.some.inj (pending.symm.trans same))
          exact (if_neg later).trans pending
        quiet := by
          intro empty
          subst empty
          exact ⟨fun _ => rfl,fun _ => if_pos (ok.pending_only queue)⟩
        source := by
          intro id is
          rcases ok.source id is with pending | mem
          · by_cases same : c.pending = some w.id
            · cases pending.symm.trans same
              exact .inr (List.mem_append_right _ (List.mem_singleton.mpr rfl))
            · exact .inl ((if_neg same).trans pending)
          · exact .inr (List.mem_append_left _ mem)
        saved := by
          intro id mem
          rcases List.mem_append.mp mem with mem | mem
          · exact ok.saved mem
          · obtain rfl := List.mem_singleton.mp mem
            exact ok.written w (queue ▸ (.head _)) done
        written := fun x mem => ok.written x (mem_queue queue mem)}
    · exact ok
  · exact ok

theorem CellOk.fail : CellOk bound c.fail := by
  unfold Cell.fail
  split
  next w rest queue =>
    exact {
      ids := fun x mem => ok.ids x (mem_queue queue mem)
      nodup := (ok.nodup_tail queue).2
      busy := fun x last => (ok.pending_last queue last).1
      quiet := by
        intro empty
        subst empty
        constructor
        · intro empty
          cases (ok.pending_only queue).symm.trans empty
        · intro saved
          cases saved
      source := ok.source
      saved := ok.saved
      written := fun x mem => ok.written x (mem_queue queue mem)}
  · exact ok

theorem CellOk.refresh [DecidableEq V] (keep : Bool) (value : Option V) :
    CellOk bound (c.refresh keep value) := by
  unfold Cell.refresh
  split
  · refine {ok with source := fun id is => ?_}
    split at is
    · exact ok.source id is
    · cases is
  · exact ok

end

structure ConfigOk {V : Type} (s : ConfigState V) : Prop where
  cells : ∀ k, CellOk s.nextId (s.cells k)
  reads : ∀ i r slot read, s.refreshes i = some r → r.got slot = some read → read.finished ⊆ read.committed

open ConfigState (step start)

section

variable {V : Type} {s : ConfigState V}

theorem ConfigOk.setCell (ok : ConfigOk s) (k : SlotKey) {c : Cell V} {bound : Nat} (more : s.nextId ≤ bound)
    (here : CellOk bound c) : ConfigOk {s.setCell k c with nextId := bound} where
  cells := (forall_update_iff s.cells fun _ => CellOk bound).mpr ⟨here,fun j _ => (ok.cells j).mono more⟩
  reads := ok.reads

theorem ConfigOk.setRefresh (ok : ConfigOk s) (i : Nat) (r? : Option (Refresh V))
    (here : ∀ r slot read, r? = some r → r.got slot = some read → read.finished ⊆ read.committed) :
    ConfigOk (s.setRefresh i r?) where
  cells := ok.cells
  reads := (forall_update_iff s.refreshes fun _ r? => ∀ r slot read, r? = some r → r.got slot = some read →
    read.finished ⊆ read.committed).mpr ⟨here,fun j _ => ok.reads j⟩

theorem got_receive (r : Refresh V) (slot slot' : Slot) (value : ReadValue V) :
    (r.receive slot value).got slot' = if slot' = slot then some value else r.got slot' := by
  cases slot <;> cases slot' <;> rfl

theorem configOk_start (memory durable : SlotKey → Option V) : ConfigOk (start memory durable) :=
  ⟨fun _ => cellOk_start _ _,nofun⟩

variable [DecidableEq V] {defaults : OrgDefaults V}

theorem cellOk_refreshCells (ok : ConfigOk s) (r : Refresh V) (k : SlotKey) :
    CellOk s.nextId (refreshCells defaults s r k) := by
  unfold refreshCells
  split
  · split
    · exact (ok.cells k).refresh _ _
    · exact ok.cells k
  · exact ok.cells k

theorem configOk_step (ok : ConfigOk s) (e : ConfigEvent V) : ConfigOk (s.step defaults e) := by
  cases e with
  | set k v => exact ok.setCell k (Nat.le_succ _) ((ok.cells k).write (some v) (some v))
  | clear k => exact ok.setCell k (Nat.le_succ _) ((ok.cells k).write (defaults.cleared k) none)
  | commit k => exact ok.setCell k (Nat.le_refl _) (ok.cells k).commit
  | settle k => exact ok.setCell k (Nat.le_refl _) (ok.cells k).settle
  | fail k => exact ok.setCell k (Nat.le_refl _) (ok.cells k).fail
  | foreign k => exact ok.setCell k (Nat.le_refl _) {ok.cells k with}
  | start i =>
    simp only [step]
    split
    · refine ok.setRefresh i _ ?_
      rintro r slot read ⟨⟩ got
      cases slot <;> cases got
    · exact ok
  | read i =>
    simp only [step]
    split
    next r here =>
      split
      · refine ok.setRefresh i _ ?_
        rintro _ slot' read ⟨⟩ got
        rw [got_receive] at got
        split at got
        · cases got
          exact (ok.cells _).saved
        · exact ok.reads i r slot' read here got
      · exact ok
    · exact ok
  | apply i =>
    simp only [step]
    split
    next r here =>
      split
      · have done := ok.setRefresh i none nofun
        exact ⟨fun k => cellOk_refreshCells ok r k,done.reads⟩
      · exact ok
    · exact ok
  | drop i => exact ok.setRefresh i none nofun

end

section

variable {V : Type} [DecidableEq V] (defaults : OrgDefaults V)

def ReplacesSeen (s : ConfigState V) (e : ConfigEvent V) : Prop :=
  ∀ i r slot read id, e = .apply i → s.refreshes i = some r → r.got slot = some read →
    (s.cells ⟨slot,r.scope⟩).source = some id → id ∈ (s.cells ⟨slot,r.scope⟩).committed →
    ((s.step defaults e).cells ⟨slot,r.scope⟩).source ≠ some id → id ∈ read.committed

def TakesEffect (s : ConfigState V) (e : ConfigEvent V) : Prop :=
  ∀ i r slot read, e = .apply i → s.refreshes i = some r → r.ready = true → r.got slot = some read →
    (s.cells ⟨slot,r.scope⟩).queue = [] →
    ((s.step defaults e).cells ⟨slot,r.scope⟩).memory =
      (s.cells ⟨slot,r.scope⟩).installed (r.scope = defaults.org) read.value

def checkReads (test : Cell V → ReadValue V → Bool) (s : ConfigState V) : ConfigEvent V → Bool
  | .apply i => (s.refreshes i).all fun r =>
      [Slot.soul,.policy,.egress].all fun slot => (r.got slot).all (test (s.cells ⟨slot,r.scope⟩))
  | _ => true

def unfinishedSince (s : ConfigState V) (e : ConfigEvent V) : Bool :=
  checkReads (fun c read => read.finished = c.finished) s e

def savedLast (s : ConfigState V) (e : ConfigEvent V) : Bool :=
  checkReads (fun c _ => !(c.queue.isEmpty && c.unsaved)) s e

variable {defaults} {s : ConfigState V} {i : Nat} {r : Refresh V} {slot : Slot} {read : ReadValue V}

omit [DecidableEq V] in
theorem checkReads_apply {test : Cell V → ReadValue V → Bool} (checked : checkReads test s (.apply i))
    (here : s.refreshes i = some r) (got : r.got slot = some read) : test (s.cells ⟨slot,r.scope⟩) read := by
  simp only [checkReads,here,Option.all_some,List.all_eq_true] at checked
  have mem : slot ∈ [Slot.soul,.policy,.egress] := by cases slot <;> decide
  simpa only [got,Option.all_some] using checked slot mem

theorem step_apply (here : s.refreshes i = some r) (ready : r.ready) (got : r.got slot = some read) :
    (s.step defaults (.apply i)).cells ⟨slot,r.scope⟩ =
      (s.cells ⟨slot,r.scope⟩).refresh (r.scope = defaults.org) read.value := by
  simp only [step,here,ready,if_true,refreshCells,got]

theorem step_apply_unready (here : s.refreshes i = some r) (unready : ¬r.ready) : s.step defaults (.apply i) = s := by
  simp only [step,here,unready]
  rfl

theorem replacesSeen_step (ok : ConfigOk s) {e : ConfigEvent V} (calm : unfinishedSince s e) :
    ReplacesSeen defaults s e := by
  rintro i r slot read id rfl here got source _ replaced
  have same : read.finished = (s.cells ⟨slot,r.scope⟩).finished :=
    of_decide_eq_true (checkReads_apply calm here got)
  by_cases ready : r.ready = true
  · rw [step_apply here ready got] at replaced
    unfold Cell.refresh at replaced
    split at replaced
    next free =>
      rcases (ok.cells ⟨slot,r.scope⟩).source id source with pending | done
      · cases pending.symm.trans free
      · exact ok.reads i r slot read here got (same ▸ done)
    · exact absurd source replaced
  · rw [step_apply_unready here ready] at replaced
    exact absurd source replaced

theorem takesEffect_step (ok : ConfigOk s) {e : ConfigEvent V} (saved : savedLast s e) : TakesEffect defaults s e := by
  rintro i r slot read rfl here ready got empty
  have kept := checkReads_apply saved here got
  have unsaved : (s.cells ⟨slot,r.scope⟩).unsaved = false := by simpa [empty] using kept
  have free := ((ok.cells ⟨slot,r.scope⟩).quiet empty).mpr unsaved
  rw [step_apply here ready got,Cell.refresh,if_pos free]

variable (defaults)

theorem refresh_respects_writes (memory durable : SlotKey → Option V) (events : List (ConfigEvent V)) :
    (Along (step defaults) (fun s e => unfinishedSince s e = true)
        (start memory durable) events →
      Along (step defaults) (ReplacesSeen defaults) (start memory durable) events) ∧
    (Along (step defaults) (fun s e => savedLast s e = true) (start memory durable) events →
      Along (step defaults) (TakesEffect defaults) (start memory durable) events) := by
  have start := configOk_start memory durable
  constructor
  · exact along_under ConfigOk (fun _ _ ok calm => replacesSeen_step ok calm)
      (fun _ e ok _ => configOk_step ok e) _ events start
  · exact along_under ConfigOk (fun _ _ ok saved => takesEffect_step ok saved)
      (fun _ e ok _ => configOk_step ok e) _ events start

end

def teamPolicy : SlotKey := ⟨.policy,"eng"⟩

def acme : OrgDefaults String := ⟨"org",fun _ => "default"⟩

def oldPolicy (k : SlotKey) : Option String := if k = teamPolicy then some "old" else none

def refreshed (i : Nat) : List (ConfigEvent String) :=
  [.start i "eng",.read i .soul,.read i .policy,.read i .egress]

def writeThenRefresh : List (ConfigEvent String) :=
  refreshed 1 ++ [.set teamPolicy "new",.commit teamPolicy,.apply 1,.settle teamPolicy] ++
    refreshed 2 ++ [.apply 2]

theorem write_then_refresh_respected :
    Along (step acme) (ReplacesSeen acme) (start oldPolicy oldPolicy) writeThenRefresh ∧
      Along (step acme) (TakesEffect acme) (start oldPolicy oldPolicy) writeThenRefresh :=
  ⟨(refresh_respects_writes acme oldPolicy oldPolicy writeThenRefresh).1 (by decide +kernel),
    (refresh_respects_writes acme oldPolicy oldPolicy writeThenRefresh).2 (by decide +kernel)⟩

def oldRead : Refresh String :=
  ⟨"eng",some ⟨none,[],[]⟩,some ⟨some "old",[],[]⟩,some ⟨none,[],[]⟩⟩

def writeInsideRefresh : List (ConfigEvent String) :=
  refreshed 1 ++ [.set teamPolicy "new",.commit teamPolicy,.settle teamPolicy]

def refreshAfterFailure : List (ConfigEvent String) :=
  [.set teamPolicy "new",.fail teamPolicy] ++ refreshed 1

theorem refresh_undoes_write_and_stays_blocked : (((run (step acme) (start oldPolicy oldPolicy)
          (writeInsideRefresh ++ [.apply 1])).cells teamPolicy).memory = some "old" ∧
      ((run (step acme) (start oldPolicy oldPolicy)
          (writeInsideRefresh ++ [.apply 1])).cells teamPolicy).durable = some "new" ∧
      ¬Along (step acme) (ReplacesSeen acme) (start oldPolicy oldPolicy)
        (writeInsideRefresh ++ [.apply 1])) ∧ ((run (step acme) (start oldPolicy oldPolicy)
          (refreshAfterFailure ++ [.apply 1])).cells teamPolicy).memory = some "new" ∧
      ((run (step acme) (start oldPolicy oldPolicy)
          (refreshAfterFailure ++ [.apply 1])).cells teamPolicy).durable = some "old" ∧
      ¬Along (step acme) (TakesEffect acme) (start oldPolicy oldPolicy)
        (refreshAfterFailure ++ [.apply 1]) := by
  refine ⟨⟨by decide +kernel,by decide +kernel,fun along => ?_⟩,by decide +kernel,by decide +kernel,
    fun along => ?_⟩
  · have last := ((along_append _ _ _).mp along).2.1
    have seen := last 1 oldRead .policy _ 0 rfl (by decide +kernel) rfl (by decide +kernel) (by decide +kernel)
      (by decide +kernel)
    cases seen
  · have last := ((along_append _ _ _).mp along).2.1
    have effect := last 1 oldRead .policy _ rfl (by decide +kernel) rfl rfl (by decide +kernel)
    exact absurd effect (by decide +kernel)

end CompanyBrain.Resolution
