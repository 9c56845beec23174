import CompanyBrain.Foundations.History
import CompanyBrain.Foundations.JsText
import Mathlib.Data.List.Infix

namespace CompanyBrain.Runs

open Foundations

namespace TurnStream

def firstBlockMaxChars : Nat := 20000

def blockJoin : Units := [10,10]

structure Entry where
  text : Units := []
  firstBlock : Units := []
  firstBlockOpen : Bool := true
  firstBlockClosed : Bool := false
  surfacePosted : Bool := false
  live : Bool := true
  replying : Bool := true
  replyDone : Bool := false
  timer : Option Nat := none

-- A listener set is known by its index, as a closure holds it after the map has dropped it.
structure Stream where
  runs : String → Option Entry
  timers : List (Nat × String)
  nextTimer : Nat
  listeners : String → Option Nat
  sets : List (List Nat)

def createTurnStream : Stream := ⟨fun _ => none,[],0,fun _ => none,[]⟩

inductive Notice where
  | onFirstBlock (listener : Nat) (text : Units)
  | onSurfacePosted (listener : Nat)

variable (maxChars : Int)

def extended (text delta : Units) : Units :=
  if (text.length : Int) < maxChars then (text ++ delta).take maxChars.toNat else text

namespace Stream

section

variable (s : Stream) (runId : String) (set listener : Nat)

def put (entry : Option Entry) : Stream :=
  {s with runs := fun r => if r = runId then entry else s.runs r}

def ensure : Entry := (s.runs runId).getD {}

def clearTimeout : Option Nat → Stream
  | none => s
  | some timer => {s with timers := s.timers.filter fun t => t.1 ≠ timer}

def begin : Stream :=
  match s.runs runId with
  | some entry => s.put runId (some {entry with replying := true, live := true})
  | none => s.put runId (some {})

def alive : Bool := ((s.runs runId).map (·.live)).getD false

def replying (s : Stream) (runId : String) : Bool := ((s.runs runId).map (·.replying)).getD false

def publish (delta : Units) : Stream :=
  if delta = [] then s
  else
    let entry := s.ensure runId
    let firstBlock :=
      if entry.firstBlockOpen then extended firstBlockMaxChars entry.firstBlock delta else entry.firstBlock
    (s.clearTimeout entry.timer).put runId (some {entry with
      replying := true, live := true, timer := none, firstBlock := firstBlock,
      text := extended maxChars entry.text delta})

def publishBlockStart : Stream :=
  match s.runs runId with
  | none => s
  | some entry =>
    let entry := if entry.firstBlock ≠ [] then {entry with firstBlockOpen := false} else entry
    if entry.text = [] || blockJoin.isSuffixOf entry.text then s.put runId (some entry)
    else s.put runId (some {entry with text := extended maxChars entry.text blockJoin})

def subscribed : List Nat :=
  ((s.listeners runId).map fun set => s.sets.getD set []).getD []

def noteToolCall : Stream × List Notice :=
  let entry := s.ensure runId
  if !entry.firstBlockOpen then (s.put runId (some entry),[])
  else
    let closed := entry.firstBlock.any fun u => !isSpaceUnit u
    let notices := if closed then (s.subscribed runId).map (.onFirstBlock · entry.firstBlock) else []
    (s.put runId (some {entry with firstBlockOpen := false, firstBlockClosed := closed}),notices)

def firstBlock (s : Stream) (runId : String) : Option (Units × Bool) :=
  (s.runs runId).bind fun entry =>
    if entry.firstBlock.all isSpaceUnit then none else some (entry.firstBlock,entry.firstBlockClosed)

def markSurfacePosted : Stream × List Notice :=
  let entry := s.ensure runId
  if entry.surfacePosted then (s.put runId (some entry),[])
  else (s.put runId (some {entry with surfacePosted := true}),(s.subscribed runId).map .onSurfacePosted)

def surfacePosted (s : Stream) (runId : String) : Bool := ((s.runs runId).map (·.surfacePosted)).getD false

def text (s : Stream) (runId : String) : Units := ((s.runs runId).map (·.text)).getD []

def snapshot : Option Units :=
  if s.text runId = [] then none else some (s.text runId)

def markReplyDone : Stream :=
  match s.runs runId with
  | some entry => s.put runId (some {entry with replyDone := true})
  | none => s.put runId (some {replyDone := true})

def isReplyDone : Bool := ((s.runs runId).map (·.replyDone)).getD false

def endRun : Stream :=
  match s.runs runId with
  | none => s
  | some entry =>
    if entry.timer.isSome then s.put runId (some {entry with live := false})
    else
      {s.put runId (some {entry with live := false, timer := some s.nextTimer}) with
        timers := s.timers ++ [(s.nextTimer,runId)], nextTimer := s.nextTimer+1}

def fire (timer : Nat) : Stream :=
  match s.timers.lookup timer with
  | none => s
  | some runId => (s.clearTimeout (some timer)).put runId none

def listen (set : Option Nat) : Stream :=
  {s with listeners := fun r => if r = runId then set else s.listeners r}

def subscribe (listener : Nat) : Stream :=
  match s.listeners runId with
  | some set => {s with sets := s.sets.modify set fun ls => if listener ∈ ls then ls else ls ++ [listener]}
  | none => {s.listen runId (some s.sets.length) with sets := s.sets ++ [[listener]]}

def unsubscribe : Stream :=
  let left := (s.sets.getD set []).erase listener
  let s := {s with sets := s.sets.set set left}
  if left = [] && s.listeners runId = some set then s.listen runId none else s

end

end Stream

inductive Call where
  | begin (runId : String)
  | publish (runId : String) (delta : Units)
  | publishBlockStart (runId : String)
  | noteToolCall (runId : String)
  | markSurfacePosted (runId : String)
  | markReplyDone (runId : String)
  | endRun (runId : String)
  | fire (timer : Nat)
  | subscribe (runId : String) (listener : Nat)
  | unsubscribe (runId : String) (set listener : Nat)

def Call.exec (s : Stream) : Call → Stream × List Notice
  | begin runId => (s.begin runId,[])
  | publish runId delta => (s.publish maxChars runId delta,[])
  | publishBlockStart runId => (s.publishBlockStart maxChars runId,[])
  | noteToolCall runId => s.noteToolCall runId
  | markSurfacePosted runId => s.markSurfacePosted runId
  | markReplyDone runId => (s.markReplyDone runId,[])
  | endRun runId => (s.endRun runId,[])
  | fire timer => (s.fire timer,[])
  | subscribe runId listener => (s.subscribe runId listener,[])
  | unsubscribe runId set listener => (s.unsubscribe runId set listener,[])

def step (s : Stream) (c : Call) : Stream := (c.exec maxChars s).1

def reached (calls : List Call) : Stream := run (step maxChars) createTurnStream calls

def Call.starts (runId : String) : Call → Bool
  | begin r => r = runId
  | publish r _ => r = runId
  | _ => false

def Call.ends (runId : String) : Call → Bool
  | endRun r => r = runId
  | _ => false

def KeptUntilEnd (calls : List Call) : Prop :=
  ∀ runId before c between later, calls = before ++ [c] ++ between ++ later → c.starts runId = true →
    (∀ d ∈ between, d.ends runId = false) →
    let started := reached maxChars (before ++ [c])
    let now := reached maxChars (before ++ [c] ++ between)
    now.alive runId = true ∧ started.text runId <+: now.text runId

def Call.clears (runId : String) : Call → Bool
  | publish r delta => r = runId && delta ≠ []
  | endRun r => r = runId
  | _ => false

structure Spared (calls : List Call) : Prop where
  resumed : ∀ runId timer before between later,
    calls = before ++ .begin runId :: between ++ .fire timer :: later →
    (timer,runId) ∈ (reached maxChars before).timers → ∃ d ∈ between, d.clears runId = true
  spoken : ∀ runId before later, calls = before ++ .publish runId [] :: later →
    (reached maxChars before).alive runId = true

theorem reached_append (calls later : List Call) :
    reached maxChars (calls ++ later) = run (step maxChars) (reached maxChars calls) later :=
  run_append _ _ calls later

theorem prefix_extended (text delta : Units) : text <+: extended maxChars text delta := by
  unfold extended
  split
  next room => exact List.prefix_take_iff.mpr ⟨List.prefix_append text delta,by omega⟩
  next => exact List.prefix_rfl

section Steps

variable {s s' : Stream} {c : Call} {r runId : String} {entry : Entry} {timer : Nat}

structure Armed (s : Stream) : Prop where
  held : ∀ timer runId, (timer,runId) ∈ s.timers ↔ (s.runs runId).bind Entry.timer = some timer
  issued : ∀ timer runId, (timer,runId) ∈ s.timers → timer < s.nextTimer
  alone : ∀ timer runId r, (timer,runId) ∈ s.timers → (timer,r) ∈ s.timers → runId = r

theorem armed_start : Armed createTurnStream := by
  constructor <;> simp [createTurnStream]

theorem Armed.lookup (h : Armed s) : s.timers.lookup timer = some runId ↔ (timer,runId) ∈ s.timers := by
  constructor
  · intro found
    obtain ⟨_,_,cut,-⟩ := List.lookup_eq_some_iff.mp found
    simp [cut]
  · intro mem
    cases found : s.timers.lookup timer with
    | none =>
      have := List.lookup_eq_none_iff.mp found _ mem
      simp at this
    | some r =>
      obtain ⟨_,_,cut,-⟩ := List.lookup_eq_some_iff.mp found
      rw [h.alone timer r runId (by simp [cut]) mem]

structure Retouched (old new : Entry) : Prop where
  live : old.live = true → new.live = true
  text : old.text <+: new.text
  timer : new.timer = old.timer

inductive Effect (s : Stream) (c : Call) (s' : Stream) : Prop where
  | quiet (runs : s'.runs = s.runs) (timers : s'.timers = s.timers) (next : s'.nextTimer = s.nextTimer)
      (missing : ∀ r, c.clears r = true → s.runs r = none)
  | touch (r : String) (entry : Entry) (runs : s'.runs = (s.put r (some entry)).runs)
      (timers : s'.timers = s.timers) (next : s'.nextTimer = s.nextTimer) (kept : Retouched (s.ensure r) entry)
      (live : entry.live = (s.ensure r).live ∨ c = .begin r) (calm : ∀ r, c.clears r = false)
  | publish (r : String) (entry : Entry) (runs : s'.runs = (s.put r (some entry)).runs)
      (timers : s'.timers = (s.clearTimeout (s.ensure r).timer).timers) (next : s'.nextTimer = s.nextTimer)
      (live : entry.live = true) (text : (s.ensure r).text <+: entry.text) (timer : entry.timer = none)
      (only : ∀ runId, c.clears runId = true ↔ r = runId)
  | finish (r : String) (entry : Entry) (runs : s'.runs = (s.put r (some entry)).runs) (live : entry.live = false)
      (timers : s'.timers = s.timers ∧ entry.timer = (s.ensure r).timer ∧ s'.nextTimer = s.nextTimer ∨
        s'.timers = s.timers ++ [(s.nextTimer,r)] ∧ (s.ensure r).timer = none ∧ entry.timer = some s.nextTimer ∧
          s'.nextTimer = s.nextTimer+1) (ends : c = .endRun r)
  | fire (timer : Nat) (r : String) (due : s.timers.lookup timer = some r) (runs : s'.runs = (s.put r none).runs)
      (timers : s'.timers = (s.clearTimeout (some timer)).timers) (next : s'.nextTimer = s.nextTimer)
      (fires : c = .fire timer)

theorem ensure_of_found (found : s.runs r = some entry) : s.ensure r = entry := by
  rw [Stream.ensure,found]
  rfl

theorem ensure_of_missing (missing : s.runs r = none) : s.ensure r = {} := by
  rw [Stream.ensure,missing]
  rfl

theorem effect_begin : Effect s (.begin r) (s.begin r) := by
  unfold Stream.begin
  split
  next entry found =>
    refine .touch r _ rfl rfl rfl ?_ (.inr rfl) fun _ => rfl
    rw [ensure_of_found found]
    exact ⟨fun _ => rfl,List.prefix_rfl,rfl⟩
  next missing =>
    refine .touch r _ rfl rfl rfl ?_ (.inr rfl) fun _ => rfl
    rw [ensure_of_missing missing]
    exact ⟨id,List.prefix_rfl,rfl⟩

theorem clearTimeout_put (timer : Option Nat) (entry : Option Entry) :
    ((s.clearTimeout timer).put r entry).runs = (s.put r entry).runs := by
  cases timer <;> rfl

theorem effect_publish (delta : Units) : Effect s (.publish r delta) (s.publish maxChars r delta) := by
  unfold Stream.publish
  split
  next nothing => exact .quiet rfl rfl rfl fun _ clears => by simp [Call.clears,nothing] at clears
  next something =>
    have next : (s.clearTimeout (s.ensure r).timer).nextTimer = s.nextTimer := by cases (s.ensure r).timer <;> rfl
    refine .publish r _ (clearTimeout_put _ _) rfl next rfl (prefix_extended maxChars _ delta) rfl ?_
    simp [Call.clears,something]

theorem effect_publishBlockStart : Effect s (.publishBlockStart r) (s.publishBlockStart maxChars r) := by
  unfold Stream.publishBlockStart
  split
  · exact .quiet rfl rfl rfl nofun
  next entry found =>
    have closes : Retouched entry (if entry.firstBlock ≠ [] then {entry with firstBlockOpen := false} else entry) := by
      split <;> exact ⟨id,List.prefix_rfl,rfl⟩
    have same : (if entry.firstBlock ≠ [] then {entry with firstBlockOpen := false} else entry).live = entry.live := by
      split <;> rfl
    dsimp only
    generalize (if entry.firstBlock ≠ [] then {entry with firstBlockOpen := false} else entry) = closed at closes same ⊢
    rw [← ensure_of_found found] at closes same
    split
    · exact .touch r closed rfl rfl rfl closes (.inl same) fun _ => rfl
    · exact .touch r _ rfl rfl rfl
        ⟨closes.live,closes.text.trans (prefix_extended maxChars _ blockJoin),closes.timer⟩ (.inl same) fun _ => rfl

theorem effect_noteToolCall : Effect s (.noteToolCall r) (s.noteToolCall r).1 := by
  simp only [Stream.noteToolCall]
  split <;> exact .touch r _ rfl rfl rfl ⟨id,List.prefix_rfl,rfl⟩ (.inl rfl) fun _ => rfl

theorem effect_markSurfacePosted : Effect s (.markSurfacePosted r) (s.markSurfacePosted r).1 := by
  simp only [Stream.markSurfacePosted]
  split <;> exact .touch r _ rfl rfl rfl ⟨id,List.prefix_rfl,rfl⟩ (.inl rfl) fun _ => rfl

theorem effect_markReplyDone : Effect s (.markReplyDone r) (s.markReplyDone r) := by
  unfold Stream.markReplyDone
  split
  next entry found =>
    have same := ensure_of_found found
    exact .touch r _ rfl rfl rfl (same ▸ ⟨id,List.prefix_rfl,rfl⟩) (.inl (same ▸ rfl)) fun _ => rfl
  next missing =>
    have same := ensure_of_missing missing
    exact .touch r _ rfl rfl rfl (same ▸ ⟨id,List.prefix_rfl,rfl⟩) (.inl (same ▸ rfl)) fun _ => rfl

theorem effect_endRun : Effect s (.endRun r) (s.endRun r) := by
  unfold Stream.endRun
  split
  next missing => exact .quiet rfl rfl rfl fun _ ends => of_decide_eq_true ends ▸ missing
  next entry found =>
    have same := ensure_of_found found
    split
    · exact .finish r _ rfl rfl (.inl ⟨rfl,same ▸ rfl,rfl⟩) rfl
    next idle =>
      have none : entry.timer = none := by simpa using idle
      exact .finish r _ rfl rfl (.inr ⟨rfl,same ▸ none,rfl,rfl⟩) rfl

theorem effect_fire : Effect s (.fire timer) (s.fire timer) := by
  unfold Stream.fire
  split
  · exact .quiet rfl rfl rfl nofun
  next r due => exact .fire timer r due rfl rfl rfl rfl

theorem effect_step (s : Stream) (c : Call) : Effect s c (step maxChars s c) := by
  cases c with
  | begin => exact effect_begin
  | publish r delta => exact effect_publish maxChars delta
  | publishBlockStart => exact effect_publishBlockStart maxChars
  | noteToolCall => exact effect_noteToolCall
  | markSurfacePosted => exact effect_markSurfacePosted
  | markReplyDone => exact effect_markReplyDone
  | endRun => exact effect_endRun
  | fire => exact effect_fire
  | subscribe =>
    simp only [step,Call.exec,Stream.subscribe]
    split <;> exact .quiet rfl rfl rfl nofun
  | unsubscribe =>
    simp only [step,Call.exec,Stream.unsubscribe]
    split <;> exact .quiet rfl rfl rfl nofun

theorem ensure_timer (s : Stream) (r : String) : (s.ensure r).timer = (s.runs r).bind Entry.timer := by
  unfold Stream.ensure
  cases s.runs r <;> rfl

theorem armed_step (h : Armed s) (effect : Effect s c s') : Armed s' := by
  have timed := ensure_timer s
  have lookup timer r : s.timers.lookup timer = some r ↔ (timer,r) ∈ s.timers := h.lookup
  obtain ⟨held,issued,alone⟩ := h
  cases effect with
  | quiet runs timers next =>
    rw [← runs] at held
    rw [← timers] at held issued alone
    rw [← next] at issued
    exact ⟨held,issued,alone⟩
  | touch r entry runs timers next kept =>
    have same := kept.timer
    simp only [Stream.put] at runs
    constructor <;> rw [timers] <;> grind
  | publish r entry runs timers next live text timer =>
    simp only [Stream.put] at runs
    cases pending : (s.ensure r).timer with
    | none =>
      simp only [pending,Stream.clearTimeout] at timers
      constructor <;> rw [timers] <;> grind
    | some due =>
      have mine : (due,r) ∈ s.timers := (held due r).mpr (by rw [← timed,pending])
      simp only [pending,Stream.clearTimeout] at timers
      constructor <;> rw [timers] <;> grind
  | finish r entry runs live timers =>
    simp only [Stream.put] at runs
    rcases timers with ⟨timers,same,next⟩ | ⟨timers,idle,new,next⟩
    · constructor <;> rw [timers] <;> grind
    · constructor <;> rw [timers] <;> grind
  | fire timer r due runs timers next =>
    have mine := (lookup timer r).mp due
    simp only [Stream.put] at runs
    simp only [Stream.clearTimeout] at timers
    constructor <;> rw [timers] <;> grind

theorem armed_run (calls : List Call) : Armed (reached maxChars calls) :=
  List.foldlRecOn calls (step maxChars) armed_start fun s h c _ => armed_step h (effect_step maxChars s c)

theorem alive_iff : s.alive runId ↔ ∃ entry, s.runs runId = some entry ∧ entry.live := by
  unfold Stream.alive
  cases s.runs runId <;> simp

theorem text_of_found (found : s.runs runId = some entry) : s.text runId = entry.text := by
  rw [Stream.text,found]
  rfl

def Grows (s s' : Stream) (runId : String) : Prop := s'.alive runId = true ∧ s.text runId <+: s'.text runId

theorem grows_of_same (same : s'.runs runId = s.runs runId) (alive : s.alive runId) : Grows s s' runId := by
  obtain ⟨entry,found,live⟩ := alive_iff.mp alive
  refine ⟨alive_iff.mpr ⟨entry,same.trans found,live⟩,?_⟩
  rw [text_of_found found,text_of_found (same.trans found)]

theorem grows_of_put (runs : s'.runs = (s.put r (some entry)).runs)
    (live : (s.ensure r).live = true → entry.live = true) (text : (s.ensure r).text <+: entry.text)
    (alive : s.alive runId) : Grows s s' runId := by
  by_cases here : r = runId
  · subst here
    obtain ⟨old,found,was⟩ := alive_iff.mp alive
    rw [ensure_of_found found] at live text
    have now : s'.runs r = some entry := by
      rw [runs]
      exact if_pos rfl
    refine ⟨alive_iff.mpr ⟨entry,now,live was⟩,?_⟩
    rw [text_of_found found,text_of_found now]
    exact text
  · refine grows_of_same ?_ alive
    rw [runs]
    exact if_neg (Ne.symm here)

theorem runs_other {x : Option Entry} (runs : s'.runs = (s.put r x).runs) (other : runId ≠ r) :
    s'.runs runId = s.runs runId := by
  rw [runs]
  exact if_neg other

theorem grows_step (effect : Effect s c s') (goes : c.ends runId = false)
    (spared : ∀ timer, c = .fire timer → s.timers.lookup timer ≠ some runId) (alive : s.alive runId) :
    Grows s s' runId := by
  cases effect with
  | quiet runs => exact grows_of_same (congrFun runs runId) alive
  | touch r entry runs _ _ kept => exact grows_of_put runs kept.live kept.text alive
  | publish r entry runs _ _ live text => exact grows_of_put runs (fun _ => live) text alive
  | finish r entry runs _ _ ends =>
    subst ends
    exact grows_of_same (runs_other runs (Ne.symm (of_decide_eq_false goes))) alive
  | fire timer r due runs _ _ fires =>
    refine grows_of_same (runs_other runs ?_) alive
    rintro rfl
    exact spared timer fires due

theorem starts_alive (spoken : c = .publish runId [] → s.alive runId) (starts : c.starts runId) :
    (step maxChars s c).alive runId := by
  cases c with
  | begin =>
    obtain rfl := of_decide_eq_true starts
    simp only [step,Call.exec,Stream.begin]
    split <;> simp [Stream.alive,Stream.put]
  | publish =>
    obtain rfl := of_decide_eq_true starts
    simp only [step,Call.exec,Stream.publish]
    split
    next nothing => exact spoken (nothing ▸ rfl)
    next => simp [Stream.alive,Stream.put]
  | _ => cases starts

theorem resumed_step (h : Armed s) (effect : Effect s c s') (alive : s'.alive runId)
    (pending : (timer,runId) ∈ s'.timers) :
    (timer,runId) ∈ s.timers ∧ (c = .begin runId ∨ s.alive runId ∧ c.clears runId = false) := by
  have timed := ensure_timer s
  obtain ⟨now,found,live⟩ := alive_iff.mp alive
  rw [alive_iff]
  obtain ⟨held,issued,alone⟩ := h
  cases effect with
  | quiet runs timers next missing => grind
  | touch r entry runs timers next kept was calm =>
    rw [timers] at pending
    obtain ⟨old,before,-⟩ := Option.bind_eq_some_iff.mp ((held timer runId).mp pending)
    have same : runId = r → s.ensure r = old := fun here => ensure_of_found (here ▸ before)
    simp only [Stream.put] at runs
    grind
  | publish r entry runs timers next _ text timer only =>
    simp only [Stream.put] at runs
    cases was : (s.ensure r).timer <;> grind [Stream.clearTimeout]
  | finish r entry runs ended timers ends =>
    simp only [Stream.put] at runs
    grind [Call.clears]
  | fire due r due runs timers next fires =>
    simp only [Stream.put] at runs
    grind [Stream.clearTimeout,Call.clears]

theorem ends_of_clears (calm : c.clears runId = false) : c.ends runId = false := by
  cases c with
  | endRun => exact calm
  | _ => rfl

theorem pending_step (effect : Effect s c s') (calm : c.clears runId = false) (other : c ≠ .fire timer)
    (pending : (timer,runId) ∈ s.timers) (h : Armed s) : (timer,runId) ∈ s'.timers := by
  have timed := ensure_timer s
  obtain ⟨held,issued,alone⟩ := h
  cases effect with
  | quiet _ timers | touch _ _ _ timers => exact timers ▸ pending
  | publish r entry runs timers =>
    cases was : (s.ensure r).timer with
    | none => grind [Stream.clearTimeout]
    | some due =>
      have mine : (due,r) ∈ s.timers := (held due r).mpr (by rw [← timed,was])
      grind [Stream.clearTimeout]
  | finish r entry runs _ timers => grind
  | fire due r _ _ timers _ fires => grind [Stream.clearTimeout]

end Steps

variable {calls : List Call} {runId : String} {timer : Nat}

theorem resumed_before (alive : (reached maxChars calls).alive runId)
    (pending : (timer,runId) ∈ (reached maxChars calls).timers) :
    ∃ before between, calls = before ++ .begin runId :: between ∧
      (timer,runId) ∈ (reached maxChars before).timers ∧ ∀ d ∈ between, d.clears runId = false := by
  induction calls using List.reverseRecOn with
  | nil => cases pending
  | append_singleton calls c ih =>
    rw [reached_append] at alive pending
    obtain ⟨held,began | ⟨was,calm⟩⟩ :=
      resumed_step (armed_run maxChars calls) (effect_step maxChars _ c) alive pending
    · exact ⟨calls,[],by rw [began],held,nofun⟩
    · obtain ⟨before,between,rfl,started,still⟩ := ih was held
      exact ⟨before,between ++ [c],by simp,started,forall_snoc still calm⟩

theorem grows_run (spared : Spared maxChars calls) {before between later : List Call}
    (cut : calls = before ++ between ++ later) (goes : ∀ c ∈ between, c.ends runId = false)
    (alive : (reached maxChars before).alive runId) :
    Grows (reached maxChars before)
      (reached maxChars (before ++ between)) runId := by
  induction between using List.reverseRecOn generalizing later with
  | nil => exact grows_of_same (by simp) alive
  | append_singleton between c ih =>
    have earlier : ∀ d ∈ between, d.ends runId = false := fun d mem => goes d (List.mem_append_left _ mem)
    have cut' : calls = before ++ between ++ c :: later := by simp [cut]
    obtain ⟨now,text⟩ := ih cut' earlier
    have kept : ∀ timer, c = .fire timer →
        (reached maxChars (before ++ between)).timers.lookup timer ≠ some runId := by
      rintro timer rfl due
      obtain ⟨start,since,split,pending,calm⟩ := resumed_before maxChars now ((armed_run maxChars _).lookup.mp due)
      obtain ⟨d,mem,clears⟩ := spared.resumed runId timer start since later (by rw [← split,cut]; simp) pending
      rw [calm d mem] at clears
      cases clears
    obtain ⟨still,more⟩ := grows_step (effect_step maxChars _ c) (goes c (by simp)) kept now
    rw [← List.append_assoc,reached_append]
    exact ⟨still,text.trans more⟩

theorem fires_pending {s : Stream} (h : Armed s) (pending : (timer,runId) ∈ s.timers) {between : List Call}
    (calm : ∀ d ∈ between, d.clears runId = false) :
    ∃ early, early ++ [.fire timer] <+: between ++ [.fire timer] ∧
      (run (step maxChars) s (early ++ [.fire timer])).alive runId = false := by
  have now (s : Stream) (h : Armed s) (pending : (timer,runId) ∈ s.timers) :
      (step maxChars s (.fire timer)).alive runId = false := by
    simp [step,Call.exec,Stream.fire,h.lookup.mpr pending,Stream.alive,Stream.put]
  induction between generalizing s with
  | nil => exact ⟨[],List.prefix_rfl,now s h pending⟩
  | cons d between ih =>
    obtain ⟨here,calm⟩ := List.forall_mem_cons.mp calm
    by_cases first : d = .fire timer
    · exact ⟨[],by simp [first],now s h pending⟩
    · have effect := effect_step maxChars s d
      obtain ⟨early,inside,dropped⟩ := ih (armed_step h effect) (pending_step effect here first pending h) calm
      exact ⟨d :: early,List.cons_prefix_cons.mpr ⟨rfl,inside⟩,dropped⟩

theorem resumed_of_kept (kept : KeptUntilEnd maxChars calls) {before between later : List Call}
    (cut : calls = before ++ .begin runId :: between ++ .fire timer :: later)
    (pending : (timer,runId) ∈ (reached maxChars before).timers) : ∃ d ∈ between, d.clears runId = true := by
  by_contra none
  have calm : ∀ d ∈ between, d.clears runId = false := fun d mem =>
    Bool.eq_false_iff.mpr fun clears => none ⟨d,mem,clears⟩
  have armed := armed_run maxChars before
  have began := effect_step maxChars (reached maxChars before) (.begin runId)
  obtain ⟨early,⟨rest,inside⟩,dropped⟩ := fires_pending maxChars (armed_step armed began)
    (pending_step began rfl nofun pending armed) calm
  have goes : ∀ d ∈ early ++ [.fire timer], d.ends runId = false := by
    intro d mem
    have : d ∈ between ++ [.fire timer] := inside ▸ List.mem_append_left rest mem
    rcases List.mem_append.mp this with mem | mem
    · exact ends_of_clears (calm d mem)
    · rw [List.mem_singleton.mp mem]
      rfl
  have whole : calls = before ++ [.begin runId] ++ (early ++ [.fire timer]) ++ (rest ++ later) := by
    rw [cut,← List.append_assoc _ rest,List.append_assoc _ _ rest,inside]
    simp
  have still := (kept runId before (.begin runId) _ _ whole (by simp [Call.starts]) goes).1
  rw [reached_append,reached_append,run_cons,run_nil,dropped] at still
  cases still

theorem kept_until_end_iff (calls : List Call) : KeptUntilEnd maxChars calls ↔ Spared maxChars calls := by
  constructor
  · intro kept
    refine ⟨fun _ _ _ _ _ cut pending => resumed_of_kept maxChars kept cut pending,fun runId before later cut => ?_⟩
    have still := (kept runId before (.publish runId []) [] later (by simp [cut]) (by simp [Call.starts]) nofun).1
    simpa [reached_append,step,Call.exec,Stream.publish] using still
  · intro spared runId before c between later cut starts goes
    refine grows_run maxChars spared cut goes ?_
    rw [reached_append]
    refine starts_alive maxChars (fun silent => ?_) starts
    exact spared.spoken runId before (between ++ later) (by simp [cut,silent])

def endedTurn : List Call := [.begin "run-1",.publish "run-1" [72,105],.endRun "run-1",.fire 0]

theorem kept_until_end_ended : KeptUntilEnd 200000 endedTurn := by
  refine (kept_until_end_iff 200000 endedTurn).mpr ⟨fun runId timer before between later cut pending => ?_,?_⟩
  · cases before with
    | nil => cases pending
    | cons c before =>
      have again : .begin runId ∈ endedTurn.tail := by
        rw [cut]
        simp
      simp [endedTurn] at again
  · intro runId before later cut
    have silent : .publish runId [] ∈ endedTurn := by
      rw [cut]
      simp
    simp [endedTurn] at silent

def resumedTurn : List Call := [.begin "run-1",.publish "run-1" [72,105],.endRun "run-1",.begin "run-1",.fire 0]

theorem resumed_turn_is_dropped : (reached 200000 (resumedTurn.take 4)).alive "run-1" = true ∧
      (reached 200000 (resumedTurn.take 4)).snapshot "run-1" = some [72,105] ∧
      (reached 200000 resumedTurn).alive "run-1" = false ∧ (reached 200000 resumedTurn).snapshot "run-1" = none ∧
      ¬ KeptUntilEnd 200000 resumedTurn := by
  refine ⟨by decide,by decide,by decide,by decide,fun kept => ?_⟩
  have still := (kept "run-1" (resumedTurn.take 3) (.begin "run-1") [.fire 0] [] rfl rfl (by decide)).1
  exact absurd still (by decide)

end TurnStream

end CompanyBrain.Runs
