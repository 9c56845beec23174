import CompanyBrain.Foundations.History
import CompanyBrain.Foundations.JsText
import Mathlib.Data.List.Infix

namespace CompanyBrain.Runs.SignalPoll

open Foundations

inductive RunSignalKind where
  | abort | steer | followUp | unknown
deriving DecidableEq

structure RunSignal where
  kind : RunSignalKind
  text : Option String
  ts : Option String
deriving DecidableEq

inductive HandlerCall where
  | onSteer (text : String) (ts : Option String)
  | onAbort
deriving DecidableEq

def RunSignal.handler (s : RunSignal) : Option HandlerCall :=
  match s.kind with
  | .abort => some .onAbort
  | .steer | .followUp => (truthy s.text).map (.onSteer · s.ts)
  | .unknown => none

inductive Body where
  | idle
  | taken (rest : List RunSignal)
  | handling (rest : List RunSignal)
  | settling (rejected : Bool)

def Body.rest : Body → List RunSignal
  | taken rest => rest
  | handling rest => rest
  | _ => []

inductive Stopping where
  | running
  | awaiting (promise : Nat)
  | resolved
  | rejected
deriving DecidableEq

structure Poll where
  pending : String → List RunSignal
  listening : Bool
  ticking : Bool
  draining : Bool
  redrain : Bool
  accepting : Bool
  inFlight : Nat
  failed : List Nat
  body : Body
  stopping : Stopping
  sent : List RunSignal
  taken : List RunSignal
  calls : List HandlerCall

variable (runId : String) (drainOnStop : Bool)

def startSignalPoll (pending : String → List RunSignal) : Poll :=
  {pending, listening := true, ticking := true, draining := false, redrain := false, accepting := true, inFlight := 0,
    failed := [], body := .idle, stopping := .running, sent := pending runId, taken := [], calls := []}

namespace Poll

def takePending (p : Poll) : List RunSignal × Poll :=
  (p.pending runId,
    {p with pending := fun r => if r = runId then [] else p.pending r, taken := p.taken ++ p.pending runId})

def drain (forced : Bool) (p : Poll) : Poll :=
  if !p.accepting && !forced then p
  else if p.draining then {p with redrain := true}
  else
    let (list,p) := p.takePending runId
    {p with draining := true, inFlight := p.inFlight+1, body := .taken list}

def send (p : Poll) (target : String) (signal : RunSignal) : Poll :=
  let p := {p with pending := fun r => if r = target then p.pending r ++ [signal] else p.pending r,
                    sent := if target = runId then p.sent ++ [signal] else p.sent}
  if target = runId && p.listening then p.drain runId false else p

def deliver (p : Poll) : List RunSignal → Poll
  | [] => {p with body := .settling false}
  | s :: rest =>
    match s.handler with
    | none => p.deliver rest
    | some call => {p with calls := p.calls ++ [call], body := .handling rest}

def resume (p : Poll) : Poll :=
  match p.body with
  | .taken rest => p.deliver rest
  | .handling rest => p.deliver rest
  | _ => p

def throw (p : Poll) (onErrorThrows : Bool) : Poll :=
  match p.body with
  | .handling _ => {p with body := .settling onErrorThrows}
  | _ => p

def settle (p : Poll) : Poll :=
  match p.body with
  | .settling rejected =>
    let p := {p with draining := false, body := .idle, failed := if rejected then p.inFlight :: p.failed else p.failed}
    if p.redrain then {p with redrain := false}.drain runId false else p
  | _ => p

def stop (p : Poll) : Poll :=
  let p := {p with accepting := false, ticking := false, listening := false}
  let p := if drainOnStop then p.drain runId true else p
  {p with stopping := .awaiting p.inFlight}

def settled (p : Poll) (promise : Nat) : Bool := promise < p.inFlight || !p.draining

def wake (p : Poll) : Poll :=
  match p.stopping with
  | .awaiting current =>
    if !p.settled current then p
    else if current ∈ p.failed then {p with stopping := .rejected}
    else if !p.draining && p.inFlight = current then {p with stopping := .resolved}
    else {p with stopping := .awaiting p.inFlight}
  | _ => p

end Poll

inductive Event where
  | send (target : String) (signal : RunSignal)
  | tick
  | resume
  | throw (onErrorThrows : Bool)
  | settle
  | stop
  | wake
deriving DecidableEq

def step (p : Poll) : Event → Poll
  | .send target signal => p.send runId target signal
  | .tick => if p.ticking then p.drain runId false else p
  | .resume => p.resume
  | .throw onErrorThrows => p.throw onErrorThrows
  | .settle => p.settle runId
  | .stop => p.stop runId drainOnStop
  | .wake => p.wake

def Event.throws : Event → Bool
  | throw _ => true
  | _ => false

def callsFor (signals : List RunSignal) : List HandlerCall := signals.filterMap RunSignal.handler

theorem callsFor_append (a b : List RunSignal) : callsFor (a ++ b) = callsFor a ++ callsFor b :=
  List.filterMap_append

def Poll.owed (p : Poll) : List HandlerCall := p.calls ++ callsFor p.body.rest

structure Sound (p : Poll) : Prop where
  sent : p.sent = p.taken ++ p.pending runId
  idle : p.draining = false ↔ p.body = .idle

structure Accounts (p p' : Poll) (exact : Bool) : Prop where
  sound : Sound runId p'
  taken : ∃ more, p'.taken = p.taken ++ more ∧ (p'.owed.Sublist (p.owed ++ callsFor more)) ∧
    (exact = true → p'.owed = p.owed ++ callsFor more)

variable {runId drainOnStop}

variable {exact : Bool} {p : Poll}

theorem accounts_of_owed {p' : Poll} (sound : Sound runId p') (taken : p'.taken = p.taken) (owed : p'.owed = p.owed) :
    Accounts runId p p' exact := by
  refine ⟨sound,[],by simp [taken],?_,fun _ => ?_⟩ <;> simp [owed,callsFor]

section

variable (sound : Sound runId p)
include sound

theorem accounts_of_same {p' : Poll} (sent : p'.sent = p.sent) (taken : p'.taken = p.taken)
    (pending : p'.pending = p.pending) (draining : p'.draining = p.draining) (body : p'.body = p.body)
    (calls : p'.calls = p.calls) : Accounts runId p p' exact := by
  refine accounts_of_owed ⟨?_,?_⟩ taken ?_
  · rw [sent,taken,pending]
    exact sound.sent
  · rw [draining,body]
    exact sound.idle
  · rw [Poll.owed,Poll.owed,body,calls]

theorem drain_accounts (forced exact : Bool) :
    Accounts runId p (p.drain runId forced) exact := by
  unfold Poll.drain
  split
  · exact accounts_of_same sound rfl rfl rfl rfl rfl rfl
  · split
    · exact accounts_of_same sound rfl rfl rfl rfl rfl rfl
    next still =>
      have idle := sound.idle.mp (Bool.eq_false_iff.mpr still)
      have nothing : p.owed = p.calls := by simp [Poll.owed,idle,Body.rest,callsFor]
      refine ⟨⟨?_,?_⟩,p.pending runId,rfl,?_,fun _ => ?_⟩
      · simp [Poll.takePending,sound.sent]
      · simp
      · rw [nothing]
        exact List.Sublist.refl _
      · rw [nothing]
        rfl

theorem deliver_accounts {rest : List RunSignal} (busy : p.draining)
    (owed : p.owed = p.calls ++ callsFor rest) (exact : Bool) : Accounts runId p (p.deliver rest) exact := by
  induction rest with
  | nil =>
    refine accounts_of_owed ⟨sound.sent,?_⟩ rfl ?_
    · simp [Poll.deliver,busy]
    · simp [Poll.deliver,Poll.owed,Body.rest] at owed ⊢
      rw [owed]
  | cons s rest ih =>
    cases handler : s.handler with
    | none =>
      rw [Poll.deliver,handler]
      refine ih ?_
      simpa [callsFor,handler] using owed
    | some =>
      rw [Poll.deliver,handler]
      refine accounts_of_owed ⟨sound.sent,by simp [busy]⟩ rfl ?_
      rw [owed]
      simp [Poll.owed,Body.rest,callsFor,handler]

theorem Sound.busy (body : p.body ≠ .idle) : p.draining :=
  Bool.not_eq_false _ ▸ fun still => body (sound.idle.mp still)

theorem resume_accounts (exact : Bool) : Accounts runId p p.resume exact := by
  unfold Poll.resume
  cases body : p.body with
  | idle | settling => exact accounts_of_same sound rfl rfl rfl rfl rfl rfl
  | taken rest | handling rest =>
    exact deliver_accounts sound (sound.busy (by simp [body])) (by simp [Poll.owed,body,Body.rest]) exact

theorem throw_accounts (onErrorThrows : Bool) :
    Accounts runId p (p.throw onErrorThrows) false := by
  unfold Poll.throw
  cases body : p.body with
  | handling rest =>
    refine ⟨⟨sound.sent,?_⟩,[],(List.append_nil _).symm,?_,fun h => Bool.noConfusion h⟩
    · simp [sound.busy (by simp [body])]
    · simp [Poll.owed,Body.rest]
  | idle | taken | settling => exact accounts_of_same sound rfl rfl rfl rfl rfl rfl

end

theorem Accounts.trans {q r : Poll} {exact' : Bool} (first : Accounts runId p q exact)
    (second : Accounts runId q r exact') : Accounts runId p r (exact && exact') := by
  obtain ⟨-,more,taken,owed,same⟩ := first
  obtain ⟨sound,more',taken',owed',same'⟩ := second
  refine ⟨sound,more ++ more',?_,?_,fun both => ?_⟩
  · rw [taken',taken,List.append_assoc]
  · rw [callsFor_append,← List.append_assoc]
    exact owed'.trans (owed.append_right _)
  · obtain ⟨h,h'⟩ := Bool.and_eq_true_iff.mp both
    rw [same' h',same h,callsFor_append,List.append_assoc]

section

variable (sound : Sound runId p)
include sound

theorem send_accounts (target : String) (signal : RunSignal) :
    Accounts runId p (p.send runId target signal) true := by
  have pushed : Accounts runId p
      {p with pending := fun r => if r = target then p.pending r ++ [signal] else p.pending r,
               sent := if target = runId then p.sent ++ [signal] else p.sent} true := by
    refine accounts_of_owed ⟨?_,sound.idle⟩ rfl rfl
    by_cases here : target = runId
    · simp [here,sound.sent]
    · simp [here,Ne.symm here,sound.sent]
  simp only [Poll.send]
  split
  · exact pushed.trans (drain_accounts pushed.sound false true)
  · exact pushed

theorem settle_accounts : Accounts runId p (p.settle runId) true := by
  unfold Poll.settle
  cases body : p.body with
  | settling rejected =>
    have settled {redrain : Bool} : Accounts runId p
        {p with draining := false, body := .idle, redrain := redrain,
                 failed := if rejected then p.inFlight :: p.failed else p.failed} true := by
      refine accounts_of_owed ⟨sound.sent,by simp⟩ rfl ?_
      simp [Poll.owed,body,Body.rest]
    dsimp only
    split
    · exact settled.trans (drain_accounts settled.sound false true)
    · exact settled
  | idle | taken | handling => exact accounts_of_same sound rfl rfl rfl rfl rfl rfl

theorem stop_accounts : Accounts runId p (p.stop runId drainOnStop) true := by
  have closed : Accounts runId p {p with accepting := false, ticking := false, listening := false} true :=
    accounts_of_same sound rfl rfl rfl rfl rfl rfl
  cases drainOnStop with
  | false => exact closed.trans (accounts_of_same closed.sound rfl rfl rfl rfl rfl rfl)
  | true =>
    have drained := closed.trans (drain_accounts closed.sound true true)
    exact drained.trans (accounts_of_same drained.sound rfl rfl rfl rfl rfl rfl)

theorem wake_accounts : Accounts runId p p.wake true := by
  unfold Poll.wake
  repeat' split
  all_goals exact accounts_of_same sound rfl rfl rfl rfl rfl rfl

end

variable (runId drainOnStop)

theorem step_accounts (sound : Sound runId p) (e : Event) :
    Accounts runId p (step runId drainOnStop p e) (!e.throws) := by
  cases e with
  | send => exact send_accounts sound ..
  | tick =>
    simp only [step]
    split
    · exact drain_accounts sound false true
    · exact accounts_of_same sound rfl rfl rfl rfl rfl rfl
  | resume => exact resume_accounts sound true
  | throw onErrorThrows => exact throw_accounts sound onErrorThrows
  | settle => exact settle_accounts sound
  | stop => exact stop_accounts sound
  | wake => exact wake_accounts sound

theorem run_accounts (sound : Sound runId p) (events : List Event) :
    Accounts runId p (run (step runId drainOnStop) p events) (events.all (!·.throws)) := by
  induction events generalizing p with
  | nil => exact accounts_of_same sound rfl rfl rfl rfl rfl rfl
  | cons e _ ih =>
    have first := step_accounts runId drainOnStop sound e
    exact first.trans (ih first.sound)

theorem start_sound (pending : String → List RunSignal) : Sound runId (startSignalPoll runId pending) :=
  ⟨rfl,by simp [startSignalPoll]⟩

theorem calls_sublist (pending : String → List RunSignal) (events : List Event) :
    (run (step runId drainOnStop) (startSignalPoll runId pending) events).calls.Sublist
      (callsFor (run (step runId drainOnStop) (startSignalPoll runId pending) events).sent) := by
  obtain ⟨sound,more,taken,owed,-⟩ := run_accounts runId drainOnStop (start_sound runId pending) events
  generalize run (step runId drainOnStop) (startSignalPoll runId pending) events = p at sound taken owed ⊢
  have all : p.owed.Sublist (callsFor p.taken) := by
    rw [taken]
    exact owed
  rw [sound.sent,callsFor_append]
  exact ((List.sublist_append_left _ _).trans all).trans (List.sublist_append_left _ _)

theorem lossless_run (events : List Event) (sound : Sound runId p) (lossless : p.owed = callsFor p.taken)
    (calm : ∀ e ∈ events, e.throws = false) :
    (run (step runId drainOnStop) p events).owed = callsFor (run (step runId drainOnStop) p events).taken := by
  obtain ⟨-,more,taken,-,same⟩ := run_accounts runId drainOnStop sound events
  have all : events.all (!·.throws) = true := by simpa using calm
  rw [same all,taken,callsFor_append,lossless]

structure Closed (p : Poll) : Prop where
  accepting : p.accepting = false
  resolved : p.stopping = .resolved → p.draining = false

theorem drain_refused (closed : p.accepting = false) : p.drain runId false = p := by
  simp [Poll.drain,closed]

theorem drain_closed {q : Poll} (closed : Closed q) (taken : q.taken = p.taken) :
    (q.drain runId false).taken = p.taken ∧ Closed (q.drain runId false) := by
  rw [drain_refused runId closed.accepting]
  exact ⟨taken,closed⟩

theorem deliver_frame (p : Poll) (rest : List RunSignal) :
    (p.deliver rest).accepting = p.accepting ∧ (p.deliver rest).stopping = p.stopping ∧
      (p.deliver rest).draining = p.draining ∧ (p.deliver rest).taken = p.taken := by
  induction rest with
  | nil => exact ⟨rfl,rfl,rfl,rfl⟩
  | cons s _ ih =>
    rw [Poll.deliver]
    cases s.handler with
    | none => exact ih
    | some => exact ⟨rfl,rfl,rfl,rfl⟩

theorem deliver_closed (closed : Closed p) (rest : List RunSignal) :
    (p.deliver rest).taken = p.taken ∧ Closed (p.deliver rest) := by
  obtain ⟨accepting,stopping,draining,taken⟩ := deliver_frame p rest
  refine ⟨taken,accepting.trans closed.accepting,fun resolved => ?_⟩
  exact draining.trans (closed.resolved (stopping.symm.trans resolved))

theorem closed_step {e : Event} (closed : Closed p) (once : e ≠ .stop) :
    (step runId drainOnStop p e).taken = p.taken ∧ Closed (step runId drainOnStop p e) := by
  cases e with
  | send =>
    simp only [step,Poll.send]
    split
    · exact drain_closed runId ⟨closed.accepting,closed.resolved⟩ rfl
    · exact ⟨rfl,closed.accepting,closed.resolved⟩
  | tick =>
    simp only [step]
    rw [drain_refused runId closed.accepting,ite_self]
    exact ⟨rfl,closed⟩
  | resume =>
    simp only [step,Poll.resume]
    split
    · exact deliver_closed closed _
    · exact deliver_closed closed _
    · exact ⟨rfl,closed⟩
  | throw =>
    simp only [step,Poll.throw]
    split
    · exact ⟨rfl,closed.accepting,closed.resolved⟩
    · exact ⟨rfl,closed⟩
  | settle =>
    simp only [step,Poll.settle]
    split
    · split
      · exact drain_closed runId ⟨closed.accepting,fun _ => rfl⟩ rfl
      · exact ⟨rfl,closed.accepting,fun _ => rfl⟩
    · exact ⟨rfl,closed⟩
  | stop => exact absurd rfl once
  | wake =>
    simp only [step,Poll.wake]
    split
    · split
      · exact ⟨rfl,closed⟩
      · split
        · exact ⟨rfl,closed.accepting,fun h => Stopping.noConfusion h⟩
        · split
          next done => exact ⟨rfl,closed.accepting,fun _ => by simpa using (Bool.and_eq_true_iff.mp done).1⟩
          next => exact ⟨rfl,closed.accepting,fun h => Stopping.noConfusion h⟩
    · exact ⟨rfl,closed⟩

theorem closed_run {events : List Event} (closed : Closed p) (once : Event.stop ∉ events) :
    (run (step runId drainOnStop) p events).taken = p.taken ∧ Closed (run (step runId drainOnStop) p events) := by
  induction events generalizing p with
  | nil => exact ⟨rfl,closed⟩
  | cons _ _ ih =>
    rw [List.mem_cons,not_or] at once
    obtain ⟨taken,closed'⟩ := closed_step runId drainOnStop closed (Ne.symm once.1)
    obtain ⟨taken',closed''⟩ := ih closed' once.2
    exact ⟨taken'.trans taken,closed''⟩

def Delivered (sent : List RunSignal) (p : Poll) : Prop := sent <+: p.taken ∧ callsFor sent <+: p.calls

theorem stop_taken (p : Poll) :
    (p.stop runId true).taken = p.taken ++ (if p.draining then [] else p.pending runId) ∧
      Closed (p.stop runId true) := by
  unfold Poll.stop Poll.drain
  cases p.draining with
  | true => exact ⟨(List.append_nil _).symm,rfl,fun h => Stopping.noConfusion h⟩
  | false => exact ⟨rfl,rfl,fun h => Stopping.noConfusion h⟩

theorem delivered_iff {sent pending : List RunSignal} {held : Bool} (calls : p.calls = callsFor p.taken)
    (cut : sent = p.taken ++ pending ∧ held ∨ p.taken = sent ∧ held = false) :
    Delivered sent p ↔ (held → pending = []) := by
  rcases cut with ⟨rfl,rfl⟩ | ⟨rfl,rfl⟩
  · constructor
    · rintro ⟨all,-⟩ -
      have short := all.length_le
      rw [List.length_append] at short
      exact List.eq_nil_of_length_eq_zero (by omega)
    · intro nothing
      rw [nothing rfl,Delivered,List.append_nil,calls]
      exact ⟨List.prefix_rfl,List.prefix_rfl⟩
  · refine ⟨fun _ held => Bool.noConfusion held,fun _ => ⟨List.prefix_rfl,?_⟩⟩
    rw [calls]

theorem stop_delivers_iff (pending : String → List RunSignal) : (∀ drainOnStop events,
      let p := run (step runId drainOnStop) (startSignalPoll runId pending) events
      p.calls.Sublist (callsFor p.sent)) ∧
    ∀ before later, Event.stop ∉ before → Event.stop ∉ later → (∀ e ∈ before ++ later, e.throws = false) →
      let stopped := run (step runId true) (startSignalPoll runId pending) before
      let p := run (step runId true) stopped (.stop :: later)
      p.stopping = .resolved →
        (Delivered stopped.sent p ↔ (stopped.draining = true → stopped.pending runId = [])) := by
  refine ⟨fun _ events => calls_sublist runId _ pending events,fun before later _ once calm resolved => ?_⟩
  have start := start_sound runId pending
  have sound := (run_accounts runId true start before).sound
  have lossless := lossless_run runId true before start rfl fun e he => calm e (List.mem_append_left later he)
  generalize run (step runId true) (startSignalPoll runId pending) before = stopped at sound lossless resolved ⊢
  have sound' := (run_accounts runId true sound (.stop :: later)).sound
  have lossless' := lossless_run runId true (.stop :: later) sound lossless fun e he => by
    rcases List.mem_cons.mp he with rfl | after
    · rfl
    · exact calm e (List.mem_append_right before after)
  obtain ⟨takes,closes⟩ := stop_taken runId stopped
  obtain ⟨taken,closed⟩ := closed_run runId true closes once
  have idle := sound'.idle.mp (closed.resolved resolved)
  have calls : (run (step runId true) stopped (.stop :: later)).calls =
      callsFor (run (step runId true) stopped (.stop :: later)).taken := by
    rw [← lossless',Poll.owed,idle]
    exact (List.append_nil _).symm
  refine delivered_iff calls ?_
  have whole : (run (step runId true) stopped (.stop :: later)).taken =
      stopped.taken ++ if stopped.draining then [] else stopped.pending runId := taken.trans takes
  rw [whole]
  cases stopped.draining with
  | true => exact .inl ⟨by simpa using sound.sent,rfl⟩
  | false => exact .inr ⟨sound.sent.symm,rfl⟩

def steer (text : String) : RunSignal := ⟨.steer,some text,none⟩

def noSignals : String → List RunSignal := fun _ => []

theorem stop_delivers_iff_nothing_pending : Delivered [steer "a"] (run (step "r" true) (startSignalPoll "r" noSignals)
      [.send "r" (steer "a"),.resume,.stop,.resume,.settle,.wake]) :=
  ((stop_delivers_iff "r" noSignals).2 [.send "r" (steer "a"),.resume] [.resume,.settle,.wake] (by decide) (by decide)
    (by decide) (by decide)).mpr fun _ => rfl

def lateSignal : List Event :=
  [.send "r" (steer "a"),.resume,.send "r" (steer "b"),.stop,.resume,.settle,.wake]

theorem late_signal_is_left_pending :
    (run (step "r" true) (startSignalPoll "r" noSignals) lateSignal).stopping = .resolved ∧
      (run (step "r" true) (startSignalPoll "r" noSignals) lateSignal).calls = [.onSteer "a" none] ∧
      (run (step "r" true) (startSignalPoll "r" noSignals) lateSignal).pending "r" = [steer "b"] := by
  decide

end CompanyBrain.Runs.SignalPoll
