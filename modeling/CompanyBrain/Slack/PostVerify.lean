import CompanyBrain.Foundations.History
import CompanyBrain.Foundations.JsText
import Mathlib.Algebra.Order.Ring.Rat

namespace CompanyBrain.Slack

open Foundations

structure Message where
  ts : ℚ
  idempotencyKey : Option String

structure HistoryMessage where
  ts : Option ℚ
  eventType : Option String
  idempotencyKey : Option String

structure HistoryPage where
  messages : List HistoryMessage
  nextCursor : Option String

def HistoryMessage.isDelivery (key : String) (m : HistoryMessage) : Bool :=
  m.eventType = some "qm_delivery" && m.idempotencyKey = some key

def hasNext (page : HistoryPage) : Bool := page.nextCursor.any fun cursor => trim cursor.toList ≠ []

inductive Search where
  | found (ts : ℚ)
  | absent | failed | pending

-- The answers to the requests for pages in order; none is a request that rejects.
def findPostedByKey (key : String) : List (Option HistoryPage) → Search
  | [] => .pending
  | none :: _ => .failed
  | some page :: rest =>
    match (page.messages.find? (HistoryMessage.isDelivery key)).bind HistoryMessage.ts with
    | some ts => .found ts
    | none => if hasNext page then findPostedByKey key rest else .absent

abbrev History := ℚ → List Message → List (Option HistoryPage)

inductive PostAnswer where
  | posted (ts : ℚ)
  | platformError | rateLimited
  | otherError (reached : Option ℚ) (history : History)

structure PostCall where
  attempts : Nat
  verifyFirst : Bool
  verifyOldest : ℚ
  firstHistory : History
  answers : List PostAnswer

inductive Outcome where
  | sent (ts : ℚ)
  | threw | pending

def posting (key : String) (oldest : ℚ) : Nat → List PostAnswer → List Message → List Message × Outcome
  | 0, _, channel => (channel,.threw)
  | _+1, [], channel => (channel,.pending)
  | attempts+1, answer :: answers, channel =>
    match answer with
    | .posted ts => (channel ++ [⟨ts,some key⟩],.sent ts)
    | .platformError => (channel,.threw)
    | .rateLimited => posting key oldest attempts answers channel
    | .otherError reached history =>
      let channel := channel ++ reached.toList.map fun ts => ⟨ts,some key⟩
      match findPostedByKey key (history oldest channel) with
      | .found ts => (channel,.sent ts)
      | .failed => (channel,.threw)
      | .pending => (channel,.pending)
      | .absent => posting key oldest attempts answers channel

def postWithVerify (key : String) (call : PostCall) (channel : List Message) : List Message × Outcome :=
  if call.verifyFirst then
    match findPostedByKey key (call.firstHistory call.verifyOldest channel) with
    | .found ts => (channel,.sent ts)
    | .failed => (channel,.threw)
    | .pending => (channel,.pending)
    | .absent => posting key call.verifyOldest call.attempts call.answers channel
  else posting key call.verifyOldest call.attempts call.answers channel

def PostAnswer.times : PostAnswer → List ℚ
  | .posted ts => [ts]
  | .otherError reached _ => reached.toList
  | _ => []

def PostAnswer.history? : PostAnswer → Option History
  | .otherError _ history => some history
  | _ => none

def complete : List (Option HistoryPage) → Bool
  | some page :: rest => !hasNext page || complete rest
  | _ => false

def shown : List (Option HistoryPage) → List HistoryMessage
  | some page :: rest => page.messages ++ if hasNext page then shown rest else []
  | _ => []

structure Shows (key : String) (history : History) : Prop where
  dated : ∀ oldest channel, ∀ m ∈ shown (history oldest channel), m.isDelivery key → m.ts ≠ none
  lists : ∀ oldest channel, complete (history oldest channel) → ∀ m ∈ channel, m.idempotencyKey = some key →
    oldest ≤ m.ts → ∃ m ∈ shown (history oldest channel), m.isDelivery key

structure PostCall.Shown (key : String) (start : ℚ) (call : PostCall) : Prop where
  since : call.verifyOldest ≤ start
  first : Shows key call.firstHistory
  histories : ∀ answer ∈ call.answers, ∀ history ∈ answer.history?, Shows key history
  times : ∀ answer ∈ call.answers, ∀ ts ∈ answer.times, start ≤ ts

def keyed (key : String) (channel : List Message) : List Message :=
  channel.filter fun m => m.idempotencyKey = some key

structure Single (key : String) (start : ℚ) (channel : List Message) : Prop where
  once : (keyed key channel).length ≤ 1
  recent : ∀ m ∈ keyed key channel, start ≤ m.ts

section

variable {key : String} {start oldest : ℚ} {channel : List Message}

theorem absent_shown {pages : List (Option HistoryPage)} (dated : ∀ m ∈ shown pages, m.isDelivery key → m.ts ≠ none)
    (absent : findPostedByKey key pages = .absent) : complete pages ∧ ∀ m ∈ shown pages, ¬ m.isDelivery key := by
  induction pages with
  | nil => cases absent
  | cons page =>
    cases page with
    | none => cases absent
    | some page =>
      simp only [findPostedByKey] at absent
      have first : ∀ m ∈ page.messages, ¬ m.isDelivery key := by
        cases hit : page.messages.find? (HistoryMessage.isDelivery key) with
        | none => exact List.find?_eq_none.mp hit
        | some m =>
          have has := dated m (by simp [shown,List.mem_of_find?_eq_some hit]) (List.find?_some hit)
          obtain ⟨ts,is⟩ := Option.ne_none_iff_exists'.mp has
          simp [hit,is] at absent
      grind [shown,complete]

theorem keyed_of_absent {history : History} (shows : Shows key history) (since : oldest ≤ start)
    (recent : ∀ m ∈ keyed key channel, start ≤ m.ts) (absent : findPostedByKey key (history oldest channel) = .absent) :
    keyed key channel = [] := by
  obtain ⟨ended,clear⟩ := absent_shown (shows.dated oldest channel) absent
  refine List.eq_nil_iff_forall_not_mem.mpr fun m mem => ?_
  obtain ⟨here,own⟩ := List.mem_filter.mp mem
  obtain ⟨m',listed,delivery⟩ := shows.lists oldest channel ended m here (by simpa using own)
    (le_trans since (recent m mem))
  exact clear m' listed delivery

theorem single_of_none (unsent : keyed key channel = []) (reached : Option ℚ) (late : ∀ ts ∈ reached, start ≤ ts) :
    Single key start (channel ++ reached.toList.map fun ts => ⟨ts,some key⟩) := by
  cases reached with
  | none => exact ⟨by simp [unsent],by simp [unsent]⟩
  | some ts =>
    have one : keyed key (channel ++ [⟨ts,some key⟩]) = [⟨ts,some key⟩] := by
      rw [keyed,List.filter_append,← keyed,unsent]
      simp
    exact ⟨by simp [one],by simpa [one] using late⟩

theorem single_posting {attempts : Nat} {answers : List PostAnswer} (since : oldest ≤ start)
    (histories : ∀ answer ∈ answers, ∀ history ∈ answer.history?, Shows key history)
    (times : ∀ answer ∈ answers, ∀ ts ∈ answer.times, start ≤ ts) (unsent : keyed key channel = []) :
    Single key start (posting key oldest attempts answers channel).1 := by
  have same : Single key start channel := by simpa using single_of_none unsent none (by simp)
  induction attempts generalizing answers channel with
  | zero => exact same
  | succ _ ih =>
    cases answers with
    | nil => exact same
    | cons answer answers =>
      have later (channel : List Message) (unsent : keyed key channel = []) :=
        @ih channel answers (fun a mem => histories a (.tail _ mem))
          (fun a mem => times a (.tail _ mem)) unsent (by simpa using single_of_none unsent none (by simp))
      cases answer with
      | posted ts => exact single_of_none unsent (some ts) (by simpa [PostAnswer.times] using times _ (.head _) ts)
      | platformError => exact same
      | rateLimited => exact later channel unsent
      | otherError reached history =>
        have arrived := single_of_none unsent reached fun ts mem =>
          times _ (.head _) ts (by simpa [PostAnswer.times] using mem)
        simp only [posting]
        split
        · exact arrived
        · exact arrived
        · exact arrived
        next absent =>
          exact later _ (keyed_of_absent (histories _ (.head _) history rfl) since arrived.recent absent)

theorem single_postWithVerify {call : PostCall} (sees : call.Shown key start) (single : Single key start channel)
    (ready : call.verifyFirst ∨ keyed key channel = []) : Single key start (postWithVerify key call channel).1 := by
  unfold postWithVerify
  split
  · split
    · exact single
    · exact single
    · exact single
    next absent =>
      exact single_posting sees.since sees.histories sees.times
        (keyed_of_absent sees.first sees.since single.recent absent)
  next no => exact single_posting sees.since sees.histories sees.times (ready.resolve_left no)

theorem single_run {calls : List PostCall} (sees : ∀ call ∈ calls, call.Shown key start)
    (verified : ∀ call ∈ calls, call.verifyFirst) (single : Single key start channel) :
    Single key start (run (fun channel call => (postWithVerify key call channel).1) channel calls) := by
  induction calls generalizing channel with
  | nil => exact single
  | cons call _ ih =>
    refine ih (fun c mem => sees c (.tail _ mem)) (fun c mem => verified c (.tail _ mem)) ?_
    exact single_postWithVerify (sees call (.head _)) single (.inl (verified call (.head _)))

end

theorem posted_at_most_once (key : String) (start : ℚ) (channel : List Message) (fresh : keyed key channel = [])
    (first : PostCall) (repeated : List PostCall) (sees : ∀ call ∈ first :: repeated, call.Shown key start)
    (verified : ∀ call ∈ repeated, call.verifyFirst) :
    (keyed key (run (fun channel call => (postWithVerify key call channel).1) channel
      (first :: repeated))).length ≤ 1 := by
  have single : Single key start channel := by simpa using single_of_none fresh none (by simp)
  have once := single_postWithVerify (sees first (.head _)) single (.inr fresh)
  exact (single_run (fun call mem => sees call (.tail _ mem)) verified once).once

def wholeHistory : History := fun _ channel =>
  [some ⟨channel.map fun m => ⟨some m.ts,some "qm_delivery",m.idempotencyKey⟩,none⟩]

def brokenHistory : History := fun _ _ => [none]

theorem shows_wholeHistory (key : String) : Shows key wholeHistory := by
  refine ⟨fun _ channel m mem _ => ?_,fun _ channel _ m here own _ => ?_⟩
  · obtain ⟨m,_,rfl⟩ := List.mem_map.mp (by simpa [wholeHistory,shown] using mem)
    simp
  · exact ⟨⟨some m.ts,some "qm_delivery",m.idempotencyKey⟩,by simpa [wholeHistory,shown] using ⟨m,here,rfl,rfl⟩,
      by simp [HistoryMessage.isDelivery,own]⟩

theorem shows_brokenHistory (key : String) : Shows key brokenHistory :=
  ⟨fun _ _ _ mem => by simp [brokenHistory,shown] at mem,fun _ _ ended => by simp [brokenHistory,complete] at ended⟩

def lostPost : PostCall := ⟨3,false,5,wholeHistory,[.rateLimited,.otherError (some 7) brokenHistory]⟩

def secondPost : PostCall := ⟨3,true,5,wholeHistory,[.posted 9]⟩

theorem posted_at_most_once_lost_answer :
    (keyed "k" (run (fun channel call => (postWithVerify "k" call channel).1) []
      [lostPost,secondPost])).length ≤ 1 := by
  refine posted_at_most_once "k" 5 [] rfl lostPost [secondPost] ?_ (by simp [secondPost])
  simp only [List.mem_cons,List.not_mem_nil,or_false,forall_eq_or_imp,forall_eq]
  refine ⟨⟨by simp [lostPost],shows_wholeHistory _,?_,?_⟩,⟨by simp [secondPost],shows_wholeHistory _,?_,?_⟩⟩
  all_goals simp [lostPost,secondPost,PostAnswer.history?,shows_brokenHistory]
  all_goals decide

end CompanyBrain.Slack
