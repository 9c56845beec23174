import CompanyBrain.Sessions.RoomView

namespace CompanyBrain.Sessions

open Foundations Room Table MemberEvent Function

def Window.span (w : Window) : MemberEvent.Span := ⟨w.validFromSeq,w.validToSeq⟩

def Room.view (r : Room) : RoomView where
  holding sessionId := (r.store.leases.find? sessionId).map HeldLease.token
  log := r.store.log
  spans window := (r.windows.find? window).map Window.span

structure Room.Sound (calls : List RoomCall) (r : Room) : Prop where
  opened : ∀ p ∈ r.store.entries, p.1 ∈ calls.flatMap RoomCall.opens
  closing : ∀ w ∈ r.windows, w.validTo.isSome = w.validToSeq.isSome

theorem visibleEntries_eq (r : Room) (sessionId principalId : String) :
    r.visibleEntries sessionId principalId = r.view.visible sessionId principalId := by
  simp only [visibleEntries,RoomView.visible,view]
  cases r.windows.find? (sessionId,principalId) with
  | none | some => rfl

def Refines (r r' : Room) (seen : List Seen) : Prop := RoomView.Steps r.view r'.view seen

abbrev RefinesBy (r : Room) (c : RoomCall) : Prop := Refines r (r.exec c).1 (r.exec c).2

variable {r : Room}

theorem view_hold {leases : Table HeldLease.sessionId} {sessionId : String} {token : Option String}
    (h : ∀ s, (leases.find? s).map HeldLease.token =
      if s = sessionId then token else (r.store.leases.find? s).map HeldLease.token) :
    view {r with store := {r.store with leases := leases}} = r.view.hold sessionId token := by
  refine RoomView.ext (funext fun s => ?_) rfl rfl
  change _ = update r.view.holding sessionId token s
  rw [update_apply]
  exact h s

theorem view_release (r : Room) (sessionId : String) :
    view {r with store := {r.store with leases := r.store.leases.erase sessionId}} =
      r.view.hold sessionId none := by
  refine view_hold fun s => ?_
  rw [find?_erase]
  split <;> rfl

theorem log_set (st : Store) (leases : Table HeldLease.sessionId) (sessionId : String)
    (log : List SessionEntry) (s : String) :
    Store.log {st with leases := leases, entries := st.entries.set (sessionId,log)} s =
      if s = sessionId then log else st.log s := by
  rw [Store.log,find?_set]
  split <;> rfl

theorem refines_open {req : OpenRequest} {uuid : String} {clock : Clock} (new : r.store.entries.find? uuid = none) :
    RefinesBy r (.openSession req uuid clock) := by
  refine ⟨?_,trivial⟩
  simp only [exec,Store.getOrCreateByThread]
  split
  · rfl
  · refine RoomView.ext rfl (funext fun s => ?_) rfl
    change Store.log {r.store with entries := r.store.entries.set (uuid,[])} s = r.store.log s
    rw [log_set]
    split
    next hs =>
      rw [hs,Store.log,new]
      rfl
    · rfl

theorem refines_acquire (r : Room) (sessionId : String) (holder : Option LeaseHolder) (uuid : String) (clock : Clock) :
    RefinesBy r (.acquireLease sessionId holder uuid clock) := by
  let fresh : HeldLease := ⟨sessionId,uuid,clock 1 + r.store.leaseTtlMs,clock 2,holder⟩
  have granted : Refines r {r with store := {r.store with leases := r.store.leases.set fresh}}
      [.granted ⟨sessionId,uuid⟩] := by
    refine ⟨?_,trivial,trivial⟩
    refine view_hold fun s => ?_
    rw [find?_set]
    split <;> rfl
  simp only [RefinesBy,exec,Store.acquireLease]
  split
  · split
    · exact ⟨rfl,trivial⟩
    · exact granted
  · exact granted

theorem refines_release (r : Room) (lease : Lease) : RefinesBy r (.releaseLease lease) := by
  refine ⟨?_,trivial,trivial⟩
  simp only [exec,Store.releaseLease,run_cons,run_nil,RoomView.after]
  cases hf : r.store.leases.find? lease.sessionId with
  | none =>
    have free : r.view.holding lease.sessionId ≠ some lease.token := by simp [view,hf]
    rw [if_neg free]
  | some held =>
    simp only
    by_cases ht : held.token = lease.token
    · have mine : r.view.holding lease.sessionId = some lease.token := by simp [view,hf,ht]
      rw [if_pos ht,if_pos mine]
      exact view_release r lease.sessionId
    · have other : r.view.holding lease.sessionId ≠ some lease.token := by simp [view,hf,ht]
      rw [if_neg ht,if_neg other]

theorem refines_force (r : Room) (sessionId : String) : RefinesBy r (.forceReleaseLease sessionId) :=
  ⟨view_release r sessionId,trivial,trivial⟩

theorem refines_append (r : Room) (lease : Lease) (entry : NewEntry) (clock : Clock) :
    RefinesBy r (.append lease entry clock) := by
  simp only [RefinesBy,exec,Store.append]
  cases hf : r.store.leases.find? lease.sessionId with
  | none => exact ⟨rfl,trivial⟩
  | some held =>
    have key := key_of_find? hf
    simp only
    by_cases ht : held.token ≠ lease.token
    · rw [if_pos ht]
      exact ⟨rfl,trivial⟩
    · rw [if_neg ht]
      rw [not_not] at ht
      let renewal : HeldLease := {held with expiresAt := clock 0 + r.store.leaseTtlMs}
      have renewed (s : String) : ((r.store.leases.set renewal).find? s).map HeldLease.token =
          (r.store.leases.find? s).map HeldLease.token := by
        rw [find?_set]
        split
        next hs =>
          have hs' : s = lease.sessionId := hs.trans key
          rw [hs',hf]
          rfl
        · rfl
      cases he : r.store.entries.find? lease.sessionId with
      | none => exact ⟨RoomView.ext (funext renewed) rfl rfl,trivial⟩
      | some p =>
        obtain ⟨id,log⟩ := p
        have hlog : r.store.log lease.sessionId = log := by simp [Store.log,he]
        refine ⟨?_,⟨by simp [view,hf,ht],rfl,?_,rfl⟩,trivial⟩
        · refine RoomView.ext (funext renewed) (funext fun s => ?_) rfl
          refine (log_set r.store _ lease.sessionId _ s).trans ?_
          rw [← hlog]
          exact (update_apply r.store.log lease.sessionId _ s).symm
        · exact congrArg List.length hlog.symm

theorem view_move {w : Window} {sessionId principalId : String} {e : MemberEvent SessionEntry}
    (hkey : w.key = (sessionId,principalId))
    (hspan : spanAfter (r.store.log sessionId).length ((r.windows.find? (sessionId,principalId)).map Window.span) e =
      some w.span) :
    view {r with windows := r.windows.set w} = r.view.move (sessionId,principalId) e := by
  refine RoomView.ext rfl rfl (funext fun s => ?_)
  change ((r.windows.set w).find? s).map Window.span = update r.view.spans _ _ s
  rw [find?_set,update_apply,hkey]
  split
  · exact hspan.symm
  · rfl

variable {calls : List RoomCall}

theorem refines_add (sound : r.Sound calls) (sessionId principalId : String) (title : Option String)
    (includeHistory : Bool) (clock : Clock) :
    Refines r (r.addParticipant sessionId principalId title includeHistory clock)
      [.joined sessionId principalId includeHistory] := by
  refine ⟨?_,trivial,trivial⟩
  simp only [addParticipant]
  cases hf : r.windows.find? (sessionId,principalId) with
  | none =>
    refine view_move rfl ?_
    rw [hf]
    rfl
  | some w =>
    obtain ⟨mem,key⟩ := find?_eq_some.mp hf
    have sync := sound.closing w mem
    simp only
    split
    next shut =>
      rw [shut] at sync
      obtain ⟨stop,hstop⟩ := Option.isSome_iff_exists.mp sync.symm
      refine view_move rfl ?_
      simp [hf,Window.span,hstop,spanAfter,openedWindow]
    next opened =>
      have hstop : w.validToSeq = none := by simpa [sync] using opened
      refine view_move key ?_
      simp [hf,Window.span,hstop,spanAfter,widenedWindow]

theorem refines_remove (sound : r.Sound calls) (sessionId principalId : String) (clock : Clock) :
    Refines r (r.removeParticipant sessionId principalId clock) [.left sessionId principalId] := by
  have still (h : spanAfter (r.store.log sessionId).length
      ((r.windows.find? (sessionId,principalId)).map Window.span)
      (.leave : MemberEvent SessionEntry) = (r.windows.find? (sessionId,principalId)).map Window.span) :
      r.view = r.view.move (sessionId,principalId) .leave := by
    simp only [RoomView.move,view,h,RoomView.mk.injEq,true_and]
    exact (update_eq_self (sessionId,principalId) _).symm
  refine ⟨?_,trivial,trivial⟩
  simp only [removeParticipant]
  cases hf : r.windows.find? (sessionId,principalId) with
  | none => exact still (by rw [hf]; rfl)
  | some w =>
    obtain ⟨mem,key⟩ := find?_eq_some.mp hf
    have sync := sound.closing w mem
    simp only
    split
    next shut =>
      rw [shut] at sync
      obtain ⟨stop,hstop⟩ := Option.isSome_iff_exists.mp sync.symm
      exact still (by simp [hf,Window.span,hstop,spanAfter])
    next opened =>
      have hstop : w.validToSeq = none := by simpa [sync] using opened
      refine view_move key ?_
      simp [hf,Window.span,hstop,spanAfter]

theorem Room.Sound.of_same {calls : List RoomCall} {c : RoomCall} {r r' : Room} (sound : r.Sound calls)
    (entries : ∀ p ∈ r'.store.entries, p.1 ∈ c.opens ∨ ∃ q ∈ r.store.entries, q.1 = p.1)
    (windows : ∀ w ∈ r'.windows, w ∈ r.windows ∨ w.validTo.isSome = w.validToSeq.isSome) : r'.Sound (calls ++ [c]) where
  opened p hp := by
    rw [List.flatMap_append,List.mem_append]
    rcases entries p hp with new | ⟨q,hq,hk⟩
    · exact .inr (by simpa using new)
    · exact .inl (hk ▸ sound.opened q hq)
  closing w hw := by
    rcases windows w hw with old | new
    · exact sound.closing w old
    · exact new

theorem closing_set {w : Window} (closing : w.validTo.isSome = w.validToSeq.isSome) :
    ∀ x ∈ r.windows.set w, x ∈ r.windows ∨ x.validTo.isSome = x.validToSeq.isSome :=
  forall_set (.inr closing) fun _ hx => .inl hx

theorem append_entries {st : Store} {lease : Lease} {entry : NewEntry} {clock : Clock} :
    ∀ p ∈ (st.append lease entry clock).1.entries, ∃ q ∈ st.entries, q.1 = p.1 := by
  intro p hp
  unfold Store.append at hp
  split at hp
  · exact ⟨p,hp,rfl⟩
  · split at hp
    · exact ⟨p,hp,rfl⟩
    · dsimp only at hp
      split at hp
      · exact ⟨p,hp,rfl⟩
      next found =>
        obtain ⟨mem,key⟩ := find?_eq_some.mp found
        rcases mem_set.mp hp with rfl | ⟨hp,_⟩
        · exact ⟨_,mem,key⟩
        · exact ⟨p,hp,rfl⟩

theorem sound_exec (sound : r.Sound calls) (c : RoomCall) : (r.exec c).1.Sound (calls ++ [c]) := by
  cases c with
  | openSession =>
    refine sound.of_same ?_ (fun w hw => .inl hw)
    intro p hp
    simp only [exec,Store.getOrCreateByThread] at hp
    split at hp
    · exact .inr ⟨p,hp,rfl⟩
    · rcases mem_set.mp hp with rfl | ⟨hp,_⟩
      · exact .inl (List.mem_singleton.mpr rfl)
      · exact .inr ⟨p,hp,rfl⟩
  | acquireLease | releaseLease =>
    refine sound.of_same (fun p hp => .inr ⟨p,?_,rfl⟩) (fun w hw => .inl hw)
    simp only [exec,Store.acquireLease,Store.releaseLease] at hp
    split at hp
    · split at hp <;> exact hp
    · exact hp
  | forceReleaseLease =>
    exact sound.of_same (fun p hp => .inr ⟨p,hp,rfl⟩) (fun w hw => .inl hw)
  | append =>
    exact sound.of_same (fun p hp => .inr (append_entries p hp)) (fun w hw => .inl hw)
  | addParticipant sessionId principalId title includeHistory clock =>
    have same : (r.exec (.addParticipant sessionId principalId title includeHistory clock)).1.store =
        r.store := by
      simp only [exec,addParticipant]
      split
      · rfl
      · split <;> rfl
    refine sound.of_same (fun p hp => .inr ⟨p,same ▸ hp,rfl⟩) ?_
    simp only [exec,addParticipant]
    split
    · exact closing_set rfl
    next existing found =>
      split
      · exact closing_set rfl
      · exact closing_set (sound.closing existing (mem_of_find? found))
  | removeParticipant sessionId principalId clock =>
    have same : (r.exec (.removeParticipant sessionId principalId clock)).1.store = r.store := by
      simp only [exec,removeParticipant]
      split
      · rfl
      · split <;> rfl
    refine sound.of_same (fun p hp => .inr ⟨p,same ▸ hp,rfl⟩) ?_
    simp only [exec,removeParticipant]
    split
    · exact fun w => .inl
    · split
      · exact fun w => .inl
      · exact closing_set rfl

theorem refines_exec {c : RoomCall} (sound : r.Sound calls) (fresh : (((calls ++ [c]).flatMap RoomCall.opens)).Nodup) :
    RefinesBy r c := by
  cases c with
  | openSession _ uuid =>
    refine refines_open (find?_eq_none.mpr fun p hp hk => ?_)
    rw [List.flatMap_append,List.nodup_append] at fresh
    exact fresh.2.2 uuid (hk ▸ sound.opened p hp) uuid (by simp [RoomCall.opens]) rfl
  | acquireLease => exact refines_acquire r ..
  | releaseLease lease => exact refines_release r lease
  | forceReleaseLease sessionId => exact refines_force r sessionId
  | append => exact refines_append r ..
  | addParticipant => exact refines_add sound ..
  | removeParticipant => exact refines_remove sound ..

theorem tokens_exec (r : Room) (c : RoomCall) : ((r.exec c).2.filterMap Seen.token?).Sublist c.draws := by
  cases c with
  | acquireLease =>
    simp only [exec,Store.acquireLease]
    split
    · split
      · exact List.nil_sublist _
      · exact List.Sublist.refl _
    · exact List.Sublist.refl _
  | append lease entry clock =>
    have none : (r.exec (.append lease entry clock)).2.filterMap Seen.token? = [] := by
      refine List.filterMap_eq_nil_iff.mpr fun x hx => ?_
      obtain ⟨e,_,rfl⟩ := List.mem_map.mp hx
      rfl
    rw [none]
    exact List.nil_sublist _
  | openSession | releaseLease | forceReleaseLease | addParticipant | removeParticipant => exact List.nil_sublist _

structure RoomReached (ttl : Option Int) (calls : List RoomCall) : Prop where
  sound : (roomAfter ttl calls).Sound calls
  reached : RoomView.Reached (roomAfter ttl calls).view (roomSeen ttl calls)
  tokens : ((roomSeen ttl calls).filterMap Seen.token?).Sublist (calls.flatMap RoomCall.draws)

theorem room_run (ttl : Option Int) (calls : List RoomCall)
    (fresh : (calls.flatMap RoomCall.opens).Nodup) : RoomReached ttl calls := by
  induction calls using List.reverseRecOn with
  | nil =>
    refine ⟨⟨nofun,nofun⟩,
      ⟨trivial,rfl⟩,List.Sublist.slnil⟩
  | append_singleton calls c ih =>
    have earlier : (calls.flatMap RoomCall.opens).Nodup := by
      rw [List.flatMap_append] at fresh
      exact (List.nodup_append.mp fresh).1
    obtain ⟨sound,reached,tokens⟩ := ih earlier
    have seen : roomSeen ttl (calls ++ [c]) = roomSeen ttl calls ++ ((roomAfter ttl calls).exec c).2 := by
      simp [roomSeen,roomAfter,outputs_snoc]
    have next : roomAfter ttl (calls ++ [c]) = ((roomAfter ttl calls).exec c).1 :=
      after_snoc _ _ _ _
    refine ⟨?_,?_,?_⟩
    · rw [next]
      exact sound_exec sound c
    · rw [next,seen]
      exact reached.more (refines_exec sound fresh)
    · rw [seen,List.filterMap_append,List.flatMap_append]
      exact tokens.append (by simpa using tokens_exec (roomAfter ttl calls) c)

end CompanyBrain.Sessions
