import CompanyBrain.Sessions.PostgresSessionStore
import CompanyBrain.Sessions.RoomView

namespace CompanyBrain.Sessions.Pg

open Foundations ParticipantRow SessionEntry Table Function

def ParticipantRow.span (p : ParticipantRow) : Option MemberEvent.Span :=
  p.validFromSeq.map (⟨·,p.validToSeq⟩)

def Db.view (db : Db) : RoomView where
  holding sessionId := (db.leases.find? sessionId).map LeaseRow.token
  log := db.rowsOf
  spans window := (db.participants.find? window).bind span

structure ParticipantRow.Sequenced (p : ParticipantRow) : Prop where
  start : p.validFromSeq.isSome
  stop : p.validTo.isSome = p.validToSeq.isSome

def Phase.entry? : Phase → Option SessionEntry
  | numbered _ full => some full
  | inserted _ full => some full
  | _ => none

theorem Phase.locks_of_entry {p : Phase} {e : SessionEntry} (h : p.entry? = some e) : p.locks := by
  cases p with
  | numbered | inserted => rfl
  | selecting | locked | renewed | ended => cases h

structure System.Sound (s : System) : Prop where
  exclusive : ∀ (i j : Nat) (a b : Append), s.appends[i]? = some a → s.appends[j]? = some b →
    a.phase.locks = true → b.phase.locks = true → a.lease.sessionId = b.lease.sessionId → i = j
  held : ∀ a ∈ s.appends, a.phase.locks = true → s.db.view.holding a.lease.sessionId = some a.lease.token
  placed : ∀ a ∈ s.appends, ∀ e, a.phase.entry? = some e →
    RoomView.Follows (s.db.rowsOf a.lease.sessionId) a.lease.sessionId e
  sequenced : ∀ p ∈ s.db.participants, p.Sequenced

variable {sessionId : String} {s : System}

theorem lockedRow_iff : s.lockedRow sessionId ↔ ∃ a ∈ s.appends, a.phase.locks ∧ a.lease.sessionId = sessionId := by
  simp [System.lockedRow]

variable {db : Db}

theorem System.Sound.of_db (sound : s.Sound)
    (holding : ∀ sessionId, s.lockedRow sessionId → db.view.holding sessionId = s.db.view.holding sessionId)
    (log : ∀ sessionId, s.lockedRow sessionId → db.rowsOf sessionId = s.db.rowsOf sessionId)
    (sequenced : ∀ p ∈ db.participants, p.Sequenced) : System.Sound {s with db := db} where
  exclusive := sound.exclusive
  held a ha locks := by
    rw [holding _ (lockedRow_iff.mpr ⟨a,ha,locks,rfl⟩)]
    exact sound.held a ha locks
  placed a ha e he := by
    rw [log _ (lockedRow_iff.mpr ⟨a,ha,Phase.locks_of_entry he,rfl⟩)]
    exact sound.placed a ha e he
  sequenced := sequenced

variable {a : Append} {k : Nat}

theorem mem_advance {b : Append} {phase : Phase} (hb : b ∈ (s.advance k a phase).appends) :
    b = {a with phase := phase} ∨ b ∈ s.appends :=
  (List.mem_or_eq_of_mem_set hb).symm

theorem System.Sound.advance {s : System} {k : Nat} {a : Append} {phase : Phase}
    (sound : s.Sound) (hk : s.appends[k]? = some a) (locks : phase.locks → a.phase.locks ∨
      s.lockedRow a.lease.sessionId = false ∧ s.db.view.holding a.lease.sessionId = some a.lease.token)
    (placed : ∀ e, phase.entry? = some e → RoomView.Follows (s.db.rowsOf a.lease.sessionId) a.lease.sessionId e) :
    (s.advance k a phase).Sound where
  exclusive i j b c hb hc hlb hlc hs := by
    have other : ∀ (i : Nat) (b : Append), i ≠ k → s.appends[i]? = some b → b.phase.locks = true →
        phase.locks = true → b.lease.sessionId ≠ a.lease.sessionId := by
      intro i b hik hb hlb hl hsame
      rcases locks hl with before | ⟨free,_⟩
      · exact hik (sound.exclusive i k b a hb hk hlb before hsame)
      · have busy := lockedRow_iff.mpr ⟨b,List.mem_of_getElem? hb,hlb,hsame⟩
        rw [free] at busy
        cases busy
    simp only [System.advance,List.getElem?_set] at hb hc
    split at hb
    · split at hc
      next hki hkj => exact hki.symm.trans hkj
      next hkj =>
        split at hb
        · cases hb
          exact absurd hs.symm (other j c (Ne.symm hkj) hc hlc hlb)
        · cases hb
    next hki =>
      split at hc
      · split at hc
        · cases hc
          exact absurd hs (other i b (Ne.symm hki) hb hlb hlc)
        · cases hc
      · exact sound.exclusive i j b c hb hc hlb hlc hs
  held b hb hl := by
    rcases mem_advance hb with rfl | hb
    · rcases locks hl with before | ⟨_,holding⟩
      · exact sound.held a (List.mem_of_getElem? hk) before
      · exact holding
    · exact sound.held b hb hl
  placed b hb e he := by
    rcases mem_advance hb with rfl | hb
    · exact placed e he
    · exact sound.placed b hb e he
  sequenced := sound.sequenced

theorem unlocked_ended (sound : s.Sound) (hk : s.appends[k]? = some a) (locks : a.phase.locks)
    (result : Except String SessionEntry) : (s.advance k a (.ended result)).lockedRow a.lease.sessionId = false := by
  rw [Bool.eq_false_iff]
  intro busy
  obtain ⟨b,hb,hl,hs⟩ := lockedRow_iff.mp busy
  obtain ⟨i,hi⟩ := List.mem_iff_getElem?.mp hb
  simp only [System.advance,List.getElem?_set] at hi
  split at hi
  · split at hi
    · cases hi
      cases hl
    · cases hi
  next hki => exact hki (sound.exclusive k i a b hk hi locks hl hs.symm)

def Refines (s s' : System) (seen : List Seen) : Prop :=
  RoomView.Steps s.db.view s'.db.view seen

theorem view_hold {leases : Table LeaseRow.sessionId} {token : Option String}
    (h : ∀ s, (leases.find? s).map LeaseRow.token =
      if s = sessionId then token else (db.leases.find? s).map LeaseRow.token) :
    Db.view {db with leases := leases} = db.view.hold sessionId token := by
  refine RoomView.ext (funext fun s => ?_) rfl rfl
  change _ = update db.view.holding sessionId token s
  rw [update_apply]
  exact h s

theorem view_delete (db : Db) (sessionId : String) : (db.deleteLease sessionId).view = db.view.hold sessionId none := by
  refine view_hold fun s => ?_
  rw [find?_erase]
  split <;> rfl

theorem view_upsert (db : Db) (sessionId token : String) (holder : Option LeaseHolder) (t ttl : Int) :
    (∃ row : LeaseRow, row.sessionId = sessionId ∧ row.token = token ∧ db.upsertLease sessionId holder token t ttl =
        ({db with leases := db.leases.set row},some ⟨sessionId,token⟩)) ∨
    db.upsertLease sessionId holder token t ttl = (db,none) := by
  simp only [Db.upsertLease]
  split
  · exact .inl ⟨_,rfl,rfl,rfl⟩
  · split
    · exact .inl ⟨_,rfl,rfl,rfl⟩
    · exact .inr rfl

theorem view_grant {row : LeaseRow} : Db.view {db with leases := db.leases.set row} =
      db.view.hold row.sessionId (some row.token) := by
  refine view_hold fun s => ?_
  rw [find?_set]
  split <;> rfl

theorem nextSeq_eq (numbered : Numbered seq (db.rowsOf sessionId)) :
    db.nextSeq sessionId = (db.rowsOf sessionId).length := by
  have count : ∀ l : List SessionEntry, Numbered seq l →
      l.foldl (fun n e => max n (e.seq+1)) 0 = l.length := by
    intro l hl
    induction l using List.reverseRecOn with
    | nil => rfl
    | append_singleton l e ih =>
      obtain ⟨init,last⟩ := numbered_snoc.mp hl
      rw [List.foldl_append,ih init]
      simp [last]
  exact count _ numbered

variable {full : SessionEntry}

theorem rowsOf_set (new : db.entries.find? (entryKey full) = none) (leases : Table LeaseRow.sessionId)
    (sessionId : String) : Db.rowsOf {db with leases := leases, entries := db.entries.set full} sessionId =
      if sessionId = full.sessionId then db.rowsOf sessionId ++ [full] else db.rowsOf sessionId := by
  rw [Db.rowsOf,set_rows_of_new new]
  split
  next h => simp [Db.rowsOf,h]
  next h => simp [Db.rowsOf,Ne.symm h]

theorem unused_key (numbered : Numbered seq (db.rowsOf sessionId))
    (follows : RoomView.Follows (db.rowsOf sessionId) sessionId full) : db.entries.find? (entryKey full) = none := by
  refine find?_eq_none.mpr fun e he hk => ?_
  obtain ⟨hs,hseq⟩ := Prod.mk.inj hk
  have mem : e ∈ db.rowsOf sessionId :=
    List.mem_filter.mpr ⟨he,decide_eq_true (hs.trans follows.session)⟩
  have below := numbered_lt numbered mem
  rw [hseq,follows.seq] at below
  exact lt_irrefl _ below

theorem view_commit {lease : Lease} {expiresAt : Int} (numbered : Numbered seq (db.rowsOf lease.sessionId))
    (follows : RoomView.Follows (db.rowsOf lease.sessionId) lease.sessionId full) :
    (db.commitAppend lease expiresAt full).view = db.view.write lease.sessionId full := by
  refine RoomView.ext (funext fun s => ?_) (funext fun s => ?_) rfl
  · simp only [Db.commitAppend,Db.view,RoomView.write]
    cases hf : db.leases.find? lease.sessionId with
    | none => rfl
    | some =>
      rw [find?_set]
      split
      next hs =>
        rw [hs,key_of_find? hf,hf]
        rfl
      · rfl
  · change _ = update db.rowsOf lease.sessionId _ s
    rw [update_apply,← follows.session]
    refine (rowsOf_set (unused_key numbered follows) _ s).trans ?_
    split
    next hs =>
      rw [hs]
      rfl
    · rfl

theorem numberedEntry_follows (cfg : Config) {db : Db} {lease : Lease} (entry : NewEntry)
    (now : Int) (numbered : Numbered seq (db.rowsOf lease.sessionId)) :
    RoomView.Follows (db.rowsOf lease.sessionId) lease.sessionId
      (numberedEntry cfg lease entry (db.nextSeq lease.sessionId) now) where
  session := rfl
  seq := nextSeq_eq numbered
  parent := rfl

variable {e : MemberEvent SessionEntry} {p : ParticipantRow} {principalId : String}

theorem view_move (hkey : p.key = (sessionId,principalId))
    (hspan : MemberEvent.spanAfter (db.rowsOf sessionId).length
      ((db.participants.find? (sessionId,principalId)).bind span) e = p.span) :
    Db.view {db with participants := db.participants.set p} = db.view.move (sessionId,principalId) e := by
  refine RoomView.ext rfl rfl (funext fun w => ?_)
  change ((db.participants.set p).find? w).bind span = update db.view.spans _ _ w
  rw [find?_set,update_apply,hkey]
  split
  · exact hspan.symm
  · rfl

theorem view_still
    (h : MemberEvent.spanAfter (db.rowsOf sessionId).length
      ((db.participants.find? (sessionId,principalId)).bind span) e =
        (db.participants.find? (sessionId,principalId)).bind span) :
    db.view = db.view.move (sessionId,principalId) e := by
  simp only [RoomView.move,Db.view,h,RoomView.mk.injEq,true_and]
  exact (update_eq_self (sessionId,principalId) _).symm

theorem span_open (sequenced : p.Sequenced) (opened : p.validTo.isSome = false) :
    ∃ start, p.validFromSeq = some start ∧ p.validToSeq = none := by
  obtain ⟨start,hstart⟩ := Option.isSome_iff_exists.mp sequenced.start
  have shut := sequenced.stop
  rw [opened] at shut
  exact ⟨start,hstart,by simpa using shut.symm⟩

theorem span_shut (sequenced : p.Sequenced) (shut : p.validTo.isSome) :
    ∃ start stop, p.validFromSeq = some start ∧ p.validToSeq = some stop := by
  obtain ⟨start,hstart⟩ := Option.isSome_iff_exists.mp sequenced.start
  have closed := sequenced.stop
  rw [shut] at closed
  obtain ⟨stop,hstop⟩ := Option.isSome_iff_exists.mp closed.symm
  exact ⟨start,stop,hstart,hstop⟩

section

variable (sequenced : ∀ p ∈ db.participants, p.Sequenced)
include sequenced

variable (sessionId principalId : String)

theorem view_add
    (title : Option String) (includeHistory : Bool) (now : Int) (numbered : Numbered seq (db.rowsOf sessionId)) :
    (db.addParticipant sessionId principalId title includeHistory now).view =
      db.view.move (sessionId,principalId) (.join includeHistory) := by
  have next := nextSeq_eq numbered
  simp only [Db.addParticipant]
  cases hf : db.participants.find? (sessionId,principalId) with
  | none =>
    refine view_move rfl ?_
    rw [hf,← next]
    rfl
  | some p =>
    obtain ⟨mem,key⟩ := find?_eq_some.mp hf
    simp only
    split
    · refine view_move key ?_
      cases hv : p.validTo.isSome with
      | false =>
        obtain ⟨start,hstart,hstop⟩ := span_open (sequenced p mem) hv
        have none : p.validTo = none := by simpa using hv
        cases includeHistory <;> simp [hf,span,hstart,hstop,MemberEvent.spanAfter,updatedParticipant, none]
      | true =>
        obtain ⟨start,stop,hstart,hstop⟩ := span_shut (sequenced p mem) hv
        have some : p.validTo.isNone = false := by simpa using hv
        cases includeHistory <;> simp [hf,span,hstop,MemberEvent.spanAfter,updatedParticipant,
            insertedParticipant,some,next]
    next skipped =>
      simp only [Bool.or_eq_true,Bool.and_eq_true,not_or,not_and] at skipped
      obtain ⟨⟨hv,_⟩,whole⟩ := skipped
      obtain ⟨start,hstart,hstop⟩ := span_open (sequenced p mem) (by simpa using hv)
      refine view_still ?_
      cases includeHistory with
      | false => simp [hf,span,hstart,hstop,MemberEvent.spanAfter]
      | true =>
        have zero : start = 0 := by
          have := (whole rfl).1
          simpa [hstart] using this
        simp [hf,span,hstart,hstop,MemberEvent.spanAfter,zero]

theorem view_remove (now : Int)
    (numbered : Numbered seq (db.rowsOf sessionId)) :
    (db.removeParticipant sessionId principalId now).view = db.view.move (sessionId,principalId) .leave := by
  have next := nextSeq_eq numbered
  simp only [Db.removeParticipant]
  cases hf : db.participants.find? (sessionId,principalId) with
  | none => exact view_still (by rw [hf]; rfl)
  | some p =>
    obtain ⟨mem,key⟩ := find?_eq_some.mp hf
    simp only
    split
    next shut =>
      obtain ⟨start,stop,hstart,hstop⟩ := span_shut (sequenced p mem) shut
      exact view_still (by simp [hf,span,hstop,MemberEvent.spanAfter])
    next opened =>
      obtain ⟨start,hstart,hstop⟩ := span_open (sequenced p mem) (by simpa using opened)
      refine view_move key ?_
      simp [hf,span,hstart,hstop,MemberEvent.spanAfter,next]

theorem sequenced_add (title : Option String) (includeHistory : Bool) (now : Int) :
    ∃ participants, db.addParticipant sessionId principalId title includeHistory now = {db with participants} ∧
      ∀ p ∈ participants, p.Sequenced := by
  simp only [Db.addParticipant]
  cases hf : db.participants.find? (sessionId,principalId) with
  | none => exact ⟨_,rfl,forall_set ⟨rfl,rfl⟩ sequenced⟩
  | some p =>
    have start := (sequenced p (mem_of_find? hf)).start
    simp only
    split
    · refine ⟨_,rfl,forall_set ⟨?_,rfl⟩ sequenced⟩
      simp only [updatedParticipant]
      split
      · rfl
      · split
        · exact start
        · rfl
    · exact ⟨_,rfl,sequenced⟩

theorem sequenced_remove (now : Int) : ∃ participants,
    db.removeParticipant sessionId principalId now = {db with participants} ∧ ∀ p ∈ participants, p.Sequenced := by
  simp only [Db.removeParticipant]
  cases hf : db.participants.find? (sessionId,principalId) with
  | none => exact ⟨_,rfl,sequenced⟩
  | some p =>
    simp only
    split
    · exact ⟨_,rfl,sequenced⟩
    · exact ⟨_,rfl,forall_set ⟨(sequenced p (mem_of_find? hf)).start,rfl⟩ sequenced⟩

end

structure Kept (s s' : System) (seen : List Seen) : Prop where
  sound : s'.Sound
  refines : Refines s s' seen

abbrev KeptBy (s : System) (cfg : Config) (act : Act) : Prop := Kept s (s.exec cfg act).1 (s.exec cfg act).2

theorem kept_still (sound : s.Sound) : Kept s s [] :=
  ⟨sound,RoomView.steps_none _⟩

theorem kept_advance {phase : Phase} (sound : s.Sound) (hk : s.appends[k]? = some a) (locks : a.phase.locks)
    (placed : ∀ e, phase.entry? = some e → RoomView.Follows (s.db.rowsOf a.lease.sessionId) a.lease.sessionId e) :
    Kept s (s.advance k a phase) [] :=
  ⟨sound.advance hk (fun _ => .inl locks) placed,RoomView.steps_none _⟩

theorem kept_ended (sound : s.Sound) (hk : s.appends[k]? = some a) (result : Except String SessionEntry) :
    Kept s (s.advance k a (.ended result)) [] :=
  ⟨sound.advance hk (fun h => absurd h Bool.false_ne_true) (fun _ h => by cases h),RoomView.steps_none _⟩

theorem kept_leases {token : Option String} {x : Seen} (sound : s.Sound) (free : s.lockedRow sessionId = false)
    (view : db.view = s.db.view.hold sessionId token) (log : db.rowsOf = s.db.rowsOf)
    (participants : db.participants = s.db.participants) (event : s.db.view.after x = s.db.view.hold sessionId token)
    (admits : s.db.view.Admits x) : Kept s {s with db := db} [x] where
  sound := by
    refine sound.of_db (fun s' busy => ?_) (fun s' _ => congrFun log s') ?_
    · have other : s' ≠ sessionId := by
        rintro rfl
        rw [free] at busy
        cases busy
      rw [view]
      exact update_of_ne other _ _
    · rw [participants]
      exact sound.sequenced
  refines := RoomView.steps_one (view.trans event.symm) admits

section

variable (sound : s.Sound)
include sound

theorem kept_acquire (cfg : Config) (sessionId : String) (holder : Option LeaseHolder) (uuid : String)
    (t : Int) : KeptBy s cfg (.acquireLease sessionId holder uuid t) := by
  simp only [KeptBy,System.exec]
  split
  · exact kept_still sound
  next free =>
    rcases view_upsert s.db sessionId uuid holder t cfg.leaseTtlMs with
      ⟨row,rfl,rfl,granted⟩ | refused
    · rw [granted]
      exact kept_leases sound (by simpa using free) view_grant rfl rfl rfl trivial
    · rw [refused]
      exact kept_still sound

theorem kept_release (cfg : Config) (lease : Lease) : KeptBy s cfg (.releaseLease lease) := by
  have other (h : s.db.view.holding lease.sessionId ≠ some lease.token) : Kept s s [.released lease] := by
    refine ⟨sound,RoomView.steps_one ?_ trivial⟩
    rw [RoomView.after,if_neg h]
  simp only [KeptBy,System.exec]
  cases hf : s.db.leases.find? lease.sessionId with
  | none => exact other (by simp [Db.view,hf])
  | some =>
    simp only
    split
    next mine =>
      split
      · exact kept_still sound
      next free =>
        have holding : s.db.view.holding lease.sessionId = some lease.token := by
          simp [Db.view,hf,mine]
        refine kept_leases sound (by simpa using free) (view_delete _ _) rfl rfl ?_ trivial
        rw [RoomView.after,if_pos holding]
    next foreign => exact other (by simpa [Db.view,hf] using foreign)

theorem kept_force (cfg : Config) (sessionId : String) : KeptBy s cfg (.forceReleaseLease sessionId) := by
  simp only [KeptBy,System.exec]
  split
  · exact kept_still sound
  next free => exact kept_leases sound (by simpa using free) (view_delete _ _) rfl rfl rfl trivial

theorem kept_begin (lease : Lease) (entry : NewEntry) :
    Kept s {s with appends := s.appends ++ [⟨lease,entry,.selecting⟩]} [] := by
  have old : ∀ {i : Nat} {a : Append}, (s.appends ++ [⟨lease,entry,.selecting⟩])[i]? = some a →
      a.phase.locks = true → s.appends[i]? = some a := by
    intro i a hi locks
    rw [List.getElem?_append] at hi
    split at hi
    · exact hi
    · obtain rfl := List.mem_singleton.mp (List.mem_of_getElem? hi)
      cases locks
  have mem : ∀ {a : Append}, a ∈ s.appends ++ [⟨lease,entry,.selecting⟩] →
      a.phase.locks = true → a ∈ s.appends := by
    intro a ha locks
    obtain ⟨i,hi⟩ := List.mem_iff_getElem?.mp ha
    exact List.mem_of_getElem? (old hi locks)
  refine ⟨⟨?_,?_,?_,sound.sequenced⟩,RoomView.steps_none _⟩
  · intro i j a b ha hb hla hlb
    exact sound.exclusive i j a b (old ha hla) (old hb hlb) hla hlb
  · intro a ha locks
    exact sound.held a (mem ha locks) locks
  · intro a ha e he
    exact sound.placed a (mem ha (Phase.locks_of_entry he)) e he

theorem kept_select (cfg : Config) (k : Nat) : KeptBy s cfg (.select k) := by
  simp only [KeptBy,System.exec]
  split
  next lease entry hk =>
    split
    · exact kept_still sound
    next free =>
      split
      next valid =>
        refine ⟨sound.advance hk (fun _ => .inr ⟨by simpa using free,valid⟩) ?_,RoomView.steps_none _⟩
        intro e he
        cases he
      · exact kept_ended sound hk _
  · exact kept_still sound

theorem kept_commit (numbered : ∀ sessionId, Numbered seq (s.db.rowsOf sessionId))
    (cfg : Config) (k : Nat) : KeptBy s cfg (.commit k) := by
  simp only [KeptBy,System.exec]
  split
  next lease entry expiresAt full hk =>
    have mem := List.mem_of_getElem? hk
    have follows := sound.placed _ mem full rfl
    have view : (s.db.commitAppend lease expiresAt full).view =
        s.db.view.write lease.sessionId full := view_commit (numbered _) follows
    have ended := (kept_ended sound hk (.ok full)).sound
    have free := unlocked_ended sound hk rfl (.ok full)
    refine ⟨ended.of_db ?_ ?_ sound.sequenced,RoomView.steps_one view ?_⟩
    · intro sessionId _
      exact congrFun (congrArg RoomView.holding view) sessionId
    · intro sessionId busy
      have other : sessionId ≠ lease.sessionId := by
        rintro rfl
        rw [free] at busy
        cases busy
      exact (congrFun (congrArg RoomView.log view) sessionId).trans (update_of_ne other _ _)
    · exact ⟨sound.held _ mem rfl,follows⟩
  · exact kept_still sound

theorem kept_insert (cfg : Config) (k : Nat) : KeptBy s cfg (.insert k) := by
  simp only [KeptBy,System.exec]
  split
  next lease entry expiresAt full hk =>
    split
    · refine kept_advance sound hk rfl fun e he => ?_
      exact sound.placed _ (List.mem_of_getElem? hk) e he
    · exact kept_ended sound hk _
  · exact kept_still sound

theorem kept_rollback (cfg : Config) (k : Nat) (error : String) : KeptBy s cfg (.rollback k error) := by
  simp only [KeptBy,System.exec]
  split
  · exact kept_still sound
  next hk => exact kept_ended sound hk _
  · exact kept_still sound

end

theorem kept_participants {x : Seen} (sound : s.Sound)
    (made : ∃ participants, db = {s.db with participants} ∧ ∀ p ∈ participants, p.Sequenced)
    (view : db.view = s.db.view.move (sessionId,principalId) e)
    (event : s.db.view.after x = s.db.view.move (sessionId,principalId) e) (admits : s.db.view.Admits x) :
    Kept s {s with db := db} [x] where
  sound := by
    obtain ⟨_,rfl,sequenced⟩ := made
    exact sound.of_db (fun _ _ => rfl) (fun _ _ => rfl) sequenced
  refines := RoomView.steps_one (view.trans event.symm) admits

theorem kept_exec (sound : s.Sound) (numbered : ∀ sessionId, Numbered seq (s.db.rowsOf sessionId))
    (cfg : Config) (act : Act) : KeptBy s cfg act := by
  cases act with
  | acquireLease => exact kept_acquire sound cfg ..
  | releaseLease lease => exact kept_release sound cfg lease
  | forceReleaseLease sessionId => exact kept_force sound cfg sessionId
  | append => exact kept_begin sound ..
  | select k => exact kept_select sound cfg k
  | renew =>
    simp only [KeptBy,System.exec]
    split
    next hk =>
      refine kept_advance sound hk rfl ?_
      intro e he
      cases he
    · exact kept_still sound
  | number k now =>
    simp only [KeptBy,System.exec]
    split
    next lease entry expiresAt hk =>
      refine kept_advance sound hk rfl ?_
      rintro e ⟨⟩
      exact numberedEntry_follows cfg entry now (numbered lease.sessionId)
    · exact kept_still sound
  | insert k => exact kept_insert sound cfg k
  | commit k => exact kept_commit sound numbered cfg k
  | rollback => exact kept_rollback sound cfg ..
  | addParticipant sessionId =>
    exact kept_participants sound (sequenced_add sound.sequenced ..)
      (view_add sound.sequenced _ _ _ _ _ (numbered sessionId)) rfl trivial
  | removeParticipant sessionId =>
    exact kept_participants sound (sequenced_remove sound.sequenced ..)
      (view_remove sound.sequenced _ _ _ (numbered sessionId)) rfl trivial

theorem tokens_exec (cfg : Config) (s : System) (act : Act) :
    ((s.exec cfg act).2.filterMap Seen.token?).Sublist act.draws := by
  cases act with
  | acquireLease sessionId holder uuid t =>
    simp only [System.exec]
    split
    · exact List.nil_sublist _
    · rcases view_upsert s.db sessionId uuid holder t cfg.leaseTtlMs with
        ⟨row,_,_,granted⟩ | refused
      · rw [granted]
        exact List.Sublist.refl _
      · rw [refused]
        exact List.nil_sublist _
  | append | addParticipant | removeParticipant => exact List.nil_sublist _
  | releaseLease | forceReleaseLease | select | renew | number | insert | commit | rollback =>
    simp only [System.exec]
    repeat' split
    all_goals exact List.nil_sublist _

structure PgReached (cfg : Config) (acts : List Act) : Prop where
  sound : (reached cfg acts).Sound
  reached : RoomView.Reached (reached cfg acts).db.view (seen cfg acts)
  tokens : ((seen cfg acts).filterMap Seen.token?).Sublist (acts.flatMap Act.draws)

theorem start_sound : System.start.Sound where
  exclusive i j a b ha := by simp [System.start] at ha
  held _ ha := nomatch ha
  placed a ha := absurd ha List.not_mem_nil
  sequenced p hp := absurd hp (not_mem_empty p)

theorem pg_run (cfg : Config) (acts : List Act) : PgReached cfg acts := by
  induction acts using List.reverseRecOn with
  | nil => exact ⟨start_sound,⟨trivial,rfl⟩,List.Sublist.slnil⟩
  | append_singleton acts act ih =>
    obtain ⟨sound,earlier,tokens⟩ := ih
    have kept := kept_exec sound earlier.numbered cfg act
    have events : seen cfg (acts ++ [act]) = seen cfg acts ++ ((reached cfg acts).exec cfg act).2 := by
      simp [seen,reached,outputs_snoc]
    have next : reached cfg (acts ++ [act]) = ((reached cfg acts).exec cfg act).1 :=
      after_snoc _ _ _ _
    refine ⟨?_,?_,?_⟩
    · rw [next]
      exact kept.sound
    · rw [next,events]
      exact earlier.more kept.refines
    · rw [events,List.filterMap_append,List.flatMap_append]
      exact tokens.append (by simpa using tokens_exec cfg (reached cfg acts) act)

theorem orderBySeq_filter {l : List SessionEntry} (numbered : Numbered seq l)
    (p : SessionEntry → Bool) : orderBySeq (l.filter p) = l.filter p := by
  refine List.Pairwise.insertionSort_eq ?_
  refine List.Pairwise.filter p ?_
  have sorted : (l.map seq).Pairwise (· ≤ ·) := by
    rw [numbered]
    exact List.pairwise_le_range
  exact List.pairwise_map.mp sorted

theorem getEntries_eq (numbered : Numbered seq (db.rowsOf sessionId)) :
    db.getEntries sessionId = db.view.log sessionId := by
  have ordered := orderBySeq_filter numbered (fun _ => true)
  rwa [List.filter_true] at ordered

theorem visibleEntries_eq (principalId : String) (sequenced : ∀ p ∈ db.participants, p.Sequenced)
    (numbered : Numbered seq (db.rowsOf sessionId)) :
    db.visibleEntries sessionId principalId = db.view.visible sessionId principalId := by
  simp only [Db.visibleEntries,RoomView.visible,Db.view]
  cases hf : db.participants.find? (sessionId,principalId) with
  | none => rfl
  | some p =>
    have known := sequenced p (mem_of_find? hf)
    obtain ⟨start,hstart⟩ := Option.isSome_iff_exists.mp known.start
    have same : (withinParticipantWindow · p) = fun e => MemberEvent.Span.shows ⟨start,p.validToSeq⟩ e.seq := by
      have shut := known.stop
      cases hstop : p.validToSeq with
      | none =>
        have openEnded : p.validTo = none := by simpa [hstop] using shut
        simp [withinParticipantWindow,MemberEvent.Span.shows,hstart,hstop,openEnded]
      | some => simp [withinParticipantWindow,MemberEvent.Span.shows,hstart,hstop]
    simp only [Option.bind_some,span,hstart,Option.map_some]
    rw [orderBySeq_filter numbered,same]

end CompanyBrain.Sessions.Pg
