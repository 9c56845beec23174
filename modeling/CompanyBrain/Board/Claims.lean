import CompanyBrain.Board.Changes

namespace CompanyBrain.Board

open Foundations Table

abbrev BoardState := Shared BoardData Call (Option Post)

def ExclusiveOn (board : BoardData) (repoId time : Nat) : Prop :=
  ∀ p ∈ board.posts, ∀ q ∈ board.posts, p.isActive time = true → q.isActive time = true →
    p.repoId = repoId → q.repoId = repoId → p.target = q.target → p = q

structure ClaimsExclusive (s : BoardState) : Prop where
  atMostOne : ∀ repoId, ExclusiveOn s.data repoId s.clock
  normalised : ∀ p ∈ s.data.posts, p.type = .claim → ∃ target, p.target = some (normaliseTarget target)

def ExtendedByOwner (s : BoardState) (a : LockStep Call) : Prop :=
  ∀ p ∈ s.data.posts, ∀ p' ∈ (boardCalls.step s a).data.posts, p'.id = p.id → p.type = .claim →
    p'.expiresAt ≠ p.expiresAt →
    ∃ h input id time, a = .commit h.id ∧ h ∈ s.held ∧ h.call = .addPost input id ∧
      h.reading = some time ∧ p.isActive time = true ∧ input.authorUid = p.authorUid ∧
      input.client = p.client ∧ input.repoId = p.repoId ∧ p.target = some (claimTarget input)

section

variable {board board' : BoardData} {c : Call} {time : Nat}

variable {p : Post}

theorem isActive_iff : p.isActive time ↔
    p.type = .claim ∧ p.releasedAt = none ∧ ∃ expiry, p.expiresAt = some expiry ∧ time < expiry := by
  simp [Post.isActive,Option.any_eq_true,and_assoc]

theorem claimOn_iff {repoId : Nat} {target : Text} :
    claimOn repoId target time p ↔ p.isActive time ∧ p.repoId = repoId ∧ p.target = some target := by
  simp [claimOn,and_assoc]

theorem isActive_earlier {later : Nat} (le : time ≤ later) (active : p.isActive later) : p.isActive time := by
  obtain ⟨type,unreleased,expiry,expires,before⟩ := isActive_iff.mp active
  exact isActive_iff.mpr ⟨type,unreleased,expiry,expires,lt_of_le_of_lt le before⟩

theorem moveTask_mem {task : Post} {kind : UpdateKind} {body : Text} {actor : Actor} :
    ∀ p ∈ (moveTask board task kind body actor time).posts, p ∈ board.posts ∨
      (p.id = task.id ∧ p.type = task.type ∧ p.expiresAt = task.expiresAt ∧ p.status = some (NEXT kind).target) := by
  unfold moveTask
  split
  next done => exact forall_set (.inr ⟨rfl,rfl,rfl,congrArg some done.symm⟩) fun p old => .inl old
  · exact forall_set (.inr ⟨rfl,rfl,rfl,rfl⟩) fun p old => .inl old

section

variable (change : Change board time c board')
include change

theorem claims_change : (∀ p ∈ board'.posts, p.type = .claim → p.releasedAt = none → p ∈ board.posts) ∨
      ∃ input id row, c = .addPost input id ∧ board'.posts = board.posts.set row ∧
        row.repoId = input.repoId ∧ row.target = some (claimTarget input) ∧ (ExclusiveOn board input.repoId time →
          ∀ q ∈ board.posts, claimOn input.repoId (claimTarget input) time q → q.id = row.id) := by
  cases change with
  | same => exact .inl fun p hp _ _ => hp
  | claim input id _ _ free =>
    refine .inr ⟨input,id,_,rfl,rfl,rfl,rfl,fun _ q hq on => ?_⟩
    rw [existingClaim_none free hq] at on
    cases on
  | post _ _ type => exact .inl (forall_set (fun claim => absurd claim type) fun p hp _ _ => hp)
  | renew input id existing _ found =>
    obtain ⟨mem,on⟩ := existingClaim_some found
    obtain ⟨active,repo,target⟩ := claimOn_iff.mp on
    refine .inr ⟨input,id,_,rfl,rfl,repo,target,fun exclusive q hq onq => ?_⟩
    obtain ⟨activeq,repoq,targetq⟩ := claimOn_iff.mp onq
    have same : q = existing :=
      exclusive q hq existing mem activeq active repoq repo (targetq.trans target.symm)
    rw [same]
    rfl
  | release => exact .inl (forall_set (fun _ unreleased => by cases unreleased) fun p hp _ _ => hp)
  | close _ _ _ _ row _ ready =>
    refine .inl (forall_set (fun claim => ?_) fun p hp _ _ => hp)
    have type : row.type = .claim := claim
    simp [closable,type] at ready
  | advance _ _ _ _ _ _ _ type =>
    refine .inl fun p hp claim _ => ?_
    rcases moveTask_mem p hp with old | ⟨_,kept,_⟩
    · exact old
    · rw [kept,type] at claim
      cases claim

theorem exclusiveOn_change {repoId later : Nat} (exclusive : ExclusiveOn board repoId later)
    (locked : Key.repo repoId ∈ c.locks → ExclusiveOn board repoId time ∧ time ≤ later) :
    ExclusiveOn board' repoId later := by
  intro p hp q hq activep activeq repop repoq target
  obtain ⟨typep,unreleasedp,_⟩ := isActive_iff.mp activep
  obtain ⟨typeq,unreleasedq,_⟩ := isActive_iff.mp activeq
  rcases claims_change change with old | ⟨input,id,row,rfl,posts,repo,rowTarget,blocks⟩
  · exact exclusive p (old p hp typep unreleasedp) q (old q hq typeq unreleasedq) activep activeq repop
      repoq target
  · -- a claim other than the written row would have been found by addPost
    have blocked {x : Post} (hx : x ∈ board.posts) (other : x.id ≠ row.id)
        (active : x.isActive later = true) (repox : x.repoId = repoId) (rowRepo : row.repoId = repoId)
        (same : x.target = row.target) : False := by
      have here : input.repoId = repoId := repo.symm.trans rowRepo
      obtain ⟨now,le⟩ := locked (by simp [Call.locks,here])
      refine other (blocks (here ▸ now) x hx (claimOn_iff.mpr ⟨isActive_earlier le active,?_,?_⟩))
      · exact repox.trans here.symm
      · exact same.trans rowTarget
    rw [posts] at hp hq
    rcases mem_set.mp hp with hrow | ⟨oldp,newp⟩ <;> rcases mem_set.mp hq with hrow' | ⟨oldq,newq⟩
    · exact hrow.trans hrow'.symm
    · rw [hrow] at repop target
      exact (blocked oldq newq activeq repoq repop target.symm).elim
    · rw [hrow'] at repoq target
      exact (blocked oldp newp activep repop repoq target).elim
    · exact exclusive p oldp q oldq activep activeq repop repoq target

theorem normalised_change (normalised : ∀ p ∈ board.posts, p.type = .claim →
    ∃ target, p.target = some (normaliseTarget target)) :
    ∀ p ∈ board'.posts, p.type = .claim → ∃ target, p.target = some (normaliseTarget target) := by
  cases change with
  | same => exact normalised
  | claim input => exact forall_set (fun _ => ⟨input.target.getD [],rfl⟩) normalised
  | post _ _ type => exact forall_set (fun claim => absurd claim type) normalised
  | renew _ _ existing _ found => exact forall_set (normalised existing (existingClaim_some found).1) normalised
  | release _ _ _ row found | close _ _ _ _ row found =>
    exact forall_set (normalised row (mem_of_find? found)) normalised
  | advance _ _ _ _ _ _ _ type =>
    intro p hp claim
    rcases moveTask_mem p hp with old | ⟨_,kept,_⟩
    · exact normalised p old claim
    · rw [kept,type] at claim
      cases claim

end

structure ClaimLog (log : List (Call × Nat)) (board : BoardData) : Prop where
  atMostOne : ∀ repoId time, (∀ e ∈ log, Key.repo repoId ∈ e.1.locks → e.2 ≤ time) →
    ExclusiveOn board repoId time
  normalised : ∀ p ∈ board.posts, p.type = .claim → ∃ target, p.target = some (normaliseTarget target)

def InOrder (log : List (Call × Nat)) : Prop :=
  log.Pairwise fun e e' => ¬Apart e'.1.locks e.1.locks → e.2 ≤ e'.2

theorem claimLog_snoc {log : List (Call × Nat)} {e : Call × Nat} (inOrder : InOrder (log ++ [e]))
    (inv : ClaimLog log board) : ClaimLog (log ++ [e]) (boardCalls.serial board e) where
  normalised := normalised_change (serial_change board e.1 e.2) inv.normalised
  atMostOne := by
    intro repoId time after
    have earlier : ∀ d ∈ log, Key.repo repoId ∈ d.1.locks → d.2 ≤ time :=
      fun d hd => after d (List.mem_append_left _ hd)
    refine exclusiveOn_change (serial_change board e.1 e.2) (inv.atMostOne repoId time earlier) ?_
    intro locked
    refine ⟨inv.atMostOne repoId e.2 fun d hd hlock => ?_,after e (by simp) locked⟩
    have order := (List.pairwise_append.mp inOrder).2.2 d hd e (List.mem_singleton.mpr rfl)
    exact order fun apart => apart _ locked hlock

theorem claimLog_run (log : List (Call × Nat)) (inOrder : InOrder log) :
    ClaimLog log (run boardCalls.serial BoardData.empty log) := by
  refine run_history (fun as a ok => (List.pairwise_append.mp ok).1) ?_ ?_ log inOrder
  · exact ⟨fun _ _ _ p hp => (nomatch hp),fun _ hp => nomatch hp⟩
  · exact fun as a board ok inv => claimLog_snoc ok inv

theorem expiry_change (change : Change board time c board') (hp : p ∈ board.posts) :
    ∀ p' ∈ board'.posts, p'.id = p.id → p'.expiresAt ≠ p.expiresAt →
      ∃ input id, c = .addPost input id ∧ p.isActive time ∧ input.authorUid = p.authorUid ∧
        input.client = p.client ∧ input.repoId = p.repoId ∧ p.target = some (claimTarget input) := by
  have kept {Q : Prop} (p' : Post) (old : p' ∈ board.posts) (id_eq : p'.id = p.id)
      (moved : p'.expiresAt ≠ p.expiresAt) : Q :=
    absurd (congrArg Post.expiresAt (eq_of_key old hp id_eq)) moved
  cases change with
  | same => exact kept
  | claim _ _ _ fresh | post _ _ _ fresh =>
    exact forall_set (fun id_eq => absurd id_eq.symm (find?_eq_none.mp fresh p hp)) kept
  | renew input id existing _ found author client =>
    refine forall_set (fun id_eq _ => ?_) kept
    obtain ⟨mem,on⟩ := existingClaim_some found
    obtain ⟨active,repo,target⟩ := claimOn_iff.mp on
    obtain rfl : existing = p := eq_of_key mem hp id_eq
    exact ⟨input,id,rfl,active,author.symm,client.symm,repo.symm,target⟩
  | release _ _ _ row found | close _ _ _ _ row found =>
    refine forall_set (fun id_eq moved => ?_) kept
    obtain rfl : row = p := eq_of_key (mem_of_find? found) hp id_eq
    exact absurd rfl moved
  | advance _ _ _ _ _ task found =>
    intro p' hp' id_eq moved
    rcases moveTask_mem p' hp' with old | ⟨taskId_eq,_,expires,_⟩
    · exact kept p' old id_eq moved
    · obtain rfl : task = p :=
        eq_of_key (mem_of_find? found) hp (taskId_eq.symm.trans id_eq)
      exact absurd expires moved

end

section

variable {s : BoardState}

variable (inv : boardCalls.Serialised BoardData.empty s)
include inv

theorem claimsExclusive_of_serialised : ClaimsExclusive s := by
  have log := claimLog_run s.log inv.ordered
  rw [← inv.data_eq] at log
  exact ⟨fun repoId => log.atMostOne repoId s.clock fun e he _ => inv.logged e he,log.normalised⟩

theorem extendedByOwner_of_serialised (a : LockStep Call) :
    ExtendedByOwner s a := by
  intro p hp p' hp' id_eq claim moved
  have same (h : (boardCalls.step s a).data = s.data) : False := by
    rw [h] at hp'
    rw [eq_of_key hp' hp id_eq] at moved
    exact moved rfl
  rcases boardCalls.step_data s a with unchanged | ⟨h,time,rfl,mem,reading,data⟩
  · exact (same unchanged).elim
  · rw [data,inv.seen h mem] at hp'
    obtain ⟨input,id,call,rest⟩ :=
      expiry_change (serial_change s.data h.call time) hp p' hp' id_eq moved
    exact ⟨h,input,id,time,rfl,mem,call,reading,rest⟩

end

theorem claims_exclusive (clock : Nat) (actions : List (LockStep Call)) :
    ClaimsExclusive (run boardCalls.step (Transactions.opened BoardData.empty clock) actions) ∧
      ∀ a, ExtendedByOwner (run boardCalls.step (Transactions.opened BoardData.empty clock) actions) a := by
  have inv := boardCalls.serialised boardCalls_isolated BoardData.empty clock actions
  exact ⟨claimsExclusive_of_serialised inv,extendedByOwner_of_serialised inv⟩

end CompanyBrain.Board
