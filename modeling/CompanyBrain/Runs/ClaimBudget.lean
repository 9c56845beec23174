import CompanyBrain.Runs.MemoryInvariant

namespace CompanyBrain.Runs.Memory

open Foundations Table Store

def claims (id : String) (s : Store) (c : Call) : Bool :=
  match (s.exec c).2 with
  | .claimed (some run) => run.id = id
  | _ => false

def handsBack (id : String) (s : Store) (c : Call) : Bool :=
  match c.op with
  | .releaseLease runId _ => runId = id && (s.exec c).2 = .flag true
  | _ => false

def claimCount (s : Store) (calls : List Call) (id : String) : Nat :=
  tally step (claims id) s calls

def handBackCount (s : Store) (calls : List Call) (id : String) : Nat :=
  tally step (handsBack id) s calls

def Op.attemptsAllowed : Op → Prop
  | .enqueue input _ => 1 ≤ input.maxAttempts.getD 3
  | _ => True

def Bounded (m : Int) (claimed back : Nat) (r : Run) : Prop :=
  r.attempts = claimed ∧ (r.attempts : Int) ≤ max m 1 + back ∧
  (r.status = .pending → (r.attempts : Int)+1 ≤ max m 1 + back) ∧
  (r.status = .pending ∨ r.status = .running → (r.errorAttempts : Int) < r.maxAttempts)

structure Within (m : Int) (claimed back : String → Nat) (s : Store) : Prop where
  bounded : ∀ r ∈ s.runs, Bounded m (claimed r.id) (back r.id) r
  absent : ∀ id, s.runs.find? id = none → claimed id = 0 ∧ back id = 0

variable {m : Int} {s : Store} {back claimed : String → Nat}

theorem within_counted {claimed' back' : String → Nat} (h : Within m claimed back s) (run : Run)
    (same : ∀ id, run.id ≠ id → claimed' id = claimed id ∧ back' id = back id)
    (hb : Bounded m (claimed' run.id) (back' run.id) run) : Within m claimed' back' (s.put run) := by
  refine ⟨?_,?_⟩
  · intro r hr
    rcases mem_set.mp hr with rfl | ⟨hr,hne⟩
    · exact hb
    · rw [(same _ hne.symm).1,(same _ hne.symm).2]
      exact h.bounded r hr
  · intro id hid
    rw [put_runs,find?_set] at hid
    split at hid
    · cases hid
    next hne =>
      rw [(same id (Ne.symm hne)).1,(same id (Ne.symm hne)).2]
      exact h.absent id hid

theorem within_put (h : Within m claimed back s) (run : Run) (hb : Bounded m (claimed run.id) (back run.id) run) :
    Within m claimed back (s.put run) := within_counted h run (fun _ _ => ⟨rfl,rfl⟩) hb

variable {t : Store}

theorem within_congr (h : Within m claimed back s) (hruns : t.runs = s.runs) : Within m claimed back t :=
  ⟨hruns ▸ h.bounded,hruns ▸ h.absent⟩

theorem move_within {op : Op} (hm : Move op s t) (cap : s.maxClaims = some m) (notClaim : op.isClaim = false)
    (notRelease : ∀ id token, op ≠ .releaseLease id token) (allowed : Op.attemptsAllowed op)
    (h : Within m claimed back s) : Within m claimed back t := by
  cases hm with
  | added input uuid now _ new =>
    obtain ⟨hc,hb⟩ := h.absent uuid new
    refine within_congr (within_put h (newRun input uuid now) ?_) rfl
    simp only [Op.attemptsAllowed] at allowed
    refine ⟨hc.symm,?_,?_,?_⟩ <;> simp [newRun] <;> omega
  | leased _ _ _ _ isClaim => simp [notClaim] at isClaim
  | beat _ _ _ mem =>
    have hb := h.bounded _ mem
    exact within_put h _ hb
  | released token => exact absurd rfl (notRelease _ token)
  | completed _ result now mem =>
    obtain ⟨hc,hle,_,_⟩ := h.bounded _ mem
    refine within_congr (within_put h (completed _ result now) ?_) (settle_runs _ _)
    exact ⟨hc,hle,by simp [completed],by simp [completed]⟩
  | requeued _ mem _ again =>
    obtain ⟨hc,hle,_,_⟩ := h.bounded _ mem
    simp only [retries,overClaimed,cap,Bool.and_eq_true,decide_eq_true_eq,
      Bool.not_eq_true',decide_eq_false_iff_not,not_le] at again
    refine within_put h _ ⟨hc,hle,?_,fun _ => again.1.2⟩
    have under : ((unleased _ op.isFail).attempts : Int) < m := again.2
    dsimp only at under ⊢
    omega
  | parked reason now mem =>
    obtain ⟨hc,hle,_,_⟩ := h.bounded _ mem
    refine within_congr (within_put h (parked _ reason now) ?_) (settle_runs _ _)
    exact ⟨hc,hle,by simp [parked],by simp [parked]⟩
  | recorded => exact within_congr h rfl

theorem claim_cases (s : Store) (w : String) (ttl : Int) (uuid : String) (clock : Clock) :
    s.claim w ttl uuid clock = (s,none) ∨ ∃ run ∈ s.runs, s.claimable run = true ∧ s.claim w ttl uuid clock =
        (s.put (leased run w ttl uuid clock),some (leased run w ttl uuid clock)) := by
  simp only [claim]
  split
  · exact .inl rfl
  next run h =>
    obtain ⟨mem,free⟩ := claim_head_mem h
    exact .inr ⟨run,mem,free,rfl⟩

theorem claimById_cases (s : Store) (id w : String) (ttl : Int) (uuid : String) (clock : Clock) :
    s.claimById id w ttl uuid clock = (s,none) ∨ ∃ run ∈ s.runs, s.claimable run = true ∧
      s.claimById id w ttl uuid clock =
        (s.put (leased run w ttl uuid clock),some (leased run w ttl uuid clock)) := by
  unfold claimById
  split
  · exact .inl rfl
  next run h =>
    split
    next free => exact .inr ⟨run,mem_of_find? h,free,rfl⟩
    · exact .inl rfl

theorem releaseLease_cases (s : Store) (id token : String) :
    s.releaseLease id token = (s,false) ∨ ∃ run ∈ s.runs, run.id = id ∧ run.status = .running ∧
      run.leaseToken = some token ∧ s.releaseLease id token = (s.put (released run),true) := by
  unfold releaseLease
  split
  · exact .inl rfl
  next run h =>
    obtain ⟨mem,hid⟩ := find?_eq_some.mp h
    split
    next held => exact .inr ⟨run,mem,hid,held.1,held.2,rfl⟩
    · exact .inl rfl

theorem within_leased {run : Run} (w : String) (ttl : Int) (uuid : String) (clock : Clock) (h : Within m claimed back s)
    (mem : run ∈ s.runs) (free : s.claimable run = true) :
    Within m (fun id => claimed id + (decide (run.id = id)).toNat) back (s.put (leased run w ttl uuid clock)) := by
  obtain ⟨hc,_,hpend,herr⟩ := h.bounded run mem
  have pending := (claimable_iff.mp free).1
  have room := hpend pending
  refine within_counted h _ (fun id (hne : run.id ≠ id) => by simpa using hne) ?_
  refine ⟨by simp [leased,hc],?_,by simp [leased],fun _ => herr (.inl pending)⟩
  simp only [leased]
  omega

theorem within_released {run : Run} (h : Within m claimed back s) (mem : run ∈ s.runs)
    (running : run.status = .running) :
    Within m claimed (fun id => back id + (decide (run.id = id)).toNat) (s.put (released run)) := by
  obtain ⟨hc,hle,_,herr⟩ := h.bounded run mem
  refine within_counted h _ (fun id (hne : run.id ≠ id) => by simpa using hne) ?_
  refine ⟨hc,?_,?_,fun _ => herr (.inr running)⟩ <;> simp [released] <;> omega

variable {c : Call}

theorem claims_eq_false (h : c.op.isClaim = false) (id : String) : claims id s c = false := by
  obtain ⟨op,clock⟩ := c
  cases op <;> first | rfl | simp [Op.isClaim] at h

theorem handsBack_eq_false (h : ∀ i t, c.op ≠ .releaseLease i t) (id : String) : handsBack id s c = false := by
  obtain ⟨op,clock⟩ := c
  cases op with
  | releaseLease i t => exact absurd rfl (h i t)
  | _ => rfl

theorem handsBack_releaseLease (s : Store) (i t : String) (clock : Clock) (id : String) :
    handsBack id s ⟨.releaseLease i t,clock⟩ = (decide (i = id) && (s.releaseLease i t).2) := by
  have hreply : (s.exec ⟨.releaseLease i t,clock⟩).2 = .flag (s.releaseLease i t).2 := rfl
  simp only [handsBack,hreply]
  cases (s.releaseLease i t).2 <;> simp

theorem within_step (cap : s.maxClaims = some m) (new : Call.newTo s c) (allowed : Op.attemptsAllowed c.op)
    (h : Within m claimed back s) :
    Within m (fun id => claimed id + (claims id s c).toNat)
      (fun id => back id + (handsBack id s c).toNat) (s.step c) := by
  by_cases hclaim : c.op.isClaim = true
  · have quiet : ∀ id, handsBack id s c = false :=
      handsBack_eq_false (fun i t he => by simp [he,Op.isClaim] at hclaim)
    obtain ⟨op,clock⟩ := c
    have leaseOrNot {p : Store × Option Run} {w : String} {ttl : Int} {uuid : String}
        (hstep : s.exec ⟨op,clock⟩ = p.map id Reply.claimed)
        (hp : p = (s,none) ∨ ∃ run ∈ s.runs, s.claimable run = true ∧
          p = (s.put (leased run w ttl uuid clock),some (leased run w ttl uuid clock))) :
        Within m (fun id => claimed id + (claims id s ⟨op,clock⟩).toNat) back (s.step ⟨op,clock⟩) := by
      unfold step claims
      rw [hstep]
      rcases hp with rfl | ⟨run,mem,free,rfl⟩
      · simpa using h
      · exact within_leased w ttl uuid clock h mem free
    cases op with
    | claim w ttl uuid => exact leaseOrNot rfl (claim_cases s w ttl uuid clock)
    | claimById i w ttl uuid => exact leaseOrNot rfl (claimById_cases s i w ttl uuid clock)
    | _ => simp [Op.isClaim] at hclaim
  · have hclaim' : c.op.isClaim = false := by simpa using hclaim
    simp only [claims_eq_false hclaim']
    by_cases hrel : ∃ i t, c.op = .releaseLease i t
    · obtain ⟨i,t,hop⟩ := hrel
      obtain ⟨op,clock⟩ := c
      subst hop
      have hstep : s.step ⟨.releaseLease i t,clock⟩ = (s.releaseLease i t).1 := rfl
      rw [hstep]
      simp only [handsBack_releaseLease]
      rcases releaseLease_cases s i t with he | ⟨run,mem,rfl,running,_,he⟩
      · rw [he]; simpa using h
      · rw [he]; simpa using within_released h mem running
    · have hrel' : ∀ i t, c.op ≠ .releaseLease i t := fun i t he => hrel ⟨i,t,he⟩
      simp only [handsBack_eq_false hrel']
      have hmoves := step_moves new
      exact (moves_induct (P := fun s => s.maxClaims = some m ∧ Within m claimed back s)
        (fun hm hp => ⟨(move_maxClaims hm).trans hp.1,
          move_within hm hp.1 hclaim' hrel' allowed hp.2⟩) hmoves ⟨cap,h⟩).2

theorem claimCount_snoc (s : Store) (past : List Call) (c : Call) : claimCount s (past ++ [c]) = fun id =>
      claimCount s past id + (claims id (run step s past) c).toNat :=
  funext fun _ => tally_snoc _ _ _ _ _

theorem handBackCount_snoc (s : Store) (past : List Call) (c : Call) : handBackCount s (past ++ [c]) = fun id =>
      handBackCount s past id + (handsBack id (run step s past) c).toNat :=
  funext fun _ => tally_snoc _ _ _ _ _

theorem within_run (m : Int) (listeners : List Listener) (calls : List Call)
    (fresh : FreshIds calls) (allowed : ∀ c ∈ calls, Op.attemptsAllowed c.op) :
    let start := create (some m) listeners
    Within m (claimCount start calls) (handBackCount start calls) (run step start calls) := by
  induction calls using List.reverseRecOn with
  | nil => exact ⟨by simp [create],fun _ _ => ⟨rfl,rfl⟩⟩
  | append_singleton past c ih =>
    have hr := reached_run (some m) listeners past (freshIds_closed past c fresh)
    have hw := ih (freshIds_closed past c fresh) (fun d hd => allowed d (by simp [hd]))
    have hs := within_step hr.cap (new_of_fresh fresh hr) (allowed c (by simp)) hw
    dsimp only
    rw [claimCount_snoc,handBackCount_snoc,run_append]
    exact hs

theorem move_keeps_errors {op : Op} (hm : Move op s t) (hop : op.isFail = false) {id : String} {n : Nat}
    (h : ∃ r ∈ s.runs, r.id = id ∧ r.errorAttempts = n) : ∃ r ∈ t.runs, r.id = id ∧ r.errorAttempts = n := by
  rcases move_runs hm with same | ⟨run,new,_,set⟩ | ⟨run,mem,run',set,hid,_,errors⟩
  · rwa [same]
  · rw [set]
    exact exists_set h fun r hr hk => absurd hk (find?_eq_none.mp new r hr)
  · rw [set]
    refine exists_set h fun r hr hk hrest => ?_
    have same := eq_of_key hr mem (hk.trans hid)
    exact ⟨hk.symm.trans hrest.1,by rw [errors hop,← same,hrest.2]⟩

theorem step_keeps_errors (new : Call.newTo s c) (hop : c.op.isFail = false) {r r' : Run} (hr : r ∈ s.runs)
    (hr' : r' ∈ (s.step c).runs) (hid : r'.id = r.id) : r'.errorAttempts = r.errorAttempts := by
  obtain ⟨q,hq,hqid,hqn⟩ := moves_induct
    (fun hm => move_keeps_errors hm hop) (step_moves new) ⟨r,hr,rfl,rfl⟩
  rw [eq_of_key hr' hq (hid.trans hqid.symm),hqn]

theorem claim_budget (m : Int) (listeners : List Listener) (calls : List Call)
    (fresh : FreshIds calls) (allowed : ∀ c ∈ calls, Op.attemptsAllowed c.op) :
    let start := create (some m) listeners
    let s := run step start calls
    (∀ r ∈ s.runs, r.attempts = claimCount start calls r.id ∧
      (claimCount start calls r.id : Int) ≤ max m 1 + handBackCount start calls r.id) ∧
    (∀ r ∈ s.runs, r.status = .pending ∨ r.status = .running → (r.errorAttempts : Int) < r.maxAttempts) ∧
    (∀ past c rest, calls = past ++ c :: rest → c.op.isFail = false →
      ∀ r ∈ (run step start past).runs, ∀ r' ∈ (run step start (past ++ [c])).runs,
        r'.id = r.id → r'.errorAttempts = r.errorAttempts) := by
  have hw := within_run m listeners calls fresh allowed
  refine ⟨?_,?_,?_⟩
  · intro r hr
    obtain ⟨hc,hle,_,_⟩ := hw.bounded r hr
    exact ⟨hc,hc ▸ hle⟩
  · intro r hr
    exact (hw.bounded r hr).2.2.2
  · intro past c rest hsplit hop r hr r' hr' hid
    rw [hsplit,List.append_cons] at fresh
    have fresh' : FreshIds (past ++ [c]) := freshIds_append fresh
    have before := reached_run (some m) listeners past (freshIds_closed past c fresh')
    rw [run_append] at hr'
    exact step_keeps_errors (new_of_fresh fresh' before) hop hr hr' hid

def handBackDrill : List Call :=
  [⟨.enqueue (drillInput "s1" none) "r1",fun _ => 0⟩,⟨.claim "w1" 10 "t1",fun _ => 1⟩,
   ⟨.releaseLease "r1" "t1",fun _ => 2⟩,⟨.claim "w2" 10 "t2",fun _ => 3⟩]

theorem claim_budget_hand_back : (FreshIds handBackDrill ∧ ∀ c ∈ handBackDrill, Op.attemptsAllowed c.op) ∧
    ∀ r ∈ (run step (create (some 1) []) handBackDrill).runs,
      r.status = .pending ∨ r.status = .running → (r.errorAttempts : Int) < r.maxAttempts := by
  have fresh : FreshIds handBackDrill := by unfold FreshIds; decide
  have allowed : ∀ c ∈ handBackDrill, Op.attemptsAllowed c.op := by
    simp [handBackDrill,Op.attemptsAllowed,drillInput]
  exact ⟨⟨fresh,allowed⟩,(claim_budget 1 [] handBackDrill fresh allowed).2.1⟩

theorem claimed_past_cap : FreshIds handBackDrill ∧ (∀ c ∈ handBackDrill, Op.attemptsAllowed c.op) ∧
    ¬ (claimCount (create (some 1) []) handBackDrill "r1" : Int) ≤ 1 := by
  refine ⟨by unfold FreshIds; decide,?_,by decide⟩
  simp [handBackDrill,Op.attemptsAllowed,drillInput]

end CompanyBrain.Runs.Memory
