import CompanyBrain.Board.OAuth

namespace CompanyBrain.Board

open Foundations Table Function

section

variable {limits : Table RateLimit.key} {key : LimitKey} {windowMs t : Nat} {row : RateLimit}

theorem countHit_key : (countHit row windowMs t).key = row.key := by
  unfold countHit
  split <;> rfl

theorem hit_new (absent : limits.find? key = none) :
    (hit limits key windowMs t).1.find? key = some ⟨key,t,1,windowMs⟩ := by
  simp only [hit,absent]
  exact find?_set_key limits rfl

theorem hit_stored (stored : limits.find? key = some row) :
    (hit limits key windowMs t).1.find? key = some (countHit row windowMs t) ∧
      (hit limits key windowMs t).2 = (countHit row windowMs t).hits := by
  simp only [hit,stored]
  exact ⟨find?_set_key limits (countHit_key.trans (key_of_find? stored)),trivial⟩

theorem hit_other {key' : LimitKey} (other : key' ≠ key) :
    (hit limits key windowMs t).1.find? key' = limits.find? key' := by
  unfold hit
  rw [find?_set,if_neg]
  cases stored : limits.find? key with
  | none => exact other
  | some => simpa only [countHit_key,key_of_find? stored] using other

end

structure Valid (hashing : Hashing) (issued : List IssuedCode) (r : Redemption) (code : IssuedCode) : Prop where
  issued : issued[r.request.code]? = some code
  uid : r.uid = code.asked.uid
  client : r.request.clientId = code.asked.clientId
  redirectUri : r.request.redirectUri = code.asked.redirectUri
  verifier : validVerifier r.request.verifier = true ∧ hashing.sha256 r.request.verifier = code.asked.challenge
  nonce : r.nonce = code.nonce
  since : code.time ≤ r.checkedAt
  unexpired : r.checkedAt < code.time + CODE_TTL_MS

def TokenPhase.redemption : TokenPhase → Option Redemption
  | .redeemed r | .counting r _ | .passed r | .granted r _ => some r
  | .idle | .refused _ => none

def TokenPhase.spent : TokenPhase → Option Redemption
  | .passed r | .granted r _ => some r
  | _ => none

structure PhaseOk (hashing : Hashing) (s : TokenDesk) (phase : TokenPhase) : Prop where
  valid : ∀ r, phase.redemption = some r → ∃ code, Valid hashing s.issued r code
  checked : ∀ r, phase = .redeemed r → r.checkedAt ≤ s.clock
  read : ∀ r t, phase = .counting r t → r.checkedAt ≤ t ∧ t ≤ s.clock

structure TokensOk (hashing : Hashing) (s : TokenDesk) : Prop where
  issued : ∀ code ∈ s.issued, code.time ≤ s.clock
  phases : ∀ i, PhaseOk hashing s (s.requests i)
  purges : ∀ k t, s.purges k = some t → t ≤ s.clock

open TokenDesk (step start)

section

variable {hashing : Hashing} {known : String → Bool} {s : TokenDesk} {r : Redemption} {code : IssuedCode}
  {phase : TokenPhase}

theorem Valid.issue (valid : Valid hashing s.issued r code) (more : List IssuedCode) :
    Valid hashing (s.issued ++ more) r code := by
  have inside := (List.getElem?_eq_some_iff.mp valid.issued).1
  exact {valid with issued := (List.getElem?_append_left inside).trans valid.issued}

theorem redeemCode_valid {request : TokenRequest} {uid now : Nat} {nonce : String}
    (redeemed : redeemCode hashing s.issued request now = some (uid,nonce)) (late : ∀ c ∈ s.issued, c.time ≤ now) :
    ∃ code, Valid hashing s.issued ⟨request,uid,nonce,now⟩ code := by
  unfold redeemCode unsealCode at redeemed
  cases stored : s.issued[request.code]? with
  | none =>
    rw [stored] at redeemed
    cases redeemed
  | some code =>
    simp only [stored,Option.map_some,issueCode] at redeemed
    split at redeemed
    · cases redeemed
    rename_i fits
    simp only [Bool.or_eq_true,decide_eq_true_iff,not_or,not_le,not_not] at fits
    split at redeemed
    · cases redeemed
    rename_i shaped
    split at redeemed
    · cases redeemed
    rename_i hashed
    cases Option.some.inj redeemed
    exact ⟨code,{
      issued := stored
      uid := rfl
      client := (hashing.fingerprint_injective fits.1.2).symm
      redirectUri := fits.2.symm
      verifier := ⟨by simpa using shaped,by simpa using hashed⟩
      nonce := rfl
      since := late code (List.mem_of_getElem? stored)
      unexpired := fits.1.1}⟩

theorem phaseOk_refused (error : TokenError) : PhaseOk hashing s (.refused error) := ⟨nofun,nofun,nofun⟩

theorem phaseOk_begin (ok : TokensOk hashing s) (request : TokenRequest) :
    PhaseOk hashing s (beginToken hashing known s request) := by
  unfold beginToken
  split
  · exact phaseOk_refused _
  split
  · exact phaseOk_refused _
  split
  · exact phaseOk_refused _
  rename_i uid nonce redeemed
  obtain ⟨code,valid⟩ := redeemCode_valid redeemed ok.issued
  exact {
    valid := by
      rintro r ⟨⟩
      exact ⟨code,valid⟩
    checked := by
      rintro r ⟨⟩
      exact le_rfl
    read := nofun}

theorem PhaseOk.later {s' : TokenDesk} (ok : PhaseOk hashing s phase) (issued : s.issued <+: s'.issued)
    (clock : s.clock ≤ s'.clock) : PhaseOk hashing s' phase where
  valid r is := by
    obtain ⟨code,valid⟩ := ok.valid r is
    obtain ⟨more,same⟩ := issued
    exact ⟨code,same ▸ valid.issue more⟩
  checked r is := le_trans (ok.checked r is) clock
  read r t is := ⟨(ok.read r t is).1,le_trans (ok.read r t is).2 clock⟩

theorem TokensOk.set (ok : TokensOk hashing s) (i : Nat) (here : PhaseOk hashing s phase)
    (limits : Table RateLimit.key) : TokensOk hashing {s.set i phase with limits := limits} where
  issued := ok.issued
  phases := (forall_update_iff s.requests fun _ => PhaseOk hashing _).mpr
    ⟨here.later (List.prefix_refl _) le_rfl,fun j _ => (ok.phases j).later (List.prefix_refl _) le_rfl⟩
  purges := ok.purges

variable (hashing known s) in
inductive TokenMove : TokenEvent → TokenDesk → Prop
  | idle (e : TokenEvent) : TokenMove e s
  | tick (ms : Nat) : TokenMove (.tick ms) {s with clock := s.clock + ms}
  | issue (asked : NewCode) (nonce : String) :
      TokenMove (.issue asked nonce) {s with issued := s.issued ++ [⟨asked,nonce,s.clock⟩]}
  | begin (i : Nat) (request : TokenRequest) :
      TokenMove (.begin i request) (s.set i (beginToken hashing known s request))
  | read (i : Nat) (r : Redemption) (here : s.requests i = .redeemed r) :
      TokenMove (.read i) (s.set i (.counting r s.clock))
  | count (i : Nat) (r : Redemption) (t : Nat) (here : s.requests i = .counting r t) :
      TokenMove (.count i)
        {s.set i (if 1 < (countToken s r t).2 then .refused .invalidGrant else .passed r) with
          limits := (countToken s r t).1}
  | refuse (e : TokenEvent) (i : Nat) (error : TokenError) : TokenMove e (s.set i (.refused error))
  | lose (i : Nat) (r : Redemption) (t : Nat) :
      TokenMove (.lose i) {s.set i (.refused .serverError) with limits := (countToken s r t).1}
  | grant (i : Nat) (r : Redemption) (here : s.requests i = .passed r) :
      TokenMove (.finish i true) (s.set i (.granted r s.clock))
  | limit (key : String) (windowMs t : Nat) :
      TokenMove (.limit key windowMs t) {s with limits := (hit s.limits (.other key) windowMs t).1}
  | purge (k : Nat) : TokenMove (.purge k) {s with purges := update s.purges k (some s.clock)}
  | sweep (k t : Nat) (started : s.purges k = some t) :
      TokenMove (.sweep k)
        {s with limits := purgeLimits s.limits t, purges := update s.purges k none}

theorem step_moves (e : TokenEvent) : TokenMove hashing known s e (s.step hashing known e) := by
  cases e with
  | tick ms => exact .tick ms
  | issue => exact .issue ..
  | begin i request =>
    simp only [step]
    split
    · exact .begin i request
    · exact .idle _
  | read i =>
    simp only [step]
    split
    next r here => exact .read i r here
    · exact .idle _
  | count i =>
    simp only [step]
    split
    next r t here => exact .count i r t here
    · exact .idle _
  | fail i =>
    simp only [step]
    split <;> first | exact .refuse _ i _ | exact .idle _
  | lose i =>
    simp only [step]
    split
    next r t here => exact .lose i r t
    · exact .idle _
  | finish i issued =>
    simp only [step]
    split
    next r here =>
      cases issued with
      | true => exact .grant i r here
      | false => exact .refuse _ i _
    · exact .idle _
  | limit => exact .limit ..
  | purge k => exact .purge k
  | sweep k =>
    simp only [step]
    split
    next t started => exact .sweep k t started
    · exact .idle _

variable (ok : TokensOk hashing s)
include ok

theorem TokensOk.later {s' : TokenDesk} (requests : s'.requests = s.requests)
    (clock : s.clock ≤ s'.clock) (before : s.issued <+: s'.issued) (issued : ∀ code ∈ s'.issued, code.time ≤ s'.clock)
    (purges : ∀ k t, s'.purges k = some t → t ≤ s'.clock) : TokensOk hashing s' where
  issued := issued
  phases i := by
    rw [requests]
    exact (ok.phases i).later before clock
  purges := purges

theorem purges_update {k : Nat} {reading : Option Nat}
    (past : ∀ t, reading = some t → t ≤ s.clock) (j t : Nat)
    (started : update s.purges k reading j = some t) : t ≤ s.clock :=
  (forall_update_iff s.purges fun _ r => ∀ t, r = some t → t ≤ s.clock).mpr ⟨past,fun j _ => ok.purges j⟩ j t started

theorem tokensOk_step (e : TokenEvent) : TokensOk hashing (s.step hashing known e) := by
  have moved := @step_moves hashing known s e
  generalize s.step hashing known e = s' at moved
  have same : s.issued <+: s.issued := List.prefix_refl _
  cases moved with
  | idle => exact ok
  | tick ms =>
    have later : s.clock ≤ s.clock + ms := Nat.le_add_right _ _
    exact ok.later rfl later same (fun code mem => le_trans (ok.issued code mem) later)
      fun k t started => le_trans (ok.purges k t started) later
  | issue =>
    exact ok.later rfl le_rfl (List.prefix_append _ _) (forall_snoc ok.issued le_rfl) ok.purges
  | begin i request => exact ok.set i (phaseOk_begin ok request) s.limits
  | read i r here =>
    have phase := here ▸ ok.phases i
    have counting : PhaseOk hashing s (.counting r s.clock) := by
      refine ⟨phase.valid,nofun,?_⟩
      rintro r' t ⟨⟩
      exact ⟨phase.checked r rfl,le_rfl⟩
    exact ok.set i counting s.limits
  | count i r t here =>
    refine ok.set i ?_ _
    split
    · exact phaseOk_refused _
    · exact ⟨(here ▸ ok.phases i).valid,nofun,nofun⟩
  | refuse e i error => exact ok.set i (phaseOk_refused error) s.limits
  | lose i => exact ok.set i (phaseOk_refused _) _
  | grant i r here =>
    have granted : PhaseOk hashing s (.granted r s.clock) := ⟨(here ▸ ok.phases i).valid,nofun,nofun⟩
    exact ok.set i granted s.limits
  | limit => exact ok.later rfl le_rfl same ok.issued ok.purges
  | purge =>
    refine ok.later rfl le_rfl same ok.issued (purges_update ok ?_)
    rintro t ⟨⟩
    exact le_rfl
  | sweep => exact ok.later rfl le_rfl same ok.issued (purges_update ok nofun)

end

def Counted (limits : Table RateLimit.key) (code : IssuedCode) : Prop :=
  ∃ row, limits.find? (.oauthCode code.nonce) = some row ∧ code.time ≤ row.windowStart ∧ 1 ≤ row.hits

def live (s : TokenDesk) (code : IssuedCode) : Prop := s.clock < code.time + CODE_TTL_MS

structure SpentOnce (s : TokenDesk) : Prop where
  positive : ∀ row ∈ s.limits, 1 ≤ row.hits
  counted : ∀ i r code, (s.requests i).spent = some r → s.issued[r.request.code]? = some code → live s code →
    Counted s.limits code
  alone : ∀ i j r r' code, (s.requests i).spent = some r → (s.requests j).spent = some r' →
    r.request.code = r'.request.code → s.issued[r.request.code]? = some code → live s code → i = j

structure RedeemedOnce (hashing : Hashing) (s : TokenDesk) : Prop where
  valid : ∀ i r t, s.requests i = .granted r t →
    ∃ code, Valid hashing s.issued r code ∧ t < code.time + CODE_TTL_MS
  once : ∀ i j r r' t t', s.requests i = .granted r t → s.requests j = .granted r' t' →
    r.request.code = r'.request.code → i = j

def prompt (s : TokenDesk) : TokenEvent → Bool
  | .finish i true =>
    match s.requests i with
    | .passed r => s.issued[r.request.code]?.all fun code => s.clock < code.time + CODE_TTL_MS
    | _ => true
  | _ => true

section

variable {limits : Table RateLimit.key} {key : LimitKey} {windowMs t : Nat} {code : IssuedCode}

theorem positive_hit (positive : ∀ row ∈ limits, 1 ≤ row.hits) (row : RateLimit)
    (mem : row ∈ (hit limits key windowMs t).1) : 1 ≤ row.hits := by
  rcases mem_set.mp mem with rfl | ⟨mem,_⟩
  · cases stored : limits.find? key with
    | none => exact Nat.le_refl 1
    | some =>
      simp only [countHit]
      split
      · exact Nat.le_refl 1
      · exact Nat.le_add_left 1 _
  · exact positive row mem

theorem counted_hit (counted : Counted limits code) : Counted (hit limits key windowMs t).1 code := by
  obtain ⟨row,stored,since,hits⟩ := counted
  by_cases same : .oauthCode code.nonce = key
  · subst same
    refine ⟨_,(hit_stored stored).1,?_⟩
    unfold countHit
    split
    · exact ⟨by dsimp only; omega,Nat.le_refl 1⟩
    · exact ⟨since,Nat.le_add_left 1 _⟩
  · exact ⟨row,(hit_other same).trans stored,since,hits⟩

theorem counted_purge (counted : Counted limits code) (recent : t < code.time + CODE_TTL_MS) :
    Counted (purgeLimits limits t) code := by
  obtain ⟨row,stored,since,hits⟩ := counted
  refine ⟨row,?_,since,hits⟩
  rw [find?_eq_some]
  refine ⟨mem_filter.mpr ⟨mem_of_find? stored,?_⟩,key_of_find? stored⟩
  have kept : ¬row.windowStart + max row.windowMs HOUR_MS < t := by
    have hour : HOUR_MS = 3600000 := rfl
    have life : CODE_TTL_MS = 120000 := rfl
    omega
  simpa using kept

end

section

variable {hashing : Hashing} {known : String → Bool} {s : TokenDesk} {r : Redemption} {code : IssuedCode}
  {t : Nat}

theorem counted_new (positive : ∀ row ∈ s.limits, 1 ≤ row.hits) (valid : Valid hashing s.issued r code)
    (read : r.checkedAt ≤ t) (first : ¬1 < (countToken s r t).2) : Counted (countToken s r t).1 code := by
  have since := le_trans valid.since read
  unfold Counted
  rw [← valid.nonce]
  unfold countToken at first ⊢
  cases stored : s.limits.find? (.oauthCode r.nonce) with
  | none => exact ⟨_,hit_new stored,since,Nat.le_refl 1⟩
  | some row =>
    have hits := positive row (mem_of_find? stored)
    rw [(hit_stored stored).2] at first
    refine ⟨_,(hit_stored stored).1,?_⟩
    unfold countHit at first ⊢
    split at first
    next lapsed =>
      rw [if_pos lapsed]
      exact ⟨since,Nat.le_refl 1⟩
    · exact absurd (Nat.lt_add_of_pos_left hits) first

theorem refused_of_counted (counted : Counted s.limits code) (valid : Valid hashing s.issued r code)
    (early : t < code.time + CODE_TTL_MS) : 1 < (countToken s r t).2 := by
  obtain ⟨row,stored,since,hits⟩ := counted
  rw [← valid.nonce] at stored
  unfold countToken
  rw [(hit_stored stored).2]
  unfold countHit
  rw [if_neg (by omega)]
  exact Nat.lt_add_of_pos_left hits

theorem SpentOnce.frame {s' : TokenDesk} (once : SpentOnce s) (positive : ∀ row ∈ s'.limits, 1 ≤ row.hits)
    (spent : ∀ i r, (s'.requests i).spent = some r → (s.requests i).spent = some r)
    (kept : ∀ i r code, (s.requests i).spent = some r → s'.issued[r.request.code]? = some code →
      live s' code → s.issued[r.request.code]? = some code ∧ live s code ∧
        (Counted s.limits code → Counted s'.limits code)) : SpentOnce s' where
  positive := positive
  counted i r code is stored fresh := by
    obtain ⟨before,early,counted⟩ := kept i r code (spent i r is) stored fresh
    exact counted (once.counted i r code (spent i r is) before early)
  alone i j r r' code hi hj same stored fresh := by
    obtain ⟨before,early,_⟩ := kept i r code (spent i r hi) stored fresh
    exact once.alone i j r r' code (spent i r hi) (spent j r' hj) same before early

variable {phase : TokenPhase}

theorem spent_set {i : Nat} (unspent : ∀ r, phase.spent = some r → (s.requests i).spent = some r)
    (j : Nat) (r : Redemption) (is : ((s.set i phase).requests j).spent = some r) : (s.requests j).spent = some r := by
  by_cases same : j = i
  · rw [same] at is ⊢
    simp only [TokenDesk.set,update_self] at is
    exact unspent r is
  · simpa only [TokenDesk.set,update_of_ne same] using is

theorem SpentOnce.set (once : SpentOnce s) {i : Nat}
    (unspent : ∀ r, phase.spent = some r → (s.requests i).spent = some r) : SpentOnce (s.set i phase) :=
  once.frame once.positive (spent_set unspent) fun _ _ _ _ stored fresh => ⟨stored,fresh,id⟩

theorem spentOnce_count (ok : TokensOk hashing s) (once : SpentOnce s) {i : Nat} (here : s.requests i = .counting r t) :
    SpentOnce {s.set i (if 1 < (countToken s r t).2 then .refused .invalidGrant else .passed r) with
      limits := (countToken s r t).1} := by
  have positive : ∀ row ∈ (countToken s r t).1, 1 ≤ row.hits := positive_hit once.positive
  by_cases late : 1 < (countToken s r t).2
  · rw [if_pos late]
    exact once.frame positive (spent_set nofun) fun _ _ _ _ stored fresh => ⟨stored,fresh,counted_hit⟩
  rw [if_neg late]
  have phase := here ▸ ok.phases i
  obtain ⟨code,valid⟩ := phase.valid r rfl
  obtain ⟨checked,past⟩ := phase.read r t rfl
  have first (fresh : live s code) (j : Nat) (r' : Redemption) (is : (s.requests j).spent = some r') :
      r'.request.code ≠ r.request.code := by
    intro same
    have counted := once.counted j r' code is (same ▸ valid.issued) fresh
    exact late (refused_of_counted counted valid (lt_of_le_of_lt past fresh))
  have either (j : Nat) (r' : Redemption) (is : ((s.set i (.passed r)).requests j).spent = some r') :
      (j = i ∧ r' = r) ∨ (s.requests j).spent = some r' := by
    by_cases same : j = i
    · rw [same] at is
      simp only [TokenDesk.set,update_self] at is
      exact .inl ⟨same,(Option.some.inj is).symm⟩
    · exact .inr (by simpa only [TokenDesk.set,update_of_ne same] using is)
  exact {
    positive := positive
    counted := by
      intro j r' code' is stored unlapsed
      rcases either j r' is with ⟨_,rfl⟩ | is
      · cases valid.issued.symm.trans stored
        exact counted_new once.positive valid checked late
      · exact counted_hit (once.counted j r' code' is stored unlapsed)
    alone := by
      intro j k r₁ r₂ code' hj hk same stored fresh
      rcases either j r₁ hj with ⟨hji,rfl⟩ | spent <;> rcases either k r₂ hk with ⟨hki,hr⟩ | spent'
      · rw [hji,hki]
      · cases valid.issued.symm.trans stored
        exact absurd same.symm (first fresh k r₂ spent')
      · rw [hr] at same
        cases valid.issued.symm.trans (same ▸ stored)
        exact absurd same (first fresh j r₁ spent)
      · exact once.alone j k r₁ r₂ code' spent spent' same stored fresh}

theorem beginToken_unspent (request : TokenRequest) : (beginToken hashing known s request).spent = none := by
  unfold beginToken
  split
  · rfl
  split
  · rfl
  split <;> rfl

theorem redemption_of_spent (is : phase.spent = some r) : phase.redemption = some r := by
  cases phase <;> first | exact is | cases is

theorem spentOnce_step (ok : TokensOk hashing s) (once : SpentOnce s) (e : TokenEvent) :
    SpentOnce (s.step hashing known e) := by
  have moved := @step_moves hashing known s e
  generalize s.step hashing known e = s' at moved
  cases moved with
  | idle => exact once
  | tick =>
    exact once.frame once.positive (fun _ _ is => is) fun _ _ _ _ stored fresh =>
      ⟨stored,lt_of_le_of_lt (Nat.le_add_right _ _) fresh,id⟩
  | issue asked nonce =>
    refine once.frame once.positive (fun _ _ is => is) fun i r code is stored fresh => ⟨?_,fresh,id⟩
    obtain ⟨code',valid⟩ := (ok.phases i).valid r (redemption_of_spent is)
    have still := (valid.issue [⟨asked,nonce,s.clock⟩]).issued
    cases still.symm.trans stored
    exact valid.issued
  | begin =>
    refine once.set fun r is => ?_
    rw [beginToken_unspent] at is
    cases is
  | read | refuse => exact once.set nofun
  | count i r t here => exact spentOnce_count ok once here
  | lose =>
    exact once.frame (positive_hit once.positive) (spent_set nofun) fun _ _ _ _ stored fresh =>
      ⟨stored,fresh,counted_hit⟩
  | grant i r here =>
    refine once.set fun r' is => ?_
    rw [here]
    exact is
  | limit =>
    exact once.frame (positive_hit once.positive) (fun _ _ is => is) fun _ _ _ _ stored fresh =>
      ⟨stored,fresh,counted_hit⟩
  | purge => exact once.frame once.positive (fun _ _ is => is) fun _ _ _ _ stored fresh => ⟨stored,fresh,id⟩
  | sweep k t started =>
    refine once.frame (fun row mem => once.positive row (mem_filter.mp mem).1) (fun _ _ is => is)
      fun _ _ code _ stored fresh => ⟨stored,fresh,fun counted => ?_⟩
    exact counted_purge counted (lt_of_le_of_lt (ok.purges k t started) fresh)

theorem RedeemedOnce.frame {s' : TokenDesk} (redeemed : RedeemedOnce hashing s) (issued : s.issued <+: s'.issued)
    (granted : ∀ i r t, s'.requests i = .granted r t → s.requests i = .granted r t) : RedeemedOnce hashing s' where
  valid i r t is := by
    obtain ⟨code,valid,early⟩ := redeemed.valid i r t (granted i r t is)
    obtain ⟨more,same⟩ := issued
    exact ⟨code,same ▸ valid.issue more,early⟩
  once i j r r' t t' hi hj := redeemed.once i j r r' t t' (granted i r t hi) (granted j r' t' hj)

theorem RedeemedOnce.set (redeemed : RedeemedOnce hashing s) (i : Nat) (ungranted : ∀ r t, phase ≠ .granted r t)
    (limits : Table RateLimit.key) : RedeemedOnce hashing {s.set i phase with limits := limits} := by
  refine redeemed.frame (List.prefix_refl _) fun j r t is => ?_
  by_cases same : j = i
  · rw [same] at is
    simp only [TokenDesk.set,update_self] at is
    exact absurd is (ungranted r t)
  · simpa only [TokenDesk.set,update_of_ne same] using is

theorem prompt_iff {i : Nat} (here : s.requests i = .passed r) (issued : s.issued[r.request.code]? = some code) :
    prompt s (.finish i true) = true ↔ live s code := by
  simp [prompt,here,issued,live]

theorem redeemedOnce_grant (once : SpentOnce s) (redeemed : RedeemedOnce hashing s) {i : Nat}
    (here : s.requests i = .passed r) (valid : Valid hashing s.issued r code) (fresh : live s code) :
    RedeemedOnce hashing (s.set i (.granted r s.clock)) := by
  have spent : (s.requests i).spent = some r := by rw [here]; rfl
  have either (j : Nat) (r' : Redemption) (t : Nat) (is : (s.set i (.granted r s.clock)).requests j = .granted r' t) :
      (j = i ∧ r' = r ∧ t = s.clock) ∨ s.requests j = .granted r' t := by
    by_cases same : j = i
    · rw [same] at is
      simp only [TokenDesk.set,update_self] at is
      cases is
      exact .inl ⟨same,rfl,rfl⟩
    · exact .inr (by simpa only [TokenDesk.set,update_of_ne same] using is)
  have alone (j : Nat) (r' : Redemption) (t : Nat) (is : s.requests j = .granted r' t)
      (same : r.request.code = r'.request.code) : i = j :=
    once.alone i j r r' code spent (by rw [is]; rfl) same valid.issued fresh
  constructor
  · intro j r' t is
    rcases either j r' t is with ⟨_,rfl,rfl⟩ | is
    · exact ⟨code,valid,fresh⟩
    · exact redeemed.valid j r' t is
  · intro j k r₁ r₂ t₁ t₂ hj hk same
    rcases either j r₁ t₁ hj with ⟨hji,hr,_⟩ | old <;> rcases either k r₂ t₂ hk with ⟨hki,hr',_⟩ | old'
    · rw [hji,hki]
    · exact hji.trans (alone k r₂ t₂ old' (hr ▸ same))
    · exact (hki.trans (alone j r₁ t₁ old (hr' ▸ same.symm))).symm
    · exact redeemed.once j k r₁ r₂ t₁ t₂ old old' same

def Grants (s : TokenDesk) (e : TokenEvent) : Prop := ∃ i r, e = .finish i true ∧ s.requests i = .passed r

theorem prompt_of_not_grants {e : TokenEvent} (other : ¬Grants s e) : prompt s e = true := by
  unfold prompt
  split
  next i =>
    split
    next r here => exact absurd ⟨i,r,rfl,here⟩ other
    · rfl
  · rfl

theorem redeemedOnce_step (redeemed : RedeemedOnce hashing s) {e : TokenEvent} (other : ¬Grants s e) :
    RedeemedOnce hashing (s.step hashing known e) := by
  have moved := @step_moves hashing known s e
  generalize s.step hashing known e = s' at moved
  have same : s.issued <+: s.issued := List.prefix_refl _
  cases moved with
  | idle => exact redeemed
  | tick | limit | purge | sweep => exact redeemed.frame same fun _ _ _ is => is
  | issue => exact redeemed.frame (List.prefix_append _ _) fun _ _ _ is => is
  | begin i request =>
    refine redeemed.set i (fun r t is => ?_) s.limits
    have unspent := @beginToken_unspent hashing known s request
    rw [is] at unspent
    cases unspent
  | read i | refuse _ i =>
    refine redeemed.set i ?_ s.limits
    exact nofun
  | count i =>
    refine redeemed.set i ?_ _
    split <;> exact nofun
  | lose i =>
    refine redeemed.set i ?_ _
    exact nofun
  | grant i r here => exact absurd ⟨i,r,rfl,here⟩ other

theorem redeemedOnce_step_iff (ok : TokensOk hashing s) (once : SpentOnce s) (redeemed : RedeemedOnce hashing s)
    (e : TokenEvent) : RedeemedOnce hashing (s.step hashing known e) ↔ prompt s e = true := by
  by_cases grants : Grants s e
  · obtain ⟨i,r,rfl,here⟩ := grants
    obtain ⟨code,valid⟩ := (ok.phases i).valid r (by rw [here]; rfl)
    have granted : s.step hashing known (.finish i true) = s.set i (.granted r s.clock) := by simp [step,here]
    rw [granted,prompt_iff here valid.issued]
    constructor
    · intro after
      obtain ⟨code',valid',early⟩ := after.valid i r s.clock (update_self ..)
      cases valid.issued.symm.trans valid'.issued
      exact early
    · exact redeemedOnce_grant once redeemed here valid
  · exact iff_of_true (redeemedOnce_step redeemed grants) (prompt_of_not_grants grants)

theorem tokensOk_start : TokensOk hashing start :=
  ⟨nofun,fun _ => ⟨nofun,nofun,nofun⟩,nofun⟩

theorem spentOnce_start : SpentOnce start :=
  ⟨nofun,nofun,nofun⟩

variable (hashing known)

theorem tokensOk_run (events : List TokenEvent) :
    TokensOk hashing (run (step hashing known) start events) := by
  induction events using List.reverseRecOn with
  | nil => exact tokensOk_start
  | append_singleton _ e ih =>
    rw [run_append]
    exact tokensOk_step ih e

theorem codes_redeemed_once (events : List TokenEvent) :
    (∀ i r t, (run (step hashing known) start events).requests i = .granted r t →
        ∃ code, Valid hashing (run (step hashing known) start events).issued r code) ∧
      (Along (step hashing known) (fun s e => RedeemedOnce hashing (s.step hashing known e)) start events ↔
        Along (step hashing known) (fun s e => prompt s e = true) start events) := by
  constructor
  · intro i r t here
    exact ((tokensOk_run hashing known events).phases i).valid r (by rw [here]; rfl)
  · refine @along_congr _ _ _ _ _ (fun s => TokensOk hashing s ∧ SpentOnce s ∧ RedeemedOnce hashing s) ?_ ?_ _ events ?_
    · rintro s e ⟨ok,once,redeemed⟩
      exact redeemedOnce_step_iff ok once redeemed e
    · rintro s e ⟨ok,once,_⟩ redeemed
      exact ⟨tokensOk_step ok e,spentOnce_step ok once e,redeemed⟩
    · exact ⟨tokensOk_start,spentOnce_start,nofun,nofun⟩

end

def plainHashing : Hashing := ⟨id,injective_id,fun _ => "h"⟩

def redeemTwice (request : TokenRequest) : List TokenEvent :=
  [.issue ⟨7,"app","cb","h"⟩ "n1",.tick 1000,
    .begin 1 request,.read 1,.begin 2 request,.read 2,.count 1,.finish 1 true]

def firstCode : TokenRequest :=
  ⟨"authorization_code","app",0,"cb",List.replicate 43 'v'⟩

theorem redeemed_by_first_request : (run (step plainHashing fun _ => true) start
        (redeemTwice firstCode ++ [.count 2,.finish 2 true])).requests 1 = .granted ⟨firstCode,7,"n1",1000⟩ 1000 ∧
    Along (step plainHashing fun _ => true)
      (fun s e => RedeemedOnce plainHashing (s.step plainHashing (fun _ => true) e)) start
      (redeemTwice firstCode ++ [.count 2,.finish 2 true]) := by
  refine ⟨by decide +kernel,?_⟩
  exact (codes_redeemed_once plainHashing (fun _ => true) _).2.mpr (by decide +kernel)

theorem redeemed_twice_after_purge : (run (step plainHashing fun _ => true) start
        (redeemTwice firstCode ++ [.tick (HOUR_MS+1),.purge 1,.sweep 1,.count 2,.finish 2 true])).requests 1 =
      .granted ⟨firstCode,7,"n1",1000⟩ 1000 ∧ (run (step plainHashing fun _ => true) start
        (redeemTwice firstCode ++ [.tick (HOUR_MS+1),.purge 1,.sweep 1,.count 2,.finish 2 true])).requests 2 =
      .granted ⟨firstCode,7,"n1",1000⟩ 3601001 := by
  decide +kernel

end CompanyBrain.Board
