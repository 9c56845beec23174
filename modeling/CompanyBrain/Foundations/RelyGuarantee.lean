import CompanyBrain.Foundations.Programs

namespace CompanyBrain.Foundations

variable {σ ℓ ε π η α β : Type}

structure Contract (σ ℓ : Type) where
  inv : σ → Prop
  guar : Nat → ℓ → σ → σ → Prop
  rely : Nat → σ → σ → Prop
  fits : σ → ℓ → Bool
  refl : ∀ i s, rely i s s
  trans : ∀ i s s' s'', rely i s s' → rely i s' s'' → rely i s s''
  apart : ∀ i j l s s', i ≠ j → guar i l s s' → rely j s s'

namespace Contract

variable (c : Contract σ ℓ)

def Safe (i : Nat) : Task σ ℓ → σ → Prop
  | .done, _ => True
  | .step l act next error, s => ∀ s', c.rely i s s' → c.inv s' → Safe i error s' ∧
      (c.fits s' l = true → c.inv (act s') ∧ c.guar i l s' (act s') ∧ Safe i (next s') (act s') ∧
        Safe i error (act s'))

def Wp (i : Nat) (m : Prog σ ℓ ε α) (post : α → σ → Prop) (s : σ) : Prop :=
  ∀ raise ret, c.inv s → (∀ e s', c.inv s' → c.Safe i (raise e) s') →
    (∀ a s', c.inv s' → post a s' → c.Safe i (ret a) s') → c.Safe i (m raise ret) s

section

variable {c} {i : Nat} {s s' : σ} {m : Prog σ ℓ ε α} {f : α → Prog σ ℓ ε β} {post : α → σ → Prop}

theorem safe_rely {t : Task σ ℓ} (safe : c.Safe i t s) (le : c.rely i s s') : c.Safe i t s' := by
  cases t with
  | done => trivial
  | step => exact fun s'' le' => safe s'' (c.trans _ _ _ _ le le')

theorem wp_pure {a : α} (here : post a s) : c.Wp i (pure a : Prog σ ℓ ε α) post s :=
  fun _ _ inv _ returns => returns a s inv here

theorem wp_throw (e : ε) : c.Wp i (throw e : Prog σ ℓ ε α) post s :=
  fun _ _ inv throws _ => throws e s inv

theorem wp_bind {post : β → σ → Prop} (first : c.Wp i m (fun a s' => c.Wp i (f a) post s') s) :
    c.Wp i (m >>= f) post s := by
  intro raise ret inv throws returns
  refine first raise _ inv throws fun a s' inv' rest => ?_
  exact rest raise ret inv' throws returns

theorem wp_mono {post' : α → σ → Prop} (wp : c.Wp i m post s)
    (weaker : ∀ a s', c.inv s' → post a s' → post' a s') : c.Wp i m post' s :=
  fun raise ret inv throws returns =>
    wp raise ret inv throws fun a s' inv' here => returns a s' inv' (weaker a s' inv' here)

theorem wp_tryCatch {handle : ε → Prog σ ℓ ε α} (wp : c.Wp i m post s)
    (handled : ∀ e s', c.Wp i (handle e) post s') : c.Wp i (tryCatch m handle) post s := by
  intro raise ret inv throws returns
  refine wp _ ret inv (fun e s' inv' => ?_) returns
  exact handled e s' raise ret inv' throws returns

theorem wp_stmt {l : ℓ} {lost : ε} {act : σ → σ × α} (ok : ∀ s', c.rely i s s' → c.inv s' → c.fits s' l →
      c.inv (act s').1 ∧ c.guar i l s' (act s').1 ∧ post (act s').2 (act s').1) :
    c.Wp i (Prog.stmt l lost act) post s := by
  intro raise ret _ throws returns s' le inv
  refine ⟨throws lost s' inv,fun fits => ?_⟩
  obtain ⟨inv',guar,here⟩ := ok s' le inv fits
  exact ⟨inv',guar,returns _ _ inv' here,throws lost _ inv'⟩

theorem safe_toTask (wp : c.Wp i m post s) (inv : c.inv s) : c.Safe i m.toTask s :=
  wp _ _ inv (fun _ _ _ => trivial) fun _ _ _ _ => trivial

end

end Contract

def PoolStep.seated : PoolStep π η → PoolStep (Nat × π) η
  | .spawn i program => .spawn i (i,program)
  | .run i => .run i
  | .fail i => .fail i
  | .lose i => .lose i
  | .env e => .env e

def PoolStep.carries (pool : Pool σ ℓ) : PoolStep π η → Option (Nat × ℓ)
  | .run i | .lose i => (pool.threads i).label.map fun l => (i,l)
  | .spawn _ _ | .fail _ | .env _ => none

namespace Contract

variable (c : Contract σ ℓ)

structure Upholds (sys : System σ ℓ (Nat × π) η) : Prop where
  programs : ∀ i p s, c.inv s → c.Safe i (sys.program (i,p)) s
  env : ∀ e s, c.inv s → c.inv (sys.env e s) ∧ ∀ i, c.rely i s (sys.env e s)

structure Ok (pool : Pool σ ℓ) : Prop where
  inv : c.inv pool.shared
  threads : ∀ j, c.Safe j (pool.threads j) pool.shared

def fitting (pool : Pool σ ℓ) (a : PoolStep π η) : Bool :=
  (a.carries pool).all fun arrival => c.fits pool.shared arrival.2

abbrev Fitting (sys : System σ ℓ (Nat × π) η) (pool : Pool σ ℓ) (as : List (PoolStep π η)) : Prop :=
  Along (fun pool a => sys.step pool a.seated) (fun pool a => c.fitting pool a = true) pool as

inductive Moves (sys : System σ ℓ (Nat × π) η) (pool : Pool σ ℓ) (a : PoolStep π η) : σ → Prop
  | still (none : a.carries pool = none) (quiet : ∀ e, a ≠ .env e) : Moves sys pool a pool.shared
  | acts {i : Nat} {l : ℓ} {s : σ} (here : a.carries pool = some (i,l))
      (guar : c.guar i l pool.shared s) : Moves sys pool a s
  | env (e : η) (own : a = .env e) : Moves sys pool a (sys.env e pool.shared)

variable {c} {sys : System σ ℓ (Nat × π) η} {pool : Pool σ ℓ}

theorem ok_idle {s : σ} (inv : c.inv s) : c.Ok (Pool.idle s) := ⟨inv,fun _ => trivial⟩

theorem Ok.set (ok : c.Ok pool) {s : σ} (i : Nat) {t : Task σ ℓ} (inv : c.inv s)
    (le : ∀ j, j ≠ i → c.rely j pool.shared s) (safe : c.Safe i t s) : c.Ok (pool.set s i t) where
  inv := inv
  threads := (Function.forall_update_iff pool.threads fun j t => c.Safe j t s).mpr
    ⟨safe,fun j other => safe_rely (ok.threads j) (le j other)⟩

variable (up : c.Upholds sys) (ok : c.Ok pool)
include up ok

theorem ok_step (a : PoolStep π η) (fits : c.fitting pool a) :
    c.Ok (sys.step pool a.seated) ∧ c.Moves sys pool a (sys.step pool a.seated).shared := by
  have node {i : Nat} {l : ℓ} {act : σ → σ} {next : σ → Task σ ℓ} {error : Task σ ℓ}
      (here : pool.threads i = .step l act next error) := by
    have safe := ok.threads i
    rw [here] at safe
    exact safe pool.shared (c.refl _ _) ok.inv
  have acts {i : Nat} {l : ℓ} {act : σ → σ} {next : σ → Task σ ℓ} {error : Task σ ℓ}
      (here : pool.threads i = .step l act next error)
      (carried : a.carries pool = (pool.threads i).label.map fun l => (i,l)) := by
    rw [here] at carried
    rw [fitting,carried] at fits
    exact And.intro carried ((node here).2 fits)
  have still (i : Nat) {t : Task σ ℓ} (safe : c.Safe i t pool.shared) : c.Ok (pool.set pool.shared i t) :=
    ok.set i ok.inv (fun j _ => c.refl j _) safe
  cases a with
  | spawn i program =>
    simp only [PoolStep.seated,System.step]
    cases pool.threads i with
    | done => exact ⟨still i (up.programs i program _ ok.inv),.still rfl fun _ => by simp⟩
    | step => exact ⟨ok,.still rfl fun _ => by simp⟩
  | run i =>
    simp only [PoolStep.seated,System.step]
    cases here : pool.threads i with
    | done => exact ⟨ok,.still (by simp [PoolStep.carries,here,Task.label]) fun _ => by simp⟩
    | step l =>
      obtain ⟨carried,inv,guar,rest,_⟩ := acts here rfl
      exact ⟨ok.set i inv (fun j other => c.apart i j l _ _ other.symm guar) rest,.acts carried guar⟩
  | fail i =>
    simp only [PoolStep.seated,System.step]
    cases here : pool.threads i with
    | done => exact ⟨ok,.still rfl fun _ => by simp⟩
    | step => exact ⟨still i (node here).1,.still rfl fun _ => by simp⟩
  | lose i =>
    simp only [PoolStep.seated,System.step]
    cases here : pool.threads i with
    | done => exact ⟨ok,.still (by simp [PoolStep.carries,here,Task.label]) fun _ => by simp⟩
    | step l =>
      obtain ⟨carried,inv,guar,_,rest⟩ := acts here rfl
      exact ⟨ok.set i inv (fun j other => c.apart i j l _ _ other.symm guar) rest,.acts carried guar⟩
  | env e =>
    obtain ⟨inv,le⟩ := up.env e pool.shared ok.inv
    exact ⟨⟨inv,fun j => safe_rely (ok.threads j) (le j)⟩,.env e rfl⟩

theorem ok_run (as : List (PoolStep π η))
    (fits : c.Fitting sys pool as) : c.Ok (run (fun pool a => sys.step pool a.seated) pool as) :=
  @run_along _ _ _ _ c.Ok (fun _ a fits ok => (ok_step up ok a fits).1) pool as fits ok

theorem moves_along (as : List (PoolStep π η)) (fits : c.Fitting sys pool as) :
    Along (fun pool a => sys.step pool a.seated)
      (fun pool a => c.Ok pool ∧ c.Moves sys pool a (sys.step pool a.seated).shared) pool as :=
  along_under c.Ok (fun _ a ok fits => ⟨ok,(ok_step up ok a fits).2⟩)
    (fun _ a ok fits => (ok_step up ok a fits).1) pool as ok fits

end Contract

end CompanyBrain.Foundations
