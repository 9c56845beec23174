import CompanyBrain.Foundations.Interleaving

namespace CompanyBrain.Foundations

variable {σ ℓ ε π η α β : Type}

def Prog (σ ℓ ε α : Type) : Type := (ε → Task σ ℓ) → (α → Task σ ℓ) → Task σ ℓ

namespace Prog

instance monadProg : Monad (Prog σ ℓ ε) where
  pure a := fun _ ret => ret a
  bind m f := fun raise ret => m raise fun a => f a raise ret

instance monadExceptProg : MonadExcept ε (Prog σ ℓ ε) where
  throw e := fun raise _ => raise e
  tryCatch m handle := fun raise ret => m (fun e => handle e raise ret) ret

def stmt (l : ℓ) (lost : ε) (act : σ → σ × α) : Prog σ ℓ ε α := fun raise ret => .call l act (raise lost) ret

def get (l : ℓ) (lost : ε) (read : σ → α) : Prog σ ℓ ε α := stmt l lost fun s => (s,read s)

def set (l : ℓ) (lost : ε) (act : σ → σ) : Prog σ ℓ ε Unit := stmt l lost fun s => (act s,())

def each (f : α → Prog σ ℓ ε Unit) : List α → Prog σ ℓ ε Unit
  | [] => pure ()
  | a :: as => do
    f a
    each f as

def collect (f : α → Prog σ ℓ ε (Option β)) : List α → Prog σ ℓ ε (List β)
  | [] => pure []
  | a :: as => do
    let b ← f a
    let bs ← collect f as
    return b.toList ++ bs

def toTask (m : Prog σ ℓ ε α) : Task σ ℓ := m (fun _ => .done) fun _ => .done

end Prog

structure Discipline (σ ℓ : Type) where
  inv : σ → Prop
  later : σ → σ → Prop
  fits : σ → ℓ → Bool
  refl : ∀ s, later s s
  trans : ∀ s s' s'', later s s' → later s' s'' → later s s''

namespace Discipline

variable (d : Discipline σ ℓ)

abbrev Keeps (s s' : σ) : Prop := d.inv s' ∧ d.later s s'

def Safe : Task σ ℓ → σ → Prop
  | .done, _ => True
  | .step l act next error, s => ∀ s', d.later s s' → d.inv s' → Safe error s' ∧
      (d.fits s' l = true → d.Keeps s' (act s') ∧ Safe (next s') (act s') ∧ Safe error (act s'))

def Wp (m : Prog σ ℓ ε α) (post : α → σ → Prop) (s : σ) : Prop :=
  ∀ raise ret, d.inv s → (∀ e s', d.later s s' → d.inv s' → d.Safe (raise e) s') →
    (∀ a s', d.later s s' → d.inv s' → post a s' → d.Safe (ret a) s') → d.Safe (m raise ret) s

abbrev Quiet (m : Prog σ ℓ ε α) : Prop := ∀ s, d.Wp m (fun _ _ => True) s

section

variable {d} {s s' : σ} {m : Prog σ ℓ ε α} {f : α → Prog σ ℓ ε β} {post : α → σ → Prop}

theorem safe_later {t : Task σ ℓ} (safe : d.Safe t s) (le : d.later s s') : d.Safe t s' := by
  cases t with
  | done => trivial
  | step => exact fun s'' le' => safe s'' (d.trans _ _ _ le le')

theorem wp_pure {a : α} (here : post a s) : d.Wp (pure a : Prog σ ℓ ε α) post s :=
  fun _ _ inv _ returns => returns a s (d.refl s) inv here

theorem wp_throw (e : ε) : d.Wp (throw e : Prog σ ℓ ε α) post s :=
  fun _ _ inv throws _ => throws e s (d.refl s) inv

theorem wp_bind {post : β → σ → Prop}
    (first : d.Wp m (fun a s' => d.later s s' → d.Wp (f a) post s') s) : d.Wp (m >>= f) post s := by
  intro raise ret inv throws returns
  refine first raise _ inv throws fun a s' le inv' rest => ?_
  exact rest le raise ret inv' (fun e s'' le' => throws e s'' (d.trans _ _ _ le le'))
    fun b s'' le' => returns b s'' (d.trans _ _ _ le le')

theorem wp_mono {post' : α → σ → Prop} (wp : d.Wp m post s)
    (weaker : ∀ a s', d.later s s' → d.inv s' → post a s' → post' a s') : d.Wp m post' s :=
  fun raise ret inv throws returns =>
    wp raise ret inv throws fun a s' le inv' here => returns a s' le inv' (weaker a s' le inv' here)

theorem wp_tryCatch {handle : ε → Prog σ ℓ ε α} (wp : d.Wp m post s)
    (handled : ∀ e s', d.later s s' → d.Wp (handle e) post s') : d.Wp (tryCatch m handle) post s := by
  intro raise ret inv throws returns
  refine wp _ ret inv (fun e s' le inv' => ?_) returns
  exact handled e s' le raise ret inv' (fun e s'' le' => throws e s'' (d.trans _ _ _ le le'))
    fun a s'' le' => returns a s'' (d.trans _ _ _ le le')

variable {lost : ε} {l : ℓ}

theorem wp_stmt {act : σ → σ × α}
    (ok : ∀ s', d.later s s' → d.inv s' → d.fits s' l → d.Keeps s' (act s').1 ∧ post (act s').2 (act s').1) :
    d.Wp (Prog.stmt l lost act) post s := by
  intro raise ret _ throws returns s' le inv
  refine ⟨throws lost s' le inv,fun fits => ?_⟩
  obtain ⟨⟨inv',le'⟩,here⟩ := ok s' le inv fits
  exact ⟨⟨inv',le'⟩,returns _ _ (d.trans _ _ _ le le') inv' here,throws lost _ (d.trans _ _ _ le le') inv'⟩

theorem wp_get {read : σ → α} (ok : ∀ s', d.later s s' → d.inv s' → d.fits s' l → post (read s') s') :
    d.Wp (Prog.get l lost read) post s :=
  wp_stmt fun s' le inv fits => ⟨⟨inv,d.refl s'⟩,ok s' le inv fits⟩

theorem wp_set {act : σ → σ} {post : Unit → σ → Prop}
    (ok : ∀ s', d.later s s' → d.inv s' → d.fits s' l → d.Keeps s' (act s') ∧ post () (act s')) :
    d.Wp (Prog.set l lost act) post s :=
  wp_stmt ok

theorem quiet_stmt {act : σ → σ × α} (lost : ε) (ok : ∀ s, d.inv s → d.fits s l → d.Keeps s (act s).1) :
    d.Quiet (Prog.stmt l lost act) := fun _ =>
  wp_stmt fun s' _ inv fits => ⟨ok s' inv fits,trivial⟩

theorem quiet_set {act : σ → σ} (lost : ε) (ok : ∀ s, d.inv s → d.fits s l → d.Keeps s (act s)) :
    d.Quiet (Prog.set l lost act) :=
  quiet_stmt lost ok

theorem wp_each {f : α → Prog σ ℓ ε Unit} {as : List α} {P : α → σ → Prop}
    (stable : ∀ a s s', P a s → d.later s s' → P a s')
    (round : ∀ a ∈ as, ∀ s', d.later s s' → d.Wp (f a) (fun _ => P a) s') :
    d.Wp (Prog.each f as) (fun _ s' => ∀ a ∈ as, P a s') s := by
  induction as generalizing s with
  | nil => exact wp_pure nofun
  | cons a _ ih =>
    refine wp_bind (wp_mono (round a (.head _) s (d.refl s)) fun _ s' le _ here _ => ?_)
    refine wp_mono (ih fun b mem s'' le' => round b (.tail a mem) s'' (d.trans _ _ _ le le')) fun _ s'' le' _ rest => ?_
    exact List.forall_mem_cons.mpr ⟨stable a s' s'' here le',rest⟩

theorem wp_collect {f : α → Prog σ ℓ ε (Option β)} {as : List α} {P : β → Prop}
    (round : ∀ a ∈ as, ∀ s', d.later s s' → d.Wp (f a) (fun b _ => ∀ x, b = some x → P x) s') :
    d.Wp (Prog.collect f as) (fun bs _ => ∀ b ∈ bs, P b) s := by
  induction as generalizing s with
  | nil => exact wp_pure nofun
  | cons a _ ih =>
    refine wp_bind (wp_mono (round a (.head _) s (d.refl s)) fun b s' le _ here _ => wp_bind ?_)
    refine wp_mono (ih fun c mem s'' le' => round c (.tail a mem) s'' (d.trans _ _ _ le le')) ?_
    refine fun bs s'' _ _ rest _ => wp_pure fun c mem => ?_
    rcases List.mem_append.mp mem with mem | mem
    · exact here c (Option.mem_toList.mp mem)
    · exact rest c mem

theorem safe_toTask (wp : d.Wp m post s) (inv : d.inv s) : d.Safe m.toTask s :=
  wp _ _ inv (fun _ _ _ _ => trivial) fun _ _ _ _ _ => trivial

end

end Discipline

structure Service (σ ℓ π η : Type) extends System σ ℓ π η where
  ready : σ → ℓ → Bool

namespace Service

variable (sys : Service σ ℓ π η)

def waits (p : Pool σ ℓ) : PoolStep π η → Bool
  | .run i | .fail i | .lose i => (p.threads i).label.any fun l => !sys.ready p.shared l
  | .spawn _ _ | .env _ => false

def step (p : Pool σ ℓ) (a : PoolStep π η) : Pool σ ℓ := if sys.waits p a then p else sys.toSystem.step p a

end Service

namespace Discipline

variable (d : Discipline σ ℓ)

structure Upholds (sys : Service σ ℓ π η) : Prop where
  programs : ∀ p s, d.inv s → d.Safe (sys.program p) s
  env : ∀ e s, d.inv s → d.Keeps s (sys.env e s)

structure Ok (pool : Pool σ ℓ) : Prop where
  inv : d.inv pool.shared
  threads : ∀ j, d.Safe (pool.threads j) pool.shared

def fitting (pool : Pool σ ℓ) : PoolStep π η → Bool
  | .run i | .lose i => (pool.threads i).label.all (d.fits pool.shared)
  | .spawn _ _ | .fail _ | .env _ => true

abbrev Fitting (sys : Service σ ℓ π η) (pool : Pool σ ℓ) (as : List (PoolStep π η)) : Prop :=
  Along sys.step (fun pool a => d.fitting pool a = true) pool as

variable {d} {sys : Service σ ℓ π η} {pool : Pool σ ℓ}

theorem ok_idle {s : σ} (inv : d.inv s) : d.Ok (Pool.idle s) := ⟨inv,fun _ => trivial⟩

theorem Ok.set (ok : d.Ok pool) {s : σ} (i : Nat) {t : Task σ ℓ} (inv : d.inv s) (le : d.later pool.shared s)
    (safe : d.Safe t s) : d.Ok (pool.set s i t) where
  inv := inv
  threads := (Function.forall_update_iff pool.threads fun _ t => d.Safe t s).mpr
    ⟨safe,fun j _ => safe_later (ok.threads j) le⟩

variable (up : d.Upholds sys) (ok : d.Ok pool)
include up ok

theorem ok_step (a : PoolStep π η) (fits : d.fitting pool a) :
    d.Ok (sys.step pool a) ∧ d.later pool.shared (sys.step pool a).shared := by
  unfold Service.step
  split
  · exact ⟨ok,d.refl _⟩
  have stepped := sys.step_stepped pool a
  generalize sys.toSystem.step pool a = pool' at stepped
  have node {i : Nat} {l : ℓ} {act : σ → σ} {next : σ → Task σ ℓ} {error : Task σ ℓ}
      (here : pool.threads i = .step l act next error) := by
    have safe := ok.threads i
    rw [here] at safe
    exact safe pool.shared (d.refl _) ok.inv
  have labelled {i : Nat} {l : ℓ} {act : σ → σ} {next : σ → Task σ ℓ} {error : Task σ ℓ}
      (here : pool.threads i = .step l act next error)
      (fits : (pool.threads i).label.all (d.fits pool.shared) = true) : d.fits pool.shared l = true := by
    rwa [here] at fits
  cases stepped with
  | idle => exact ⟨ok,d.refl _⟩
  | spawn i program => exact ⟨ok.set i ok.inv (d.refl _) (up.programs program _ ok.inv),d.refl _⟩
  | run i _ _ _ _ here =>
    obtain ⟨⟨inv,le⟩,rest,_⟩ := (node here).2 (labelled here fits)
    exact ⟨ok.set i inv le rest,le⟩
  | fail i _ _ _ _ here => exact ⟨ok.set i ok.inv (d.refl _) (node here).1,d.refl _⟩
  | lose i _ _ _ _ here =>
    obtain ⟨⟨inv,le⟩,_,rest⟩ := (node here).2 (labelled here fits)
    exact ⟨ok.set i inv le rest,le⟩
  | env e =>
    obtain ⟨inv,le⟩ := up.env e pool.shared ok.inv
    exact ⟨⟨inv,fun j => safe_later (ok.threads j) le⟩,le⟩

theorem ok_run (as : List (PoolStep π η)) (fits : d.Fitting sys pool as) :
    d.Ok (run sys.step pool as) ∧ d.later pool.shared (run sys.step pool as).shared := by
  induction as generalizing pool with
  | nil => exact ⟨ok,d.refl _⟩
  | cons a _ ih =>
    obtain ⟨ok',le⟩ := ok_step up ok a fits.1
    obtain ⟨last,le'⟩ := ih ok' fits.2
    exact ⟨last,d.trans _ _ _ le le'⟩

theorem ok_append {as bs : List (PoolStep π η)}
    (fits : d.Fitting sys pool (as ++ bs)) : d.Ok (run sys.step pool as) ∧ d.Ok (run sys.step pool (as ++ bs)) ∧
      d.later (run sys.step pool as).shared (run sys.step pool (as ++ bs)).shared := by
  obtain ⟨first,rest⟩ := (along_append _ _ _).mp fits
  have before := (ok_run up ok as first).1
  rw [run_append]
  exact ⟨before,ok_run up before bs rest⟩

end Discipline

end CompanyBrain.Foundations
