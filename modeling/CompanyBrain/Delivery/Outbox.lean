import CompanyBrain.Foundations.History
import Mathlib.Logic.Function.Basic
import Mathlib.Logic.Relation

namespace CompanyBrain.Deliveries

open Foundations

structure Entry where
  key : String
  shadow : Bool
  deliveredAt : Option Int
  leasedUntil : Option Int

structure HandOut where
  id : Nat
  key : String
  time : Int
  ttl : Int

@[ext] structure Outbox where
  clock : Int
  entries : Nat → Option Entry
  handed : List HandOut

namespace Outbox

def put (o : Outbox) (id : Nat) (e : Entry) : Outbox :=
  {o with entries := Function.update o.entries id (some e)}

def hand (o : Outbox) (h : HandOut) : Outbox := {o with handed := o.handed ++ [h]}

inductive Move (o : Outbox) : Outbox → Prop
  | tick (n : Nat) : Move o {o with clock := o.clock + n}
  | add (id : Nat) (e : Entry) (free : o.entries id = none)
      (newKey : ∀ i e', o.entries i = some e' → e'.key ≠ e.key) : Move o (o.put id e)
  | deliver (id : Nat) (e : Entry) (t : Int) (here : o.entries id = some e) (waiting : e.deliveredAt = none) :
      Move o (o.put id {e with deliveredAt := some t})
  | lease (id : Nat) (e : Entry) (time ttl : Int) (here : o.entries id = some e) (visible : e.shadow = false)
      (waiting : e.deliveredAt = none) (lapsed : ∀ u, e.leasedUntil = some u → u ≤ time)
      (latest : ∀ h ∈ o.handed, h.id = id → h.time ≤ time) :
      Move o ((o.put id {e with leasedUntil := some (time + ttl)}).hand ⟨id,e.key,time,ttl⟩)

abbrev Moves : Outbox → Outbox → Prop := Relation.ReflTransGen Move

structure Sound (o : Outbox) : Prop where
  keys : ∀ id id' e e', o.entries id = some e → o.entries id' = some e' → e.key = e'.key → id = id'
  recorded : ∀ h ∈ o.handed, ∃ e u, o.entries h.id = some e ∧ e.key = h.key ∧ e.shadow = false ∧
    e.leasedUntil = some u ∧
    (h.time + h.ttl ≤ u ∨ ∃ h' ∈ o.handed, h'.id = h.id ∧ h.time + h.ttl ≤ h'.time)
  spaced : o.handed.Pairwise fun h h' => h.id = h'.id → h.time + h.ttl ≤ h'.time

structure Later (o o' : Outbox) : Prop where
  kept : ∀ id e, o.entries id = some e → ∃ e', o'.entries id = some e' ∧ e'.key = e.key ∧ e'.shadow = e.shadow ∧
    ∀ t, e.deliveredAt = some t → e'.deliveredAt = some t
  handed : ∃ new, o'.handed = o.handed ++ new ∧
    ∀ h ∈ new, ∀ e, o.entries h.id = some e → e.shadow = false ∧ e.deliveredAt = none

def empty (clock : Int) : Outbox := ⟨clock,fun _ => none,[]⟩

theorem sound_empty (clock : Int) : Sound (empty clock) :=
  ⟨fun _ _ _ _ is _ _ => (Option.some_ne_none _ is.symm).elim,nofun,
    .nil⟩

variable {o o' o'' : Outbox}

theorem put_self (o : Outbox) (id : Nat) (e : Entry) : (o.put id e).entries id = some e := Function.update_self ..

variable {id : Nat}

theorem put_other (o : Outbox) {id' : Nat} (e : Entry) (other : id' ≠ id) :
    (o.put id e).entries id' = o.entries id' := Function.update_of_ne other ..

theorem later_refl (o : Outbox) : Later o o :=
  ⟨fun _ e here => ⟨e,here,rfl,rfl,fun _ is => is⟩,[],by simp,fun _ mem => by cases mem⟩

theorem Later.trans (first : Later o o') (second : Later o' o'') : Later o o'' := by
  obtain ⟨new,grown,waits⟩ := first.handed
  obtain ⟨new',grown',open_'⟩ := second.handed
  constructor
  · intro id e here
    obtain ⟨e',here',key,shadow,delivered⟩ := first.kept id e here
    obtain ⟨e'',here'',key',shadow',delivered'⟩ := second.kept id e' here'
    exact ⟨e'',here'',key'.trans key,shadow'.trans shadow,fun t is => delivered' t (delivered t is)⟩
  · refine ⟨new ++ new',by rw [grown',grown,List.append_assoc],fun h mem e here => ?_⟩
    rcases List.mem_append.mp mem with mem | mem
    · exact waits h mem e here
    · obtain ⟨e',here',_,shadow,delivered⟩ := first.kept h.id e here
      obtain ⟨visible,waiting⟩ := open_' h mem e' here'
      refine ⟨shadow ▸ visible,Option.eq_none_iff_forall_ne_some.mpr fun t is => ?_⟩
      rw [delivered t is] at waiting
      cases waiting

variable {e : Entry}

theorem later_put {e' : Entry} (here : o.entries id = some e) (key : e'.key = e.key) (shadow : e'.shadow = e.shadow)
    (delivered : ∀ t, e.deliveredAt = some t → e'.deliveredAt = some t) : Later o (o.put id e') := by
  refine ⟨fun i x is => ?_,[],by simp [put],fun _ mem => by cases mem⟩
  by_cases same : i = id
  · subst same
    cases here.symm.trans is
    exact ⟨e',put_self o i e',key,shadow,delivered⟩
  · exact ⟨x,by rw [put_other o e' same]; exact is,rfl,rfl,fun _ is => is⟩

theorem later_move (move : Move o o') : Later o o' := by
  cases move with
  | tick => exact ⟨(later_refl o).kept,(later_refl o).handed⟩
  | add id e free =>
    refine ⟨fun i x is => ?_,[],by simp [put],fun _ mem => by cases mem⟩
    have other : i ≠ id := by
      rintro rfl
      rw [free] at is
      cases is
    exact ⟨x,by rw [put_other o e other]; exact is,rfl,rfl,fun _ is => is⟩
  | deliver _ _ _ here waiting =>
    refine later_put here rfl rfl fun t' is => ?_
    rw [waiting] at is
    cases is
  | lease id e time ttl here visible waiting =>
    have leased : Later o (o.put id {e with leasedUntil := some (time + ttl)}) :=
      later_put here rfl rfl fun _ is => is
    refine ⟨leased.kept,[⟨id,e.key,time,ttl⟩],rfl,fun h mem x is => ?_⟩
    obtain rfl := List.mem_singleton.mp mem
    cases here.symm.trans is
    exact ⟨visible,waiting⟩

theorem later_moves (moves : Moves o o') : Later o o' := by
  induction moves with
  | refl => exact later_refl o
  | tail _ move ih => exact ih.trans (later_move move)

variable (sound : Sound o)
include sound

theorem keys_put {e' : Entry} (here : o.entries id = some e) (key : e'.key = e.key) (i j : Nat)
    (x y : Entry) (hx : (o.put id e').entries i = some x) (hy : (o.put id e').entries j = some y)
    (same : x.key = y.key) :
    i = j := by
  have entry (i : Nat) (x : Entry) (is : (o.put id e').entries i = some x) :
      ∃ y, o.entries i = some y ∧ y.key = x.key := by
    by_cases own : i = id
    · subst own
      cases (put_self o i e').symm.trans is
      exact ⟨e,here,key.symm⟩
    · rw [put_other o e' own] at is
      exact ⟨x,is,rfl⟩
  obtain ⟨x',hx',kx⟩ := entry i x hx
  obtain ⟨y',hy',ky⟩ := entry j y hy
  exact sound.keys i j x' y' hx' hy' (kx.trans (same.trans ky.symm))

theorem Sound.deliver (here : o.entries id = some e) (t : Int) :
    Sound (o.put id {e with deliveredAt := some t}) where
  keys := keys_put sound here rfl
  spaced := sound.spaced
  recorded := by
    intro h mem
    obtain ⟨x,u,is,key,rest⟩ := sound.recorded h mem
    by_cases own : h.id = id
    · subst own
      cases here.symm.trans is
      exact ⟨_,u,put_self o h.id _,key,rest⟩
    · exact ⟨x,u,(put_other o _ own).trans is,key,rest⟩

theorem Sound.add {id : Nat} {e : Entry} (free : o.entries id = none)
    (newKey : ∀ i e', o.entries i = some e' → e'.key ≠ e.key) : Sound (o.put id e) where
  keys := by
    intro i j x y hx hy same
    by_cases hi : i = id <;> by_cases hj : j = id
    · rw [hi,hj]
    · rw [hi,put_self] at hx
      rw [put_other o e hj] at hy
      cases hx
      exact absurd same.symm (newKey j y hy)
    · rw [hj,put_self] at hy
      rw [put_other o e hi] at hx
      cases hy
      exact absurd same (newKey i x hx)
    · rw [put_other o e hi] at hx
      rw [put_other o e hj] at hy
      exact sound.keys i j x y hx hy same
  spaced := sound.spaced
  recorded := by
    intro h mem
    obtain ⟨x,u,is,rest⟩ := sound.recorded h mem
    have other : h.id ≠ id := by
      intro own
      rw [own,free] at is
      cases is
    exact ⟨x,u,(put_other o e other).trans is,rest⟩

theorem Sound.passed {time : Int} (here : o.entries id = some e)
    (lapsed : ∀ u, e.leasedUntil = some u → u ≤ time) (latest : ∀ h ∈ o.handed, h.id = id → h.time ≤ time) {h : HandOut}
    (mem : h ∈ o.handed) (own : h.id = id) : h.time + h.ttl ≤ time := by
  obtain ⟨x,u,is,_,_,leased,ended⟩ := sound.recorded h mem
  rw [own] at is
  cases here.symm.trans is
  rcases ended with before | ⟨h',mem',own',before⟩
  · exact Int.le_trans before (lapsed u leased)
  · exact Int.le_trans before (latest h' mem' (own'.trans own))

theorem Sound.lease {time : Int} (ttl : Int) (here : o.entries id = some e)
    (visible : e.shadow = false) (passed : ∀ h ∈ o.handed, h.id = id → h.time + h.ttl ≤ time) :
    Sound ((o.put id {e with leasedUntil := some (time + ttl)}).hand ⟨id,e.key,time,ttl⟩) where
  keys := keys_put sound here rfl
  spaced := by
    refine List.pairwise_append.mpr ⟨sound.spaced,List.pairwise_singleton _ _,fun h mem h' last own => ?_⟩
    obtain rfl := List.mem_singleton.mp last
    exact passed h mem own
  recorded := by
    intro h mem
    rcases List.mem_append.mp mem with mem | mem
    · obtain ⟨x,u,is,key,shown,leased,ended⟩ := sound.recorded h mem
      by_cases own : h.id = id
      · subst own
        cases here.symm.trans is
        have mine : (⟨h.id,e.key,time,ttl⟩ : HandOut) ∈ o.handed ++ [⟨h.id,e.key,time,ttl⟩] :=
          List.mem_append_right _ (List.mem_singleton.mpr rfl)
        exact ⟨_,time + ttl,put_self o h.id _,key,visible,rfl,.inr ⟨_,mine,rfl,passed h mem rfl⟩⟩
      · refine ⟨x,u,(put_other o _ own).trans is,key,shown,leased,ended.imp_right ?_⟩
        rintro ⟨h',mem',rest⟩
        exact ⟨h',List.mem_append_left _ mem',rest⟩
    · obtain rfl := List.mem_singleton.mp mem
      exact ⟨_,time + ttl,put_self o id _,rfl,visible,rfl,.inl (Int.le_refl _)⟩

theorem Sound.move (move : Move o o') : Sound o' := by
  cases move with
  | tick => exact ⟨sound.keys,sound.recorded,sound.spaced⟩
  | add _ _ free newKey => exact sound.add free newKey
  | deliver _ _ t here => exact sound.deliver here t
  | lease _ _ _ ttl here visible _ lapsed latest =>
    exact sound.lease ttl here visible fun h mem own => sound.passed here lapsed latest mem own

theorem Sound.moves (moves : Moves o o') : Sound o' := by
  induction moves with
  | refl => exact sound
  | tail _ move ih => exact ih.move move

end Outbox

variable {σ ι : Type}

structure Disciplined (step : σ → ι → σ) (view : σ → Outbox) (acked : σ → ι → Option String) (start : σ) : Prop where
  keys : ∀ as id id' e e', (view (run step start as)).entries id = some e →
    (view (run step start as)).entries id' = some e' → e.key = e'.key → id = id'
  delivered : ∀ as bs id e t, (view (run step start as)).entries id = some e → e.deliveredAt = some t →
    ∃ e', (view (run step start (as ++ bs))).entries id = some e' ∧ e'.deliveredAt = some t
  handed : ∀ as bs, ∃ new, (view (run step start (as ++ bs))).handed = (view (run step start as)).handed ++ new ∧
    ∀ h ∈ new, ∀ e, (view (run step start as)).entries h.id = some e → e.shadow = false ∧ e.deliveredAt = none
  recorded : ∀ as, ∀ h ∈ (view (run step start as)).handed,
    ∃ e, (view (run step start as)).entries h.id = some e ∧ e.key = h.key ∧ e.shadow = false
  acknowledged : ∀ as a bs k, acked (run step start as) a = some k →
    (view (run step start (as ++ a :: bs))).handed.filter (fun h => h.key = k) =
        (view (run step start as)).handed.filter (fun h => h.key = k) ∧
      ((∀ id e, (view (run step start as)).entries id = some e → e.key ≠ k) →
        ∀ h ∈ (view (run step start (as ++ a :: bs))).handed, h.key ≠ k)
  spaced : ∀ as, (view (run step start as)).handed.Pairwise fun h h' => h.id = h'.id → h.time + h.ttl ≤ h'.time

section

variable {step : σ → ι → σ} {view : σ → Outbox} {acked : σ → ι → Option String} {Inv : σ → Prop} {s : σ}

theorem inv_run (next : ∀ s a, Inv s → Inv (step s a) ∧ Outbox.Moves (view s) (view (step s a))) (inv : Inv s)
    (as : List ι) : Inv (run step s as) ∧ Outbox.Moves (view s) (view (run step s as)) := by
  induction as generalizing s with
  | nil => exact ⟨inv,.refl⟩
  | cons a _ ih =>
    obtain ⟨inv',moves⟩ := next s a inv
    obtain ⟨last,rest⟩ := ih inv'
    exact ⟨last,moves.trans rest⟩

theorem disciplined_of_moves {start : σ} (inv : Inv start) (sound : Outbox.Sound (view start))
    (next : ∀ s a, Inv s → Inv (step s a) ∧ Outbox.Moves (view s) (view (step s a)))
    (acks : ∀ s a k, Inv s → acked s a = some k → (view (step s a)).handed = (view s).handed ∧
        ∃ id e t, (view (step s a)).entries id = some e ∧ e.key = k ∧ e.deliveredAt = some t) :
    Disciplined step view acked start := by
  have reach (as : List ι) : Inv (run step start as) := (inv_run next inv as).1
  have sounds (as : List ι) : Outbox.Sound (view (run step start as)) := sound.moves (inv_run next inv as).2
  have later (as bs : List ι) : Outbox.Later (view (run step start as)) (view (run step start (as ++ bs))) := by
    rw [run_append]
    exact Outbox.later_moves (inv_run next (reach as) bs).2
  refine ⟨fun as => (sounds as).keys,?_,fun as bs => (later as bs).handed,?_,?_,fun as => (sounds as).spaced⟩
  · intro as bs id e t here is
    obtain ⟨e',here',_,_,delivered⟩ := (later as bs).kept id e here
    exact ⟨e',here',delivered t is⟩
  · intro as h mem
    obtain ⟨e,_,here,key,visible,_⟩ := (sounds as).recorded h mem
    exact ⟨e,here,key,visible⟩
  · intro as a bs k acked
    obtain ⟨same,id,e,t,here,key,is⟩ := acks (run step start as) a k (reach as) acked
    have snoc : step (run step start as) a = run step start (as ++ [a]) := by rw [run_append]; rfl
    have split : as ++ a :: bs = (as ++ [a]) ++ bs := by simp
    rw [snoc] at same here
    rw [split]
    obtain ⟨new,grown,waits⟩ := (later (as ++ [a]) bs).handed
    obtain ⟨e',here',key',_⟩ := (later (as ++ [a]) bs).kept id e here
    have none_new (h : HandOut) (mem : h ∈ new) : h.key ≠ k := by
      intro same_key
      have inside : h ∈ (view (run step start (as ++ [a] ++ bs))).handed := grown ▸ List.mem_append_right _ mem
      obtain ⟨x,u,there,hkey,_⟩ := (sounds (as ++ [a] ++ bs)).recorded h inside
      have own : h.id = id := (sounds (as ++ [a] ++ bs)).keys h.id id x e' there here' (by
        rw [hkey,same_key,key',key])
      have waiting := (waits h mem e (own ▸ here)).2
      rw [is] at waiting
      cases waiting
    constructor
    · rw [grown,List.filter_append,same]
      have nothing : new.filter (fun h => h.key = k) = [] :=
        List.filter_eq_nil_iff.mpr fun h mem => by simpa using none_new h mem
      rw [nothing,List.append_nil]
    · intro unknown h mem
      rw [grown,same] at mem
      rcases List.mem_append.mp mem with mem | mem
      · obtain ⟨x,u,there,hkey,_⟩ := (sounds as).recorded h mem
        exact hkey ▸ unknown h.id x there
      · exact none_new h mem

end

end CompanyBrain.Deliveries
