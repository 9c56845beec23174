import Mathlib.Data.List.Nodup

namespace CompanyBrain.Foundations

variable {α β κ : Type}

@[ext] structure Table (key : α → κ) where
  rows : List α
  nodup : (rows.map key).Nodup

namespace Table

variable {key : α → κ}

instance [DecidableEq α] : DecidableEq (Table key) := fun t u =>
  decidable_of_iff (t.rows = u.rows) ⟨Table.ext,congrArg Table.rows⟩

instance : Membership α (Table key) := ⟨fun t a => a ∈ t.rows⟩

variable {t : Table key} {a : α}

theorem mem_rows : a ∈ t.rows ↔ a ∈ t := Iff.rfl

def empty : Table key := ⟨[],List.nodup_nil⟩

@[simp] theorem not_mem_empty (a : α) : a ∉ (empty : Table key) := by
  simp [← mem_rows,empty]

variable {b : α}

theorem eq_of_key (ha : a ∈ t) (hb : b ∈ t) (h : key a = key b) : a = b :=
  List.inj_on_of_nodup_map t.nodup ha hb h

def filter (t : Table key) (p : α → Bool) : Table key where
  rows := t.rows.filter p
  nodup := t.nodup.sublist (List.filter_sublist.map key)

theorem mem_filter {p : α → Bool} : a ∈ t.filter p ↔ a ∈ t ∧ p a := List.mem_filter

variable [DecidableEq κ]

def find? (t : Table key) (k : κ) : Option α := t.rows.find? (fun a => key a = k)

def setRows (key : α → κ) (a : α) (rows : List α) : List α :=
  if key a ∈ rows.map key then rows.map (fun b => if key b = key a then a else b)
  else rows ++ [a]

theorem setRows_keys (a : α) (rows : List α) : (setRows key a rows).map key =
      if key a ∈ rows.map key then rows.map key else rows.map key ++ [key a] := by
  unfold setRows
  split
  · rw [List.map_map]
    apply List.map_congr_left
    intro b _
    by_cases h : key b = key a <;> simp [h]
  · simp

def set (t : Table key) (a : α) : Table key where
  rows := setRows key a t.rows
  nodup := by
    rw [setRows_keys]
    split
    · exact t.nodup
    next h =>
      rw [List.nodup_append]
      refine ⟨t.nodup,List.nodup_singleton _,?_⟩
      intro x hx y hy hxy
      rw [List.mem_singleton] at hy
      exact h (by rw [← hy,← hxy]; exact hx)

def erase (t : Table key) (k : κ) : Table key where
  rows := t.rows.filter (fun a => key a ≠ k)
  nodup := t.nodup.sublist (List.filter_sublist.map key)

@[simp] theorem find?_empty (k : κ) : (empty : Table key).find? k = none := rfl

variable {k : κ}

theorem find?_eq_some : t.find? k = some a ↔ a ∈ t ∧ key a = k := by
  constructor
  · intro h
    exact ⟨List.mem_of_find?_eq_some h,by simpa using List.find?_some h⟩
  · rintro ⟨ha,rfl⟩
    cases hf : t.find? (key a) with
    | none =>
      have hn := List.find?_eq_none.mp hf a ha
      simp at hn
    | some b =>
      have hb : b ∈ t := List.mem_of_find?_eq_some hf
      have hk : key b = key a := by simpa using List.find?_some hf
      rw [eq_of_key hb ha hk]

theorem find?_eq_none : t.find? k = none ↔ ∀ a ∈ t, key a ≠ k := by
  simp [find?,← mem_rows]

theorem mem_of_find? (h : t.find? k = some a) : a ∈ t :=
  (find?_eq_some.mp h).1

theorem key_of_find? (h : t.find? k = some a) : key a = k :=
  (find?_eq_some.mp h).2

theorem mem_set : b ∈ t.set a ↔ b = a ∨ (b ∈ t ∧ key b ≠ key a) := by
  rw [← mem_rows,← mem_rows]
  change b ∈ setRows key a t.rows ↔ _
  unfold setRows
  split
  next h =>
    obtain ⟨c,hc,hk⟩ := List.mem_map.mp h
    constructor
    · intro hb
      obtain ⟨d,hd,rfl⟩ := List.mem_map.mp hb
      by_cases hda : key d = key a
      · left; simp [hda]
      · right; simpa [hda] using hd
    · rintro (rfl | ⟨hb,hne⟩)
      · exact List.mem_map.mpr ⟨c,hc,by simp [hk]⟩
      · exact List.mem_map.mpr ⟨b,hb,by simp [hne]⟩
  next h =>
    rw [List.mem_append,List.mem_singleton]
    constructor
    · rintro (hb | rfl)
      · refine .inr ⟨hb,fun hk => h ?_⟩
        exact hk ▸ List.mem_map_of_mem hb
      · exact .inl rfl
    · rintro (rfl | ⟨hb,_⟩)
      · exact .inr rfl
      · exact .inl hb

theorem mem_set_self (t : Table key) (a : α) : a ∈ t.set a := mem_set.mpr (.inl rfl)

theorem forall_set {P : α → Prop} (new : P a) (old : ∀ b ∈ t, P b) : ∀ b ∈ t.set a, P b := by
  intro b mem
  rcases mem_set.mp mem with rfl | ⟨mem,_⟩
  · exact new
  · exact old b mem

theorem exists_set {P : α → Prop} (some : ∃ b ∈ t, P b) (kept : ∀ b ∈ t, key b = key a → P b → P a) :
    ∃ b ∈ t.set a, P b := by
  obtain ⟨b,mem,holds⟩ := some
  by_cases same : key b = key a
  · exact ⟨a,mem_set_self t a,kept b mem same holds⟩
  · exact ⟨b,mem_set.mpr (.inr ⟨mem,same⟩),holds⟩

theorem mem_foldl_set {l : List α} (mem : b ∈ l.foldl set t) : b ∈ l ∨ b ∈ t := by
  induction l generalizing t with
  | nil => exact .inr mem
  | cons a l ih =>
    rcases ih mem with later | now
    · exact .inl (.tail a later)
    · rcases mem_set.mp now with rfl | ⟨before,_⟩
      · exact .inl (.head _)
      · exact .inr before

theorem mem_foldl_set_of_nodup {l : List α} (nodup : (l.map key).Nodup) (mem : b ∈ l ∨ (b ∈ t ∧ key b ∉ l.map key)) :
    b ∈ l.foldl set t := by
  induction l generalizing t with
  | nil => exact (mem.resolve_left nofun).1
  | cons a l ih =>
    obtain ⟨fresh,nodup⟩ := List.nodup_cons.mp nodup
    refine ih nodup ?_
    rcases mem with mem | ⟨before,other⟩
    · rcases List.mem_cons.mp mem with rfl | mem
      · exact .inr ⟨mem_set.mpr (.inl rfl),fresh⟩
      · exact .inl mem
    · rw [List.map_cons,List.mem_cons,not_or] at other
      exact .inr ⟨mem_set.mpr (.inr ⟨before,other.1⟩),other.2⟩

theorem find?_set (t : Table key) (a : α) (k : κ) : (t.set a).find? k = if k = key a then some a else t.find? k := by
  split
  next h => exact find?_eq_some.mpr ⟨mem_set_self t a,h.symm⟩
  next h =>
    cases hf : t.find? k with
    | none =>
      rw [find?_eq_none] at hf ⊢
      intro b hb
      rcases mem_set.mp hb with rfl | ⟨hb,_⟩
      · exact fun hk => h hk.symm
      · exact hf b hb
    | some =>
      obtain ⟨hb,hk⟩ := find?_eq_some.mp hf
      exact find?_eq_some.mpr ⟨mem_set.mpr (.inr ⟨hb,fun he => h (hk.symm.trans he)⟩),hk⟩

theorem find?_set_row (t : Table key) {l : κ} (h : key a = l) :
    (t.set a).find? k = if l = k then some a else t.find? k := by
  rw [find?_set,h]
  simp only [eq_comm]

theorem find?_set_key (t : Table key) (h : key a = k) : (t.set a).find? k = some a := by
  rw [find?_set,if_pos h.symm]

theorem mem_erase : b ∈ t.erase k ↔ b ∈ t ∧ key b ≠ k := by
  rw [← mem_rows,← mem_rows]
  simp [erase]

theorem find?_erase (t : Table key) (k l : κ) : (t.erase k).find? l = if l = k then none else t.find? l := by
  split
  next h => exact find?_eq_none.mpr fun b hb hk => (mem_erase.mp hb).2 (hk.trans h)
  next h =>
    cases hf : t.find? l with
    | none => exact find?_eq_none.mpr fun b hb => find?_eq_none.mp hf b (mem_erase.mp hb).1
    | some =>
      obtain ⟨hb,hk⟩ := find?_eq_some.mp hf
      exact find?_eq_some.mpr ⟨mem_erase.mpr ⟨hb,fun he => h (hk.symm.trans he)⟩,hk⟩

theorem find?_map {key' : β → κ} {g : α → β} (hg : ∀ a, key' (g a) = key a) {u : Table key'} (h : u.rows = t.rows.map g)
    (k : κ) : u.find? k = (t.find? k).map g := by
  have same : (fun b => decide (key' b = k)) ∘ g = fun a => decide (key a = k) :=
    funext fun a => congrArg (fun l => decide (l = k)) (hg a)
  rw [find?,find?,h,List.find?_map,same]

def update (t : Table key) (f : α → α) (hf : ∀ a, key (f a) = key a) : Table key where
  rows := t.rows.map f
  nodup := by
    rw [List.map_map,show key ∘ f = key from funext hf]
    exact t.nodup

theorem find?_update (t : Table key) (f : α → α) (hf : ∀ a, key (f a) = key a) (k : κ) :
    (t.update f hf).find? k = (t.find? k).map f :=
  find?_map hf rfl k

theorem set_rows_of_mem (hb : b ∈ t) (hk : key b = key a) :
    (t.set a).rows = t.rows.map (fun c => if key c = key a then a else c) := by
  have h : key a ∈ t.rows.map key := hk ▸ List.mem_map_of_mem hb
  simp [set,setRows,h]

theorem set_rows_of_new (new : t.find? (key a) = none) : (t.set a).rows = t.rows ++ [a] := by
  have h : key a ∉ t.rows.map key := by
    intro hm
    obtain ⟨b,hb,hk⟩ := List.mem_map.mp hm
    exact find?_eq_none.mp new b hb hk
  simp only [set,setRows,h,if_false]

theorem foldl_set_rows (f : α → α) (hf : ∀ a, key (f a) = key a) (as : List α) (t : Table key)
    (mem : ∀ a ∈ as, a ∈ t) (nodup : (as.map key).Nodup) : (as.foldl (fun t a => t.set (f a)) t).rows =
      t.rows.map (fun b => if key b ∈ as.map key then f b else b) := by
  induction as generalizing t with
  | nil => simp
  | cons a as ih =>
    rw [List.map_cons,List.nodup_cons] at nodup
    have ha := mem a (by simp)
    have keep : ∀ b ∈ as, b ∈ t.set (f a) := by
      intro b hb
      refine mem_set.mpr (.inr ⟨mem b (by simp [hb]),fun hk => nodup.1 ?_⟩)
      rw [← hf a,← hk]
      exact List.mem_map_of_mem hb
    rw [List.foldl_cons,ih (t.set (f a)) keep nodup.2,set_rows_of_mem ha (hf a).symm,List.map_map]
    apply List.map_congr_left
    intro b hb
    by_cases hk : key b = key a
    · have hba : b = a := eq_of_key hb ha hk
      simp only [Function.comp_apply,hba,hf,nodup.1,List.map_cons,List.mem_cons,true_or, if_true,if_false]
    · simp [hf,hk]

end Table

end CompanyBrain.Foundations
