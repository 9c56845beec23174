import CompanyBrain.Foundations.Programs

namespace CompanyBrain.Foundations

variable {σ ℓ ε α β : Type}

-- `before` is what the others do before a statement runs.
inductive Leads (before : ℓ → σ → σ) : Task σ ℓ → σ → Task σ ℓ → σ → Prop
  | here (t : Task σ ℓ) (s : σ) : Leads before t s t s
  | step {l : ℓ} {act : σ → σ} {next : σ → Task σ ℓ} {error t : Task σ ℓ} {s s' : σ}
      (rest : Leads before (next (before l s)) (act (before l s)) t s') : Leads before (.step l act next error) s t s'

variable {before : ℓ → σ → σ}

theorem Leads.trans {t t₁ t₂ : Task σ ℓ} {s s₁ s₂ : σ} (first : Leads before t s t₁ s₁)
    (second : Leads before t₁ s₁ t₂ s₂) : Leads before t s t₂ s₂ := by
  induction first with
  | here => exact second
  | step _ ih => exact .step (ih second)

theorem Leads.linear {t t₁ t₂ : Task σ ℓ} {s s₁ s₂ : σ} (first : Leads before t s t₁ s₁)
    (second : Leads before t s t₂ s₂) : Leads before t₁ s₁ t₂ s₂ ∨ Leads before t₂ s₂ t₁ s₁ := by
  induction first with
  | here => exact .inl second
  | step rest ih =>
    cases second with
    | here => exact .inr (.step rest)
    | step later => exact ih later

namespace Prog

variable (before) in
def Answers (m : Prog σ ℓ ε α) (s : σ) (a : α) : Prop := ∃ s', ∀ raise ret, Leads before (m raise ret) s (ret a) s'

variable (before) in
def Raises (m : Prog σ ℓ ε α) (s : σ) (e : ε) : Prop := ∃ s', ∀ raise ret, Leads before (m raise ret) s (raise e) s'

variable {m : Prog σ ℓ ε α} {f : α → Prog σ ℓ ε β} {s s' : σ} {a a' : α} {e : ε}

theorem answers_pure (a : α) (s : σ) : (pure a : Prog σ ℓ ε α).Answers before s a := ⟨s,fun _ ret => .here (ret a) s⟩

theorem raises_throw (e : ε) (s : σ) : (throw e : Prog σ ℓ ε α).Raises before s e :=
  ⟨s,fun raise _ => .here (raise e) s⟩

theorem answers_stmt {l : ℓ} {lost : ε} {act : σ → σ × α} {b : β}
    (rest : (f (act (before l s)).2).Answers before (act (before l s)).1 b) :
    (stmt l lost act >>= f).Answers before s b := by
  obtain ⟨s',leads⟩ := rest
  exact ⟨s',fun raise ret => .step (leads raise ret)⟩

theorem raises_stmt {l : ℓ} {lost : ε} {act : σ → σ × α}
    (rest : (f (act (before l s)).2).Raises before (act (before l s)).1 e) :
    (stmt l lost act >>= f).Raises before s e := by
  obtain ⟨s',leads⟩ := rest
  exact ⟨s',fun raise ret => .step (leads raise ret)⟩

theorem answers_bind {b : β} (first : m.Answers before s a) (rest : ∀ s', (f a).Answers before s' b) :
    (m >>= f).Answers before s b := by
  obtain ⟨s',leads⟩ := first
  obtain ⟨s'',further⟩ := rest s'
  exact ⟨s'',fun raise ret => (leads raise _).trans (further raise ret)⟩

theorem answers_tried {handle : ε → Prog σ ℓ ε α} (tried : m.Answers before s a) :
    (tryCatch m handle).Answers before s a := by
  obtain ⟨s',leads⟩ := tried
  exact ⟨s',fun _ ret => leads _ ret⟩

theorem answers_caught {handle : ε → Prog σ ℓ ε α} (raised : m.Raises before s e)
    (handled : ∀ s', (handle e).Answers before s' a) : (tryCatch m handle).Answers before s a := by
  obtain ⟨s',leads⟩ := raised
  obtain ⟨s'',further⟩ := handled s'
  exact ⟨s'',fun raise ret => (leads _ ret).trans (further raise ret)⟩

theorem leads_last {l : ℓ} {error t : Task σ ℓ} (leads : Leads before (.step l id (fun _ => .done) error) s t s') :
    t = .step l id (fun _ => .done) error ∨ t = .done := by
  cases leads with
  | here => exact .inl rfl
  | step rest =>
    cases rest
    exact .inr rfl

theorem answers_unique [DecidableEq α] (l : ℓ) (one : m.Answers before s a) (other : m.Answers before s a') :
    a = a' := by
  obtain ⟨_,one⟩ := one
  obtain ⟨_,other⟩ := other
  by_contra apart
  let last (error : Task σ ℓ) : Task σ ℓ := .step l id (fun _ => .done) error
  have linear := (one (fun _ => .done) fun b => if b = a then last .done else last (last .done)).linear
    (other (fun _ => .done) fun b => if b = a then last .done else last (last .done))
  rw [if_pos rfl,if_neg (Ne.symm apart)] at linear
  rcases linear with leads | leads
  · rcases leads_last leads with same | same <;> simp [last] at same
  · rcases leads_last leads with same | same <;> simp [last] at same

end Prog

end CompanyBrain.Foundations
