import Mathlib.Data.List.Forall2

/-!
# Outcomes of partial functions

A function that can be refused returns an `Except`. The lemmas here take apart a chain of such
functions: `bind_ok_iff` for a chain that succeeds, `bind_error_iff` for one that is refused, and
`mapM_ok_iff` and `mapM_error_iff` for a list of calls.
-/

namespace Concordance

variable {ε ε' α β : Type}

theorem bind_ok_iff {x : Except ε α} {f : α → Except ε β} {b : β} :
    (x >>= f) = .ok b ↔ ∃ a, x = .ok a ∧ f a = .ok b := by
  cases x with
  | error e => simp [bind, Except.bind]
  | ok a => simp [bind, Except.bind]

theorem bind_error_iff {x : Except ε α} {f : α → Except ε β} {e : ε} :
    (x >>= f) = .error e ↔ x = .error e ∨ ∃ a, x = .ok a ∧ f a = .error e := by
  cases x with
  | error e => simp [bind, Except.bind]
  | ok a => simp [bind, Except.bind]

theorem map_ok_iff {x : Except ε α} {f : α → β} {b : β} :
    x.map f = .ok b ↔ ∃ a, x = .ok a ∧ f a = b := by
  cases x with
  | error e => simp [Except.map]
  | ok a => simp [Except.map]

theorem mapError_ok_iff {x : Except ε α} {f : ε → ε'} {a : α} :
    x.mapError f = .ok a ↔ x = .ok a := by
  cases x with
  | error e => exact iff_of_false nofun nofun
  | ok b =>
    constructor
    · intro h
      exact congrArg Except.ok (Except.ok.inj h)
    · intro h
      exact congrArg Except.ok (Except.ok.inj h)

theorem mapError_error_iff {x : Except ε α} {f : ε → ε'} {e' : ε'} :
    x.mapError f = .error e' ↔ ∃ e, x = .error e ∧ f e = e' := by
  cases x with
  | error e => simp [Except.mapError]
  | ok a => simp [Except.mapError]

theorem mapError_bind (x : Except ε α) (f : α → Except ε β) (g : ε → ε') :
    (x >>= f).mapError g = x.mapError g >>= fun a => (f a).mapError g := by
  cases x with
  | error e => rfl
  | ok a => rfl

theorem toOption_eq_some_iff {x : Except ε α} {a : α} : x.toOption = some a ↔ x = .ok a := by
  cases x with
  | error e => simp [Except.toOption]
  | ok b => simp [Except.toOption]

/-- What stands on the left of a list of pairs stands beside something on the right. -/
theorem exists_of_forall₂ {R : α → β → Prop} {as : List α} {bs : List β}
    (h : List.Forall₂ R as bs) {a : α} (ha : a ∈ as) : ∃ b, R a b := by
  induction h with
  | nil => cases ha
  | cons h _ ih =>
    rcases List.mem_cons.1 ha with rfl | ha
    · exact ⟨_, h⟩
    · exact ih ha

/-- What stands on the right of a list of pairs stands beside something on the left. -/
theorem exists_mem_of_forall₂ {R : α → β → Prop} {as : List α} {bs : List β}
    (h : List.Forall₂ R as bs) {b : β} (hb : b ∈ bs) : ∃ a ∈ as, R a b := by
  induction h with
  | nil => cases hb
  | cons h _ ih =>
    rcases List.mem_cons.1 hb with rfl | hb
    · exact ⟨_, List.mem_cons_self, h⟩
    · obtain ⟨a, ha, hab⟩ := ih hb
      exact ⟨a, List.mem_cons_of_mem _ ha, hab⟩

/-- A list of calls succeeds when each of them does. -/
theorem mapM_ok_iff {f : α → Except ε β} {as : List α} {bs : List β} :
    as.mapM f = .ok bs ↔ List.Forall₂ (fun a b => f a = .ok b) as bs := by
  induction as generalizing bs with
  | nil => simp [pure, Except.pure, eq_comm]
  | cons a as ih =>
    simp only [List.mapM_cons, bind_ok_iff, ih, pure, Except.pure, Except.ok.injEq]
    constructor
    · rintro ⟨b, hb, bs, hbs, rfl⟩
      exact .cons hb hbs
    · rintro (_ | ⟨hb, hbs⟩)
      exact ⟨_, hb, _, hbs, rfl⟩

/-- A list of calls is refused when one of them is and those before it succeed. -/
theorem mapM_error_iff {f : α → Except ε β} {as : List α} {e : ε} :
    as.mapM f = .error e ↔ ∃ before a later, as = before ++ a :: later ∧
      (∀ a' ∈ before, ∃ b, f a' = .ok b) ∧ f a = .error e := by
  induction as with
  | nil => simp [pure, Except.pure]
  | cons a as ih =>
    rw [List.mapM_cons, bind_error_iff]
    constructor
    · rintro (h | ⟨b, hb, h⟩)
      · exact ⟨[], a, as, rfl, by simp, h⟩
      · rcases bind_error_iff.1 h with h | ⟨bs, -, h⟩
        · obtain ⟨before, a', later, rfl, hbefore, ha'⟩ := ih.1 h
          exact ⟨a :: before, a', later, rfl, List.forall_mem_cons.2 ⟨⟨b, hb⟩, hbefore⟩, ha'⟩
        · cases h
    · rintro ⟨before, a', later, heq, hbefore, ha'⟩
      cases before with
      | nil =>
        obtain ⟨rfl, rfl⟩ := List.cons.inj heq
        exact .inl ha'
      | cons c before =>
        obtain ⟨rfl, rfl⟩ := List.cons.inj heq
        obtain ⟨⟨b, hb⟩, hbefore⟩ := List.forall_mem_cons.1 hbefore
        exact .inr ⟨b, hb, bind_error_iff.2 (.inl (ih.2 ⟨before, a', later, rfl, hbefore, ha'⟩))⟩

/-- A list of calls is refused when one of them is, for the reason that one of them has. -/
theorem exists_mapM_error {f : α → Except ε β} {P : ε → Prop} {as : List α}
    (hf : ∀ a ∈ as, ∀ e, f a = .error e → P e) (h : ∃ a ∈ as, ∀ b, f a ≠ .ok b) :
    ∃ e, as.mapM f = .error e ∧ P e := by
  cases hm : as.mapM f with
  | ok bs =>
    obtain ⟨a, ha, hnot⟩ := h
    obtain ⟨b, hb⟩ := exists_of_forall₂ (mapM_ok_iff.1 hm) ha
    exact absurd hb (hnot b)
  | error e =>
    obtain ⟨before, a, later, rfl, -, ha⟩ := mapM_error_iff.1 hm
    exact ⟨e, rfl, hf a (by simp) e ha⟩

/-- What the result of every call is, every result of a list of calls is. -/
theorem forall_of_mapM {f : α → Except ε β} {P : β → Prop} {as : List α} {bs : List β}
    (hf : ∀ a ∈ as, ∀ b, f a = .ok b → P b) (h : as.mapM f = .ok bs) : ∀ b ∈ bs, P b := by
  induction mapM_ok_iff.1 h with
  | nil => simp
  | cons hab hrest ih =>
    obtain ⟨hfirst, hf⟩ := List.forall_mem_cons.1 hf
    exact List.forall_mem_cons.2 ⟨hfirst _ hab, ih hf (mapM_ok_iff.2 hrest)⟩

/-- What every successful step keeps, a successful fold keeps. -/
theorem foldlM_ok_induction {P : α → Prop} {f : α → β → Except ε α}
    (step : ∀ a b a', P a → f a b = .ok a' → P a') {l : List β} {a a' : α} (ha : P a)
    (h : l.foldlM f a = .ok a') : P a' := by
  induction l generalizing a with
  | nil =>
    simp only [List.foldlM_nil, pure, Except.pure, Except.ok.injEq] at h
    exact h ▸ ha
  | cons b l ih =>
    rw [List.foldlM_cons, bind_ok_iff] at h
    obtain ⟨a₁, h₁, h⟩ := h
    exact ih (step a b a₁ ha h₁) h

end Concordance
