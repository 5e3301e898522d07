import Concordance.TypePhrase.Basic
import Mathlib.Data.List.Basic

/-!
# Valid type phrases

The checked constructors build valid phrases from valid parts and nothing else. A choice between
valid phrases is valid, since the alternatives that are joined are no choices themselves; and there
are at least two of them, or the choice is the only one (`valid_either`). It has the alternatives of
these phrases, in order (`alternatives_either`), so that it does not matter which of them are chosen
between first (`either?_append`).
-/

namespace Concordance.TypePhrase

theorem validFields_iff {fields : List (String × TypePhrase)} :
    ValidFields fields ↔ ∀ f ∈ fields, f.2.Valid := by
  induction fields with
  | nil => simp [ValidFields]
  | cons f fields ih => simp [ValidFields, ih]

theorem validAll_iff {ts : List TypePhrase} : ValidAll ts ↔ ∀ t ∈ ts, t.Valid := by
  induction ts with
  | nil => simp [ValidAll]
  | cons t ts ih => simp [ValidAll, ih]

/-! ## Checked constructors -/

theorem valid_of_named? {name : String} {t : TypePhrase} (h : named? name = .ok t) : t.Valid := by
  unfold named? at h
  split at h
  · cases h
  · next hb =>
    obtain rfl := Except.ok.inj h
    simpa [Valid] using hb

theorem valid_of_record? {fields : List (String × TypePhrase)} {t : TypePhrase}
    (hf : ∀ f ∈ fields, f.2.Valid) (h : record? fields = .ok t) : t.Valid := by
  unfold record? at h
  split at h
  · next hd =>
    obtain rfl := Except.ok.inj h
    exact ⟨hd, validFields_iff.2 hf⟩
  · cases h

theorem valid_of_union? {ts : List TypePhrase} {t : TypePhrase} (hts : ∀ u ∈ ts, u.Valid)
    (h : union? ts = .ok t) : t.Valid := by
  unfold union? at h
  split at h
  · cases h
  · split at h
    · cases h
    · next hlen hflat =>
      obtain rfl := Except.ok.inj h
      exact ⟨by omega, by simpa using hflat, validAll_iff.2 hts⟩

theorem union?_of_valid {ts : List TypePhrase} (h : (union ts).Valid) :
    union? ts = .ok (.union ts) := by
  rw [union?, if_neg (by have := h.1; omega), if_neg (by simp [h.2.1])]

/-! ## Choices -/

/-- The alternatives of a valid phrase are valid, and none of them is a choice. -/
theorem Valid.alternative {t u : TypePhrase} (h : t.Valid) (hu : u ∈ t.alternatives) :
    u.Valid ∧ u.isUnion = false := by
  cases t with
  | union ts => exact ⟨validAll_iff.1 h.2.2 u hu, by simpa using List.any_eq_false.1 h.2.1 u hu⟩
  | _ =>
    obtain rfl := List.mem_singleton.1 hu
    exact ⟨h, rfl⟩

theorem Valid.alternatives_ne_nil {t : TypePhrase} (h : t.Valid) : t.alternatives ≠ [] := by
  cases t with
  | union ts =>
    intro hnil
    have hlen := h.1
    rw [show ts = [] from hnil] at hlen
    exact absurd hlen (by decide)
  | _ => exact List.cons_ne_nil _ _

/-- One phrase stands for itself, and two or more that are no choices can be chosen between. -/
theorem ofAlternatives_cases {ts : List TypePhrase} (hne : ts ≠ [])
    (hts : ∀ t ∈ ts, t.Valid ∧ t.isUnion = false) :
    (∃ t, ts = [t] ∧ ofAlternatives ts = t ∧ t.Valid) ∨
      2 ≤ ts.length ∧ ofAlternatives ts = .union ts ∧ (union ts).Valid := by
  match ts with
  | [] => exact absurd rfl hne
  | [t] => exact .inl ⟨t, rfl, rfl, (hts t List.mem_cons_self).1⟩
  | t :: u :: ts =>
    refine .inr ⟨by simp, rfl, by simp, ?_, validAll_iff.2 fun v hv => (hts v hv).1⟩
    exact List.any_eq_false.2 fun v hv => by simp [(hts v hv).2]

theorem forall_flatMap_alternatives {ts : List TypePhrase} (h : ∀ t ∈ ts, t.Valid) :
    ∀ u ∈ ts.flatMap alternatives, u.Valid ∧ u.isUnion = false := by
  intro u hu
  obtain ⟨t, ht, hu⟩ := List.mem_flatMap.1 hu
  exact (h t ht).alternative hu

theorem flatMap_alternatives_ne_nil {t : TypePhrase} (h : t.Valid) (ts : List TypePhrase) :
    (t :: ts).flatMap alternatives ≠ [] := by
  simp [h.alternatives_ne_nil]

/-- **A choice between valid phrases is valid.** -/
theorem valid_either {t : TypePhrase} {ts : List TypePhrase} (h : ∀ u ∈ t :: ts, u.Valid) :
    (either t ts).Valid := by
  have hne := flatMap_alternatives_ne_nil (h t List.mem_cons_self) ts
  unfold either
  rcases ofAlternatives_cases hne (forall_flatMap_alternatives h) with
    ⟨u, -, heq, hu⟩ | ⟨-, heq, hu⟩
  · rw [heq]
    exact hu
  · rw [heq]
    exact hu

/-! ## Choices between alternatives that are no choices -/

theorem alternatives_of_not_isUnion {t : TypePhrase} (h : t.isUnion = false) :
    t.alternatives = [t] := by
  cases t with
  | union ts => simp [isUnion] at h
  | _ => rfl

theorem flatMap_alternatives {ts : List TypePhrase} (h : ts.any isUnion = false) :
    ts.flatMap alternatives = ts := by
  induction ts with
  | nil => rfl
  | cons t ts ih =>
    rw [List.any_cons, Bool.or_eq_false_iff] at h
    rw [List.flatMap_cons, alternatives_of_not_isUnion h.1, ih h.2]
    rfl

theorem either_of_not_isUnion {t : TypePhrase} (h : t.isUnion = false) : either t [] = t := by
  rw [either, flatMap_alternatives (by simp [h])]
  rfl

theorem either_of_valid {t u : TypePhrase} {ts : List TypePhrase}
    (h : (t :: u :: ts).any isUnion = false) : either t (u :: ts) = .union (t :: u :: ts) := by
  rw [either, flatMap_alternatives h]
  rfl

/-! ## Choices between choices -/

theorem alternatives_ofAlternatives {ts : List TypePhrase} (hne : ts ≠ [])
    (h : ∀ t ∈ ts, t.isUnion = false) : (ofAlternatives ts).alternatives = ts := by
  match ts with
  | [] => exact absurd rfl hne
  | [t] => exact alternatives_of_not_isUnion (h t List.mem_cons_self)
  | _ :: _ :: _ => rfl

/-- **A choice has the alternatives of the types that it is between**, in order. -/
theorem alternatives_either {t : TypePhrase} {ts : List TypePhrase}
    (h : ∀ u ∈ t :: ts, u.Valid) :
    (either t ts).alternatives = (t :: ts).flatMap alternatives :=
  alternatives_ofAlternatives (flatMap_alternatives_ne_nil (h t List.mem_cons_self) ts)
    fun u hu => (forall_flatMap_alternatives h u hu).2

/-- A choice between two choices is the choice between all of their types. -/
theorem either_either {t u : TypePhrase} {ts us : List TypePhrase}
    (ht : ∀ v ∈ t :: ts, v.Valid) (hu : ∀ v ∈ u :: us, v.Valid) :
    either (either t ts) [either u us] = either t (ts ++ u :: us) := by
  have hflat : [either t ts, either u us].flatMap alternatives =
      (t :: (ts ++ u :: us)).flatMap alternatives := by
    rw [← List.cons_append, List.flatMap_append, List.flatMap_cons, List.flatMap_singleton,
      alternatives_either ht, alternatives_either hu]
  exact congrArg ofAlternatives hflat

/-- **The choice between types is a homomorphism** from the lists that are not empty. -/
theorem either?_append {ts us : List TypePhrase} (hts : ts ≠ []) (hus : us ≠ [])
    (h : ∀ v ∈ ts ++ us, v.Valid) :
    either? (ts ++ us) = (do either? [← either? ts, ← either? us]) := by
  obtain ⟨t, ts, rfl⟩ := List.exists_cons_of_ne_nil hts
  obtain ⟨u, us, rfl⟩ := List.exists_cons_of_ne_nil hus
  obtain ⟨ht, hu⟩ := List.forall_mem_append.1 h
  exact congrArg Except.ok (either_either ht hu).symm

/-- A valid phrase is the choice between its alternatives. -/
theorem ofAlternatives_alternatives {t : TypePhrase} (h : t.Valid) :
    ofAlternatives t.alternatives = t := by
  match t with
  | .named _ | .list _ | .record _ => rfl
  | .union [] => exact absurd h.1 (by decide)
  | .union [_] => exact absurd h.1 (Nat.lt_irrefl 1)
  | .union (_ :: _ :: _) => rfl

theorem either_nil {t : TypePhrase} (h : t.Valid) : either t [] = t := by
  rw [either, List.flatMap_singleton, ofAlternatives_alternatives h]

end Concordance.TypePhrase
