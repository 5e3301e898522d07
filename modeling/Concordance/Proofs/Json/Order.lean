import Concordance.Json.Printer
import Mathlib.Data.List.Forall2

/-!
# Values up to the order of members

An object is written with its members in the order of their keys, so a value that is written and
read back may have its members in another order. Two values are the `Same` when they agree once all
members are put in order. What a reader asks of a value does not depend on that order: a scalar is
the same as itself only, the items of an array stay in place (`Same.array`), and a member is found
under its key wherever it stands (`Same.object`).
-/

namespace Concordance.Json

/-- The values differ at most in the order of members. -/
def Same (v w : Json) : Prop := v.sorted = w.sorted

theorem Same.refl (v : Json) : v.Same v := rfl

theorem sortedItems_eq (vs : List Json) : sortedItems vs = vs.map sorted := by
  induction vs with
  | nil => rfl
  | cons v vs ih => rw [sortedItems, ih, List.map_cons]

theorem sortedMembers_eq (ms : List (String × Json)) :
    sortedMembers ms = ms.map fun m => (m.1, m.2.sorted) := by
  induction ms with
  | nil => rfl
  | cons m ms ih => rw [sortedMembers, ih, List.map_cons]

/-- The members of an object in order are those of the object, each value in order. -/
theorem sorted_object_perm (ms : List (String × Json)) :
    ∃ ms', (Json.object ms).sorted = .object ms' ∧ ms'.Perm (ms.map fun m => (m.1, m.2.sorted)) :=
  ⟨_, rfl, sortedMembers_eq ms ▸ List.mergeSort_perm _ _⟩

theorem pairwise_mergeSort_keys (ms : List (String × Json)) :
    (ms.mergeSort fun a b => decide (a.1 ≤ b.1)).Pairwise fun a b => decide (a.1 ≤ b.1) = true := by
  refine List.pairwise_mergeSort ?_ ?_ ms
  · intro a b c hab hbc
    simp only [decide_eq_true_eq] at hab hbc ⊢
    exact String.le_trans hab hbc
  · intro a b
    simpa using String.le_total a.1 b.1

mutual

/-- Members that are in order stay as they are. -/
theorem sorted_sorted (v : Json) : v.sorted.sorted = v.sorted := by
  match v with
  | .array vs => rw [sorted, sorted, sortedItems_sortedItems vs]
  | .object ms =>
    have hperm := List.mergeSort_perm (sortedMembers ms) fun a b => decide (a.1 ≤ b.1)
    have hfixed : ∀ m ∈ sortedMembers ms, (m.1, m.2.sorted) = m := sorted_of_mem_sortedMembers ms
    rw [sorted, sorted, sortedMembers_eq (List.mergeSort _ _),
      List.map_congr_left fun m hm => hfixed m (hperm.mem_iff.1 hm), List.map_id',
      List.mergeSort_of_pairwise (pairwise_mergeSort_keys _)]
  | .null => rfl
  | .bool _ => rfl
  | .int _ => rfl
  | .float _ => rfl
  | .string _ => rfl

theorem sortedItems_sortedItems (vs : List Json) :
    sortedItems (sortedItems vs) = sortedItems vs := by
  match vs with
  | [] => rfl
  | v :: vs => rw [sortedItems, sortedItems, sorted_sorted v, sortedItems_sortedItems vs]

theorem sorted_of_mem_sortedMembers (ms : List (String × Json)) :
    ∀ m ∈ sortedMembers ms, (m.1, m.2.sorted) = m := by
  match ms with
  | [] => simp [sortedMembers]
  | (k, v) :: ms =>
    rw [sortedMembers, List.forall_mem_cons, sorted_sorted v]
    exact ⟨rfl, sorted_of_mem_sortedMembers ms⟩

end

/-! ## Scalars and arrays -/

theorem same_null_iff {v : Json} : v.Same .null ↔ v = .null := by
  cases v <;> simp [Same, sorted]

theorem same_bool_iff {v : Json} {b : Bool} : v.Same (.bool b) ↔ v = .bool b := by
  cases v <;> simp [Same, sorted]

theorem same_int_iff {v : Json} {n : Int} : v.Same (.int n) ↔ v = .int n := by
  cases v <;> simp [Same, sorted]

theorem same_string_iff {v : Json} {s : String} : v.Same (.string s) ↔ v = .string s := by
  cases v <;> simp [Same, sorted]

theorem Same.array {v : Json} {ws : List Json} (h : v.Same (.array ws)) :
    ∃ vs, v = .array vs ∧ List.Forall₂ Same vs ws := by
  cases v with
  | array vs =>
    refine ⟨vs, rfl, ?_⟩
    rw [Same, sorted, sorted, sortedItems_eq, sortedItems_eq, Json.array.injEq,
      ← List.forall₂_eq_eq_eq, List.forall₂_map_left_iff, List.forall₂_map_right_iff] at h
    exact h
  | _ => simp [Same, sorted] at h

theorem Same.isNull {v w : Json} (h : v.Same w) : v.isNull = w.isNull := by
  cases v <;> cases w <;> simp_all [Same, sorted, Json.isNull]

/-! ## Members -/

section Members

variable {ms : List (String × Json)}

theorem member?_cons (m : String × Json) (k : String) :
    member? (m :: ms) k = if m.1 = k then some m.2 else member? ms k := by
  rw [member?, List.find?_cons]
  by_cases h : m.1 = k
  · simp [h]
  · have hne : (m.1 == k) = false := by simpa using h
    rw [hne, if_neg h]
    rfl

theorem member?_eq_some_iff (hd : (ms.map (·.1)).Nodup) {k : String} {v : Json} :
    member? ms k = some v ↔ (k, v) ∈ ms := by
  induction ms with
  | nil => simp [member?]
  | cons m ms ih =>
    rw [List.map_cons, List.nodup_cons] at hd
    rw [member?_cons, List.mem_cons]
    split
    · next hk =>
      constructor
      · intro h
        rw [← hk, ← Option.some.inj h]
        exact .inl rfl
      · rintro (h | h)
        · rw [← h]
        · exact absurd (List.mem_map.2 ⟨_, h, rfl⟩) (hk ▸ hd.1)
    · next hk =>
      rw [ih hd.2, or_iff_right]
      rintro rfl
      exact hk rfl

/-- Every member of `ms` is found among `ms'`, up to the order of members in its value. -/
def Carries (ms' ms : List (String × Json)) : Prop :=
  ∀ k w, member? ms k = some w → ∃ w', member? ms' k = some w' ∧ w'.Same w

/-- Members are found under their keys in whatever order they stand. -/
theorem Same.object {v : Json} (h : v.Same (.object ms)) (hd : (ms.map (·.1)).Nodup) :
    ∃ ms', v = .object ms' ∧ Carries ms' ms := by
  cases v with
  | object ms' =>
    obtain ⟨_, heq, hp⟩ := sorted_object_perm ms
    obtain ⟨_, heq', hp'⟩ := sorted_object_perm ms'
    rw [Same, heq, heq', Json.object.injEq] at h
    subst h
    have hperm := hp'.symm.trans hp
    have hkeys : (ms'.map (·.1)).Perm (ms.map (·.1)) := by
      simpa [Function.comp_def] using hperm.map Prod.fst
    refine ⟨ms', rfl, fun k w hk => ?_⟩
    have hmem : (k, w.sorted) ∈ ms'.map fun m => (m.1, m.2.sorted) :=
      hperm.mem_iff.2 (List.mem_map.2 ⟨(k, w), (member?_eq_some_iff hd).1 hk, rfl⟩)
    obtain ⟨⟨k', w'⟩, hw', hm⟩ := List.mem_map.1 hmem
    obtain ⟨rfl, hsame⟩ := Prod.mk.inj hm
    exact ⟨w', (member?_eq_some_iff (hkeys.nodup_iff.2 hd)).2 hw', hsame⟩
  | _ => simp [Same, sorted] at h

variable {ms' : List (String × Json)} (hc : Carries ms' ms) {k : String}
include hc

theorem Carries.string {s : String} (h : member? ms k = some (.string s)) :
    member? ms' k = some (.string s) := by
  obtain ⟨w, hw, hs⟩ := hc k _ h
  rw [hw, same_string_iff.1 hs]

theorem Carries.bool {b : Bool} (h : member? ms k = some (.bool b)) :
    member? ms' k = some (.bool b) := by
  obtain ⟨w, hw, hs⟩ := hc k _ h
  rw [hw, same_bool_iff.1 hs]

theorem Carries.int {n : Int} (h : member? ms k = some (.int n)) :
    member? ms' k = some (.int n) := by
  obtain ⟨w, hw, hs⟩ := hc k _ h
  rw [hw, same_int_iff.1 hs]

theorem Carries.array {vs : List Json} (h : member? ms k = some (.array vs)) :
    ∃ vs', member? ms' k = some (.array vs') ∧ List.Forall₂ Same vs' vs := by
  obtain ⟨w, hw, hs⟩ := hc k _ h
  obtain ⟨vs', rfl, hvs⟩ := hs.array
  exact ⟨vs', hw, hvs⟩

end Members

/-! ## What does not depend on the order -/

theorem heightMembers_perm {ms ms' : List (String × Json)} (h : ms.Perm ms') :
    heightMembers ms = heightMembers ms' := by
  induction h with
  | nil => rfl
  | cons m _ ih => rw [heightMembers, heightMembers, ih]
  | swap m m' ms =>
    simp only [heightMembers]
    omega
  | trans _ _ ih ih' => exact ih.trans ih'

mutual

theorem height_sorted (v : Json) : v.sorted.height = v.height := by
  match v with
  | .array vs => rw [sorted, height, height, heightAll_sortedItems vs]
  | .object ms =>
    rw [sorted, height, height, heightMembers_perm (List.mergeSort_perm _ _),
      heightMembers_sortedMembers ms]
  | .null => rfl
  | .bool _ => rfl
  | .int _ => rfl
  | .float _ => rfl
  | .string _ => rfl

theorem heightAll_sortedItems (vs : List Json) : heightAll (sortedItems vs) = heightAll vs := by
  match vs with
  | [] => rfl
  | v :: vs => rw [sortedItems, heightAll, heightAll, height_sorted v, heightAll_sortedItems vs]

theorem heightMembers_sortedMembers (ms : List (String × Json)) :
    heightMembers (sortedMembers ms) = heightMembers ms := by
  match ms with
  | [] => rfl
  | (k, v) :: ms =>
    rw [sortedMembers, heightMembers, heightMembers, height_sorted v,
      heightMembers_sortedMembers ms]

end

theorem Same.height {v w : Json} (h : v.Same w) : v.height = w.height := by
  rw [← height_sorted v, h, height_sorted w]

theorem isSet_sorted (v : Json) : v.sorted.isSet = v.isSet := by
  cases v with
  | array vs => rw [sorted, sortedItems_eq, isSet, isSet, List.isEmpty_map]
  | object ms =>
    rw [sorted, isSet, isSet, (List.mergeSort_perm _ _).isEmpty_eq, sortedMembers_eq,
      List.isEmpty_map]
  | _ => rfl

theorem key?_sorted (v : Json) : v.sorted.key? = v.key? := by cases v <;> rfl

end Concordance.Json
