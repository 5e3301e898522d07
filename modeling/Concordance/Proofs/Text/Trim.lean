import Concordance.Text.Blank
import Concordance.Text.WordChar

/-!
# Texts without blanks at their ends

A text that `Starts` and `Ends` with a character that is not blank is what trimming leaves of it.
A longer text starts as its first part does and ends as its last part does. No word character is
blank (`isBlank_eq_false_of_isWordChar`).
-/

namespace Concordance.Text

/-- The text starts with a character that is not blank. -/
def Starts (cs : List Char) : Prop := ∃ c ds, cs = c :: ds ∧ isBlank c = false

/-- The text ends with a character that is not blank. -/
def Ends (cs : List Char) : Prop := ∃ ds c, cs = ds ++ [c] ∧ isBlank c = false

section Ends

variable {cs : List Char}

theorem Starts.append (h : Starts cs) (ds : List Char) : Starts (cs ++ ds) := by
  obtain ⟨c, es, rfl, hc⟩ := h
  exact ⟨c, es ++ ds, rfl, hc⟩

theorem Ends.append (h : Ends cs) (ds : List Char) : Ends (ds ++ cs) := by
  obtain ⟨es, c, rfl, hc⟩ := h
  exact ⟨ds ++ es, c, (List.append_assoc ..).symm, hc⟩

theorem starts_of_forall (hne : cs ≠ []) (h : ∀ c ∈ cs, isBlank c = false) : Starts cs := by
  obtain ⟨c, ds, rfl⟩ := List.exists_cons_of_ne_nil hne
  exact ⟨c, ds, rfl, h c List.mem_cons_self⟩

theorem ends_of_forall (hne : cs ≠ []) (h : ∀ c ∈ cs, isBlank c = false) : Ends cs :=
  ⟨cs.dropLast, cs.getLast hne, (List.dropLast_concat_getLast hne).symm, h _ (List.getLast_mem hne)⟩

theorem Starts.trimLeft (h : Starts cs) : trimLeft cs = cs := by
  obtain ⟨c, ds, rfl, hc⟩ := h
  exact List.dropWhile_cons_of_neg (by simp [hc])

theorem Starts.leading (h : Starts cs) : leading cs = 0 := by
  obtain ⟨c, ds, rfl, hc⟩ := h
  simp [Text.leading, hc]

theorem Starts.allBlank (h : Starts cs) : allBlank cs = false := by
  obtain ⟨c, ds, rfl, hc⟩ := h
  simp [Text.allBlank, hc]

theorem Ends.trimRight (h : Ends cs) : trimRight cs = cs := by
  obtain ⟨ds, c, rfl, hc⟩ := h
  simp [Text.trimRight, hc]

theorem trim_eq (hs : Starts cs) (he : Ends cs) : trim cs = cs := by
  rw [trim, hs.trimLeft, he.trimRight]

theorem Starts.trimLeft_space (h : Starts cs) : Text.trimLeft (' ' :: cs) = cs := by
  rw [Text.trimLeft, List.dropWhile_cons_of_pos (by decide)]
  exact h.trimLeft

theorem trim_space (hs : Starts cs) (he : Ends cs) : trim (' ' :: cs) = cs := by
  rw [trim, hs.trimLeft_space, he.trimRight]

theorem Ends.trimRight_space (h : Ends cs) : Text.trimRight (cs ++ [' ']) = cs := by
  rw [Text.trimRight, List.reverse_append, List.reverse_singleton, List.singleton_append,
    List.dropWhile_cons_of_pos (by decide)]
  exact h.trimRight

/-- What trimming leaves of a text, if anything, ends in a character that is not blank. -/
theorem ends_trim (h : trim cs ≠ []) : Ends (trim cs) := by
  rw [trim, Text.trimRight] at h ⊢
  obtain ⟨c, ds, hcs⟩ := List.exists_cons_of_ne_nil (fun hnil => h (List.reverse_eq_nil_iff.2 hnil))
  have hc := List.head?_dropWhile_not isBlank (Text.trimLeft cs).reverse
  rw [hcs, List.head?_cons] at hc
  exact ⟨ds.reverse, c, by rw [hcs, List.reverse_cons], by simpa using hc⟩

/-- What trimming leaves of a text, if anything, starts with a character that is not blank. -/
theorem starts_trim (h : trim cs ≠ []) : Starts (trim cs) := by
  obtain ⟨c, ds, hds⟩ := List.exists_cons_of_ne_nil h
  obtain ⟨tail, htail⟩ : trim cs <+: Text.trimLeft cs := by
    rw [← List.reverse_suffix, trim, Text.trimRight, List.reverse_reverse]
    exact List.dropWhile_suffix isBlank
  have hc := List.head?_dropWhile_not isBlank cs
  rw [← Text.trimLeft, ← htail, hds, List.cons_append, List.head?_cons] at hc
  exact ⟨c, ds, hds, by simpa using hc⟩

theorem trimLeft_append {us : List Char} (hus : ∀ c ∈ us, isBlank c = true) (cs : List Char) :
    Text.trimLeft (us ++ cs) = Text.trimLeft cs := by
  exact List.dropWhile_append_of_pos hus

theorem leading_append {us : List Char} (hus : ∀ c ∈ us, isBlank c = true) (cs : List Char) :
    Text.leading (us ++ cs) = us.length + Text.leading cs := by
  rw [Text.leading, List.takeWhile_append_of_pos hus, List.length_append, Text.leading]

/-- What is left after the longest run of a class of characters. -/
theorem drop_takeWhile (p : Char → Bool) (cs : List Char) :
    cs.drop (cs.takeWhile p).length = cs.dropWhile p := by
  calc cs.drop (cs.takeWhile p).length
      = (cs.takeWhile p ++ cs.dropWhile p).drop (cs.takeWhile p).length := by
        rw [List.takeWhile_append_dropWhile]
    _ = cs.dropWhile p := List.drop_left

theorem append_drop_takeWhile (p : Char → Bool) (cs : List Char) :
    cs.takeWhile p ++ cs.drop (cs.takeWhile p).length = cs := by
  rw [drop_takeWhile, List.takeWhile_append_dropWhile]

theorem drop_leading (cs : List Char) : cs.drop (Text.leading cs) = Text.trimLeft cs :=
  drop_takeWhile isBlank cs

/-- A text is what trimming leaves of it, with blanks before and after. -/
theorem exists_eq_append_trim (cs : List Char) : ∃ us vs, cs = us ++ trim cs ++ vs ∧
    (∀ c ∈ us, isBlank c = true) ∧ ∀ c ∈ vs, isBlank c = true := by
  refine ⟨cs.takeWhile isBlank, ((Text.trimLeft cs).reverse.takeWhile isBlank).reverse, ?_,
    List.all_eq_true.1 List.all_takeWhile,
    fun c hc => List.all_eq_true.1 List.all_takeWhile c (List.mem_reverse.1 hc)⟩
  have hright : trim cs ++ ((Text.trimLeft cs).reverse.takeWhile isBlank).reverse =
      Text.trimLeft cs := by
    rw [trim, Text.trimRight, ← List.reverse_append, List.takeWhile_append_dropWhile,
      List.reverse_reverse]
  rw [List.append_assoc, hright]
  exact List.takeWhile_append_dropWhile.symm

theorem length_trimRight_le (cs : List Char) : (Text.trimRight cs).length ≤ cs.length := by
  rw [Text.trimRight, List.length_reverse]
  exact Nat.le_trans (List.dropWhile_suffix isBlank).length_le (Nat.le_of_eq List.length_reverse)

theorem trim_ne_nil (h : allBlank cs = false) : trim cs ≠ [] := by
  intro hnil
  obtain ⟨us, vs, hcs, hus, hvs⟩ := exists_eq_append_trim cs
  rw [hnil, List.append_nil] at hcs
  rw [allBlank, hcs, List.all_eq_false] at h
  obtain ⟨c, hc, hblank⟩ := h
  exact hblank ((List.mem_append.1 hc).elim (hus c) (hvs c))

/-- Texts put together end as the last of them does. -/
theorem ends_intercalate {sep : List Char} {texts : List (List Char)} (hne : texts ≠ [])
    (h : ∀ cs ∈ texts, Ends cs) : Ends (sep.intercalate texts) := by
  induction texts with
  | nil => exact absurd rfl hne
  | cons cs texts ih =>
    obtain ⟨hcs, htexts⟩ := List.forall_mem_cons.1 h
    cases texts with
    | nil => simpa using hcs
    | cons ds texts =>
      rw [List.intercalate_cons_cons]
      exact (ih (List.cons_ne_nil _ _) htexts).append _

theorem Starts.allBlank_space (h : Starts cs) : Text.allBlank (' ' :: cs) = false := by
  have hblank := h.allBlank
  simp only [Text.allBlank] at hblank
  simp [Text.allBlank, hblank]

end Ends

/-! ## Words -/

theorem blankRanges_disjoint :
    ∀ r ∈ blankRanges, ∀ q ∈ wordRanges, r.2 < q.1 ∨ q.2 < r.1 := by
  decide +kernel

theorem isBlank_ascii : ∀ n < 128, isBlank (Char.ofNat n) = true →
    ((Char.ofNat n).isAlphanum || Char.ofNat n == '_') = false := by
  decide

theorem isBlank_eq_false_of_isWordChar {c : Char} (h : isWordChar c = true) :
    isBlank c = false := by
  rw [Bool.eq_false_iff]
  intro hb
  unfold isWordChar at h
  split at h
  · next hc =>
    have hword := isBlank_ascii c.toNat hc
    rw [Char.ofNat_toNat, h] at hword
    exact absurd (hword hb) (by simp)
  · obtain ⟨r, hr, hlow, hhigh⟩ := inRanges_iff.1 hb
    obtain ⟨q, hq, hlow', hhigh'⟩ := inRanges_iff.1 h
    have := blankRanges_disjoint r hr q hq
    omega

theorem toNat_lt_of_isAlphanum {c : Char} (h : c.isAlphanum = true) : c.toNat < 128 := by
  have hle : c.val ≤ 'Z'.val ∨ c.val ≤ 'z'.val ∨ c.val ≤ '9'.val := by
    rcases Bool.or_eq_true_iff.1 h with halpha | hdigit
    · rcases Bool.or_eq_true_iff.1 halpha with hupper | hlower
      · exact .inl (of_decide_eq_true hupper).2
      · exact .inr (.inl (of_decide_eq_true (Bool.and_eq_true_iff.1 hlower).2))
    · exact .inr (.inr (of_decide_eq_true (Bool.and_eq_true_iff.1 hdigit).2))
  simp only [UInt32.le_iff_toNat_le] at hle
  change c.toNat ≤ 90 ∨ c.toNat ≤ 122 ∨ c.toNat ≤ 57 at hle
  omega

theorem isBlank_of_isAlphanum {c : Char} (h : c.isAlphanum = true) : isBlank c = false :=
  isBlank_eq_false_of_isWordChar (isWordChar_of_isAlphanum (toNat_lt_of_isAlphanum h) h)

end Concordance.Text
