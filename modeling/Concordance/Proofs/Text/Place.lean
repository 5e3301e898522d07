import Concordance.Proofs.Text.Trim

/-!
# Where a text stands

A text `StandsAt` an offset of a source when the characters of the source from there on are its
own. Places add up: what stands in a part of a source stands in the source, further along by the
place of the part (`StandsAt.trans`).
-/

namespace Concordance.Text

/-- The text is what stands in the source at the offset. -/
def StandsAt (source : List Char) (offset : Nat) (text : List Char) : Prop :=
  (source.drop offset).take text.length = text

instance (source : List Char) (offset : Nat) (text : List Char) :
    Decidable (StandsAt source offset text) := inferInstanceAs (Decidable (_ = _))

section Place

variable {source u w : List Char} {m n : Nat}

theorem standsAt_iff : StandsAt source n w ↔ w <+: source.drop n := by
  rw [List.prefix_iff_eq_take, StandsAt, eq_comm]

theorem standsAt_append (u w v : List Char) : StandsAt (u ++ (w ++ v)) u.length w := by
  rw [StandsAt, List.drop_left, List.take_left]

/-- Two texts stand one after the other when both together stand at the place of the first. -/
theorem standsAt_append_iff : StandsAt source n (u ++ w) ↔
    StandsAt source n u ∧ StandsAt source (n + u.length) w := by
  simp only [standsAt_iff, ← List.drop_drop]
  constructor
  · rintro ⟨v, hv⟩
    rw [← hv, List.append_assoc, List.drop_left]
    exact ⟨List.prefix_append _ _, List.prefix_append _ _⟩
  · rintro ⟨⟨v, hv⟩, hw⟩
    rw [← hv, List.drop_left] at hw
    rw [← hv]
    exact (List.prefix_append_right_inj u).2 hw

theorem StandsAt.trans (hu : StandsAt source m u) (hw : StandsAt u n w) :
    StandsAt source (m + n) w := by
  rw [standsAt_iff] at hu hw ⊢
  obtain ⟨v, hv⟩ := hu
  rw [← List.drop_drop, ← hv, List.drop_append]
  exact hw.trans (List.prefix_append _ _)

theorem StandsAt.le_length (h : StandsAt source n w) (hne : w ≠ []) :
    n + w.length ≤ source.length := by
  have hle := (standsAt_iff.1 h).length_le
  have hpos := List.length_pos_iff.2 hne
  rw [List.length_drop] at hle
  omega

theorem StandsAt.getElem? {c : Char} (h : StandsAt source n [c]) : source[n]? = some c := by
  obtain ⟨v, hv⟩ := standsAt_iff.1 h
  have hhead : (source.drop n).head? = some c := by
    rw [← hv]
    rfl
  rwa [List.head?_drop] at hhead

end Place

theorem standsAt_drop (source : List Char) (n : Nat) : StandsAt source n (source.drop n) :=
  List.take_length ..

/-- A character that is not blank stands after the leading blanks. -/
theorem leading_le {source cs : List Char} {n : Nat} {c : Char} (h : source.drop n = c :: cs)
    (hc : isBlank c = false) : leading source ≤ n := by
  rw [leading, ← List.take_append_drop n source, h, List.takeWhile_append]
  split
  · rw [List.takeWhile_cons_of_neg (by simp [hc]), List.append_nil]
    exact List.length_take_le n source
  · exact Nat.le_trans (List.takeWhile_prefix _).length_le (List.length_take_le n source)

/-- What trimming leaves of a text stands after its leading blanks. -/
theorem standsAt_trim (cs : List Char) : StandsAt cs (leading cs) (trim cs) := by
  rw [standsAt_iff, drop_leading, ← List.reverse_suffix, trim, trimRight,
    List.reverse_reverse]
  exact List.dropWhile_suffix isBlank

theorem leading_add_length_trim_le (cs : List Char) :
    leading cs + (trim cs).length ≤ cs.length := by
  have hle := (standsAt_iff.1 (standsAt_trim cs)).length_le
  have hlead := leading_add_length_trimLeft cs
  rw [drop_leading] at hle
  omega

end Concordance.Text
