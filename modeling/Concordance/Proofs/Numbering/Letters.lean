import Concordance.Proofs.Numbering.Text
import Mathlib.Data.List.Induction
import Mathlib.Data.List.Shortlex
import Mathlib.Data.Set.Function

/-!
# Annex letters as numerals

Letters are the numerals of the positive numbers to the base 26 without a digit for zero. Every
non-empty word of capital letters is one of them: `ordinal` reads it, and the letters of what it
reads are the word again (`letters_ordinal`). Numerals are ordered as the numbers are, shorter ones
first and those of one length by their letters (`shortlex_letters`).

The main statement is `annexLetters_bijOn`.
-/

namespace Concordance.Numbering

/-! ## Reading letters -/

/-- The non-empty words of the letters A to Z. -/
def capitals : Set (List Char) := {cs | cs ≠ [] ∧ ∀ c ∈ cs, 'A' ≤ c ∧ c ≤ 'Z'}

theorem toNat_of_capital {c : Char} (h : 'A' ≤ c ∧ c ≤ 'Z') : 65 ≤ c.toNat ∧ c.toNat ≤ 90 :=
  ⟨UInt32.le_iff_toNat_le.1 h.1, UInt32.le_iff_toNat_le.1 h.2⟩

theorem letter_toNat {c : Char} (h : 'A' ≤ c ∧ c ≤ 'Z') : letter (c.toNat - 65) = c := by
  have hc := toNat_of_capital h
  rw [letter, Nat.add_sub_cancel' hc.1, Char.ofNat_toNat]

theorem ordinal_concat (cs : List Char) (c : Char) :
    ordinal (cs ++ [c]) = 26 * ordinal cs + (c.toNat - 64) := by
  rw [ordinal, List.foldl_append]
  rfl

theorem letters_ordinal {cs : List Char} (h : ∀ c ∈ cs, 'A' ≤ c ∧ c ≤ 'Z') :
    letters (ordinal cs) = cs := by
  induction cs using List.reverseRecOn with
  | nil => rw [ordinal, List.foldl_nil, letters]
  | append_singleton cs c ih =>
    obtain ⟨hcs, hc⟩ := List.forall_mem_append.1 h
    rw [List.forall_mem_singleton] at hc
    have hrange := toNat_of_capital hc
    -- the last letter is a digit from one to twenty-six, so it leaves a remainder below 26
    have hval : ordinal (cs ++ [c]) = 26 * ordinal cs + (c.toNat - 65) + 1 := by
      rw [ordinal_concat]
      omega
    have hdiv : (26 * ordinal cs + (c.toNat - 65)) / 26 = ordinal cs := by omega
    have hmod : (26 * ordinal cs + (c.toNat - 65)) % 26 = c.toNat - 65 := by omega
    rw [hval, letters_succ, hdiv, hmod, ih hcs, letter_toNat hc]

theorem ordinal_pos {cs : List Char} (h : cs ∈ capitals) : 0 < ordinal cs := by
  refine Nat.pos_of_ne_zero fun hzero => h.1 ?_
  rw [← letters_ordinal h.2, hzero, letters]

theorem letters_mem_capitals {n : Nat} (h : 0 < n) : letters n ∈ capitals := by
  exact ⟨letters_ne_nil h, fun c hc => of_decide_eq_true (isUpper_of_mem_letters hc)⟩

/-! ## The order of numerals -/

theorem letter_lt_letter {i j : Nat} (h : i < j) (hj : j < 26) : letter i < letter j := by
  rw [Char.lt_def, UInt32.lt_iff_toNat_lt]
  have hi := toNat_letter (h.trans hj)
  have hj := toNat_letter hj
  rw [Char.toNat] at hi hj
  omega

/-- What decides the order of two words decides it whatever is put after them, provided that they
are of one length. -/
theorem lex_append {cs ds : List Char} (h : List.Lex (· < ·) cs ds)
    (hlength : cs.length = ds.length) (us vs : List Char) :
    List.Lex (· < ·) (cs ++ us) (ds ++ vs) := by
  induction h with
  | nil => cases hlength
  | rel h => exact .rel h
  | cons _ ih => exact .cons (ih (Nat.succ.inj hlength))

theorem shortlex_concat {cs ds : List Char} (h : List.Shortlex (· < ·) cs ds) (c d : Char) :
    List.Shortlex (· < ·) (cs ++ [c]) (ds ++ [d]) := by
  rcases List.shortlex_def.1 h with hlt | ⟨heq, hlex⟩
  · exact .of_length_lt (by simpa using hlt)
  · exact .of_lex (by simpa using heq) (lex_append hlex heq [c] [d])

theorem shortlex_letters {m n : Nat} (h : m < n) :
    List.Shortlex (· < ·) (letters m) (letters n) := by
  induction n using letters.induct generalizing m with
  | case1 => cases h
  | case2 n ih =>
    cases m with
    | zero =>
      rw [letters]
      exact .of_length_lt (List.length_pos_iff.2 (letters_ne_nil n.succ_pos))
    | succ m =>
      rw [letters_succ, letters_succ]
      have hlt : m < n := Nat.lt_of_succ_lt_succ h
      rcases (Nat.div_le_div_right (c := 26) hlt.le).lt_or_eq with hlt | heq
      · exact shortlex_concat (ih hlt) _ _
      · -- with all digits but the last alike, the last digits are ordered as the numbers are
        have hmod : m % 26 < n % 26 := by omega
        rw [heq]
        exact .append_left ((List.shortlex_singleton_iff _ _).2
          (letter_lt_letter hmod (Nat.mod_lt _ (by omega)))) _

theorem shortlex_letters_iff {m n : Nat} :
    List.Shortlex (· < ·) (letters m) (letters n) ↔ m < n := by
  refine ⟨fun h => ?_, shortlex_letters⟩
  rcases Nat.lt_trichotomy m n with hlt | rfl | hgt
  · exact hlt
  · exact (irrefl _ h).elim
  · exact (asymm h (shortlex_letters hgt)).elim

/-! ## Annex letters -/

theorem annexLetters_of_pos {n : Int} (h : 0 < n) : annexLetters n = .ok (letters n.toNat) :=
  if_pos h

/-- Annex letters are a numeral system: the positive ordinals have letters, one to one all non-empty
words of capital letters; the ordinal that a word writes is the ordinal that it is of; and ordinals
are in the order of their letters, shorter words before longer ones. -/
theorem annexLetters_bijOn :
    Set.BijOn annexLetters {n | 0 < n} (Except.ok '' capitals) ∧
      (∀ n : Int, 0 < n → ∀ cs, annexLetters n = .ok cs → (ordinal cs : Int) = n) ∧
      (∀ cs ∈ capitals, 0 < ordinal cs ∧ annexLetters (ordinal cs) = .ok cs) ∧
      ∀ m n : Int, 0 < m → 0 < n → ∀ cs ds, annexLetters m = .ok cs → annexLetters n = .ok ds →
        (List.Shortlex (· < ·) cs ds ↔ m < n) := by
  have hleft : ∀ n : Int, 0 < n → ∀ cs, annexLetters n = .ok cs → (ordinal cs : Int) = n := by
    intro n hn cs hcs
    rw [annexLetters_of_pos hn] at hcs
    obtain rfl := Except.ok.inj hcs
    rw [ordinal_letters, Int.toNat_of_nonneg hn.le]
  have hright : ∀ cs ∈ capitals, 0 < ordinal cs ∧ annexLetters (ordinal cs) = .ok cs := by
    intro cs hcs
    have hpos := ordinal_pos hcs
    refine ⟨hpos, ?_⟩
    rw [annexLetters_of_pos (Int.natCast_pos.2 hpos), Int.toNat_natCast, letters_ordinal hcs.2]
  refine ⟨⟨fun n hn => ?_, fun m hm n hn heq => ?_, ?_⟩, hleft, hright, ?_⟩
  · exact ⟨_, letters_mem_capitals (Int.pos_iff_toNat_pos.1 hn), (annexLetters_of_pos hn).symm⟩
  · rw [← hleft m hm _ (annexLetters_of_pos hm),
      ← hleft n hn _ (heq.symm.trans (annexLetters_of_pos hm))]
  · rintro _ ⟨cs, hcs, rfl⟩
    obtain ⟨hpos, hok⟩ := hright cs hcs
    exact ⟨ordinal cs, Int.natCast_pos.2 hpos, hok⟩
  · intro m n hm hn cs ds hcs hds
    rw [annexLetters_of_pos hm] at hcs
    rw [annexLetters_of_pos hn] at hds
    obtain rfl := Except.ok.inj hcs
    obtain rfl := Except.ok.inj hds
    rw [shortlex_letters_iff]
    omega

end Concordance.Numbering
