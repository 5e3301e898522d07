import Concordance.Numbering
import Concordance.Proofs.Outcome
import Std.Data.String.ToNat

/-!
# What a number says

A number is the outermost counter, in letters or in digits, and the other counters in digits, with
points between them. Letters and digits write every positive counter in a way of their own, and no
counter is written with a point; so cutting a number at its points gives back its counters.

The main statements are `exists_text`, that a state whose counters are positive has a number, and
`text_injective`, that two such states with one number are the same.
-/

namespace Concordance.Numbering

/-! ## Letters -/

/-- The ordinal that letters write: the value of a numeral to the base 26 whose digits A to Z are
worth one to twenty-six. -/
def ordinal (cs : List Char) : Nat := cs.foldl (fun v c => 26 * v + (c.toNat - 64)) 0

theorem toNat_letter {i : Nat} (h : i < 26) : (letter i).toNat = 65 + i := by
  have hall : ∀ i < 26, (letter i).toNat = 65 + i := by decide
  exact hall i h

theorem letters_succ (n : Nat) : letters (n + 1) = letters (n / 26) ++ [letter (n % 26)] := by
  rw [letters]

theorem ordinal_letters (n : Nat) : ordinal (letters n) = n := by
  induction n using letters.induct with
  | case1 => rw [letters]; rfl
  | case2 n ih =>
    have hlt : n % 26 < 26 := Nat.mod_lt n (by omega)
    rw [ordinal] at ih
    rw [letters_succ, ordinal, List.foldl_append, ih, List.foldl_cons, List.foldl_nil,
      toNat_letter hlt]
    omega

theorem letters_injective {m n : Nat} (h : letters m = letters n) : m = n := by
  rw [← ordinal_letters m, h, ordinal_letters n]

theorem letters_ne_nil {n : Nat} (h : 0 < n) : letters n ≠ [] := by
  intro hnil
  have hval := ordinal_letters n
  rw [hnil] at hval
  exact Nat.ne_of_lt h hval

theorem isUpper_of_mem_letters {n : Nat} {c : Char} (h : c ∈ letters n) : c.isUpper = true := by
  induction n using letters.induct with
  | case1 => simp [letters] at h
  | case2 n ih =>
    rw [letters_succ, List.mem_append, List.mem_singleton] at h
    rcases h with h | rfl
    · exact ih h
    · have hall : ∀ i < 26, (letter i).isUpper = true := by decide
      exact hall _ (Nat.mod_lt n (by omega))

/-! ## Digits -/

theorem decimal_natCast (n : Nat) : decimal n = Nat.toDigits 10 n := by
  have hrepr : toString (n : Int) = n.repr := rfl
  rw [decimal, hrepr, Nat.repr_eq_ofList_toDigits, String.toList_ofList]

theorem decimal_of_nonneg {n : Int} (h : 0 ≤ n) : decimal n = Nat.toDigits 10 n.toNat := by
  rw [← decimal_natCast, Int.toNat_of_nonneg h]

theorem isDigit_of_mem_decimal {n : Int} (h : 0 ≤ n) {c : Char} (hc : c ∈ decimal n) :
    c.isDigit = true := by
  rw [decimal_of_nonneg h] at hc
  exact Nat.isDigit_of_mem_toDigits (by omega) (by omega) hc

theorem decimal_injective {m n : Int} (hm : 0 ≤ m) (hn : 0 ≤ n) (h : decimal m = decimal n) :
    m = n := by
  rw [decimal_of_nonneg hm, decimal_of_nonneg hn] at h
  have hval := congrArg (fun cs => Nat.ofDigitChars 10 cs 0) h
  simp only [Nat.ofDigitChars_ten_toDigits] at hval
  omega

/-! ## The counter at the front -/

/-- Every counter is positive. -/
def Positive (s : Numbering) : Prop := ∀ n ∈ s.counters, 1 ≤ n

/-- How the outermost counter is written. -/
def front (inAnnex : Bool) (n : Int) : List Char :=
  if inAnnex then letters n.toNat else decimal n

theorem text_eq {inAnnex : Bool} {top : Int} (h : 1 ≤ top) (rest : List Int) :
    text ⟨top :: rest, inAnnex⟩ = .ok (front inAnnex top ++ rest.flatMap part) := by
  have hpos : 0 < top := by omega
  cases inAnnex with
  | true => simp [text, annexLetters, front, hpos, Except.map]
  | false => simp [text, front, Except.map]

theorem exists_text {s : Numbering} (h : s.Positive) : ∃ cs, s.text = .ok cs := by
  obtain ⟨counters, inAnnex⟩ := s
  cases counters with
  | nil => exact ⟨[], rfl⟩
  | cons top rest => exact ⟨_, text_eq (h top List.mem_cons_self) rest⟩

theorem point_notMem_decimal {n : Int} (h : 1 ≤ n) : '.' ∉ decimal n := by
  intro hc
  have := isDigit_of_mem_decimal (by omega) hc
  revert this
  decide

theorem point_notMem_front {inAnnex : Bool} {n : Int} (h : 1 ≤ n) : '.' ∉ front inAnnex n := by
  cases inAnnex with
  | true =>
    intro hc
    have := isUpper_of_mem_letters (n := n.toNat) hc
    revert this
    decide
  | false => exact point_notMem_decimal h

/-- No counter is written both in letters and in digits. -/
theorem letters_ne_decimal {m n : Int} (hm : 1 ≤ m) (hn : 1 ≤ n) :
    letters m.toNat ≠ decimal n := by
  intro heq
  obtain ⟨c, cs, hc⟩ := List.exists_cons_of_ne_nil (letters_ne_nil (n := m.toNat) (by omega))
  have hupper : c.isUpper = true :=
    isUpper_of_mem_letters (n := m.toNat) (by rw [hc]; exact List.mem_cons_self)
  have hdigit : c.isDigit = true :=
    isDigit_of_mem_decimal (n := n) (by omega) (by rw [← heq, hc]; exact List.mem_cons_self)
  have hge : 'A'.val ≤ c.val := (of_decide_eq_true hupper).1
  have hle : c.val ≤ '9'.val := of_decide_eq_true (Bool.and_eq_true_iff.1 hdigit).2
  have := Nat.le_trans (UInt32.le_iff_toNat_le.1 hge) (UInt32.le_iff_toNat_le.1 hle)
  revert this
  decide

theorem front_injective {a b : Bool} {m n : Int} (hm : 1 ≤ m) (hn : 1 ≤ n)
    (h : front a m = front b n) : a = b ∧ m = n := by
  cases a with
  | true =>
    cases b with
    | true =>
      have := letters_injective h
      exact ⟨rfl, by omega⟩
    | false => exact absurd h (letters_ne_decimal hm hn)
  | false =>
    cases b with
    | true => exact absurd h.symm (letters_ne_decimal hn hm)
    | false => exact ⟨rfl, decimal_injective (by omega) (by omega) h⟩

/-! ## Cutting a number at its points -/

theorem splitOn_parts {w : List Char} (hw : '.' ∉ w) {rest : List Int}
    (hrest : ∀ n ∈ rest, 1 ≤ n) :
    (w ++ rest.flatMap part).splitOn '.' = w :: rest.map decimal := by
  induction rest generalizing w with
  | nil => simpa using List.splitOn_eq_singleton hw
  | cons n rest ih =>
    obtain ⟨hn, hrest⟩ := List.forall_mem_cons.1 hrest
    rw [List.flatMap_cons, part, List.cons_append,
      List.splitOn_append_cons_self_of_not_mem hw, ih (point_notMem_decimal hn) hrest,
      List.map_cons]

theorem map_decimal_injective {ms ns : List Int} (hm : ∀ m ∈ ms, 1 ≤ m) (hn : ∀ n ∈ ns, 1 ≤ n)
    (h : ms.map decimal = ns.map decimal) : ms = ns := by
  induction ms generalizing ns with
  | nil => exact (List.map_eq_nil_iff.1 h.symm).symm
  | cons m ms ih =>
    obtain ⟨n, ns, rfl, hmn, h⟩ := List.map_eq_cons_iff.1 h.symm
    obtain ⟨hm₁, hm⟩ := List.forall_mem_cons.1 hm
    obtain ⟨hn₁, hn⟩ := List.forall_mem_cons.1 hn
    rw [decimal_injective (by omega) (by omega) hmn.symm, ih hm hn h.symm]

/-- Two states with positive counters, each after some clause, do not have the same number. -/
theorem text_injective {s t : Numbering} (hs : s.Positive) (ht : t.Positive)
    (hs₀ : s.counters ≠ []) (ht₀ : t.counters ≠ []) {cs : List Char} (h : s.text = .ok cs)
    (h' : t.text = .ok cs) : s = t := by
  obtain ⟨_ | ⟨m, ms⟩, a⟩ := s
  · exact absurd rfl hs₀
  obtain ⟨_ | ⟨n, ns⟩, b⟩ := t
  · exact absurd rfl ht₀
  obtain ⟨hm, hms⟩ := List.forall_mem_cons.1 hs
  obtain ⟨hn, hns⟩ := List.forall_mem_cons.1 ht
  rw [text_eq hm, Except.ok.injEq] at h
  rw [text_eq hn, Except.ok.injEq] at h'
  have hcut := congrArg (List.splitOn '.') (h.trans h'.symm)
  rw [splitOn_parts (point_notMem_front hm) hms, splitOn_parts (point_notMem_front hn) hns,
    List.cons.injEq] at hcut
  obtain ⟨rfl, rfl⟩ := front_injective hm hn hcut.1
  rw [map_decimal_injective hms hns hcut.2]

end Concordance.Numbering
