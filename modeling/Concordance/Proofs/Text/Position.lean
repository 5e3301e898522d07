import Concordance.Text.Position
import Mathlib

/-!
# Lines and columns are places

The line and column of an offset are found by counting the line feeds before it. `IsPlace` says what
they mean in the text as a whole, cut into its lines: there is such a line, the column is one of
that line or the one after its last character, and the lines before it, each with its line feed,
make up the rest of the offset. The proof that they do mean this takes the first line off the text
(`lineColumn_first`, `lineColumn_later`).

The order of places is that of their offsets (`IsPlace.lt`), because a place determines its offset
and lies before the start of the next line. The main statement is `lineColumn_faithful`.
-/

namespace Concordance.Text

/-! ## Lines -/

/-- The lines of a text, without the line feeds that end them; there is always one. -/
def lines (source : List Char) : List (List Char) := source.splitOn '\n'

/-- The offset at which a line starts that has so many lines before it. -/
def lineStart (source : List Char) (n : Nat) : Nat :=
  (((lines source).take n).map fun line => line.length + 1).sum

/-- What holds of a single line, and of a text if it holds of what follows the first line. -/
theorem lines_induction {motive : List Char → Prop} (last : ∀ line, '\n' ∉ line → motive line)
    (later : ∀ line rest, '\n' ∉ line → motive rest → motive (line ++ '\n' :: rest))
    (source : List Char) : motive source := by
  by_cases h : '\n' ∈ source
  · obtain ⟨line, rest, hsource, hline⟩ := List.eq_append_cons_of_mem h
    have hlt : rest.length < source.length := by
      rw [hsource, List.length_append, List.length_cons]
      omega
    rw [hsource]
    exact later line rest hline (lines_induction last later rest)
  · exact last source h
termination_by source.length

theorem lines_of_notMem {line : List Char} (h : '\n' ∉ line) : lines line = [line] :=
  List.splitOn_eq_singleton h

theorem lines_append {line : List Char} (h : '\n' ∉ line) (rest : List Char) :
    lines (line ++ '\n' :: rest) = line :: lines rest :=
  List.splitOn_append_cons_self_of_not_mem h rest

@[simp] theorem lineStart_zero (source : List Char) : lineStart source 0 = 0 := rfl

theorem lineStart_append {line : List Char} (h : '\n' ∉ line) (rest : List Char) (n : Nat) :
    lineStart (line ++ '\n' :: rest) (n + 1) = line.length + 1 + lineStart rest n := by
  rw [lineStart, lines_append h, List.take_succ_cons, List.map_cons, List.sum_cons]
  rfl

/-- A line starts where the one before it ends, after the line feed. -/
theorem lineStart_succ {source line : List Char} {n : Nat} (h : (lines source)[n]? = some line) :
    lineStart source (n + 1) = lineStart source n + (line.length + 1) := by
  rw [lineStart, List.take_add_one, h, List.map_append, List.sum_append]
  rfl

theorem lineStart_mono (source : List Char) {m n : Nat} (h : m ≤ n) :
    lineStart source m ≤ lineStart source n := by
  have htake : (lines source).take m <+: (lines source).take n := List.take_prefix_take_left h
  obtain ⟨more, hmore⟩ := htake
  rw [lineStart, lineStart, ← hmore, List.map_append, List.sum_append]
  exact Nat.le_add_right _ _

/-! ## The line and column of an offset -/

theorem lastColumn_of_notMem {cs : List Char} (h : '\n' ∉ cs) :
    lastColumn cs = cs.length + 1 := by
  have hall : cs.reverse.takeWhile (· ≠ '\n') = cs.reverse :=
    List.takeWhile_eq_self_iff.2 fun c hc => by
      simpa using fun heq : c = '\n' => h (heq ▸ List.mem_reverse.1 hc)
  rw [lastColumn, hall, List.length_reverse]

/-- Only what follows the last line feed counts. -/
theorem lastColumn_append (before after : List Char) :
    lastColumn (before ++ '\n' :: after) = lastColumn after := by
  have hreverse : (before ++ '\n' :: after).reverse =
      after.reverse ++ '\n' :: before.reverse := by simp
  rw [lastColumn, hreverse, List.takeWhile_append, List.takeWhile_cons_of_neg (by simp),
    List.append_nil, lastColumn]
  split
  · next h => rw [(List.takeWhile_prefix _).eq_of_length h]
  · rfl

theorem lineColumn_toNat (source : List Char) (offset : Int) :
    lineColumn source offset.toNat = lineColumn source offset := rfl

/-- An offset in the first line of a text. -/
theorem lineColumn_first {line : List Char} (h : '\n' ∉ line) (rest : List Char) {n : Nat}
    (hn : n ≤ line.length) : lineColumn (line ++ rest) n = (1, n + 1) := by
  have hbefore : '\n' ∉ line.take n := fun hmem => h (List.mem_of_mem_take hmem)
  have htake : (line ++ rest).take n = line.take n := List.take_append_of_le_length hn
  rw [lineColumn, Int.toNat_natCast, htake, List.count_eq_zero.2 hbefore,
    lastColumn_of_notMem hbefore, List.length_take_of_le hn]

/-- An offset after the first line of a text. -/
theorem lineColumn_later {line : List Char} (h : '\n' ∉ line) (rest : List Char) (n : Nat) :
    lineColumn (line ++ '\n' :: rest) ((line.length + 1 + n : Nat) : Int) =
      ((lineColumn rest n).1 + 1, (lineColumn rest n).2) := by
  have htake : (line ++ '\n' :: rest).take (line.length + 1 + n) =
      line ++ '\n' :: rest.take n := by
    rw [Nat.add_assoc, List.take_length_add_append, Nat.add_comm 1, List.take_succ_cons]
  rw [lineColumn, lineColumn, Int.toNat_natCast, Int.toNat_natCast, htake, lastColumn_append,
    List.count_append, List.count_cons_self, List.count_eq_zero.2 h, Nat.zero_add]

/-! ## Places -/

/-- A line and a column of a text, both from one, that mean an offset: the column is at a character
of the line or just after the last one. -/
structure IsPlace (source : List Char) (offset : Nat) (place : Nat × Nat) : Prop where
  one_le_line : 1 ≤ place.1
  one_le_column : 1 ≤ place.2
  exists_line : ∃ line, (lines source)[place.1 - 1]? = some line ∧ place.2 ≤ line.length + 1
  offset_eq : lineStart source (place.1 - 1) + (place.2 - 1) = offset

/-- The line and column of an offset of a text mean it. -/
theorem isPlace_lineColumn (source : List Char) {n : Nat} (h : n ≤ source.length) :
    IsPlace source n (lineColumn source n) := by
  induction source using lines_induction generalizing n with
  | last line hline =>
    have hfirst : lineColumn line n = (1, n + 1) := by simpa using lineColumn_first hline [] h
    rw [hfirst]
    refine ⟨Nat.le_refl 1, Nat.le_add_left 1 n, ⟨line, ?_, Nat.succ_le_succ h⟩, ?_⟩
    · rw [lines_of_notMem hline]
      rfl
    · simp
  | later line rest hline ih =>
    by_cases hn : n ≤ line.length
    · rw [lineColumn_first hline _ hn]
      refine ⟨Nat.le_refl 1, Nat.le_add_left 1 n, ⟨line, ?_, Nat.succ_le_succ hn⟩, ?_⟩
      · rw [lines_append hline]
        rfl
      · simp
    · -- the offset is one of the rest of the text, so many characters further along
      obtain ⟨m, rfl⟩ : ∃ m, n = line.length + 1 + m := ⟨n - (line.length + 1), by omega⟩
      have hm : m ≤ rest.length := by
        rw [List.length_append, List.length_cons] at h
        omega
      obtain ⟨hone, hcolumn, ⟨found, hfound, hle⟩, hoffset⟩ := ih hm
      obtain ⟨k, hk⟩ : ∃ k, (lineColumn rest m).1 = k + 1 := Nat.exists_eq_add_one.2 hone
      rw [hk, Nat.add_sub_cancel] at hfound hoffset
      rw [lineColumn_later hline, hk]
      refine ⟨Nat.le_add_left 1 _, hcolumn, ⟨found, ?_, hle⟩, ?_⟩
      · rw [Nat.add_sub_cancel, lines_append hline, List.getElem?_cons_succ, hfound]
      · rw [Nat.add_sub_cancel, lineStart_append hline, Nat.add_assoc, hoffset]

/-- Places are in the order of their offsets. -/
theorem IsPlace.lt {source : List Char} {m n : Nat} {p q : Nat × Nat} (hp : IsPlace source m p)
    (hq : IsPlace source n q) (h : m < n) : toLex p < toLex q := by
  obtain ⟨hp₁, hp₂, -, hm⟩ := hp
  obtain ⟨hq₁, hq₂, ⟨line, hline, hle⟩, hn⟩ := hq
  rw [Prod.Lex.toLex_lt_toLex]
  rcases Nat.lt_trichotomy p.1 q.1 with hlt | heq | hgt
  · exact .inl hlt
  · rw [heq] at hm
    exact .inr ⟨heq, by omega⟩
  · -- the line of the second place would end before the first one starts
    have hsucc := lineStart_succ hline
    have hmono : lineStart source (q.1 - 1 + 1) ≤ lineStart source (p.1 - 1) :=
      lineStart_mono source (by omega)
    omega

/-- **Lines and columns are faithful.** The line of an offset of a text is one of its lines, the
column is at a character of that line or just after the last one, and the lines before it, each with
its line feed, and the characters before the column in it make up the offset. So no two offsets have
the same line and column, and later offsets have later ones. An offset before or after the text has
those of its start or its end. -/
theorem lineColumn_faithful (source : List Char) :
    (∀ offset : Int, 0 ≤ offset → offset ≤ source.length →
      1 ≤ (lineColumn source offset).1 ∧
      (lineColumn source offset).1 ≤ (source.splitOn '\n').length ∧
      1 ≤ (lineColumn source offset).2 ∧
      (∃ line, (source.splitOn '\n')[(lineColumn source offset).1 - 1]? = some line ∧
        (lineColumn source offset).2 ≤ line.length + 1) ∧
      ((((source.splitOn '\n').take ((lineColumn source offset).1 - 1)).map
        fun line => line.length + 1).sum + ((lineColumn source offset).2 - 1) : Nat) = offset) ∧
    Set.InjOn (lineColumn source) (Set.Icc 0 (source.length : Int)) ∧
    StrictMonoOn (fun offset => toLex (lineColumn source offset))
      (Set.Icc 0 (source.length : Int)) ∧
    (∀ offset < 0, lineColumn source offset = lineColumn source 0) ∧
    ∀ offset > (source.length : Int),
      lineColumn source offset = lineColumn source source.length := by
  have hplace : ∀ offset : Int, 0 ≤ offset → offset ≤ source.length →
      IsPlace source offset.toNat (lineColumn source offset) := fun offset _ hle => by
    rw [← lineColumn_toNat]
    exact isPlace_lineColumn source (by omega)
  have hmono : StrictMonoOn (fun offset => toLex (lineColumn source offset))
      (Set.Icc 0 (source.length : Int)) := fun m hm n hn hlt =>
    (hplace m hm.1 hm.2).lt (hplace n hn.1 hn.2) (by have := hm.1; omega)
  refine ⟨fun offset hpos hle => ?_, fun m hm n hn heq => ?_, hmono, fun offset hneg => ?_,
    fun offset hgt => ?_⟩
  · obtain ⟨hline, hcolumn, ⟨line, hfound, hwithin⟩, hoffset⟩ := hplace offset hpos hle
    obtain ⟨hlt, -⟩ := List.getElem?_eq_some_iff.1 hfound
    refine ⟨hline, ?_, hcolumn, ⟨line, hfound, hwithin⟩, ?_⟩
    · change (lineColumn source offset).1 - 1 < (source.splitOn '\n').length at hlt
      omega
    · calc ((lineStart source _ + _ : Nat) : Int) = (offset.toNat : Int) := by rw [hoffset]
        _ = offset := Int.toNat_of_nonneg hpos
  · exact hmono.injOn hm hn (congrArg toLex heq)
  · rw [← lineColumn_toNat, Int.toNat_of_nonpos hneg.le]
    rfl
  · rw [lineColumn, lineColumn, List.take_of_length_le (by omega),
      List.take_of_length_le (by omega)]

/-- The last line of a text that ends in a line feed is empty, and its place is the end of the
text. -/
theorem lineColumn_faithful_lastLine :
    (0 : Int) ≤ 3 ∧ (3 : Int) ≤ "ab\n".toList.length ∧ lineColumn "ab\n".toList 3 = (2, 1) ∧
    lineColumn "ab\n".toList 3 = lineColumn "ab\n".toList 7 ∧
    lineColumn "ab\n".toList 2 ≠ lineColumn "ab\n".toList 3 := by
  obtain ⟨hplace, hinj, -, -, hafter⟩ := lineColumn_faithful "ab\n".toList
  have hle : (3 : Int) ≤ "ab\n".toList.length := by decide
  obtain ⟨-, hline, -⟩ := hplace 3 (by decide) hle
  refine ⟨by decide, hle, by decide, (hafter 7 (by decide)).symm, fun heq => ?_⟩
  have hsame := hinj (by constructor <;> decide) (by constructor <;> decide) heq
  exact absurd hsame (by decide)

end Concordance.Text
