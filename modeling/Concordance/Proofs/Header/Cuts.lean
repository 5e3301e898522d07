import Concordance.Proofs.Header.Pieces
import Mathlib.Order.Bounds.Basic

/-!
# Where a parameter list is cut

The brackets before a place of a list are `Balanced` when all that are opened up to there are
closed; a closing bracket that matches nothing is passed over. A list is closed at the first
parenthesis that stands at such a place, and cut before that at every comma that does, its
`separators`. So nothing of the list is lost: the pieces with commas between them are its text, and
each piece closes what it opens (`pieces_partition`).
-/

namespace Concordance.Header

/-! ## Characters outside brackets -/

/-- A character stands at a place of a text where no bracket is open. -/
def Outside (c : Char) (cs : List Char) (n : Nat) : Prop :=
  after [] (cs.take n) = [] ∧ cs[n]? = some c

instance (c : Char) (cs : List Char) (n : Nat) : Decidable (Outside c cs n) :=
  inferInstanceAs (Decidable (_ ∧ _))

section Outside

variable {c d : Char} {w rest : List Char} {n : Nat}

/-- Where no bracket is open, a text that is not cut has neither a comma nor a closing
parenthesis. -/
theorem Uncut.getElem?_ne {stack : List Char} (h : Uncut stack w)
    (hafter : after stack (w.take n) = []) (hn : w[n]? = some c) : c ≠ ')' ∧ c ≠ ',' := by
  induction w generalizing stack n with
  | nil => simp at hn
  | cons d w ih =>
    cases n with
    | zero =>
      obtain rfl : d = c := by simpa using hn
      exact h.1 hafter
    | succ n => exact ih h.2 hafter (by simpa using hn)

theorem Uncut.not_outside (h : Uncut [] w) (hn : n < w.length) (hc : c = ')' ∨ c = ',') :
    ¬Outside c (w ++ rest) n := by
  rintro ⟨hafter, hget⟩
  rw [List.take_append_of_le_length (Nat.le_of_lt hn)] at hafter
  rw [List.getElem?_append_left hn] at hget
  obtain ⟨hparen, hcomma⟩ := h.getElem?_ne hafter hget
  exact hc.elim hparen hcomma

theorem outside_length_iff (hafter : after [] w = []) :
    Outside c (w ++ d :: rest) w.length ↔ d = c := by
  simp [Outside, hafter]

/-- After a comma outside brackets the brackets count from there on. -/
theorem outside_append_comma_iff (hafter : after [] w = []) :
    Outside c (w ++ ',' :: rest) (w.length + 1 + n) ↔ Outside c rest n := by
  have hassoc : w ++ ',' :: rest = (w ++ [',']) ++ rest := by simp
  have hlength : w.length + 1 + n = (w ++ [',']).length + n := by simp
  have hclosed : after [] (w ++ [',']) = [] := by
    rw [after_append, hafter]
    rfl
  rw [Outside, Outside, hassoc, hlength, List.take_length_add_append, after_append, hclosed,
    List.getElem?_append_right (Nat.le_add_right _ _), Nat.add_sub_cancel_left]

/-- A list is not closed where it is not closed after its first comma. -/
theorem Uncut.not_outside_comma (h : Uncut [] w) (hafter : after [] w = [])
    (hrest : ∀ m, n = w.length + 1 + m → ¬Outside ')' rest m) :
    ¬Outside ')' (w ++ ',' :: rest) n := by
  rcases Nat.lt_trichotomy n w.length with hlt | rfl | hgt
  · exact h.not_outside hlt (.inl rfl)
  · rw [outside_length_iff hafter]
    decide
  · obtain ⟨m, rfl⟩ := Nat.exists_eq_add_of_le hgt
    rw [outside_append_comma_iff hafter]
    exact hrest m rfl

theorem Uncut.filter_outside (h : Uncut [] w) (rest : List Char) :
    ((List.range w.length).filter fun i => Outside ',' (w ++ rest) i) = [] := by
  refine List.filter_eq_nil_iff.2 fun i hi => ?_
  simpa using h.not_outside (List.mem_range.1 hi) (.inr rfl)

/-- The commas outside brackets, the first of which follows a text that is not cut. -/
theorem filter_outside_comma (hw : Uncut [] w) (hafter : after [] w = []) (m : Nat) :
    ((List.range (w.length + 1 + m)).filter fun i => Outside ',' (w ++ ',' :: rest) i) =
      w.length ::
        ((List.range m).filter fun i => Outside ',' rest i).map (w.length + 1 + ·) := by
  have hcomma : Outside ',' (w ++ ',' :: rest) w.length := (outside_length_iff hafter).2 rfl
  rw [List.range_add, List.range_succ, List.filter_append, List.filter_append,
    hw.filter_outside, List.filter_map]
  simp [hcomma, outside_append_comma_iff hafter, Function.comp_def]

end Outside

/-! ## Cuts -/

/-- A list that is not closed has no closing parenthesis outside brackets. -/
theorem Cut.not_outside {offset : Nat} {cs : List Char} {r : Option (List Chunk × Nat)}
    (h : Cut offset cs r) (hr : r = none) (n : Nat) : ¬Outside ')' cs n := by
  induction h generalizing n with
  | @unclosed offset w hw =>
    rintro ⟨hafter, hget⟩
    exact (hw.getElem?_ne hafter hget).1 rfl
  | last => cases hr
  | more hw hafter _ ih =>
    exact hw.not_outside_comma hafter fun m _ => ih (Option.map_eq_none_iff.1 hr) m

/-- A list is closed at the first closing parenthesis outside brackets, and its pieces end there and
at the commas outside brackets before. -/
theorem Cut.closed {offset close : Nat} {cs : List Char} {chunks : List Chunk}
    {r : Option (List Chunk × Nat)} (h : Cut offset cs r) (hr : r = some (chunks, close)) :
    ∃ n, close = offset + n ∧ Outside ')' cs n ∧ (∀ m < n, ¬Outside ')' cs m) ∧
      chunks.map Chunk.stop =
        ((List.range n).filter fun i => Outside ',' cs i).map (offset + ·) ++ [close] := by
  induction h generalizing chunks with
  | unclosed => cases hr
  | @last offset w rest hw hafter =>
    cases hr
    refine ⟨w.length, rfl, (outside_length_iff hafter).2 rfl,
      fun m hm => hw.not_outside hm (.inl rfl), ?_⟩
    rw [hw.filter_outside]
    rfl
  | @more offset w rest r hw hafter _ ih =>
    obtain ⟨⟨chunks', close'⟩, rfl, heq⟩ := Option.map_eq_some_iff.1 hr
    cases heq
    obtain ⟨n, rfl, hclose, hfirst, hstops⟩ := ih rfl
    refine ⟨w.length + 1 + n, by omega, (outside_append_comma_iff hafter).2 hclose, ?_, ?_⟩
    · exact fun m hm => hw.not_outside_comma hafter fun k hk => hfirst k (by omega)
    · rw [filter_outside_comma hw hafter, List.map_cons, hstops]
      simp [Chunk.stop, Nat.add_assoc, Function.comp_def]

/-! ## Pieces -/

namespace Laid

variable {source : List Char} {close offset : Nat} {chunks : List Chunk}

theorem ne_nil (h : Laid source close offset chunks) : chunks ≠ [] := by
  cases h <;> exact List.cons_ne_nil _ _

/-- The first piece starts where the list does, and each of the others after a comma. -/
theorem map_offset (h : Laid source close offset chunks) :
    chunks.map Chunk.offset = offset :: (chunks.map Chunk.stop).dropLast.map (· + 1) := by
  induction h with
  | last => rfl
  | more _ hrest ih =>
    obtain ⟨c, cs, rfl⟩ := List.exists_cons_of_ne_nil hrest.ne_nil
    rw [List.map_cons, ih]
    rfl

/-- The pieces with commas between them are the text of the list. -/
theorem standsAt_intercalate (h : Laid source close offset chunks) :
    Text.StandsAt source offset ([','].intercalate (chunks.map Chunk.text)) ∧
      offset + ([','].intercalate (chunks.map Chunk.text)).length = close := by
  induction h with
  | last hstands hclose =>
    rw [List.map_singleton, List.intercalate_singleton]
    exact ⟨(Text.standsAt_append_iff.1 hstands).1, hclose⟩
  | @more offset text chunks hstands hrest ih =>
    obtain ⟨c, cs, rfl⟩ := List.exists_cons_of_ne_nil hrest.ne_nil
    obtain ⟨hplace, hlength⟩ := ih
    rw [List.map_cons, List.map_cons, List.intercalate_cons_cons, ← List.map_cons]
    refine ⟨Text.standsAt_append_iff.2 ⟨hstands, ?_⟩, ?_⟩
    · rwa [List.length_append, List.length_singleton, ← Nat.add_assoc]
    · simp only [List.length_append, List.length_singleton, ← hlength]
      omega

theorem intercalate_eq (h : Laid source close offset chunks) :
    [','].intercalate (chunks.map Chunk.text) = source.extract offset close := by
  obtain ⟨hplace, hlength⟩ := h.standsAt_intercalate
  rw [List.extract, ← hlength, Nat.add_sub_cancel_left]
  exact hplace.symm

end Laid

/-! ## Lists -/

/-- All brackets that a list opens up to a place of its source are closed there. -/
def Balanced (source : List Char) (start i : Nat) : Prop :=
  start ≤ i ∧ after [] (source.extract start i) = []

instance (source : List Char) (start i : Nat) : Decidable (Balanced source start i) :=
  inferInstanceAs (Decidable (_ ∧ _))

/-- The commas of a list where the brackets are balanced, in order. -/
def separators (source : List Char) (start close : Nat) : List Nat :=
  (List.range close).filter fun i => Balanced source start i ∧ source[i]? = some ','

section Balanced

variable {source : List Char} {start n : Nat} {c : Char}

theorem balanced_add_iff :
    Balanced source start (start + n) ∧ source[start + n]? = some c ↔
      Outside c (source.drop start) n := by
  simp [Balanced, Outside, List.extract]

theorem separators_add : separators source start (start + n) =
    ((List.range n).filter fun i => Outside ',' (source.drop start) i).map (start + ·) := by
  have hbefore : ((List.range start).filter fun i =>
      Balanced source start i ∧ source[i]? = some ',') = [] := by
    refine List.filter_eq_nil_iff.2 fun i hi => ?_
    have hlt := List.mem_range.1 hi
    simp [Balanced, Nat.not_le.2 hlt]
  rw [separators, List.range_add, List.filter_append, hbefore, List.nil_append, List.filter_map]
  simp only [Function.comp_def, balanced_add_iff]

/-- What is known of the places of a list is known of the places of its source. -/
theorem forall_balanced_iff {P : Nat → Prop} :
    (∀ i, Balanced source start i ∧ source[i]? = some c → P i) ↔
      ∀ n, Outside c (source.drop start) n → P (start + n) := by
  constructor
  · exact fun h n hn => h _ (balanced_add_iff.2 hn)
  · rintro h i ⟨⟨hle, hafter⟩, hget⟩
    obtain ⟨n, rfl⟩ := Nat.exists_eq_add_of_le hle
    exact h n (balanced_add_iff.1 ⟨⟨hle, hafter⟩, hget⟩)

end Balanced

/-- The place where a list is closed is the first closing parenthesis at which the brackets are
balanced. -/
theorem isLeast_of_chunks? {source : List Char} {start close : Nat} {chunks : List Chunk}
    (h : chunks? start (source.drop start) = some (chunks, close)) :
    IsLeast {i | Balanced source start i ∧ source[i]? = some ')'} close := by
  obtain ⟨n, rfl, hclose, hfirst, -⟩ := (cut_chunks? start _).closed h
  refine ⟨balanced_add_iff.2 hclose, forall_balanced_iff.2 fun m hm => ?_⟩
  by_contra hlt
  exact hfirst m (by omega) hm

theorem chunks?_eq_none_iff {source : List Char} {start : Nat} :
    chunks? start (source.drop start) = none ↔
      ∀ i, ¬(Balanced source start i ∧ source[i]? = some ')') := by
  constructor
  · intro h
    exact forall_balanced_iff.2 ((cut_chunks? start _).not_outside h)
  · intro h
    by_contra hne
    obtain ⟨⟨chunks, close⟩, hsome⟩ := Option.ne_none_iff_exists'.1 hne
    exact h close (isLeast_of_chunks? hsome).1

/-- **A list is cut at its separators, and nothing of it is lost.** The list whose text starts at a
place of a source is closed at the first closing parenthesis where its brackets are balanced, and
not at all if there is none. If it is closed, its pieces with commas between them are its text; each
piece stands at its offset and closes what it opens; and the pieces are cut exactly at the commas
where the brackets are balanced. -/
theorem pieces_partition (source : List Char) (start : Nat) :
    (∀ close, (∃ chunks, chunks? start (source.drop start) = some (chunks, close)) ↔
      IsLeast {i | Balanced source start i ∧ source[i]? = some ')'} close) ∧
    (chunks? start (source.drop start) = none ↔
      ∀ i, ¬(Balanced source start i ∧ source[i]? = some ')')) ∧
    ∀ chunks close, chunks? start (source.drop start) = some (chunks, close) →
      [','].intercalate (chunks.map Chunk.text) = source.extract start close ∧
      (∀ chunk ∈ chunks, Text.StandsAt source chunk.offset chunk.text ∧
        after [] chunk.text = []) ∧
      chunks.map Chunk.stop = separators source start close ++ [close] ∧
      chunks.map Chunk.offset = start :: (separators source start close).map (· + 1) := by
  refine ⟨fun close => ⟨fun ⟨chunks, h⟩ => isLeast_of_chunks? h, fun hleast => ?_⟩,
    chunks?_eq_none_iff, fun chunks close h => ?_⟩
  · cases hresult : chunks? start (source.drop start) with
    | none => exact absurd hleast.1 (chunks?_eq_none_iff.1 hresult close)
    | some p =>
      have heq : p.2 = close := (isLeast_of_chunks? hresult).unique hleast
      exact ⟨p.1, by rw [← heq]⟩
  · have hlaid := laid_of_chunks? h
    obtain ⟨n, rfl, -, -, hstops⟩ := (cut_chunks? start _).closed h
    rw [← separators_add] at hstops
    refine ⟨hlaid.intercalate_eq, fun chunk hmem => ?_, hstops, ?_⟩
    · exact ⟨(hlaid.mem chunk hmem).2.1, after_of_chunks? h chunk hmem⟩
    · rw [hlaid.map_offset, hstops, List.dropLast_concat]

/-- A list with a comma and a closing parenthesis in brackets. -/
def bracketed : List Char := "F(a: \x7bb, c), [d]\x7d, e): f".toList

def bracketedChunks : List Chunk := [⟨"a: \x7bb, c), [d]\x7d".toList, 2⟩, ⟨" e".toList, 18⟩]

/-- The comma in the braces is no separator, and the parenthesis there does not close the list. -/
theorem pieces_partition_bracketed :
    chunks? 2 (bracketed.drop 2) = some (bracketedChunks, 20) ∧
      IsLeast {i | Balanced bracketed 2 i ∧ bracketed[i]? = some ')'} 20 ∧
      separators bracketed 2 20 = [17] ∧
      bracketed.extract 2 20 = "a: \x7bb, c), [d]\x7d, e".toList := by
  have h : chunks? 2 (bracketed.drop 2) = some (bracketedChunks, 20) := by decide +kernel
  obtain ⟨hclose, -, hpieces⟩ := pieces_partition bracketed 2
  obtain ⟨htext, -, hstops, -⟩ := hpieces _ _ h
  exact ⟨h, (hclose 20).1 ⟨_, h⟩, List.append_left_injective [20] hstops.symm, htext.symm⟩

end Concordance.Header
