import Concordance.Markup.Piece
import Concordance.Text.Escaped
import Mathlib.Data.List.TakeWhile

/-!
# Escaped text is read back

In escaped text every character with a meaning in markup is a reference that stands for it
(`refStep_escapeChar`), so a round reads the text up to the next tag as pieces of text that put
together are the text that was escaped (`exists_reads_escape`).
-/

namespace Concordance.Markup

open Text (escape escapeChar)

/-! ## References -/

/-- A name with a semicolon after it is read as what it stands for. -/
theorem refStep_name (c : Char) (cs : List Char) {t : NamedText}
    (hname : namedText? (c :: cs) = some t) (hc : c.isAlpha = true)
    (hcs : (c :: cs).all isRefPart = true) (rest : List Char) :
    refStep ((c :: cs) ++ ';' :: rest) = .ok (.text t.chars rest) := by
  have hrun : ((c :: cs) ++ ';' :: rest).takeWhile isRefPart = c :: cs := by
    rw [List.takeWhile_append_of_pos (List.all_eq_true.1 hcs),
      List.takeWhile_cons_of_neg (by decide), List.append_nil]
  have hrefName : refName? ((c :: cs) ++ ';' :: rest) = some (c :: cs) := by
    rw [refName?, hrun]
    simp
  unfold refStep
  split
  · next heq => cases heq
  · next heq =>
    obtain ⟨rfl, -⟩ := List.cons.inj heq
    exact absurd hc (by decide)
  · next heq =>
    obtain ⟨rfl, -⟩ := List.cons.inj heq
    rw [if_pos hc, hrefName]
    dsimp only
    rw [List.drop_left, nameText, hname]
    rfl

/-- The reference that a character is escaped as is read as this character. -/
theorem refStep_escapeChar {c : Char} (h : escapeChar c ≠ [c]) (rest : List Char) :
    ∃ ref, escapeChar c = '&' :: ref ∧ refStep (ref ++ rest) = .ok (.text [c] rest) := by
  unfold escapeChar at h ⊢
  split
  · next hc =>
    subst hc
    exact ⟨['a', 'm', 'p', ';'], rfl, refStep_name 'a' ['m', 'p'] rfl (by decide) (by decide) rest⟩
  split
  · next hc =>
    subst hc
    exact ⟨['l', 't', ';'], rfl, refStep_name 'l' ['t'] rfl (by decide) (by decide) rest⟩
  split
  · next hc =>
    subst hc
    exact ⟨['g', 't', ';'], rfl, refStep_name 'g' ['t'] rfl (by decide) (by decide) rest⟩
  split
  · next hc =>
    subst hc
    exact ⟨['q', 'u', 'o', 't', ';'], rfl,
      refStep_name 'q' ['u', 'o', 't'] rfl (by decide) (by decide) rest⟩
  split
  · next hc =>
    subst hc
    exact ⟨['#', 'x', '2', '7', ';'], rfl, rfl⟩
  · next hamp hlt hgt hquot hapostrophe => simp [hamp, hlt, hgt, hquot, hapostrophe] at h

/-! ## Rounds -/

/-- The first round reads a text as pieces when a rest follows it, and goes on with this rest. -/
def Reads (w rest : List Char) (ps : List Piece) : Prop :=
  ∀ fuel, (w ++ rest).length < fuel → ∃ fuel', rest.length < fuel' ∧
    round false fuel none (w ++ rest) = (round false fuel' none rest).map (·.precede ps)

section Reads

variable {w v rest : List Char} {ps qs : List Piece}

theorem Reads.nil : Reads [] rest [] := by
  intro fuel hfuel
  refine ⟨fuel, hfuel, ?_⟩
  rw [List.nil_append]
  cases round false fuel none rest <;> rfl

theorem Reads.append (hw : Reads w (v ++ rest) ps) (hv : Reads v rest qs) :
    Reads (w ++ v) rest (ps ++ qs) := by
  intro fuel hfuel
  rw [List.append_assoc] at hfuel ⊢
  obtain ⟨fuel', hfuel', hround⟩ := hw fuel hfuel
  obtain ⟨fuel'', hfuel'', hround'⟩ := hv fuel' hfuel'
  refine ⟨fuel'', hfuel'', ?_⟩
  rw [hround, hround']
  cases round false fuel'' none rest with
  | error r => rfl
  | ok r => simp [Except.map, Round.precede]

/-- What is read in one step. -/
theorem reads_of_step {c : Char}
    (h : ∀ fuel, round false (fuel + 1) none (c :: (w ++ rest)) =
      (round false fuel none rest).map (·.precede ps)) : Reads (c :: w) rest ps := by
  intro fuel hfuel
  rw [List.cons_append, List.length_cons, List.length_append] at hfuel
  obtain ⟨fuel, rfl⟩ := Nat.exists_eq_add_one_of_ne_zero (Nat.ne_zero_of_lt hfuel)
  exact ⟨fuel, by omega, h fuel⟩

theorem reads_tag {p : Piece} (h : readTag (w ++ rest) = .piece p rest) (hraw : rawOf p = none) :
    Reads ('<' :: w) rest [p] := by
  refine reads_of_step fun fuel => ?_
  rw [round, if_pos rfl, h, ← hraw]

theorem reads_ref {text : List Char} (h : refStep (w ++ rest) = .ok (.text text rest)) :
    Reads ('&' :: w) rest [.text text] := by
  refine reads_of_step fun fuel => ?_
  rw [round, if_neg (by decide), if_pos rfl, h]

theorem reads_run {c : Char} (hw : ∀ d ∈ c :: w, d ≠ '<' ∧ d ≠ '&')
    (hrest : ∀ d ∈ rest.head?, d = '<' ∨ d = '&') : Reads (c :: w) rest [.text (c :: w)] := by
  obtain ⟨hc, hw⟩ := List.forall_mem_cons.1 hw
  have hrun : (w ++ rest).takeWhile (fun d => d ≠ '<' && d ≠ '&') = w := by
    rw [List.takeWhile_append_of_pos fun d hd => by simp [hw d hd]]
    cases rest with
    | nil => simp
    | cons d rest =>
      rw [List.takeWhile_cons_of_neg, List.append_nil]
      simpa [or_iff_not_imp_left] using hrest d rfl
  refine reads_of_step fun fuel => ?_
  rw [round, if_neg hc.1, if_neg hc.2]
  simp only [hrun, List.length_cons, Nat.add_sub_cancel, List.drop_left]

end Reads

/-! ## Escaped text -/

/-- A character that stands for itself in escaped text. -/
def isVerbatim (c : Char) : Bool := escapeChar c = [c]

theorem ne_of_isVerbatim {c : Char} (h : isVerbatim c = true) : c ≠ '<' ∧ c ≠ '&' := by
  constructor <;> rintro rfl <;> revert h <;> decide

theorem escape_cons (c : Char) (cs : List Char) : escape (c :: cs) = escapeChar c ++ escape cs :=
  List.flatMap_cons

theorem escape_of_isVerbatim {run : List Char} (h : ∀ c ∈ run, isVerbatim c = true) :
    escape run = run := by
  induction run with
  | nil => rfl
  | cons c run ih =>
    obtain ⟨hc, hrun⟩ := List.forall_mem_cons.1 h
    rw [escape_cons, of_decide_eq_true hc, ih hrun, List.singleton_append]

/-- After a run of characters that stand for themselves comes a reference. -/
theorem head?_escape_dropWhile (cs : List Char) :
    ∀ d ∈ (escape (cs.dropWhile isVerbatim)).head?, d = '&' := by
  have hhead := List.head?_dropWhile_not isVerbatim cs
  cases hcs : cs.dropWhile isVerbatim with
  | nil => simp [escape]
  | cons c more =>
    rw [hcs, List.head?_cons] at hhead
    have hc : isVerbatim c = false := by simpa using hhead
    obtain ⟨ref, href, -⟩ := refStep_escapeChar (of_decide_eq_false hc) []
    rw [escape_cons, href]
    simp

/-- **Escaped text is read back.** Up to a tag, or up to the end, it is read as pieces of text that
make up the text that was escaped. -/
theorem exists_reads_escape (cs : List Char) {rest : List Char}
    (hrest : ∀ c ∈ rest.head?, c = '<') :
    ∃ texts : List (List Char), texts.flatten = cs ∧ (∀ u ∈ texts, u ≠ []) ∧
      Reads (escape cs) rest (texts.map .text) := by
  match cs with
  | [] => exact ⟨[], rfl, by simp, .nil⟩
  | c :: cs =>
    cases hc : isVerbatim c with
    | false =>
      obtain ⟨texts, hflat, hne, hreads⟩ := exists_reads_escape cs hrest
      obtain ⟨ref, href, hstep⟩ := refStep_escapeChar (of_decide_eq_false hc) (escape cs ++ rest)
      refine ⟨[c] :: texts, by simp [hflat], by simpa using hne, ?_⟩
      rw [escape_cons, href]
      exact (reads_ref hstep).append hreads
    | true =>
      obtain ⟨texts, hflat, hne, hreads⟩ := exists_reads_escape (cs.dropWhile isVerbatim) hrest
      have hrun : ∀ d ∈ c :: cs.takeWhile isVerbatim, isVerbatim d = true :=
        List.forall_mem_cons.2 ⟨hc, List.all_eq_true.1 List.all_takeWhile⟩
      have hsplit : c :: cs = (c :: cs.takeWhile isVerbatim) ++ cs.dropWhile isVerbatim := by
        rw [List.cons_append, List.takeWhile_append_dropWhile]
      refine ⟨(c :: cs.takeWhile isVerbatim) :: texts, by rw [List.flatten_cons, hflat, ← hsplit],
        by simpa using hne, ?_⟩
      rw [hsplit, Text.escape_append, escape_of_isVerbatim hrun]
      refine (reads_run (fun d hd => ne_of_isVerbatim (hrun d hd)) ?_).append hreads
      intro d hd
      cases hmore : escape (cs.dropWhile isVerbatim) with
      | nil => exact .inl (hrest d (by simpa [hmore] using hd))
      | cons e more =>
        have he := head?_escape_dropWhile cs e (by simp [hmore])
        obtain rfl : e = d := by simpa [hmore] using hd
        exact .inr he
termination_by cs.length
decreasing_by
  · exact Nat.lt_succ_self _
  · exact Nat.lt_succ_of_le (List.length_dropWhile_le _ _)

end Concordance.Markup
