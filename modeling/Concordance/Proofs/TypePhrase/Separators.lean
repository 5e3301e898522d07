import Concordance.Proofs.TypePhrase.Levels

/-!
# Where a phrase can be cut

Parentheses and braces match in the tokens that derive a type, and so they do in the tokens that
spell one; no square bracket is astray. A comma among them stands inside a bracket, and so does the
keyword `or` among those of an alternative. Hence tokens that are cut at a separator by a derivation
and by a spelling are cut at the same place (`Enclosed.cut`).
-/

namespace Concordance.TypePhrase

/-- One for a token that opens a bracket, and one less for a token that closes one. -/
def Token.Kind.nesting : Token.Kind → Int
  | .openBrace | .openParen => 1
  | .closeBrace | .closeParen => -1
  | _ => 0

/-- How many more brackets are opened than closed. -/
def nesting : List Mark → Int
  | [] => 0
  | m :: ms => m.1.nesting + nesting ms

@[simp] theorem nesting_nil : nesting [] = 0 := rfl

@[simp] theorem nesting_cons (m : Mark) (ms : List Mark) :
    nesting (m :: ms) = m.1.nesting + nesting ms := rfl

@[simp] theorem nesting_append (ms ns : List Mark) :
    nesting (ms ++ ns) = nesting ms + nesting ns := by
  induction ms with
  | nil => simp
  | cons m ms ih => rw [List.cons_append, nesting_cons, nesting_cons, ih, Int.add_assoc]

/-- The brackets among the marks match, and every separator stands inside one. -/
structure Enclosed (sep : Mark → Bool) (ms : List Mark) : Prop where
  regular : ∀ m ∈ ms, m.1 ≠ .stray
  closed : nesting ms = 0
  inside : ∀ us o vs, ms = us ++ o :: vs → 0 ≤ nesting us ∧ (sep o = true → 0 < nesting us)

/-- A comma between fields. -/
def isComma (m : Mark) : Bool := m.1 = .comma

/-- A comma, or `or` between alternatives. -/
def isSeparator (m : Mark) : Bool :=
  isComma m || (m.1 = .word && m.2.map Char.toLower = "or".toList)

namespace Enclosed

variable {sep sep' : Mark → Bool} {ms ns : List Mark}

theorem nil : Enclosed sep [] := ⟨by simp, rfl, fun us o vs h => by simp at h⟩

theorem mono (h : Enclosed sep ms) (hsep : ∀ m, sep' m = true → sep m = true) :
    Enclosed sep' ms :=
  ⟨h.regular, h.closed, fun us o vs heq =>
    (h.inside us o vs heq).imp_right fun hlt ho => hlt (hsep o ho)⟩

theorem append (hms : Enclosed sep ms) (hns : Enclosed sep ns) : Enclosed sep (ms ++ ns) := by
  refine ⟨List.forall_mem_append.2 ⟨hms.regular, hns.regular⟩, by simp [hms.closed, hns.closed],
    fun us o vs heq => ?_⟩
  rcases List.append_eq_append_iff.1 heq with ⟨cs, rfl, hcs⟩ | ⟨cs, rfl, hcs⟩
  · -- the mark is in the second list
    rw [nesting_append, hms.closed, Int.zero_add]
    exact hns.inside cs o vs hcs
  · cases cs with
    | nil =>
      have hclosed := hms.closed
      rw [List.append_nil] at hclosed
      simpa [hclosed] using hns.inside [] o vs hcs.symm
    | cons c cs =>
      obtain ⟨rfl, -⟩ := List.cons.inj hcs
      exact hms.inside us o cs rfl

theorem singleton {m : Mark} (hk : m.1 ≠ .stray) (hm : m.1.nesting = 0) (hs : sep m = false) :
    Enclosed sep [m] := by
  refine ⟨by simpa using hk, by simp [hm], fun us o vs heq => ?_⟩
  cases us with
  | nil =>
    obtain ⟨rfl, rfl⟩ := List.cons.inj heq
    simp [hs]
  | cons u us => simp at heq

theorem of_forall (h : ∀ m ∈ ms, m.1 ≠ .stray ∧ m.1.nesting = 0 ∧ sep m = false) :
    Enclosed sep ms := by
  induction ms with
  | nil => exact nil
  | cons m ms ih =>
    obtain ⟨hm, hms⟩ := List.forall_mem_cons.1 h
    exact (singleton hm.1 hm.2.1 hm.2.2).append (ih hms)

/-- Whatever is inside brackets, no separator is outside them. -/
theorem wrap {o c : Mark} (h : Enclosed sep' ms) (ho : o.1.nesting = 1) (hs : sep o = false)
    (hc : c.1.nesting = -1) : Enclosed sep (o :: (ms ++ [c])) := by
  have hne : ∀ m : Mark, m.1.nesting ≠ 0 → m.1 ≠ .stray := by
    rintro m hm hstray
    exact hm (by rw [hstray]; rfl)
  refine ⟨?_, by simp [h.closed, ho, hc], fun us o' vs heq => ?_⟩
  · simp only [List.forall_mem_cons, List.forall_mem_append]
    exact ⟨hne o (by simp [ho]), h.regular, hne c (by simp [hc]), by simp⟩
  cases us with
  | nil =>
    obtain ⟨rfl, -⟩ := List.cons.inj heq
    simp [hs]
  | cons u us =>
    obtain ⟨rfl, htail⟩ := List.cons.inj heq
    have hle : 0 ≤ nesting us := by
      rcases List.append_eq_append_iff.1 htail with ⟨cs, rfl, hcs⟩ | ⟨cs, rfl, hcs⟩
      · cases cs with
        | nil => simp [h.closed]
        | cons d cs => simp at hcs
      · cases cs with
        | nil => simpa using (Int.le_of_eq h.closed.symm)
        | cons d cs => exact (h.inside us d cs rfl).1
    rw [nesting_cons, ho]
    exact ⟨by omega, fun _ => by omega⟩

/-- **Tokens are cut at a separator in one way only.** -/
theorem cut {us us' vs vs' : List Token} {o o' : Token} (hus : Enclosed sep (us.map Token.mark))
    (hus' : Enclosed sep (us'.map Token.mark)) (ho : sep o.mark = true) (ho' : sep o'.mark = true)
    (h : us ++ o :: vs = us' ++ o' :: vs') : us = us' ∧ vs = vs' := by
  -- a separator at the end of one part would stand outside the brackets of the other
  have hlonger : ∀ {us us' cs : List Token} {o : Token}, Enclosed sep (us.map Token.mark) →
      Enclosed sep (us'.map Token.mark) → sep o.mark = true → us' ≠ us ++ o :: cs := by
    rintro us us' cs o hus hus' ho rfl
    rw [List.map_append, List.map_cons] at hus'
    have hlt := (hus'.inside _ _ _ rfl).2 ho
    rw [hus.closed] at hlt
    exact absurd hlt (Int.lt_irrefl 0)
  rcases List.append_eq_append_iff.1 h with ⟨cs, hcs, heq⟩ | ⟨cs, hcs, heq⟩
  · cases cs with
    | nil => exact ⟨by simpa using hcs.symm, (List.cons.inj heq).2⟩
    | cons c cs =>
      obtain ⟨rfl, -⟩ := List.cons.inj heq
      exact absurd hcs (hlonger hus hus' ho)
  · cases cs with
    | nil => exact ⟨by simpa using hcs, (List.cons.inj heq).2.symm⟩
    | cons c cs =>
      obtain ⟨rfl, -⟩ := List.cons.inj heq
      exact absurd hcs (hlonger hus' hus ho')

end Enclosed

/-! ## Separators -/

theorem isSeparator_of_isComma (m : Mark) (h : isComma m = true) : isSeparator m = true := by
  simp [isSeparator, h]

theorem isSeparator_of_isOr {o : Token} (h : isOr o = true) : isSeparator o.mark = true := by
  obtain ⟨hk, htext⟩ := isWord_text h
  rw [isSeparator, Token.mark, hk, htext]
  rfl

theorem isComma_of_kind {m : Token} (h : m.kind = .comma) : isComma m.mark = true := by
  simp [isComma, Token.mark, h]

/-! ## Derived tokens -/

/-- Tokens in brackets have no separator outside them. -/
theorem Enclosed.tokens {sep : Mark → Bool} {o c : Token} {us : List Token}
    (h : Enclosed sep (us.map Token.mark)) (ho : o.kind.nesting = 1) (hc : c.kind.nesting = -1) :
    Enclosed isSeparator ((o :: (us ++ [c])).map Token.mark) := by
  have hs : isSeparator o.mark = false := by
    cases hk : o.kind <;> simp_all [Token.Kind.nesting, isSeparator, isComma, Token.mark]
  rw [List.map_cons, List.map_append]
  exact h.wrap ho hs hc

theorem enclosed_of_isPhraseWord {ts : List Token} (h : ∀ w ∈ ts, isPhraseWord w = true) :
    Enclosed isSeparator (ts.map Token.mark) := by
  refine .of_forall fun m hm => ?_
  obtain ⟨w, hw, rfl⟩ := List.mem_map.1 hm
  have hword := h w hw
  simp only [isPhraseWord, Bool.and_eq_true, decide_eq_true_eq, Bool.not_eq_true'] at hword
  obtain ⟨hk, hor⟩ := hword
  rw [Token.isWord, hk] at hor
  rw [Token.mark, hk]
  exact ⟨by simp, rfl, hor⟩

/-- A word stands at no place where fields are cut. -/
theorem enclosed_word {t : Token} {w : List Char} (h : t.isWord w = true) :
    Enclosed isComma [t.mark] := by
  obtain ⟨hk, -⟩ := isWord_text h
  rw [Token.mark, hk]
  exact .singleton (by simp) rfl rfl

mutual

theorem IsType.enclosed {last : Bool} {k : Nat} {ts : List Token} {t : TypePhrase}
    (h : IsType last k ts t) : Enclosed isComma (ts.map Token.mark) := by
  match h with
  | .plain h _ => exact h.enclosed
  | .either he h => exact (enclosed_word he).append h.enclosed

theorem IsChoice.enclosed {k : Nat} {ts : List Token} {alts : List TypePhrase}
    (h : IsChoice k ts alts) : Enclosed isComma (ts.map Token.mark) := by
  match h with
  | .one h => exact h.enclosed.mono isSeparator_of_isComma
  | .more h ho hm =>
    rw [List.map_append, List.map_cons]
    exact (h.enclosed.mono isSeparator_of_isComma).append ((enclosed_word ho).append hm.enclosed)

theorem IsAlternative.enclosed {k : Nat} {ts : List Token} {t : TypePhrase}
    (h : IsAlternative k ts t) : Enclosed isSeparator (ts.map Token.mark) := by
  match h with
  | .mk h hs _ _ =>
    rw [List.map_append]
    refine h.enclosed.append (.of_forall fun m hm => ?_)
    obtain ⟨s, hmem, rfl⟩ := List.mem_map.1 hm
    simp [Token.mark, hs s hmem, Token.Kind.nesting, isSeparator, isComma]

theorem IsPrimary.enclosed {k : Nat} {ts : List Token} {t : TypePhrase} (h : IsPrimary k ts t) :
    Enclosed isSeparator (ts.map Token.mark) := by
  match h with
  | @IsPrimary.empty _ o c ho hc =>
    have hnil : Enclosed isComma (([] : List Token).map Token.mark) := .nil
    exact hnil.tokens (by rw [ho]; rfl) (by rw [hc]; rfl)
  | .record ho hc h _ => exact h.enclosed.tokens (by rw [ho]; rfl) (by rw [hc]; rfl)
  | .parenthesized ho hc h => exact h.enclosed.tokens (by rw [ho]; rfl) (by rw [hc]; rfl)
  | .list hw h =>
    rw [List.map_append]
    exact (enclosed_of_isPhraseWord fun w hmem => hw.isPhraseWord hmem).append h.enclosed
  | .words _ hwords _ => exact enclosed_of_isPhraseWord hwords

theorem IsFields.enclosed {k : Nat} {ts : List Token} {fields : List (String × TypePhrase)}
    (h : IsFields k ts fields) : Enclosed (fun _ => false) (ts.map Token.mark) := by
  have hhead : ∀ {n c : Token}, n.kind = .word ∨ n.kind = .slot → c.kind = .colon →
      Enclosed (fun _ => false) [n.mark, c.mark] := by
    intro n c hn hc
    refine .of_forall fun m hm => ?_
    simp only [List.mem_cons, List.not_mem_nil, or_false] at hm
    rcases hm with rfl | rfl
    · rcases hn with hn | hn <;> simp [Token.mark, hn, Token.Kind.nesting]
    · simp [Token.mark, hc, Token.Kind.nesting]
  match h with
  | .one hn hc h => exact (hhead hn hc).append (h.enclosed.mono (by simp))
  | @IsFields.more _ n c m ts us t fields hn hc h hm hr =>
    have hcomma : Enclosed (fun _ => false) [m.mark] :=
      .singleton (by simp [Token.mark, hm]) (by simp [Token.mark, hm, Token.Kind.nesting]) rfl
    rw [List.map_cons, List.map_cons, List.map_append, List.map_cons]
    exact (hhead hn hc).append ((h.enclosed.mono (by simp)).append (hcomma.append hr.enclosed))

end

/-! ## Spelled tokens -/

theorem isSeparator_wordMark {w : List Char} (h : w.map Char.toLower ≠ "or".toList) :
    isSeparator (wordMark w) = false := decide_eq_false h

mutual

/-- The marks of an alternative have no separator outside brackets. -/
theorem enclosed_spelling_of_not_isUnion (t : TypePhrase) (hu : t.isUnion = false)
    (hl : t.Legible) : Enclosed isSeparator t.spelling := by
  match t with
  | .named name =>
    rw [spelling]
    refine .of_forall fun m hm => ?_
    obtain ⟨w, hw, rfl⟩ := List.mem_map.1 hm
    exact ⟨by simp [wordMark], rfl, isSeparator_wordMark (hl.no_or w hw)⟩
  | .list element =>
    have hlist : Enclosed isSeparator [wordMark "List".toList, wordMark "of".toList] :=
      .of_forall (by decide)
    rw [spelling]
    split
    · exact hlist.append ((enclosed_spelling element hl).wrap rfl rfl rfl)
    · next he =>
      exact hlist.append (enclosed_spelling_of_not_isUnion element (Bool.eq_false_iff.2 he) hl)
  | .record fields =>
    rw [spelling]
    exact (enclosed_fieldSpelling fields hl).wrap rfl rfl rfl
  | .union ts => simp [isUnion] at hu
termination_by (sizeOf t, 0)

/-- The marks of a phrase have no comma outside brackets. -/
theorem enclosed_spelling (t : TypePhrase) (hl : t.Legible) : Enclosed isComma t.spelling := by
  by_cases hu : t.isUnion = true
  · match t with
    | .union ts => exact enclosed_alternativeSpelling ts hl
  · exact (enclosed_spelling_of_not_isUnion t (Bool.eq_false_iff.2 hu) hl).mono
      isSeparator_of_isComma
termination_by (sizeOf t, 1)

theorem enclosed_alternativeSpelling (ts : List TypePhrase) (hl : LegibleAll ts) :
    Enclosed isComma (alternativeSpelling ts) := by
  match ts with
  | [] => exact .nil
  | t :: ts =>
    have hor : Enclosed isComma [wordMark "or".toList] := .of_forall (by decide)
    rw [alternativeSpelling]
    refine (enclosed_spelling t hl.1).append ?_
    split
    · exact .nil
    · exact hor.append (enclosed_alternativeSpelling ts hl.2)
termination_by (sizeOf ts, 0)

theorem enclosed_fieldSpelling (fields : List (String × TypePhrase)) (hl : LegibleFields fields) :
    Enclosed (fun _ => false) (fieldSpelling fields) := by
  match fields with
  | [] => exact .nil
  | (name, t) :: fields =>
    have hhead : Enclosed (fun _ => false) [fieldMark name, (.colon, [':'])] := by
      refine .append (.singleton ?_ ?_ rfl) (.of_forall (by decide))
      · rw [fieldMark]
        split <;> simp
      · rw [fieldMark]
        split <;> rfl
    have hcomma : Enclosed (fun _ => false) [(.comma, [','])] := .of_forall (by decide)
    rw [fieldSpelling]
    refine hhead.append (((enclosed_spelling t hl.2.1).mono (by simp)).append ?_)
    split
    · exact .nil
    · exact hcomma.append (enclosed_fieldSpelling fields hl.2.2)
termination_by (sizeOf fields, 0)

end

end Concordance.TypePhrase
