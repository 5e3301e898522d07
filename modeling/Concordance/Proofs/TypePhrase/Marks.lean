import Concordance.TypePhrase.Token

/-!
# Marks of a text

A reader of type phrases sees the kinds and the texts of tokens and not where they start. These
`marks` of a text do not depend on what stands before it, so that a text is scanned token by token:
`marks_word` and `marks_slot` say what a word and a slot leave, `marks_single` what a character of
punctuation does, and `marks_blank` that a blank leaves nothing.
-/

namespace Concordance.TypePhrase

/-- The kind and the text of a token. -/
abbrev Mark := Token.Kind × List Char

/-- What a reader sees of a token. -/
def Token.mark (t : Token) : Mark := (t.kind, t.text)

/-- The marks of a text. -/
def marks (cs : List Char) : List Mark := (Token.scan cs).map Token.mark

theorem mark_eq_iff {t : Token} {k : Token.Kind} {cs : List Char} :
    Token.mark t = (k, cs) ↔ t.kind = k ∧ t.text = cs := by
  simp [Token.mark]

/-- Tokens with the marks of tokens in brackets are tokens in brackets. -/
theorem exists_wrapped {ts : List Token} {o c : Mark} {ms : List Mark}
    (h : ts.map Token.mark = o :: (ms ++ [c])) :
    ∃ o' us c', ts = o' :: (us ++ [c']) ∧ o'.mark = o ∧ us.map Token.mark = ms ∧ c'.mark = c := by
  obtain ⟨o', rest, rfl, ho, hrest⟩ := List.map_eq_cons_iff.1 h
  obtain ⟨us, cs, rfl, hus, hcs⟩ := List.map_eq_append_iff.1 hrest
  obtain ⟨c', vs, rfl, hc, hvs⟩ := List.map_eq_cons_iff.1 hcs
  obtain rfl := List.map_eq_nil_iff.1 hvs
  exact ⟨o', us, c', rfl, ho, hus, hc⟩

/-! ## One token -/

/-- The marks of a text do not depend on what stands before it. -/
theorem map_mark_scanFrom (offset covered : Nat) (cs : List Char) :
    (Token.scanFrom offset covered cs).map Token.mark = marks (cs.drop covered) := by
  induction cs generalizing offset covered with
  | nil => simp [marks, Token.scan, Token.scanFrom]
  | cons c cs ih =>
    cases covered with
    | succ covered => exact ih (offset + 1) covered
    | zero =>
      rw [List.drop_zero, marks, Token.scan, Token.scanFrom, Token.scanFrom]
      split
      · rw [ih, ih]
      · rw [List.map_cons, List.map_cons, ih, ih]
        rfl

@[simp] theorem marks_nil : marks [] = [] := rfl

theorem marks_of_append_nil {w : List Char} {ms : List Mark}
    (h : marks (w ++ []) = ms ++ marks []) : marks w = ms := by
  rwa [List.append_nil, marks_nil, List.append_nil] at h

theorem marks_blank {c : Char} (hc : Text.isBlank c = true) (rest : List Char) :
    marks (c :: rest) = marks rest := by
  rw [marks, Token.scan, Token.scanFrom, if_pos hc, map_mark_scanFrom, List.drop_zero]

theorem marks_token {c : Char} {rest : List Char} {k : Token.Kind} {n : Nat}
    (hc : Text.isBlank c = false) (hf : Token.first c rest = (k, n)) :
    marks (c :: rest) = (k, c :: rest.take n) :: marks (rest.drop n) := by
  rw [marks, Token.scan, Token.scanFrom, if_neg (by simp [hc]), hf, List.map_cons,
    map_mark_scanFrom]
  rfl

/-- A token of one character. -/
theorem marks_single {c : Char} {rest : List Char} {k : Token.Kind}
    (hc : Text.isBlank c = false) (hf : Token.first c rest = (k, 0)) :
    marks (c :: rest) = (k, [c]) :: marks rest := by
  simpa using marks_token hc hf

/-! ## Words and slots -/

/-- A text that is one word. -/
def IsWordText (w : List Char) : Prop := w ≠ [] ∧ ∀ c ∈ w, Token.isWordPart c = true

theorem isWordText_iff {w : List Char} :
    w ≠ [] ∧ w.all Token.isWordPart = true ↔ IsWordText w := by
  rw [List.all_eq_true, IsWordText]

instance (w : List Char) : Decidable (IsWordText w) := decidable_of_iff _ isWordText_iff

/-- A text that is one slot, `[[` and `]]` around it. -/
def IsSlotText (cs : List Char) : Prop :=
  ∃ s, s ≠ [] ∧ (∀ c ∈ s, Token.isBracket c = false) ∧ cs = '[' :: '[' :: (s ++ [']', ']'])

/-- A text that is one list suffix. -/
def IsBracketsText (cs : List Char) : Prop :=
  ∃ s, (∀ c ∈ s, Text.isBlank c = true) ∧ cs = '[' :: (s ++ [']'])

/-- The text does not continue a word that stands before it. -/
def EndsWord (cs : List Char) : Prop := ∀ c ∈ cs.head?, Token.isWordPart c = false

@[simp] theorem endsWord_nil : EndsWord [] := by simp [EndsWord]

@[simp] theorem endsWord_cons {c : Char} {cs : List Char} :
    EndsWord (c :: cs) ↔ Token.isWordPart c = false := by simp [EndsWord]

theorem endsWord_blank {c : Char} (hc : Text.isBlank c = true) (cs : List Char) :
    EndsWord (c :: cs) := by
  simp [Token.isWordPart, hc]

theorem endsWord_punctuation {c : Char} (hc : Token.isPunctuation c = true) (cs : List Char) :
    EndsWord (c :: cs) := by
  simp [Token.isWordPart, hc]

theorem first_of_isWordPart {c : Char} (hc : Token.isWordPart c = true) (rest : List Char) :
    Token.first c rest = (.word, (rest.takeWhile Token.isWordPart).length) := by
  simp only [Token.isWordPart, Token.isPunctuation, Token.isBracket, Bool.and_eq_true,
    Bool.not_eq_true', Bool.or_eq_false_iff, decide_eq_false_iff_not] at hc
  simp only [Token.first, hc, if_false]

theorem marks_word {w rest : List Char} (hw : IsWordText w) (hrest : EndsWord rest) :
    marks (w ++ rest) = (.word, w) :: marks rest := by
  obtain ⟨hne, hw⟩ := hw
  obtain ⟨c, w, rfl⟩ := List.exists_cons_of_ne_nil hne
  obtain ⟨hc, hw⟩ := List.forall_mem_cons.1 hw
  have hstop : rest.takeWhile Token.isWordPart = [] := by
    cases rest with
    | nil => rfl
    | cons d rest => simp [endsWord_cons.1 hrest]
  have hfirst : Token.first c (w ++ rest) = (.word, w.length) := by
    rw [first_of_isWordPart hc, List.takeWhile_append_of_pos hw, hstop, List.append_nil]
  have hblank : Text.isBlank c = false := by
    simpa using (Bool.and_eq_true_iff.1 hc).1
  rw [List.cons_append, marks_token hblank hfirst, List.take_left, List.drop_left]

theorem slotTail?_append {s rest : List Char} (hne : s ≠ [])
    (hs : ∀ c ∈ s, Token.isBracket c = false) :
    Token.slotTail? ('[' :: (s ++ ']' :: ']' :: rest)) = some (s.length + 3) := by
  have hinner : (s ++ ']' :: ']' :: rest).takeWhile (!Token.isBracket ·) = s := by
    rw [List.takeWhile_append_of_pos (by simpa using hs), List.takeWhile_cons_of_neg (by decide),
      List.append_nil]
  obtain ⟨c, s, rfl⟩ := List.exists_cons_of_ne_nil hne
  rw [Token.slotTail?, hinner]
  simp

theorem marks_slot {cs : List Char} (hcs : IsSlotText cs) (rest : List Char) :
    marks (cs ++ rest) = (.slot, cs) :: marks rest := by
  obtain ⟨s, hne, hs, rfl⟩ := hcs
  have hfirst : Token.first '[' ('[' :: (s ++ ']' :: ']' :: rest)) = (.slot, s.length + 3) := by
    rw [Token.first, if_pos rfl, slotTail?_append hne hs]
  have hassoc : '[' :: '[' :: (s ++ [']', ']']) ++ rest =
      '[' :: (('[' :: (s ++ [']', ']'])) ++ rest) := by simp
  have hlen : s.length + 3 = ('[' :: (s ++ [']', ']'])).length := by simp
  rw [hassoc, marks_token (by decide) (k := .slot) (n := s.length + 3) (by simpa using hfirst),
    hlen, List.take_left, List.drop_left]

end Concordance.TypePhrase
