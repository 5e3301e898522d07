import Concordance.Proofs.Header.Split
import Concordance.Proofs.Text.Trim
import Concordance.Proofs.TypePhrase.Levels

/-!
# Type phrases in a parameter list

The text of a legible type phrase passes through the splitter as long as the names of its fields do:
its commas stand in braces, and its brackets match. A name passes if it is a word, or a slot that
holds no parenthesis and no brace. The text of a phrase has no blanks at its ends. So a type phrase
stays in one piece, and trimming the piece gives back the phrase.
-/

namespace Concordance.TypePhrase

open Header (IsInert Passes)

/-! ## Names -/

/-- Whether a character is a parenthesis or a brace. -/
def isDelimiter (c : Char) : Bool := c = '(' || c = ')' || c = '{' || c = '}'

mutual
/-- No name of a field holds a parenthesis or a brace. -/
def Undelimited : TypePhrase → Prop
  | .named _ => True
  | .list element => element.Undelimited
  | .record fields => UndelimitedFields fields
  | .union ts => UndelimitedAll ts

/-- `Undelimited` of every field. -/
def UndelimitedFields : List (String × TypePhrase) → Prop
  | [] => True
  | (name, t) :: fields =>
    name.toList.any isDelimiter = false ∧ t.Undelimited ∧ UndelimitedFields fields

/-- `Undelimited` of every phrase. -/
def UndelimitedAll : List TypePhrase → Prop
  | [] => True
  | t :: ts => t.Undelimited ∧ UndelimitedAll ts
end

theorem isInert_of_isPunctuation {c : Char} (h : Token.isPunctuation c = false) : IsInert c := by
  simp only [Token.isPunctuation, Token.isBracket, Bool.or_eq_false_iff,
    decide_eq_false_iff_not] at h
  simp [IsInert, Header.closer?, Header.isCloser, h]

theorem isInert_of_isDelimiter {c : Char} (h : isDelimiter c = false)
    (hb : Token.isBracket c = false) : IsInert c := by
  simp only [isDelimiter, Token.isBracket, Bool.or_eq_false_iff, decide_eq_false_iff_not] at h hb
  simp [IsInert, Header.closer?, Header.isCloser, h, hb]

theorem isPunctuation_of_isWordPart {c : Char} (h : Token.isWordPart c = true) :
    Token.isPunctuation c = false := by
  simpa using (Bool.and_eq_true_iff.1 h).2

theorem isInert_of_isWordPart {c : Char} (h : Token.isWordPart c = true) : IsInert c :=
  isInert_of_isPunctuation (isPunctuation_of_isWordPart h)

theorem isBlank_of_isWordPart {c : Char} (h : Token.isWordPart c = true) :
    Text.isBlank c = false := by
  simpa using (Bool.and_eq_true_iff.1 h).1

section Words

variable {stack w : List Char}

theorem passes_word (hw : ∀ c ∈ w, Token.isWordPart c = true) : Passes stack w := by
  refine Header.passes_of_forall (fun c hc => isInert_of_isWordPart (hw c hc)) (.inl ?_)
  intro hcomma
  have := hw _ hcomma
  revert this
  decide

theorem starts_of_isWordText (h : IsWordText w) : Text.Starts w :=
  Text.starts_of_forall h.1 fun c hc => isBlank_of_isWordPart (h.2 c hc)

theorem ends_of_isWordText (h : IsWordText w) : Text.Ends w :=
  Text.ends_of_forall h.1 fun c hc => isBlank_of_isWordPart (h.2 c hc)

theorem passes_words {ws : List (List Char)} (h : ∀ w ∈ ws, IsWordText w) :
    Passes stack ([' '].intercalate ws) := by
  induction ws with
  | nil => exact Header.passes_nil stack
  | cons w ws ih =>
    obtain ⟨hw, hws⟩ := List.forall_mem_cons.1 h
    cases ws with
    | nil => simpa using passes_word hw.2
    | cons v ws =>
      have hspace : Passes stack [' '] := Header.passes_text (by decide)
      rw [List.intercalate_cons_cons]
      exact (passes_word hw.2).append hspace |>.append (ih hws)

theorem starts_words {ws : List (List Char)} (hne : ws ≠ []) (h : ∀ w ∈ ws, IsWordText w) :
    Text.Starts ([' '].intercalate ws) := by
  match ws with
  | [] => exact absurd rfl hne
  | [w] => simpa using starts_of_isWordText (h w (by simp))
  | w :: v :: ws =>
    rw [List.intercalate_cons_cons]
    exact ((starts_of_isWordText (h w (by simp))).append _).append _

theorem ends_words {ws : List (List Char)} (hne : ws ≠ []) (h : ∀ w ∈ ws, IsWordText w) :
    Text.Ends ([' '].intercalate ws) := by
  induction ws with
  | nil => exact absurd rfl hne
  | cons w ws ih =>
    obtain ⟨hw, hws⟩ := List.forall_mem_cons.1 h
    cases ws with
    | nil => simpa using ends_of_isWordText hw
    | cons v ws =>
      rw [List.intercalate_cons_cons]
      exact (ih (by simp) hws).append _

end Words

/-- A slot passes, since its own brackets are open around what it holds. -/
theorem passes_slot {stack cs : List Char} (h : IsSlotText cs)
    (hcs : cs.any isDelimiter = false) : Passes stack cs := by
  obtain ⟨s, -, hs, rfl⟩ := h
  rw [List.any_eq_false] at hcs
  have hinner : Passes (']' :: ']' :: stack) s := by
    have hdelimiter : ∀ c ∈ s, isDelimiter c = false := by
      intro c hc
      simpa using hcs c (by simp [hc])
    exact Header.passes_of_forall (fun c hc => isInert_of_isDelimiter (hdelimiter c hc) (hs c hc))
      (.inr (by simp))
  have houter : Passes stack ('[' :: (('[' :: (s ++ [']'])) ++ [']'])) :=
    Passes.bracket (k := ']') rfl (Passes.bracket (k := ']') rfl hinner)
  simpa using houter

/-- A name that the splitter passes over whatever brackets are open. -/
def IsPassed (name : String) : Prop := ∀ stack, Passes stack name.toList

theorem isPassed_of_isDelimiter {name : String} (h : IsPlainField name)
    (hname : name.toList.any isDelimiter = false) : IsPassed name := by
  intro stack
  rcases h with hword | hslot
  · exact passes_word hword.2
  · exact passes_slot hslot hname

mutual

theorem names_of_undelimited (t : TypePhrase) (hp : t.Plain) (hd : t.Undelimited) :
    t.Names IsLegibleName IsPassed := by
  match t with
  | .named _ => exact IsPlainName.legible hp
  | .list element => exact names_of_undelimited element hp hd
  | .record fields => exact fieldNames_of_undelimited fields hp hd
  | .union ts => exact alternativeNames_of_undelimited ts hp hd

theorem fieldNames_of_undelimited (fields : List (String × TypePhrase)) (hp : PlainFields fields)
    (hd : UndelimitedFields fields) : FieldNames IsLegibleName IsPassed fields := by
  match fields with
  | [] => trivial
  | (_, t) :: fields =>
    exact ⟨isPassed_of_isDelimiter hp.1 hd.1, names_of_undelimited t hp.2.1 hd.2.1,
      fieldNames_of_undelimited fields hp.2.2 hd.2.2⟩

theorem alternativeNames_of_undelimited (ts : List TypePhrase) (hp : PlainAll ts)
    (hd : UndelimitedAll ts) : AlternativeNames IsLegibleName IsPassed ts := by
  match ts with
  | [] => trivial
  | t :: ts =>
    exact ⟨names_of_undelimited t hp.1 hd.1, alternativeNames_of_undelimited ts hp.2 hd.2⟩

end

/-! ## Phrases -/

mutual

/-- A legible phrase is passed over if its fields are, whatever brackets are open. -/
theorem passes_chars (t : TypePhrase) (h : t.Names IsLegibleName IsPassed) (stack : List Char) :
    Passes stack t.chars := by
  match t with
  | .named name =>
    have hwords : Passes stack ([' '].intercalate (phraseWords name)) := passes_words h.words
    rwa [intercalate_phraseWords] at hwords
  | .list element =>
    have hlist : Passes stack "List of ".toList := Header.passes_text (by decide)
    rw [chars_list]
    apply hlist.append
    cases element.isUnion with
    | false => exact passes_chars element h stack
    | true => exact Passes.bracket (k := ')') rfl (passes_chars element h _)
  | .record [] =>
    have hspace : Passes ('}' :: stack) [' '] := Header.passes_text (by decide)
    exact hspace.bracket rfl
  | .record (f :: fields) =>
    have hspace : Passes ('}' :: stack) [' '] := Header.passes_text (by decide)
    have hinner := (hspace.append (passes_fieldChars (f :: fields) h (by simp))).append hspace
    have htext := Passes.bracket (o := '\x7b') (k := '}') rfl hinner
    simpa [chars_record] using htext
  | .union ts => exact passes_alternativeChars ts h stack

theorem passes_fieldChars (fields : List (String × TypePhrase))
    (h : FieldNames IsLegibleName IsPassed fields) {stack : List Char} (hne : stack ≠ []) :
    Passes stack (fieldChars fields) := by
  match fields with
  | [] => exact Header.passes_nil stack
  | (name, t) :: fields =>
    have hcolon : Passes stack [':', ' '] := Header.passes_text (by decide)
    have hinert : ∀ c ∈ [',', ' '], IsInert c :=
      List.forall_mem_cons.2 ⟨by decide, List.forall_mem_singleton.2 (by decide)⟩
    have hcomma : Passes stack [',', ' '] := Header.passes_of_forall hinert (.inr hne)
    have hhead := ((h.1 stack).append hcolon).append (passes_chars t h.2.1 stack)
    have hmore : Passes stack (if fields.isEmpty then [] else ',' :: ' ' :: fieldChars fields) := by
      split
      · exact Header.passes_nil stack
      · exact hcomma.append (passes_fieldChars fields h.2.2 hne)
    rw [fieldChars_cons]
    simpa using hhead.append hmore

theorem passes_alternativeChars (ts : List TypePhrase)
    (h : AlternativeNames IsLegibleName IsPassed ts) (stack : List Char) :
    Passes stack (alternativeChars ts) := by
  match ts with
  | [] => exact Header.passes_nil stack
  | t :: ts =>
    have hor : Passes stack " or ".toList := Header.passes_text (by decide)
    rw [alternativeChars_cons]
    apply (passes_chars t h.1 stack).append
    split
    · exact Header.passes_nil stack
    · exact hor.append (passes_alternativeChars ts h.2 stack)

end

/-- The text of a phrase starts with no blank. -/
theorem starts_chars (t : TypePhrase) (hv : t.Valid) (hl : t.Legible) : Text.Starts t.chars := by
  match t with
  | .named name =>
    have hwords := starts_words (phraseWords_ne_nil name) hl.words
    rwa [intercalate_phraseWords] at hwords
  | .list element =>
    have hlist : Text.Starts "List of ".toList := ⟨'L', "ist of ".toList, by decide, by decide⟩
    exact hlist.append _
  | .record [] => exact ⟨'\x7b', [' ', '}'], rfl, by decide⟩
  | .record (f :: fields) => exact ⟨'\x7b', _, rfl, by decide⟩
  | .union [] => simp [Valid] at hv
  | .union (t :: ts) =>
    rw [chars_union, alternativeChars_cons]
    exact (starts_chars t hv.2.2.1 hl.1).append _

mutual

/-- The text of a phrase ends with no blank. -/
theorem ends_chars (t : TypePhrase) (hv : t.Valid) (hl : t.Legible) : Text.Ends t.chars := by
  match t with
  | .named name =>
    have hwords := ends_words (phraseWords_ne_nil name) hl.words
    rwa [intercalate_phraseWords] at hwords
  | .list element =>
    rw [chars_list]
    refine Text.Ends.append ?_ _
    cases element.isUnion with
    | false => exact ends_chars element hv hl
    | true => exact ⟨'(' :: element.chars, ')', rfl, by decide⟩
  | .record [] => exact ⟨['\x7b', ' '], '}', rfl, by decide⟩
  | .record (f :: fields) =>
    refine ⟨'\x7b' :: ' ' :: fieldChars (f :: fields) ++ [' '], '}', ?_, by decide⟩
    simp [chars_record]
  | .union [] => simp [Valid] at hv
  | .union (t :: ts) => exact ends_alternativeChars (t :: ts) (by simp) hv.2.2 hl

theorem ends_alternativeChars (ts : List TypePhrase) (hne : ts ≠ []) (hv : ValidAll ts)
    (hl : LegibleAll ts) : Text.Ends (alternativeChars ts) := by
  match ts with
  | [] => exact absurd rfl hne
  | [t] =>
    have hlast := ends_chars t hv.1 hl.1
    simpa [alternativeChars_cons] using hlast
  | t :: u :: ts =>
    have hmore := ends_alternativeChars (u :: ts) (by simp) hv.2 hl.2
    rw [alternativeChars_cons]
    exact (hmore.append " or ".toList).append _

end

end Concordance.TypePhrase
