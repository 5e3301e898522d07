import Concordance.Proofs.TypePhrase.Grammar
import Concordance.Proofs.TypePhrase.Marks
import Concordance.TypePhrase.Printer

/-!
# The tokens of a written type phrase

The names of a `Legible` type phrase are words with single spaces between them, and its fields are
single tokens. `marks_chars` says which marks such a phrase leaves when it is written, its
`spelling`; what stands after the phrase is scanned as if it stood alone, unless it continues the
last word. Tokens with these marks `Spells` the phrase, and for each kind of phrase it is said which
tokens these are. A phrase is `Plain` when no keyword hides in its names at all.
-/

namespace Concordance.TypePhrase

/-! ## Names -/

/-- The words of a name, which is cut at every space. -/
def phraseWords (name : String) : List (List Char) := name.toList.splitOn ' '

theorem phraseWords_ne_nil (name : String) : phraseWords name ≠ [] :=
  List.splitOn_ne_nil ' ' name.toList

theorem intercalate_phraseWords (name : String) :
    [' '].intercalate (phraseWords name) = name.toList :=
  List.intercalate_splitOn ' '

/-- The words begin with `List of`. -/
def beginsListOf : List (List Char) → Bool
  | l :: o :: _ => l = "List".toList && o.map Char.toLower = "of".toList
  | _ => false

/-- The words begin like a list phrase, which may have an article. -/
def beginsListPhrase : List (List Char) → Bool
  | [] => false
  | a :: ws => beginsListOf (a :: ws) ||
      ((a.map Char.toLower = "a".toList || a.map Char.toLower = "an".toList) && beginsListOf ws)

/-- A name of words with single spaces between them that is one phrase where `either` is no
keyword. -/
structure IsLegibleName (name : String) : Prop where
  words : ∀ w ∈ phraseWords name, IsWordText w
  no_or : ∀ w ∈ phraseWords name, w.map Char.toLower ≠ "or".toList
  no_list : beginsListPhrase (phraseWords name) = false

/-- A name of words with single spaces between them, in which no keyword is taken for one. -/
structure IsPlainName (name : String) : Prop where
  words : ∀ w ∈ phraseWords name, IsWordText w
  no_or : ∀ w ∈ phraseWords name, w.map Char.toLower ≠ "or".toList
  no_either : ∀ w ∈ (phraseWords name).head?, w.map Char.toLower ≠ "either".toList
  no_list : beginsListPhrase (phraseWords name) = false

theorem IsPlainName.legible {name : String} (h : IsPlainName name) : IsLegibleName name :=
  ⟨h.words, h.no_or, h.no_list⟩

/-- The name of a field that is one token. -/
def IsPlainField (name : String) : Prop := IsWordText name.toList ∨ IsSlotText name.toList

mutual
/-- Every name of words in the phrase satisfies `P`, and every name of a field `Q`. -/
def Names (P Q : String → Prop) : TypePhrase → Prop
  | .named name => P name
  | .list element => element.Names P Q
  | .record fields => FieldNames P Q fields
  | .union ts => AlternativeNames P Q ts

/-- The names of the fields satisfy `Q`, and so do the names in their types. -/
def FieldNames (P Q : String → Prop) : List (String × TypePhrase) → Prop
  | [] => True
  | (name, t) :: fields => Q name ∧ t.Names P Q ∧ FieldNames P Q fields

/-- The names in all phrases satisfy `P` and `Q`. -/
def AlternativeNames (P Q : String → Prop) : List TypePhrase → Prop
  | [] => True
  | t :: ts => t.Names P Q ∧ AlternativeNames P Q ts
end

/-- Every name is legible and every field is one token. -/
abbrev Legible (t : TypePhrase) : Prop := t.Names IsLegibleName IsPlainField

/-- `Legible` of every field. -/
abbrev LegibleFields (fields : List (String × TypePhrase)) : Prop :=
  FieldNames IsLegibleName IsPlainField fields

/-- `Legible` of every phrase. -/
abbrev LegibleAll (ts : List TypePhrase) : Prop := AlternativeNames IsLegibleName IsPlainField ts

mutual
/-- Every name and every field in the phrase is plain. -/
def Plain : TypePhrase → Prop
  | .named name => IsPlainName name
  | .list element => element.Plain
  | .record fields => PlainFields fields
  | .union ts => PlainAll ts

/-- Every field is plain and has a plain type. -/
def PlainFields : List (String × TypePhrase) → Prop
  | [] => True
  | (name, t) :: fields => IsPlainField name ∧ t.Plain ∧ PlainFields fields

/-- Every phrase is plain. -/
def PlainAll : List TypePhrase → Prop
  | [] => True
  | t :: ts => t.Plain ∧ PlainAll ts
end

mutual

theorem legible_of_plain (t : TypePhrase) (h : t.Plain) : t.Legible := by
  match t with
  | .named name => exact IsPlainName.legible h
  | .list element => exact legible_of_plain element h
  | .record fields => exact legibleFields_of_plain fields h
  | .union ts => exact legibleAll_of_plain ts h

theorem legibleFields_of_plain (fields : List (String × TypePhrase)) (h : PlainFields fields) :
    LegibleFields fields := by
  match fields with
  | [] => trivial
  | (_, t) :: fields => exact ⟨h.1, legible_of_plain t h.2.1, legibleFields_of_plain fields h.2.2⟩

theorem legibleAll_of_plain (ts : List TypePhrase) (h : PlainAll ts) : LegibleAll ts := by
  match ts with
  | [] => trivial
  | t :: ts => exact ⟨legible_of_plain t h.1, legibleAll_of_plain ts h.2⟩

end

/-! ## Spellings -/

/-- The mark of a word. -/
def wordMark (w : List Char) : Mark := (.word, w)

/-- The mark of the name of a field. -/
def fieldMark (name : String) : Mark :=
  (if name.toList.head? = some '[' then .slot else .word, name.toList)

mutual
/-- The marks that a type phrase leaves. -/
def spelling : TypePhrase → List Mark
  | .named name => (phraseWords name).map wordMark
  | .list element => wordMark "List".toList :: wordMark "of".toList ::
      if element.isUnion then (.openParen, ['(']) :: (spelling element ++ [(.closeParen, [')'])])
      else spelling element
  | .record fields => (.openBrace, ['{']) :: (fieldSpelling fields ++ [(.closeBrace, ['}'])])
  | .union ts => alternativeSpelling ts

/-- The marks of fields with commas between them. -/
def fieldSpelling : List (String × TypePhrase) → List Mark
  | [] => []
  | (name, t) :: fields => fieldMark name :: (.colon, [':']) :: (spelling t ++
      if fields.isEmpty then [] else (.comma, [',']) :: fieldSpelling fields)

/-- The marks of alternatives with `or` between them. -/
def alternativeSpelling : List TypePhrase → List Mark
  | [] => []
  | t :: ts => spelling t ++
      if ts.isEmpty then [] else wordMark "or".toList :: alternativeSpelling ts
end

theorem marks_phrase {ws : List (List Char)} {rest : List Char} (hne : ws ≠ [])
    (hws : ∀ w ∈ ws, IsWordText w) (hrest : EndsWord rest) :
    marks ([' '].intercalate ws ++ rest) = ws.map wordMark ++ marks rest := by
  induction ws with
  | nil => exact absurd rfl hne
  | cons w ws ih =>
    obtain ⟨hw, hws⟩ := List.forall_mem_cons.1 hws
    cases ws with
    | nil => simpa [wordMark] using marks_word hw hrest
    | cons v ws =>
      have hspace : EndsWord (' ' :: ([' '].intercalate (v :: ws) ++ rest)) :=
        endsWord_blank (by decide) _
      rw [List.intercalate_cons_cons, List.append_assoc, List.append_assoc, List.singleton_append,
        marks_word hw hspace, marks_blank (by decide), ih (by simp) hws]
      rfl

theorem marks_field {name : String} {rest : List Char} (h : IsPlainField name)
    (hrest : EndsWord rest) : marks (name.toList ++ rest) = fieldMark name :: marks rest := by
  rcases h with hw | hs
  · have hhead : name.toList.head? ≠ some '[' := by
      intro heq
      have hc := hw.2 '[' (List.mem_of_head? heq)
      revert hc
      decide
    rw [marks_word hw hrest, fieldMark, if_neg hhead]
  · have hhead : name.toList.head? = some '[' := by
      obtain ⟨s, -, -, heq⟩ := hs
      rw [heq, List.head?_cons]
    rw [marks_slot hs, fieldMark, if_pos hhead]

/-! ## Scanning what was written -/

/-- A keyword with a space after it. -/
theorem marks_keyword {w : List Char} (hw : IsWordText w) (cs : List Char) :
    marks (w ++ ' ' :: cs) = wordMark w :: marks cs := by
  have hspace : EndsWord (' ' :: cs) := endsWord_blank (by decide) _
  rw [marks_word hw hspace, marks_blank (by decide)]
  rfl

theorem marks_listOf (cs : List Char) : marks ("List of ".toList ++ cs) =
    wordMark "List".toList :: wordMark "of".toList :: marks cs := by
  have hl := marks_keyword (w := "List".toList) (by decide) ("of".toList ++ ' ' :: cs)
  have ho := marks_keyword (w := "of".toList) (by decide) cs
  rw [← ho, ← hl]
  rfl

theorem marks_or (cs : List Char) :
    marks (" or ".toList ++ cs) = wordMark "or".toList :: marks cs := by
  rw [← marks_keyword (w := "or".toList) (by decide) cs]
  exact marks_blank (by decide) _

theorem marks_parenthesized {cs rest : List Char} {ms : List Mark}
    (h : marks (cs ++ ')' :: rest) = ms ++ marks (')' :: rest)) :
    marks (parenthesized true cs ++ rest) =
      (.openParen, ['(']) :: (ms ++ [(.closeParen, [')'])]) ++ marks rest := by
  have hassoc : parenthesized true cs ++ rest = '(' :: (cs ++ ')' :: rest) := by
    simp [parenthesized]
  have hclose : marks (')' :: rest) = (.closeParen, [')']) :: marks rest :=
    marks_single (by decide) rfl
  rw [hassoc, marks_single (k := .openParen) (by decide) rfl, h, hclose]
  simp

theorem marks_openBrace (cs : List Char) :
    marks ('{' :: ' ' :: cs) = (.openBrace, ['{']) :: marks cs := by
  rw [marks_single (k := .openBrace) (by decide) rfl, marks_blank (by decide)]

theorem marks_closeBrace (cs : List Char) :
    marks (' ' :: '}' :: cs) = (.closeBrace, ['}']) :: marks cs := by
  rw [marks_blank (by decide)]
  exact marks_single (by decide) rfl

theorem marks_braces {cs rest : List Char} {ms : List Mark}
    (h : marks (cs ++ ' ' :: '}' :: rest) = ms ++ marks (' ' :: '}' :: rest)) :
    marks ('{' :: ' ' :: cs ++ [' ', '}'] ++ rest) =
      (.openBrace, ['{']) :: (ms ++ [(.closeBrace, ['}'])]) ++ marks rest := by
  have hassoc : '{' :: ' ' :: cs ++ [' ', '}'] ++ rest =
      '{' :: ' ' :: (cs ++ ' ' :: '}' :: rest) := by simp
  rw [hassoc, marks_openBrace, h, marks_closeBrace]
  simp

mutual

/-- **A written type phrase is scanned into its spelling.** -/
theorem marks_chars (t : TypePhrase) (h : t.Legible) {rest : List Char} (hrest : EndsWord rest) :
    marks (t.chars ++ rest) = t.spelling ++ marks rest := by
  cases t with
  | named name =>
    have hp := marks_phrase (phraseWords_ne_nil name) h.words hrest
    rw [intercalate_phraseWords] at hp
    rw [chars_named, spelling]
    exact hp
  | list element =>
    rw [chars_list, List.append_assoc, marks_listOf, spelling]
    by_cases hu : element.isUnion = true
    · have hclose : EndsWord (')' :: rest) := endsWord_punctuation (by decide) _
      rw [hu, if_pos rfl, marks_parenthesized (marks_chars element h hclose)]
      rfl
    · rw [if_neg hu, parenthesized, if_neg hu, marks_chars element h hrest]
      rfl
  | record fields =>
    rw [chars_record, spelling]
    have hclose : EndsWord (' ' :: '}' :: rest) := endsWord_blank (by decide) _
    have hf := marks_fieldChars fields h hclose
    cases fields with
    | nil =>
      have hopen : marks ('{' :: ' ' :: '}' :: rest) =
          (.openBrace, ['{']) :: marks (' ' :: '}' :: rest) := marks_single (by decide) rfl
      exact hopen.trans (congrArg _ (marks_closeBrace rest))
    | cons f fields => exact marks_braces hf
  | union ts =>
    rw [chars_union, spelling]
    exact marks_alternativeChars ts h hrest

theorem marks_fieldChars (fields : List (String × TypePhrase)) (h : LegibleFields fields)
    {rest : List Char} (hrest : EndsWord rest) :
    marks (fieldChars fields ++ rest) = fieldSpelling fields ++ marks rest := by
  match fields with
  | [] => rfl
  | (name, t) :: fields =>
    obtain ⟨hname, ht, hfields⟩ := h
    have hcolon : ∀ cs, marks (name.toList ++ ':' :: ' ' :: cs) =
        fieldMark name :: (.colon, [':']) :: marks cs := by
      intro cs
      have hend : EndsWord (':' :: ' ' :: cs) := endsWord_punctuation (by decide) _
      rw [marks_field hname hend, marks_single (k := .colon) (by decide) rfl,
        marks_blank (by decide)]
    have hmore := marks_fieldChars fields hfields hrest
    rw [fieldChars_cons, List.append_assoc, List.append_assoc]
    rw [List.cons_append, List.cons_append, hcolon, fieldSpelling]
    cases fields with
    | nil => simpa using marks_chars t ht hrest
    | cons f fields =>
      have hcomma : EndsWord (',' :: ' ' :: (fieldChars (f :: fields) ++ rest)) :=
        endsWord_punctuation (by decide) _
      simp only [List.isEmpty_cons, Bool.false_eq_true, if_false, List.cons_append]
      rw [marks_chars t ht hcomma, marks_single (k := .comma) (by decide) rfl,
        marks_blank (by decide), hmore]
      simp

theorem marks_alternativeChars (ts : List TypePhrase) (h : LegibleAll ts) {rest : List Char}
    (hrest : EndsWord rest) :
    marks (alternativeChars ts ++ rest) = alternativeSpelling ts ++ marks rest := by
  match ts with
  | [] => rfl
  | t :: ts =>
    obtain ⟨ht, hts⟩ := h
    have hmore := marks_alternativeChars ts hts hrest
    rw [alternativeChars_cons, alternativeSpelling, List.append_assoc]
    cases ts with
    | nil => simpa using marks_chars t ht hrest
    | cons u ts =>
      have hor : EndsWord (" or ".toList ++ (alternativeChars (u :: ts) ++ rest)) :=
        endsWord_blank (by decide) _
      simp only [List.isEmpty_cons, Bool.false_eq_true, if_false, List.append_assoc]
      rw [marks_chars t ht hor, marks_or, hmore]
      rfl

end

/-! ## Tokens that spell a phrase -/

/-- The tokens spell a type phrase. -/
def Spells (ts : List Token) (t : TypePhrase) : Prop := ts.map Token.mark = t.spelling

/-- The tokens spell fields. -/
def SpellsFields (ts : List Token) (fields : List (String × TypePhrase)) : Prop :=
  ts.map Token.mark = fieldSpelling fields

/-- The tokens spell alternatives. -/
def SpellsAll (ts : List Token) (alts : List TypePhrase) : Prop :=
  ts.map Token.mark = alternativeSpelling alts

section Spells

variable {ts : List Token} {t : TypePhrase}

theorem wordMark_eq_iff {t : Token} {w : List Char} :
    Token.mark t = wordMark w ↔ t.kind = .word ∧ t.text = w := mark_eq_iff

theorem isOr_of_mark {o : Token} (h : o.mark = wordMark "or".toList) : isOr o = true := by
  obtain ⟨hkind, htext⟩ := wordMark_eq_iff.1 h
  rw [isOr, Token.isWord, hkind, htext]
  decide

theorem Spells.named {name : String} (h : Spells ts (.named name)) :
    (∀ w ∈ ts, w.kind = .word) ∧ ts.map (·.text) = phraseWords name := by
  have hmap : ts.map Token.mark = (phraseWords name).map wordMark := h
  constructor
  · intro w hw
    have hmem : Token.mark w ∈ (phraseWords name).map wordMark :=
      hmap ▸ List.mem_map_of_mem hw
    obtain ⟨v, -, hv⟩ := List.mem_map.1 hmem
    exact (wordMark_eq_iff.1 hv.symm).1
  · have hsnd := congrArg (List.map Prod.snd) hmap
    simpa [Function.comp_def, Token.mark, wordMark] using hsnd

theorem Spells.listOf (h : Spells ts (.list t)) : ∃ l o us, ts = [l, o] ++ us ∧ IsListOf [l, o] ∧
    us.map Token.mark =
      if t.isUnion then (.openParen, ['(']) :: (spelling t ++ [(.closeParen, [')'])])
      else spelling t := by
  rw [Spells, spelling] at h
  obtain ⟨l, us, rfl, hl, h⟩ := List.map_eq_cons_iff.1 h
  obtain ⟨o, us, rfl, ho, h⟩ := List.map_eq_cons_iff.1 h
  obtain ⟨hok, hot⟩ := wordMark_eq_iff.1 ho
  have hof : o.isWord "of".toList = true := by
    rw [Token.isWord, hok, hot]
    decide
  exact ⟨l, o, us, rfl, .plain (wordMark_eq_iff.1 hl) hof, h⟩

theorem Spells.list (hu : t.isUnion = false) (h : Spells ts (.list t)) :
    ∃ l o us, ts = [l, o] ++ us ∧ IsListOf [l, o] ∧ Spells us t := by
  obtain ⟨l, o, us, hts, hl, h⟩ := h.listOf
  rw [if_neg (by simp [hu])] at h
  exact ⟨l, o, us, hts, hl, h⟩

theorem Spells.list_of_isUnion (hu : t.isUnion = true) (h : Spells ts (.list t)) :
    ∃ l o p us c, ts = [l, o] ++ p :: (us ++ [c]) ∧ IsListOf [l, o] ∧ p.kind = .openParen ∧
      c.kind = .closeParen ∧ Spells us t := by
  obtain ⟨l, o, us, hts, hl, h⟩ := h.listOf
  rw [if_pos hu] at h
  obtain ⟨p, us, c, rfl, hp, hus, hc⟩ := exists_wrapped h
  exact ⟨l, o, p, us, c, hts, hl, (mark_eq_iff.1 hp).1, (mark_eq_iff.1 hc).1, hus⟩

theorem Spells.record {fields : List (String × TypePhrase)} (h : Spells ts (.record fields)) :
    ∃ o us c, ts = o :: (us ++ [c]) ∧ o.kind = .openBrace ∧ c.kind = .closeBrace ∧
      SpellsFields us fields := by
  rw [Spells, spelling] at h
  obtain ⟨o, us, c, rfl, ho, hus, hc⟩ := exists_wrapped h
  exact ⟨o, us, c, rfl, (mark_eq_iff.1 ho).1, (mark_eq_iff.1 hc).1, hus⟩

theorem Spells.union {alts : List TypePhrase} (h : Spells ts (.union alts)) : SpellsAll ts alts := h

/-- What the first tokens of fields are. -/
theorem SpellsFields.cons {name : String} {fields : List (String × TypePhrase)}
    (h : SpellsFields ts ((name, t) :: fields)) : ∃ n c us, ts = n :: c :: us ∧
      (n.kind = .word ∨ n.kind = .slot) ∧ String.ofList n.text = name ∧ c.kind = .colon ∧
      us.map Token.mark = spelling t ++
        if fields.isEmpty then [] else (.comma, [',']) :: fieldSpelling fields := by
  rw [SpellsFields, fieldSpelling] at h
  obtain ⟨n, us, rfl, hn, h⟩ := List.map_eq_cons_iff.1 h
  obtain ⟨c, us, rfl, hc, h⟩ := List.map_eq_cons_iff.1 h
  obtain ⟨hkind, htext⟩ := mark_eq_iff.1 hn
  refine ⟨n, c, us, rfl, ?_, ?_, (mark_eq_iff.1 hc).1, h⟩
  · rw [hkind]
    split <;> simp
  · rw [htext, String.ofList_toList]

theorem SpellsFields.one {name : String} (h : SpellsFields ts [(name, t)]) :
    ∃ n c us, ts = n :: c :: us ∧ (n.kind = .word ∨ n.kind = .slot) ∧
      String.ofList n.text = name ∧ c.kind = .colon ∧ Spells us t := by
  obtain ⟨n, c, us, hts, hkind, htext, hc, h⟩ := h.cons
  exact ⟨n, c, us, hts, hkind, htext, hc, by simpa [Spells] using h⟩

theorem SpellsFields.more {name : String} {f : String × TypePhrase}
    {fields : List (String × TypePhrase)} (h : SpellsFields ts ((name, t) :: f :: fields)) :
    ∃ n c us m vs, ts = n :: c :: (us ++ m :: vs) ∧ (n.kind = .word ∨ n.kind = .slot) ∧
      String.ofList n.text = name ∧ c.kind = .colon ∧ Spells us t ∧ m.kind = .comma ∧
      SpellsFields vs (f :: fields) := by
  obtain ⟨n, c, us, rfl, hkind, htext, hc, h⟩ := h.cons
  obtain ⟨us, vs, rfl, hus, h⟩ := List.map_eq_append_iff.1 h
  obtain ⟨m, vs, rfl, hm, h⟩ := List.map_eq_cons_iff.1 h
  exact ⟨n, c, us, m, vs, rfl, hkind, htext, hc, hus, (mark_eq_iff.1 hm).1, h⟩

theorem SpellsAll.one (h : SpellsAll ts [t]) : Spells ts t := by
  simpa [SpellsAll, Spells, alternativeSpelling] using h

theorem SpellsAll.more {u : TypePhrase} {alts : List TypePhrase}
    (h : SpellsAll ts (t :: u :: alts)) :
    ∃ us o vs, ts = us ++ o :: vs ∧ Spells us t ∧ isOr o = true ∧ SpellsAll vs (u :: alts) := by
  rw [SpellsAll, alternativeSpelling] at h
  obtain ⟨us, vs, rfl, hus, h⟩ := List.map_eq_append_iff.1 h
  obtain ⟨o, vs, rfl, ho, h⟩ := List.map_eq_cons_iff.1 h
  exact ⟨us, o, vs, rfl, hus, isOr_of_mark ho, h⟩

end Spells

/-! ## Words of plain names -/

theorem beginsListOf_of_marks {l o : Token} {ws : List (List Char)}
    (hl : l.kind = .word ∧ l.text = "List".toList) (ho : o.isWord "of".toList = true) :
    beginsListOf (l.text :: o.text :: ws) = true := by
  simp [beginsListOf, hl.2, (isWord_text ho).2]

theorem beginsListPhrase_of_startsListPhrase {ts : List Token} (h : StartsListPhrase ts) :
    beginsListPhrase (ts.map (·.text)) = true := by
  obtain ⟨ws, us, hws, rfl⟩ := h
  cases hws with
  | plain hl ho =>
    simp only [List.cons_append, List.nil_append, List.map_cons, beginsListPhrase,
      beginsListOf_of_marks hl ho, Bool.true_or]
  | article ha hl ho =>
    simp only [List.cons_append, List.nil_append, List.map_cons, beginsListPhrase,
      beginsListOf_of_marks hl ho, Bool.and_true]
    rcases ha with ha | ha <;> simp [(isWord_text ha).2]

/-- The tokens that spell a legible name are a phrase that writes this name. -/
theorem Spells.isPrimary {ts : List Token} {name : String} (h : Spells ts (.named name))
    (hp : IsLegibleName name) (k : Nat) : IsPrimary k ts (.named name) := by
  obtain ⟨hkind, htext⟩ := h.named
  have hname : phraseOf ts = .named name := by
    rw [phraseOf, htext, intercalate_phraseWords, String.ofList_toList]
  have hne : ts ≠ [] := by
    rintro rfl
    exact phraseWords_ne_nil name htext.symm
  have hwords : ∀ w ∈ ts, isPhraseWord w = true := by
    intro w hw
    have hmem : w.text ∈ phraseWords name := htext ▸ List.mem_map_of_mem hw
    simpa [isPhraseWord, Token.isWord, hkind w hw] using hp.no_or w.text hmem
  rw [← hname]
  refine .words hne hwords fun hlist => ?_
  have hbegins := beginsListPhrase_of_startsListPhrase hlist
  rw [htext, hp.no_list] at hbegins
  exact Bool.false_ne_true hbegins

end Concordance.TypePhrase
