import Concordance.Proofs.Header.Spelling
import Concordance.Proofs.Text.Pattern

/-!
# The pattern of parameters

What a parameter looks like, as a pattern with groups: the word `optional`, an underscore, the name,
the same underscore again, a question mark, and the text after a colon. The pattern may be searched
in any order; the texts that it matches are those that are spelled as a parameter, and its groups
keep the parts of the spelling (`matches_parameterPattern_iff`). Since a text has one spelling,
every search keeps the same, and this is what the reader finds.

The main statement is `readParameter_unambiguous`.
-/

namespace Concordance.Header

open Text.Pattern (Captures Matches)

/-- The groups of the pattern of parameters. -/
inductive Group where
  | word
  | underscore
  | name
  | mark
  | type
  deriving DecidableEq, Repr

namespace Group

open Text.Pattern

/-- The word `optional` and the blanks after it, or nothing. -/
def wordPattern : Text.Pattern Group :=
  .opt (.group .word (.seq (text "optional".toList)
    (.seq (.char Text.isBlank) (.many (.char Text.isBlank)))))

def underscorePattern : Text.Pattern Group := .group .underscore (.opt (.char (· = '_')))

def namePattern : Text.Pattern Group :=
  .group .name (.seq (.char isNameStart) (.many (.char isNamePart)))

def markPattern : Text.Pattern Group := .opt (.group .mark (.char (· = '?')))

/-- A colon and any text, or nothing. -/
def typePattern : Text.Pattern Group :=
  .opt (.seq (.char (· = ':')) (.group .type (.many (.char fun _ => true))))

end Group

open Concordance.Header.Group

/-- The pattern of parameters. What stands after the name is what stands before it: an underscore
or nothing. -/
def parameterPattern : Text.Pattern Group :=
  .seq (.many (.char Text.isBlank)) <| .seq wordPattern <| .seq underscorePattern <|
    .seq namePattern <| .seq (.again .underscore) <| .seq markPattern <|
      .seq (.many (.char Text.isBlank)) typePattern

/-! ## The parts of the pattern -/

open Text.Pattern (matches_char_iff matches_seq_iff matches_opt_iff matches_group_iff
  matches_again_iff matches_text_iff matches_many_char_iff)

/-- What is kept after a part that may be left out. -/
def keep (g : Captures Group) (n : Group) : Option (List Char) → Captures Group
  | none => g
  | some u => Function.update g n (some u)

theorem keep_self (g : Captures Group) (n : Group) (o : Option (List Char)) :
    keep g n o n = o.or (g n) := by
  cases o with
  | none => rfl
  | some u => exact Function.update_self n (some u) g

theorem keep_of_ne {m n : Group} (h : m ≠ n) (g : Captures Group) (o : Option (List Char)) :
    keep g n o m = g m := by
  cases o with
  | none => rfl
  | some u => exact Function.update_of_ne h (some u) g

section Parts

variable {g g' : Captures Group} {w : List Char}

theorem matches_wordPattern_iff : Matches wordPattern g w g' ↔
    ∃ word : Option (List Char), (∀ v ∈ word, v ≠ [] ∧ ∀ c ∈ v, Text.isBlank c = true) ∧
      w = Spelling.wordChars word ∧ g' = keep g .word (word.map ("optional".toList ++ ·)) := by
  simp only [wordPattern, matches_opt_iff, matches_group_iff, matches_seq_iff, matches_text_iff,
    matches_char_iff, matches_many_char_iff]
  constructor
  · rintro (⟨rfl, rfl⟩ | ⟨_, ⟨_, _, _, rfl, ⟨rfl, rfl⟩, _, _, _, rfl, ⟨c, rfl, hc, rfl⟩, hv, rfl⟩,
      rfl⟩)
    · exact ⟨none, by simp, rfl, rfl⟩
    · refine ⟨some (c :: _), ?_, rfl, rfl⟩
      rintro _ ⟨⟩
      exact ⟨List.cons_ne_nil _ _, List.forall_mem_cons.2 ⟨hc, hv⟩⟩
  · rintro ⟨word, hword, rfl, rfl⟩
    cases word with
    | none => exact .inl ⟨rfl, rfl⟩
    | some v =>
      obtain ⟨hne, hv⟩ := hword v rfl
      obtain ⟨c, cs, rfl⟩ := List.exists_cons_of_ne_nil hne
      obtain ⟨hc, hcs⟩ := List.forall_mem_cons.1 hv
      exact .inr ⟨g, ⟨_, _, g, rfl, ⟨rfl, rfl⟩, [c], cs, g, rfl, ⟨c, rfl, hc, rfl⟩, hcs, rfl⟩, rfl⟩

theorem matches_underscorePattern_iff : Matches underscorePattern g w g' ↔
    ∃ wrapped, w = Spelling.wrapChars wrapped ∧
      g' = Function.update g .underscore (some (Spelling.wrapChars wrapped)) := by
  simp only [underscorePattern, matches_group_iff, matches_opt_iff, matches_char_iff,
    decide_eq_true_eq]
  constructor
  · rintro ⟨_, ⟨rfl, rfl⟩ | ⟨_, rfl, rfl, rfl⟩, rfl⟩
    · exact ⟨false, rfl, rfl⟩
    · exact ⟨true, rfl, rfl⟩
  · rintro ⟨wrapped, rfl, rfl⟩
    cases wrapped with
    | false => exact ⟨g, .inl ⟨rfl, rfl⟩, rfl⟩
    | true => exact ⟨g, .inr ⟨'_', rfl, rfl, rfl⟩, rfl⟩

theorem matches_namePattern_iff : Matches namePattern g w g' ↔
    IsParameterName w ∧ g' = Function.update g .name (some w) := by
  simp only [namePattern, matches_group_iff, matches_seq_iff, matches_char_iff,
    matches_many_char_iff]
  constructor
  · rintro ⟨_, ⟨_, v, _, rfl, ⟨c, rfl, hc, rfl⟩, hv, rfl⟩, rfl⟩
    exact ⟨⟨c, v, rfl, hc, hv⟩, rfl⟩
  · rintro ⟨⟨c, v, rfl, hc, hv⟩, rfl⟩
    exact ⟨g, ⟨[c], v, g, rfl, ⟨c, rfl, hc, rfl⟩, hv, rfl⟩, rfl⟩

theorem matches_markPattern_iff : Matches markPattern g w g' ↔
    ∃ mark : Bool, w = Spelling.markChars mark ∧
      g' = keep g .mark (if mark then some ['?'] else none) := by
  simp only [markPattern, matches_opt_iff, matches_group_iff, matches_char_iff, decide_eq_true_eq]
  constructor
  · rintro (⟨rfl, rfl⟩ | ⟨_, ⟨_, rfl, rfl, rfl⟩, rfl⟩)
    · exact ⟨false, rfl, rfl⟩
    · exact ⟨true, rfl, rfl⟩
  · rintro ⟨mark, rfl, rfl⟩
    cases mark with
    | false => exact .inl ⟨rfl, rfl⟩
    | true => exact .inr ⟨g, ⟨'?', rfl, rfl, rfl⟩, rfl⟩

theorem matches_typePattern_iff : Matches typePattern g w g' ↔
    ∃ type, w = Spelling.typeChars type ∧ g' = keep g .type type := by
  simp only [typePattern, matches_opt_iff, matches_seq_iff, matches_group_iff, matches_char_iff,
    matches_many_char_iff, decide_eq_true_eq]
  constructor
  · rintro (⟨rfl, rfl⟩ | ⟨_, r, _, rfl, ⟨_, rfl, rfl, rfl⟩, _, ⟨-, rfl⟩, rfl⟩)
    · exact ⟨none, rfl, rfl⟩
    · exact ⟨some r, rfl, rfl⟩
  · rintro ⟨type, rfl, rfl⟩
    cases type with
    | none => exact .inl ⟨rfl, rfl⟩
    | some r => exact .inr ⟨[':'], r, g, rfl, ⟨':', rfl, rfl, rfl⟩, g, ⟨by simp, rfl⟩, rfl⟩

end Parts

/-! ## The whole pattern -/

/-- What the groups keep of a spelling. -/
def Spelling.captures (d : Spelling) : Captures Group
  | .word => d.word.map ("optional".toList ++ ·)
  | .underscore => some (wrapChars d.wrapped)
  | .name => some d.name
  | .mark => if d.mark then some ['?'] else none
  | .type => d.type

theorem Spelling.keep_eq_captures (d : Spelling) :
    keep (keep (Function.update (Function.update
      (keep (fun _ => none) .word (d.word.map ("optional".toList ++ ·)))
      .underscore (some (wrapChars d.wrapped))) .name (some d.name))
      .mark (if d.mark then some ['?'] else none)) .type d.type = d.captures := by
  funext n
  cases n <;> simp [keep_self, keep_of_ne, captures]

/-- The pattern matches what is spelled as a parameter, and keeps its parts. -/
theorem matches_parameterPattern_iff {cs : List Char} {g : Captures Group} :
    Matches parameterPattern (fun _ => none) cs g ↔
      ∃ d : Spelling, d.chars = cs ∧ g = d.captures := by
  simp only [parameterPattern, matches_seq_iff, matches_many_char_iff, matches_wordPattern_iff,
    matches_underscorePattern_iff, matches_namePattern_iff, matches_again_iff,
    matches_markPattern_iff, matches_typePattern_iff]
  constructor
  · rintro ⟨lead, _, _, rfl, ⟨hlead, rfl⟩, _, _, _, rfl, ⟨word, hword, rfl, rfl⟩, _, _, _, rfl,
      ⟨wrapped, rfl, rfl⟩, name, _, _, rfl, ⟨hname, rfl⟩, again, _, _, rfl, ⟨hagain, rfl⟩, _, _, _,
      rfl, ⟨mark, rfl, rfl⟩, gap, _, _, rfl, ⟨hgap, rfl⟩, type, rfl, rfl⟩
    obtain rfl : Spelling.wrapChars wrapped = again := Option.some.inj hagain
    let d : Spelling :=
      ⟨lead, word, wrapped, name, mark, gap, type, hlead, hword, hname, hgap⟩
    refine ⟨d, ?_, d.keep_eq_captures⟩
    simp [d, Spelling.chars, Spelling.body, Spelling.run]
  · rintro ⟨d, rfl, rfl⟩
    refine ⟨d.lead, _, _, rfl, ⟨d.lead_blank, rfl⟩, _, _, _, rfl, ⟨d.word, d.word_blank, rfl, rfl⟩,
      _, d.name ++ (Spelling.wrapChars d.wrapped ++ (Spelling.markChars d.mark ++
        (d.gap ++ Spelling.typeChars d.type))), _, ?_, ⟨d.wrapped, rfl, rfl⟩, d.name, _, _, rfl,
      ⟨d.isName, rfl⟩, _, _, _, rfl, ⟨rfl, rfl⟩, _, _, _, rfl, ⟨d.mark, rfl, rfl⟩, d.gap, _, _, rfl,
      ⟨d.gap_blank, rfl⟩, d.type, rfl, d.keep_eq_captures.symm⟩
    simp [Spelling.body, Spelling.run]

/-- **A parameter is read in one way only.** A piece of a list that is not blank is matched by the
pattern exactly when it is spelled as a parameter. Then it has one spelling, every match keeps the
parts of this spelling, and the reader gives its name, whether it is optional, and the text after
the colon, or a fault if this text is blank. Any other piece is refused as malformed. -/
theorem readParameter_unambiguous (chunk : Chunk) (hblank : Text.allBlank chunk.text = false) :
    ((∃ g, Matches parameterPattern (fun _ => none) chunk.text g) ↔
      ∃ d : Spelling, d.chars = chunk.text) ∧
    (∀ d : Spelling, d.chars = chunk.text → (∀ e : Spelling, e.chars = chunk.text → e = d) ∧
      (∀ g, Matches parameterPattern (fun _ => none) chunk.text g → g = d.captures) ∧
      readParameter chunk = d.reading chunk.offset) ∧
    ((¬∃ d : Spelling, d.chars = chunk.text) →
      readParameter chunk = .error ⟨.malformedParameter (Text.trim chunk.text),
        chunk.offset + Text.leading chunk.text⟩) := by
  have hone : ∀ d e : Spelling, d.chars = chunk.text → e.chars = chunk.text → e = d :=
    fun d e hd he => Spelling.eq_of_chars (he.trans hd.symm)
  refine ⟨?_, fun d hd => ⟨fun e he => hone d e hd he, fun g hg => ?_, ?_⟩, fun hnone => ?_⟩
  · simp only [matches_parameterPattern_iff]
    constructor
    · rintro ⟨_, d, hd, -⟩
      exact ⟨d, hd⟩
    · rintro ⟨d, hd⟩
      exact ⟨_, d, hd, rfl⟩
  · obtain ⟨e, he, rfl⟩ := matches_parameterPattern_iff.1 hg
    rw [hone d e hd he]
  · have hread := d.readParameter_chars chunk.offset
    rwa [hd] at hread
  · rcases exists_spelling_or chunk with hspelled | hrefused
    · exact absurd hspelled hnone
    · rw [hrefused, hblank]
      rfl

/-- A parameter called `optional`, in underscores, after the word and before a question mark. -/
def twiceOptional : Spelling where
  lead := []
  word := some [' ']
  wrapped := true
  name := "optional".toList
  mark := true
  gap := [' ']
  type := some [' ', 'T']
  lead_blank := Spelling.nil_blank
  word_blank := by
    rintro _ ⟨⟩
    exact ⟨by simp, List.forall_mem_singleton.2 (by decide)⟩
  isName := ⟨'o', "ptional".toList, rfl, by decide, List.all_eq_true.1 (by decide)⟩
  gap_blank := List.forall_mem_singleton.2 (by decide)

/-- The word before the name is the keyword, and the one in the underscores is the name. -/
theorem readParameter_twiceOptional :
    Text.allBlank "optional _optional_? : T".toList = false ∧
      (∃ g, Matches parameterPattern (fun _ => none) "optional _optional_? : T".toList g) ∧
      (∀ e : Spelling, e.chars = "optional _optional_? : T".toList → e = twiceOptional) ∧
      readParameter ⟨"optional _optional_? : T".toList, 2⟩ =
        .ok ⟨"optional".toList, true, some ['T'], 25, 12⟩ := by
  have hblank : Text.allBlank "optional _optional_? : T".toList = false := by decide
  have hchars : twiceOptional.chars = "optional _optional_? : T".toList := by decide
  have hreading : twiceOptional.reading 2 =
      .ok ⟨"optional".toList, true, some ['T'], 25, 12⟩ := by decide
  obtain ⟨hmatch, hspelled, -⟩ :=
    readParameter_unambiguous ⟨"optional _optional_? : T".toList, 2⟩ hblank
  obtain ⟨hone, -, hread⟩ := hspelled twiceOptional hchars
  exact ⟨hblank, hmatch.2 ⟨twiceOptional, hchars⟩, hone, hread.trans hreading⟩

end Concordance.Header
