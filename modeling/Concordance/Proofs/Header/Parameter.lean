import Concordance.Header.Parser
import Concordance.Proofs.Header.Phrase
import Concordance.Proofs.Header.Spelling

/-!
# Reading what was written as a parameter

A parameter is written as its name, after the word `optional` where it is optional, and with its
type after a colon. This is one of the spellings of a parameter (`Parameter.spelling`), so the
reader finds the name, the word and the type again, also of a parameter that is called `optional`.
-/

namespace Concordance

open Header

/-- A type phrase that can be declared in a header: it is canonical, takes no more levels than are
read, and no name of a field holds a parenthesis or a brace. -/
structure TypePhrase.Declarable (t : TypePhrase) : Prop where
  canonical : t.Canonical
  cost_le : t.cost ≤ maxLevels
  undelimited : t.Undelimited

/-- A parameter that can be declared in a header. -/
structure Parameter.Declarable (p : Parameter) : Prop where
  name : IsParameterName p.name.toList
  type : ∀ t ∈ p.type, t.Declarable

/-- A parameter that is found again in the text of a list: its type is one piece of text with no
blanks at its ends. -/
structure Parameter.Listable (p : Parameter) : Prop where
  name : IsParameterName p.name.toList
  valid : ∀ t ∈ p.type, t.Valid
  legible : ∀ t ∈ p.type, t.Legible
  passed : ∀ t ∈ p.type, Passes [] t.chars

theorem Parameter.Declarable.listable {p : Parameter} (h : p.Declarable) : p.Listable where
  name := h.name
  valid t ht := (h.type t ht).canonical.valid
  legible t ht := TypePhrase.legible_of_plain t (h.type t ht).canonical.plain
  passed t ht := TypePhrase.passes_chars t
    (TypePhrase.names_of_undelimited t (h.type t ht).canonical.plain (h.type t ht).undelimited) []

/-- The word `optional` is written with one blank after it. -/
theorem Parameter.word_blank (p : Parameter) :
    ∀ w ∈ (if p.optional then some [' '] else none), w ≠ [] ∧ ∀ c ∈ w, Text.isBlank c = true := by
  cases p.optional with
  | true =>
    rintro _ ⟨⟩
    exact ⟨List.cons_ne_nil ' ' [], List.forall_mem_singleton.2 (by decide)⟩
  | false => simp

/-- The spelling of a parameter as it is written, blanks before it. -/
def Parameter.spelling (p : Parameter) (h : IsParameterName p.name.toList) (lead : List Char)
    (hlead : ∀ c ∈ lead, Text.isBlank c = true) : Spelling where
  lead := lead
  word := if p.optional then some [' '] else none
  wrapped := false
  name := p.name.toList
  mark := false
  gap := []
  type := p.type.map fun t => ' ' :: t.chars
  lead_blank := hlead
  word_blank := p.word_blank
  isName := h
  gap_blank := Spelling.nil_blank

theorem Parameter.chars_spelling (p : Parameter) (h : IsParameterName p.name.toList)
    (lead : List Char) (hlead : ∀ c ∈ lead, Text.isBlank c = true) :
    (p.spelling h lead hlead).chars = lead ++ p.chars := by
  have hword : Spelling.wordChars (if p.optional then some [' '] else none) =
      if p.optional then "optional ".toList else [] := by
    cases p.optional <;> rfl
  have htype : Spelling.typeChars (p.type.map fun t => ' ' :: t.chars) = typeSuffix p.type := by
    cases p.type <;> rfl
  have hwrap : Spelling.wrapChars false = [] := rfl
  have hmark : Spelling.markChars false = [] := rfl
  simp only [Spelling.chars, Spelling.body, Spelling.run, spelling, hword, htype, hwrap, hmark,
    Parameter.chars, List.nil_append, List.append_nil, List.append_assoc]

namespace Header

/-! ## Parameters -/

theorem starts_chars {p : Parameter} (h : IsParameterName p.name.toList) : Text.Starts p.chars := by
  rw [Parameter.chars, List.append_assoc]
  cases p.optional with
  | true => exact ⟨'o', _, rfl, by decide⟩
  | false => exact h.starts.append _

/-- What was written as a parameter is read as this parameter. -/
theorem readParameter_chars {p : Parameter} (hp : p.Listable) {chunk : Chunk}
    (hchunk : Text.trimLeft chunk.text = p.chars) :
    ∃ raw, readParameter chunk = .ok raw ∧ raw.name = p.name.toList ∧
      raw.optional = p.optional ∧ raw.type = p.type.map TypePhrase.chars := by
  have hlead : ∀ c ∈ chunk.text.takeWhile Text.isBlank, Text.isBlank c = true :=
    List.all_eq_true.1 List.all_takeWhile
  have htext : (p.spelling hp.name _ hlead).chars = chunk.text := by
    rw [p.chars_spelling, ← hchunk]
    exact List.takeWhile_append_dropWhile
  have hread := (p.spelling hp.name _ hlead).readParameter_chars chunk.offset
  rw [htext] at hread
  have hoptional : (p.spelling hp.name _ hlead).optional = p.optional := by
    simp only [Spelling.optional, Parameter.spelling]
    cases p.optional <;> rfl
  rw [Spelling.reading, hoptional] at hread
  cases htype : p.type with
  | none =>
    simp only [Parameter.spelling, htype, Option.map_none] at hread
    exact ⟨_, hread, rfl, rfl, rfl⟩
  | some t =>
    have hs := TypePhrase.starts_chars t (hp.valid t htype) (hp.legible t htype)
    have he := TypePhrase.ends_chars t (hp.valid t htype) (hp.legible t htype)
    simp only [Parameter.spelling, htype, Option.map_some, hs.allBlank_space, Bool.false_eq_true,
      if_false, Text.trim_space hs he] at hread
    exact ⟨_, hread, rfl, rfl, rfl⟩

end Header

end Concordance
