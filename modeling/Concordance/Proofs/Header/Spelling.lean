import Concordance.Header.Parameter
import Concordance.Proofs.Text.Trim
import Mathlib.Data.List.Basic
import Mathlib.Data.List.DropRight

/-!
# How parameters are written

A `Spelling` takes a text apart as a parameter:

    blanks ['optional' blanks] (name | '_' name '_') ['?'] blanks [':' text]

The reader finds every spelling: whatever way a text is taken apart, it is read with the parts of
this spelling (`Spelling.readParameter_chars`), and a text that is read has a spelling
(`exists_spelling_or`). So no text can be taken apart in two ways (`Spelling.eq_of_chars`),
although the word `optional` is a name, names may hold underscores, and several parts may be left
out.
-/

namespace Concordance

open Header

/-- The name of a parameter: a letter or a dollar sign, and then word characters and dollar
signs. -/
def Header.IsParameterName (name : List Char) : Prop :=
  ∃ c cs, name = c :: cs ∧ isNameStart c = true ∧ ∀ d ∈ cs, isNamePart d = true

namespace Header

/-! ## Names -/

theorem isNamePart_of_isNameStart {c : Char} (h : isNameStart c = true) : isNamePart c = true := by
  rcases Bool.or_eq_true_iff.1 h with halpha | hdollar
  · have hnum : c.isAlphanum = true := by simp [Char.isAlphanum, halpha]
    simp [isNamePart, Text.isWordChar_of_isAlphanum (Text.toNat_lt_of_isAlphanum hnum) hnum]
  · simp [isNamePart, hdollar]

theorem isBlank_of_isNamePart {c : Char} (h : isNamePart c = true) : Text.isBlank c = false := by
  rcases Bool.or_eq_true_iff.1 h with hword | hdollar
  · exact Text.isBlank_eq_false_of_isWordChar hword
  · obtain rfl : c = '$' := by simpa using hdollar
    decide

theorem isNamePart_of_isBlank {c : Char} (h : Text.isBlank c = true) : isNamePart c = false := by
  rw [Bool.eq_false_iff]
  intro hpart
  rw [isBlank_of_isNamePart hpart] at h
  cases h

theorem takeWhile_of_head? {p : Char → Bool} {cs : List Char} (h : ∀ c ∈ cs.head?, p c = false) :
    cs.takeWhile p = [] := by
  cases cs with
  | nil => rfl
  | cons c cs => exact List.takeWhile_cons_of_neg (by simp [h c rfl])

section Name

variable {name : List Char} (h : IsParameterName name)
include h

theorem IsParameterName.isNamePart : ∀ c ∈ name, isNamePart c = true := by
  obtain ⟨c, cs, rfl, hc, hcs⟩ := h
  exact List.forall_mem_cons.2 ⟨isNamePart_of_isNameStart hc, hcs⟩

theorem IsParameterName.ne_nil : name ≠ [] := by
  obtain ⟨c, cs, rfl, -⟩ := h
  exact List.cons_ne_nil c cs

theorem IsParameterName.starts : Text.Starts name :=
  Text.starts_of_forall h.ne_nil fun c hc => isBlank_of_isNamePart (h.isNamePart c hc)

theorem nameOfRun?_bare : nameOfRun? name = some (name, 0) := by
  obtain ⟨c, cs, rfl, hc, -⟩ := h
  have hne : c ≠ '_' := by
    rintro rfl
    revert hc
    decide
  unfold nameOfRun?
  split
  · next heq => exact absurd (List.cons.inj heq).1 hne
  · next heq =>
    obtain ⟨rfl, rfl⟩ := List.cons.inj heq
    rw [if_pos hc]
  · next heq => cases heq

theorem nameOfRun?_wrapped : nameOfRun? ('_' :: (name ++ ['_'])) = some (name, 1) := by
  obtain ⟨c, cs, rfl, hc, -⟩ := h
  have hlast : (c :: cs ++ ['_']).getLast? = some '_' := List.getLast?_concat
  have hdrop : (c :: cs ++ ['_']).dropLast = c :: cs := List.dropLast_concat
  obtain ⟨d, ds, hds⟩ : ∃ d ds, c :: cs ++ ['_'] = c :: d :: ds := by
    cases cs with
    | nil => exact ⟨'_', [], rfl⟩
    | cons d ds => exact ⟨d, ds ++ ['_'], rfl⟩
  rw [hds] at hlast hdrop ⊢
  simp only [nameOfRun?, hlast, hdrop, if_pos hc]

end Name

/-- A run of name characters that stands for a name is this name, with a pair of underscores around
it or without. -/
theorem exists_of_nameOfRun? {run name : List Char} {before : Nat}
    (hrun : ∀ c ∈ run, isNamePart c = true) (h : nameOfRun? run = some (name, before)) :
    IsParameterName name ∧ (run = name ∨ run = '_' :: (name ++ ['_'])) := by
  unfold nameOfRun? at h
  split at h
  · next rest =>
    split at h
    · next c d ds hlast =>
      split at h
      · next hstart =>
        cases h
        have hrest : (c :: d :: ds).dropLast ++ ['_'] = c :: d :: ds :=
          List.dropLast_append_getLast? _ hlast
        refine ⟨⟨c, (d :: ds).dropLast, rfl, hstart, fun e he => hrun e ?_⟩, .inr ?_⟩
        · exact List.mem_cons_of_mem _ (List.mem_cons_of_mem _ ((List.dropLast_sublist _).mem he))
        · rw [hrest]
      · cases h
    · cases h
  · next c cs _ =>
    split at h
    · next hstart =>
      cases h
      exact ⟨⟨c, cs, rfl, hstart, fun d hd => hrun d (List.mem_cons_of_mem _ hd)⟩, .inl rfl⟩
    · cases h
  · cases h

/-! ## Spellings -/

/-- The parts of a parameter as it is written. -/
@[ext] structure Spelling where
  /-- The blanks before the parameter. -/
  lead : List Char
  /-- The blanks after the word `optional`, if the word is there. -/
  word : Option (List Char)
  /-- Whether the name stands in underscores. -/
  wrapped : Bool
  name : List Char
  /-- Whether a question mark follows the name. -/
  mark : Bool
  /-- The blanks after the name and its question mark. -/
  gap : List Char
  /-- The text after the colon, if there is one. -/
  type : Option (List Char)
  lead_blank : ∀ c ∈ lead, Text.isBlank c = true
  word_blank : ∀ w ∈ word, w ≠ [] ∧ ∀ c ∈ w, Text.isBlank c = true
  isName : IsParameterName name
  gap_blank : ∀ c ∈ gap, Text.isBlank c = true

namespace Spelling

theorem nil_blank : ∀ c ∈ ([] : List Char), Text.isBlank c = true := List.forall_mem_nil _

/-! ### The texts of the parts -/

/-- The word `optional` with the blanks after it. -/
def wordChars (word : Option (List Char)) : List Char := word.elim [] ("optional".toList ++ ·)

theorem wordChars_some (w : List Char) : wordChars (some w) = "optional".toList ++ w := rfl

/-- What stands on each side of the name. -/
def wrapChars (wrapped : Bool) : List Char := if wrapped then ['_'] else []

def markChars (mark : Bool) : List Char := if mark then ['?'] else []

/-- The colon and the text after it. -/
def typeChars : Option (List Char) → List Char
  | none => []
  | some r => ':' :: r

theorem starts_typeChars (type : Option (List Char)) :
    typeChars type = [] ∨ Text.Starts (typeChars type) := by
  cases type with
  | none => exact .inl rfl
  | some r => exact .inr ⟨':', r, rfl, by decide⟩

theorem trimLeft_typeChars (type : Option (List Char)) :
    Text.trimLeft (typeChars type) = typeChars type := by
  rcases starts_typeChars type with h | h
  · rw [h]
    rfl
  · exact h.trimLeft

theorem leading_typeChars (type : Option (List Char)) : Text.leading (typeChars type) = 0 := by
  rcases starts_typeChars type with h | h
  · rw [h]
    rfl
  · exact h.leading

theorem core?_typeChars (type : Option (List Char)) : core? (typeChars type) = none := by
  have hrun : (typeChars type).takeWhile isNamePart = [] := by
    cases type with
    | none => rfl
    | some r => exact List.takeWhile_cons_of_neg (by decide)
  simp only [core?, hrun, nameOfRun?]

variable (d : Spelling)

/-- The name with its underscores. -/
def run : List Char := wrapChars d.wrapped ++ (d.name ++ wrapChars d.wrapped)

/-- The parameter without the word `optional`. -/
def body : List Char := d.run ++ (markChars d.mark ++ (d.gap ++ typeChars d.type))

/-- The text that is spelled. -/
def chars : List Char := d.lead ++ (wordChars d.word ++ d.body)

/-- What stands before the name. -/
def before : List Char := d.lead ++ (wordChars d.word ++ wrapChars d.wrapped)

/-- What stands before the colon. -/
def head : List Char := d.lead ++ (wordChars d.word ++ (d.run ++ (markChars d.mark ++ d.gap)))

theorem chars_eq : d.chars = d.head ++ typeChars d.type := by
  simp [chars, head, body]

/-- Whether the parameter is optional, by the word or by the question mark. -/
def optional : Bool := d.word.isSome || d.mark

/-- What the parameter is read as in a piece that starts at an offset: its type is the text after
the colon, blanks at its ends taken off, and it is a fault if nothing is left of it. -/
def reading (offset : Nat) : Except Fault RawParameter :=
  match d.type with
  | none => .ok ⟨d.name, d.optional, none, offset, offset + d.before.length⟩
  | some r =>
    let place := offset + d.head.length + 1
    if Text.allBlank r then .error ⟨.noParameterType, place⟩
    else
      .ok ⟨d.name, d.optional, some (Text.trim r), place + Text.leading r,
        offset + d.before.length⟩

/-! ### What each part starts with -/

theorem isNamePart_run : ∀ c ∈ d.run, isNamePart c = true := by
  have hwrap : ∀ c ∈ wrapChars d.wrapped, isNamePart c = true := by
    cases d.wrapped with
    | false => simp [wrapChars]
    | true => exact List.forall_mem_singleton.2 (by decide)
  simp only [run, List.forall_mem_append]
  exact ⟨hwrap, d.isName.isNamePart, hwrap⟩

theorem starts_body : Text.Starts d.body := by
  have hne : d.run ≠ [] := by simp [run, d.isName.ne_nil]
  have hstarts : Text.Starts d.run := Text.starts_of_forall hne fun c hc =>
    isBlank_of_isNamePart (d.isNamePart_run c hc)
  exact hstarts.append _

theorem starts_wordChars_body : Text.Starts (wordChars d.word ++ d.body) := by
  cases d.word with
  | none => exact d.starts_body
  | some w =>
    have hstarts : Text.Starts "optional".toList := ⟨'o', "ptional".toList, rfl, by decide⟩
    exact (hstarts.append w).append _

theorem trimLeft_chars : Text.trimLeft d.chars = wordChars d.word ++ d.body := by
  rw [chars, Text.trimLeft_append d.lead_blank, d.starts_wordChars_body.trimLeft]

theorem leading_chars : Text.leading d.chars = d.lead.length := by
  rw [chars, Text.leading_append d.lead_blank, d.starts_wordChars_body.leading, Nat.add_zero]

theorem trimLeft_gap : Text.trimLeft (d.gap ++ typeChars d.type) = typeChars d.type := by
  rw [Text.trimLeft_append d.gap_blank, trimLeft_typeChars]

theorem leading_gap : Text.leading (d.gap ++ typeChars d.type) = d.gap.length := by
  rw [Text.leading_append d.gap_blank, leading_typeChars, Nat.add_zero]

/-- A blank or a colon follows the name and its question mark, if anything does. -/
theorem head?_gap : ∀ c ∈ (d.gap ++ typeChars d.type).head?, c ≠ '?' ∧ isNamePart c = false := by
  cases hgap : d.gap with
  | nil =>
    cases d.type with
    | none => simp [typeChars]
    | some r =>
      rintro _ ⟨⟩
      decide
  | cons c cs =>
    rintro _ ⟨⟩
    have hblank : Text.isBlank c = true := d.gap_blank c (by simp [hgap])
    refine ⟨?_, isNamePart_of_isBlank hblank⟩
    rintro rfl
    revert hblank
    decide

theorem takeWhile_body : d.body.takeWhile isNamePart = d.run := by
  have hstop : (markChars d.mark ++ (d.gap ++ typeChars d.type)).takeWhile isNamePart = [] := by
    cases d.mark with
    | true => exact List.takeWhile_cons_of_neg (by decide)
    | false => exact takeWhile_of_head? fun c hc => (d.head?_gap c hc).2
  rw [body, List.takeWhile_append_of_pos d.isNamePart_run, hstop, List.append_nil]

/-! ### Reading a spelling -/

theorem nameOfRun?_run : nameOfRun? d.run = some (d.name, (wrapChars d.wrapped).length) := by
  rw [run]
  cases d.wrapped with
  | true => exact nameOfRun?_wrapped d.isName
  | false =>
    rw [wrapChars, if_neg (by decide), List.nil_append, List.append_nil]
    exact nameOfRun?_bare d.isName

/-- The parts that the reader finds in a spelling without the word `optional`. -/
def core : Core :=
  ⟨d.name, (wrapChars d.wrapped).length, d.mark,
    d.type.map (·, d.run.length + (markChars d.mark).length + d.gap.length + 1)⟩

theorem core?_body : core? d.body = some d.core := by
  have hdrop : d.body.drop d.run.length = markChars d.mark ++ (d.gap ++ typeChars d.type) :=
    List.drop_left
  have hhead : ((markChars d.mark ++ (d.gap ++ typeChars d.type)).head? == some '?') = d.mark := by
    cases d.mark with
    | true => rfl
    | false =>
      cases hrest : d.gap ++ typeChars d.type with
      | nil => rfl
      | cons c cs => simpa [markChars] using (d.head?_gap c (by rw [hrest]; rfl)).1
  have hmark : (if d.mark then (markChars d.mark ++ (d.gap ++ typeChars d.type)).drop 1
      else markChars d.mark ++ (d.gap ++ typeChars d.type)) = d.gap ++ typeChars d.type := by
    cases d.mark <;> rfl
  have hlength : (if d.mark then 1 else 0) = (markChars d.mark).length := by
    cases d.mark <;> rfl
  simp only [core?, d.takeWhile_body, d.nameOfRun?_run, hdrop, hhead, hmark, d.trimLeft_gap,
    d.leading_gap, hlength, core]
  cases d.type <;> rfl

end Spelling

/-- What follows the word `optional` and its blanks. -/
theorem afterOptional?_eq_some_iff {cs rest : List Char} {n : Nat} :
    afterOptional? cs = some (rest, n) ↔ ∃ w, cs = "optional".toList ++ (w ++ rest) ∧ w ≠ [] ∧
      (∀ c ∈ w, Text.isBlank c = true) ∧ Text.trimLeft rest = rest ∧
      n = "optional".toList.length + w.length := by
  unfold afterOptional?
  dsimp only
  constructor
  · intro h
    split at h
    · next hword =>
      obtain ⟨tail, rfl⟩ := List.isPrefixOf_iff_prefix.1 hword
      rw [List.drop_left] at h
      split at h
      · cases h
      · next hgap =>
        cases h
        refine ⟨tail.takeWhile Text.isBlank, ?_, fun hnil => hgap (congrArg List.length hnil),
          List.all_eq_true.1 List.all_takeWhile, ?_, rfl⟩
        · rw [Text.drop_leading, Text.trimLeft, List.takeWhile_append_dropWhile]
        · rw [Text.drop_leading]
          exact List.dropWhile_idempotent ..
    · cases h
  · rintro ⟨w, rfl, hne, hw, hrest, rfl⟩
    have hlead : Text.leading (w ++ rest) = w.length := by
      have hlength := Text.leading_add_length_trimLeft rest
      rw [hrest] at hlength
      rw [Text.leading_append hw]
      omega
    have hpos := List.length_pos_iff.2 hne
    rw [if_pos (List.isPrefixOf_iff_prefix.2 (List.prefix_append _ _)), List.drop_left, hlead,
      if_neg (by omega), List.drop_left]

theorem worded?_of_afterOptional? {cs rest : List Char} {n : Nat} {k : Core}
    (h : afterOptional? cs = some (rest, n)) (hk : core? rest = some k) :
    worded? cs = some (k, n, true) := by
  simp [worded?, h, hk]

theorem worded?_of_core? {cs : List Char} {k : Core}
    (h : ∀ r, afterOptional? cs = some r → core? r.1 = none) (hk : core? cs = some k) :
    worded? cs = some (k, 0, false) := by
  have hnone : (afterOptional? cs).bind
      (fun r => (core? r.1).map fun k => (k, r.2, true)) = none := by
    rw [Option.bind_eq_none_iff]
    intro r hr
    rw [h r hr, Option.map_none]
  simp [worded?, hnone, hk]

namespace Spelling

variable (d : Spelling)

/-- Where the word `optional` is a name, no name follows it. -/
theorem core?_of_afterOptional? {rest : List Char} {n : Nat}
    (h : afterOptional? d.body = some (rest, n)) : core? rest = none := by
  obtain ⟨w, hbody, hne, hw, hrest, -⟩ := afterOptional?_eq_some_iff.1 h
  have hstop : ∀ c ∈ (w ++ rest).head?, isNamePart c = false := by
    obtain ⟨c, cs, rfl⟩ := List.exists_cons_of_ne_nil hne
    rintro _ ⟨⟩
    exact isNamePart_of_isBlank (hw c List.mem_cons_self)
  have hrun : d.run = "optional".toList := by
    rw [← d.takeWhile_body, hbody, List.takeWhile_append_of_pos (List.all_eq_true.1 (by decide)),
      takeWhile_of_head? hstop, List.append_nil]
  rw [body, hrun] at hbody
  have htail := List.append_cancel_left hbody
  have hmark : markChars d.mark = [] := by
    cases hm : d.mark with
    | false => rfl
    | true =>
      rw [hm] at htail
      obtain ⟨c, cs, rfl⟩ := List.exists_cons_of_ne_nil hne
      obtain rfl : '?' = c := (List.cons.inj htail).1
      exact absurd (hw '?' List.mem_cons_self) (by decide)
  rw [hmark, List.nil_append] at htail
  have htype : typeChars d.type = rest := by
    rw [← d.trimLeft_gap, htail, Text.trimLeft_append hw, hrest]
  rw [← htype]
  exact core?_typeChars d.type

theorem worded?_body : worded? (wordChars d.word ++ d.body) =
    some (d.core, (wordChars d.word).length, d.word.isSome) := by
  cases hword : d.word with
  | some w =>
    obtain ⟨hne, hw⟩ := d.word_blank w hword
    have hchars : wordChars (some w) ++ d.body = "optional".toList ++ (w ++ d.body) :=
      List.append_assoc ..
    have hlength : (wordChars (some w)).length = "optional".toList.length + w.length :=
      List.length_append
    exact worded?_of_afterOptional? (afterOptional?_eq_some_iff.2
      ⟨w, hchars, hne, hw, d.starts_body.trimLeft, hlength⟩) d.core?_body
  | none => exact worded?_of_core? (fun r h => d.core?_of_afterOptional? h) d.core?_body

/-- **A spelling is read with its parts.** -/
theorem readParameter_chars (offset : Nat) :
    readParameter ⟨d.chars, offset⟩ = d.reading offset := by
  have hne : wordChars d.word ++ d.body ≠ [] := by
    obtain ⟨c, cs, h, -⟩ := d.starts_wordChars_body
    simp [h]
  have hbefore : offset + d.lead.length + (wordChars d.word).length +
      (wrapChars d.wrapped).length = offset + d.before.length := by
    simp only [before, List.length_append]
    omega
  have hhead : offset + d.lead.length + (wordChars d.word).length +
      (d.run.length + (markChars d.mark).length + d.gap.length + 1) =
        offset + d.head.length + 1 := by
    simp only [head, List.length_append]
    omega
  simp only [readParameter, d.trimLeft_chars, d.leading_chars, if_neg hne, d.worded?_body, core]
  rw [reading, hbefore]
  cases d.type with
  | none => rfl
  | some r =>
    simp only [Option.map_some, hhead]
    rfl

end Spelling

/-! ### Spelling what is read -/

/-- What is read as a parameter that starts with its name has a spelling. -/
theorem exists_spelling_of_core? {cs : List Char} {k : Core} (h : core? cs = some k) :
    ∃ d : Spelling, d.lead = [] ∧ d.word = none ∧ d.body = cs := by
  unfold core? at h
  dsimp only at h
  split at h
  · cases h
  · next name before hname =>
    have hsplit := Text.append_drop_takeWhile isNamePart cs
    obtain ⟨hisName, hrun⟩ :=
      exists_of_nameOfRun? (List.all_eq_true.1 List.all_takeWhile) hname
    generalize cs.takeWhile isNamePart = run at h hsplit hrun
    generalize cs.drop run.length = rest at h hsplit
    subst hsplit
    -- the question mark after the name
    obtain ⟨mark, tail, hrest, htail⟩ : ∃ (mark : Bool) (tail : List Char),
        rest = (if mark then ['?'] else []) ++ tail ∧
          (if rest.head? == some '?' then rest.drop 1 else rest) = tail := by
      by_cases hmark : rest.head? = some '?'
      · obtain ⟨tail, rfl⟩ : ∃ tail, rest = '?' :: tail := by
          cases rest with
          | nil => cases hmark
          | cons c tail => exact ⟨tail, by rw [Option.some.inj hmark]⟩
        exact ⟨true, tail, rfl, rfl⟩
      · exact ⟨false, rest, rfl, by simp [hmark]⟩
    rw [htail] at h
    have hgap : tail = tail.takeWhile Text.isBlank ++ Text.trimLeft tail :=
      List.takeWhile_append_dropWhile.symm
    obtain ⟨type, htype⟩ : ∃ type, Text.trimLeft tail = Spelling.typeChars type := by
      split at h
      · next hnil => exact ⟨none, hnil⟩
      · next r hcolon => exact ⟨some r, hcolon⟩
      · cases h
    obtain ⟨wrapped, hwrapped⟩ : ∃ wrapped : Bool,
        run = Spelling.wrapChars wrapped ++ (name ++ Spelling.wrapChars wrapped) := by
      rcases hrun with rfl | rfl
      · exact ⟨false, (List.append_nil run).symm⟩
      · exact ⟨true, rfl⟩
    refine ⟨⟨[], none, wrapped, name, mark, tail.takeWhile Text.isBlank, type, Spelling.nil_blank,
      by simp, hisName, List.all_eq_true.1 List.all_takeWhile⟩, rfl, rfl, ?_⟩
    rw [htype] at hgap
    conv => rhs; rw [hwrapped, hrest, hgap]
    rfl

/-- What is read as a parameter, with the word `optional` or without it, has a spelling. -/
theorem exists_spelling_of_worded? {cs : List Char} {r : Core × Nat × Bool}
    (h : worded? cs = some r) : ∃ d : Spelling, d.lead = [] ∧ d.chars = cs := by
  unfold worded? at h
  split at h
  · next hoptional =>
    obtain ⟨⟨rest, n⟩, hafter, hcore⟩ := Option.bind_eq_some_iff.1 (hoptional.trans h)
    obtain ⟨k, hk, -⟩ := Option.map_eq_some_iff.1 hcore
    obtain ⟨w, rfl, hne, hw, -, -⟩ := afterOptional?_eq_some_iff.1 hafter
    obtain ⟨d, hlead, -, hbody⟩ := exists_spelling_of_core? hk
    refine ⟨{ d with word := some w, word_blank := ?_ }, hlead, ?_⟩
    · rintro _ ⟨⟩
      exact ⟨hne, hw⟩
    · have hchars : d.lead ++ ("optional".toList ++ w ++ d.body) =
          "optional".toList ++ (w ++ rest) := by
        rw [hlead, hbody, List.nil_append, List.append_assoc]
      exact hchars
  · obtain ⟨k, hk, -⟩ := Option.map_eq_some_iff.1 h
    obtain ⟨d, hlead, hword, hbody⟩ := exists_spelling_of_core? hk
    refine ⟨d, hlead, ?_⟩
    rw [Spelling.chars, hlead, hword, hbody]
    rfl

/-- A piece is spelled as a parameter, or it is refused: it is blank, or malformed. -/
theorem exists_spelling_or (chunk : Chunk) :
    (∃ d : Spelling, d.chars = chunk.text) ∨
      readParameter chunk = .error ⟨if Text.allBlank chunk.text then .emptyParameter
        else .malformedParameter (Text.trim chunk.text),
          chunk.offset + Text.leading chunk.text⟩ := by
  cases hblank : Text.allBlank chunk.text with
  | true =>
    refine .inr ?_
    simp [readParameter, Text.trimLeft_eq_nil_iff.2 hblank]
  | false =>
    have hne : Text.trimLeft chunk.text ≠ [] := by
      rw [Ne, Text.trimLeft_eq_nil_iff, hblank]
      decide
    cases hworded : worded? (Text.trimLeft chunk.text) with
    | none => exact .inr (by simp [readParameter, hne, hworded])
    | some r =>
      obtain ⟨d, hlead, hchars⟩ := exists_spelling_of_worded? hworded
      refine .inl ⟨{ d with
        lead := chunk.text.takeWhile Text.isBlank
        lead_blank := List.all_eq_true.1 List.all_takeWhile }, ?_⟩
      have hbody : Spelling.wordChars d.word ++ d.body = Text.trimLeft chunk.text := by
        rw [← hchars, Spelling.chars, hlead, List.nil_append]
      have htext : chunk.text.takeWhile Text.isBlank ++
          (Spelling.wordChars d.word ++ d.body) = chunk.text := by
        rw [hbody]
        exact List.takeWhile_append_dropWhile
      exact htext

theorem readParameter_of_chars {chunk : Chunk} {d : Spelling} (hd : d.chars = chunk.text) :
    readParameter chunk = d.reading chunk.offset := by
  rw [← d.readParameter_chars, hd]

/-- What is read as a parameter is read from its spelling. -/
theorem readParameter_ok {chunk : Chunk} {raw : RawParameter} (h : readParameter chunk = .ok raw) :
    ∃ d : Spelling, d.chars = chunk.text ∧ d.reading chunk.offset = .ok raw := by
  rcases exists_spelling_or chunk with ⟨d, hd⟩ | hrefused
  · exact ⟨d, hd, (readParameter_of_chars hd).symm.trans h⟩
  · rw [hrefused] at h
    cases h

namespace Spelling

/-! ### Unambiguity -/

theorem wordChars_injective : Function.Injective wordChars := by
  rintro (_ | w) (_ | v) h
  · rfl
  · cases h
  · cases h
  · exact congrArg some (List.append_cancel_left h)

theorem wrapChars_injective {b c : Bool} (h : (wrapChars b).length = (wrapChars c).length) :
    b = c := by
  cases b <;> cases c <;> simp_all [wrapChars]

/-- **A text is spelled in one way only.** -/
theorem eq_of_chars {d e : Spelling} (h : d.chars = e.chars) : d = e := by
  have hlead : d.lead = e.lead := by
    have hd : d.chars.take (Text.leading d.chars) = d.lead := by
      rw [d.leading_chars]
      exact List.take_left
    rw [← hd, h, e.leading_chars]
    exact List.take_left
  have hrest : wordChars d.word ++ d.body = wordChars e.word ++ e.body := by
    rw [← d.trimLeft_chars, h, e.trimLeft_chars]
  have hworded := d.worded?_body
  rw [hrest, e.worded?_body] at hworded
  simp only [core, Option.some.injEq, Prod.mk.injEq, Core.mk.injEq] at hworded
  obtain ⟨⟨hname, hwrapped, hmark, htype⟩, hlength, -⟩ := hworded
  obtain ⟨hword, hbody⟩ := List.append_inj hrest hlength.symm
  have htype : e.type = d.type := by
    cases he : e.type with
    | none =>
      rw [he] at htype
      exact (Option.map_eq_none_iff.1 htype.symm).symm
    | some r =>
      rw [he] at htype
      obtain ⟨r', hr', heq⟩ := Option.map_eq_some_iff.1 htype.symm
      rw [hr', (Prod.mk.inj heq).1]
  have hwrapped := wrapChars_injective hwrapped
  have hgap : d.gap = e.gap := by
    rw [body, body, run, run, hname, hwrapped, hmark, htype] at hbody
    exact List.append_cancel_right (List.append_cancel_left (List.append_cancel_left hbody))
  exact Spelling.ext hlead (wordChars_injective hword) hwrapped.symm hname.symm hmark.symm hgap
    htype.symm

end Spelling

end Header

end Concordance
