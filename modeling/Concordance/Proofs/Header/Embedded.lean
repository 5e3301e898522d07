import Concordance.Proofs.Header.Nested
import Concordance.Proofs.Header.Spelling
import Concordance.Proofs.Header.Total
import Concordance.Proofs.TypePhrase.Spacing

/-!
# Types in headers

A type stands in a header as the type of the result or as the type of a parameter. The text of a
result goes to the reader of types as it is. The text of a parameter meets the splitter first, which
sees the brackets in the slots of the type. So the text of a type is read as the same type in both
places if its slots close what they open; and if one of them does not, the header of the parameter
is refused, since the splitter still waits for a bracket at its end.

The main statement is `parse_embedded`.
-/

namespace Concordance.Header

/-- The header of an operation with a result. -/
def resultHeader (text : List Char) : List Char := "F(): ".toList ++ text

/-- The header of an operation with a parameter. -/
def parameterHeader (text : List Char) : List Char := "F(a: ".toList ++ (text ++ [')'])

/-- A text is a header that declares a signature. -/
def Declares (source : List Char) (s : Signature) : Prop :=
  ∃ h, parse source = .ok h ∧ h.signature = .ok s

section Text

variable {text : List Char} {t : TypePhrase}

/-- A blank text is no type. -/
theorem allBlank_of_parse (h : TypePhrase.parse text = .ok t) : Text.allBlank text = false := by
  rw [Bool.eq_false_iff]
  intro hblank
  have hnil : Text.trim text = [] := by
    rw [Text.trim, Text.trimLeft_eq_nil_iff.2 hblank]
    rfl
  have hempty := TypePhrase.parse_trim_iff.2 h
  rw [hnil] at hempty
  cases hempty

/-- The type of a text is read from the text without the blanks at its ends. -/
theorem readType?_trim_iff {offset : Nat} :
    readType? (some (Text.trim text)) offset = .ok (some t) ↔ TypePhrase.parse text = .ok t := by
  rw [readType?, map_ok_iff]
  constructor
  · rintro ⟨u, hu, heq⟩
    obtain rfl := Option.some.inj heq
    exact TypePhrase.parse_trim_iff.1 (mapError_ok_iff.1 hu)
  · intro h
    exact ⟨t, mapError_ok_iff.2 (TypePhrase.parse_trim_iff.2 h), rfl⟩

/-! ## The type of a result -/

theorem parse_resultHeader (text : List Char) : parse (resultHeader text) =
    if Text.allBlank text then .error [⟨.noReturnType, 3⟩]
    else .ok ⟨['F'], [], some (Text.trim text), 3 + 1 + Text.leading (' ' :: text)⟩ := by
  have hlist : list? (resultHeader text) = some ([⟨[], 2⟩], 2) := rfl
  have hreturn : readReturn (':' :: ' ' :: text) 3 =
      if Text.allBlank text then .error ⟨.noReturnType, 3⟩
      else .ok (some (Text.trim text), 3 + 1 + Text.leading (' ' :: text)) := rfl
  have hrest : (resultHeader text).drop 3 = ':' :: ' ' :: text := rfl
  rw [parse_of_list? hlist, hrest, hreturn]
  cases Text.allBlank text <;> rfl

theorem declares_resultHeader_iff :
    Declares (resultHeader text) ⟨"F", [], some t⟩ ↔ TypePhrase.parse text = .ok t := by
  rw [Declares, parse_resultHeader]
  constructor
  · rintro ⟨h, hparse, hs⟩
    split at hparse
    · cases hparse
    · cases hparse
      exact readType?_trim_iff.1 (signature_ok_iff.1 hs).2.2
  · intro h
    rw [if_neg (by simp [allBlank_of_parse h])]
    exact ⟨_, rfl, signature_ok_iff.2 ⟨rfl, .nil, readType?_trim_iff.2 h⟩⟩

/-! ## The type of a parameter -/

/-- A list with one parameter is closed right after its type, or never. -/
theorem list?_parameterHeader (h : TypePhrase.parse text = .ok t) :
    list? (parameterHeader text) =
      if after [] text = [] then
        some ([⟨"a: ".toList ++ text, 2⟩], 2 + ("a: ".toList ++ text).length)
      else none := by
  have hchunks : list? (parameterHeader text) = chunks? 2 ("a: ".toList ++ text ++ [')']) := rfl
  have hlead : Uncut [] ['a', ':', ' '] := uncut_of_forall (by simp)
  have huncut : Uncut [] ("a: ".toList ++ text) := uncut_append.2 ⟨hlead, uncut_of_parse h⟩
  have hafter : after [] ("a: ".toList ++ text) = after [] text := rfl
  rw [hchunks, chunks?, split_of_uncut huncut, hafter]
  split
  · next hnil =>
    rw [hnil, split_close]
    simp [Pieces.prepend]
  · next hne =>
    rw [split_cons fun hnil => absurd hnil hne]
    rfl

/-- What a parameter with a type is read as. -/
theorem readParameter_typed (hblank : Text.allBlank text = false) :
    readParameter ⟨"a: ".toList ++ text, 2⟩ =
      .ok ⟨['a'], false, some (Text.trim text), 2 + 1 + 1 + Text.leading (' ' :: text), 2⟩ := by
  have hname : IsParameterName ['a'] := ⟨'a', [], rfl, by decide, by simp⟩
  let d : Spelling := ⟨[], none, false, ['a'], false, [], some (' ' :: text), Spelling.nil_blank,
    by simp, hname, Spelling.nil_blank⟩
  have hreading : d.reading 2 =
      if Text.allBlank text then .error ⟨.noParameterType, 2 + 1 + 1⟩
      else .ok ⟨['a'], false, some (Text.trim text),
        2 + 1 + 1 + Text.leading (' ' :: text), 2⟩ := rfl
  rw [readParameter_of_chars (d := d) rfl, hreading, if_neg (by simp [hblank])]

theorem parse_parameterHeader (h : TypePhrase.parse text = .ok t) (hafter : after [] text = []) :
    ∃ offset close, parse (parameterHeader text) =
      .ok ⟨['F'], [⟨['a'], false, some (Text.trim text), offset, 2⟩], none, close⟩ := by
  have hlist := list?_parameterHeader h
  rw [if_pos hafter] at hlist
  have hlength : 2 + ("a: ".toList ++ text).length + 1 = (parameterHeader text).length := by
    have hpiece : ("a: ".toList ++ text).length = text.length + 3 := rfl
    have hwhole : (parameterHeader text).length = (text ++ [')']).length + 5 := rfl
    rw [hpiece, hwhole, List.length_append, List.length_singleton]
    omega
  have hparams : readParameters [] (parameterChunks [⟨"a: ".toList ++ text, 2⟩]) =
      ([_], []) := readParameters_cons (readParameter_typed (allBlank_of_parse h)) (by simp) rfl
  rw [parse_of_list? hlist, hparams, hlength, List.drop_length]
  exact ⟨_, _, rfl⟩

theorem declares_parameterHeader (h : TypePhrase.parse text = .ok t) (hafter : after [] text = []) :
    Declares (parameterHeader text) ⟨"F", [⟨"a", some t, false⟩], none⟩ := by
  obtain ⟨offset, close, hparse⟩ := parse_parameterHeader h hafter
  have hread : RawParameter.read ⟨['a'], false, some (Text.trim text), offset, 2⟩ =
      .ok ⟨"a", some t, false⟩ := read_ok_iff.2 ⟨rfl, rfl, readType?_trim_iff.2 h⟩
  exact ⟨_, hparse, signature_ok_iff.2 ⟨rfl, .cons hread .nil, rfl⟩⟩

/-- While a bracket of the type is open, no parenthesis closes the list. -/
theorem parse_parameterHeader_of_after (h : TypePhrase.parse text = .ok t)
    (hafter : after [] text ≠ []) :
    parse (parameterHeader text) = .error [⟨.unclosedList, 1⟩] := by
  have hlist := list?_parameterHeader h
  rw [if_neg hafter] at hlist
  rcases parse_of_list?_none hlist with ⟨hnil, -⟩ | ⟨-, hparse⟩
  · cases hnil
  · exact hparse

end Text

/-- **A type in a list of parameters is the type it is alone, if its slots close what they open.** A
text is read as a type exactly when it is read as the type of a result. Then it is also read as this
type of a parameter, unless one of its slots leaves a bracket open; in that case, and only then, the
header of the parameter is refused, since its list is not closed. -/
theorem parse_embedded (text : List Char) (t : TypePhrase) :
    (TypePhrase.parseAt 0 text = .ok t ↔ Declares (resultHeader text) ⟨"F", [], some t⟩) ∧
      (TypePhrase.parseAt 0 text = .ok t →
        (SlotsClose text →
          Declares (parameterHeader text) ⟨"F", [⟨"a", some t, false⟩], none⟩) ∧
        (¬SlotsClose text →
          parse (parameterHeader text) = .error [⟨.unclosedList, 1⟩])) := by
  have hparse : TypePhrase.parseAt 0 text = .ok t ↔ TypePhrase.parse text = .ok t :=
    mapError_ok_iff
  rw [hparse]
  refine ⟨declares_resultHeader_iff.symm, fun h => ⟨fun hslots => ?_, fun hslots => ?_⟩⟩
  · exact declares_parameterHeader h ((after_eq_nil_iff h).2 hslots)
  · exact parse_parameterHeader_of_after h fun hafter => hslots ((after_eq_nil_iff h).1 hafter)

/-- A type with a slot that closes what it opens, although it holds a parenthesis and a comma. -/
def closingSlot : List Char := " \x7b[[),]]: List of (A or B), n: C[ ]\x7d or D".toList

def closingSlotType : TypePhrase :=
  .union [.record [("[[),]]", .list (.union [.named "A", .named "B"])), ("n", .list (.named "C"))],
    .named "D"]

/-- A type with a slot that leaves a parenthesis open. -/
def openSlot : List Char := "\x7b[[(]]: A\x7d".toList

def openSlotType : TypePhrase := .record [("[[(]]", .named "A")]

/-- A type whose slots close what they open is read in a list, and one with a slot that does not is
refused there. -/
theorem parse_embedded_slots :
    (TypePhrase.parseAt 0 closingSlot = .ok closingSlotType ∧ SlotsClose closingSlot ∧
      Declares (parameterHeader closingSlot) ⟨"F", [⟨"a", some closingSlotType, false⟩], none⟩) ∧
    TypePhrase.parseAt 0 openSlot = .ok openSlotType ∧ ¬SlotsClose openSlot ∧
      parse (parameterHeader openSlot) = .error [⟨.unclosedList, 1⟩] := by
  have hclosing : TypePhrase.parseAt 0 closingSlot = .ok closingSlotType := by decide +kernel
  have hslots : SlotsClose closingSlot := by decide +kernel
  have hopen : TypePhrase.parseAt 0 openSlot = .ok openSlotType := by decide +kernel
  have hslots' : ¬SlotsClose openSlot := by decide +kernel
  exact ⟨⟨hclosing, hslots, ((parse_embedded _ _).2 hclosing).1 hslots⟩, hopen, hslots',
    ((parse_embedded _ _).2 hopen).2 hslots'⟩

/-- The same type is read as the type of a result and refused as the type of a parameter. -/
theorem refused_in_list_openSlot :
    TypePhrase.parseAt 0 openSlot = .ok openSlotType ∧
      Declares (resultHeader openSlot) ⟨"F", [], some openSlotType⟩ ∧
      ∀ s, ¬Declares (parameterHeader openSlot) s := by
  have htype : TypePhrase.parseAt 0 openSlot = .ok openSlotType := by decide +kernel
  have hrefused : parse (parameterHeader openSlot) = .error [⟨.unclosedList, 1⟩] := by
    decide +kernel
  refine ⟨htype, declares_resultHeader_iff.2 (mapError_ok_iff.1 htype), ?_⟩
  rintro s ⟨h, hparse, -⟩
  rw [hrefused] at hparse
  cases hparse

end Concordance.Header
