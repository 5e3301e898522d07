import Concordance.Proofs.Header.Places
import Concordance.Proofs.TypePhrase.Misparses

/-!
# Where a type is refused

A header that was read is interpreted by reading the texts of its types: those of the parameters in
order and then that of the result. If one of them is no type, the first such text is the one that is
reported, with the misparse that it has wherever it stands; and since the text stands in the source
at the offset that the header gives, so does the token of the misparse.

The main statement is `misparse_places`.
-/

namespace Concordance.Header

open Text (StandsAt)

/-- The text of a type with its place, if there is one. -/
def phrase (text : Option (List Char)) (offset : Nat) : List (List Char × Nat) :=
  text.toList.map (·, offset)

/-- The texts of the types of a header with their places, in the order in which they are read. -/
def phrases (h : Header) : List (List Char × Nat) :=
  h.params.flatMap (fun p => phrase p.type p.typeOffset) ++ phrase h.returns h.returnOffset

/-! ## The first text that is no type -/

theorem mem_phrase_iff {text : Option (List Char)} {offset : Nat} {r : List Char × Nat} :
    r ∈ phrase text offset ↔ text = some r.1 ∧ offset = r.2 := by
  cases text <;> simp [phrase, Prod.ext_iff, eq_comm]

theorem readType?_error_iff {text : Option (List Char)} {offset : Nat}
    {fault : TypePhrase.Fault} : readType? text offset = .error fault ↔
      ∃ w, text = some w ∧ TypePhrase.parseAt offset w = .error fault := by
  cases text with
  | none => simp [readType?]
  | some w => cases h : TypePhrase.parseAt offset w <;> simp [readType?, h, Except.map]

/-- A text of a type that is read is a type. -/
theorem parseAt_of_readType? {text : Option (List Char)} {offset : Nat} {t : Option TypePhrase}
    (h : readType? text offset = .ok t) :
    ∀ r ∈ phrase text offset, ∃ u, TypePhrase.parseAt r.2 r.1 = .ok u := by
  intro r hr
  obtain ⟨rfl, rfl⟩ := mem_phrase_iff.1 hr
  obtain ⟨u, hu, -⟩ := map_ok_iff.1 h
  exact ⟨u, hu⟩

theorem read_error_iff {p : RawParameter} {fault : TypePhrase.Fault} :
    p.read = .error fault ↔ readType? p.type p.typeOffset = .error fault := by
  rw [RawParameter.read, bind_error_iff]
  simp [pure, Except.pure]

/-- What a header is refused for is the misparse of the first text that is no type. -/
theorem signature_error {h : Header} {fault : TypePhrase.Fault} (hs : h.signature = .error fault) :
    ∃ (before : List (List Char × Nat)) (text : List Char) (offset : Nat)
      (later : List (List Char × Nat)), h.phrases = before ++ (text, offset) :: later ∧
      (∀ r ∈ before, ∃ t, TypePhrase.parseAt r.2 r.1 = .ok t) ∧
      TypePhrase.parseAt offset text = .error fault := by
  have hread : ∀ {ps : List RawParameter}, (∀ p ∈ ps, ∃ q, p.read = .ok q) →
      ∀ r ∈ ps.flatMap (fun p => phrase p.type p.typeOffset),
        ∃ t, TypePhrase.parseAt r.2 r.1 = .ok t := by
    intro ps hps r hr
    obtain ⟨p, hp, hr⟩ := List.mem_flatMap.1 hr
    obtain ⟨q, hq⟩ := hps p hp
    exact parseAt_of_readType? (read_ok_iff.1 hq).2.2 r hr
  rcases bind_error_iff.1 hs with hparams | ⟨params, hparams, hreturns⟩
  · obtain ⟨before, p, later, heq, hbefore, hp⟩ := mapM_error_iff.1 hparams
    obtain ⟨text, htext, hfault⟩ := readType?_error_iff.1 (read_error_iff.1 hp)
    refine ⟨before.flatMap fun p => phrase p.type p.typeOffset, text, p.typeOffset,
      later.flatMap (fun p => phrase p.type p.typeOffset) ++ phrase h.returns h.returnOffset,
      ?_, hread hbefore, hfault⟩
    simp [phrases, heq, phrase, htext]
  · rcases bind_error_iff.1 hreturns with hreturns | ⟨returns, -, h'⟩
    · obtain ⟨text, htext, hfault⟩ := readType?_error_iff.1 hreturns
      refine ⟨h.params.flatMap fun p => phrase p.type p.typeOffset, text, h.returnOffset, [],
        by simp [phrases, phrase, htext], hread fun p hp => ?_, hfault⟩
      exact exists_of_forall₂ (mapM_ok_iff.1 hparams) hp
    · cases h'

/-- The texts of the types of a header that was read stand in its source. -/
theorem stands_of_mem_phrases {source : List Char} {h : Header} {close : Nat}
    (hplaced : h.Placed source close) : ∀ r ∈ h.phrases, Trimmed source r.2 r.1 := by
  intro r hr
  rcases List.mem_append.1 hr with hr | hr
  · obtain ⟨p, hp, hr⟩ := List.mem_flatMap.1 hr
    obtain ⟨htext, hoffset⟩ := mem_phrase_iff.1 hr
    exact hoffset ▸ ((hplaced.params p hp).1.type r.1 htext).1
  · obtain ⟨htext, hoffset⟩ := mem_phrase_iff.1 hr
    exact hoffset ▸ (hplaced.returns r.1 htext).1

/-- **A type is refused at one of its tokens.** A text writes the same type wherever it stands, or
it has one misparse, at one of its tokens or at its end, which lies as far behind the start of the
text wherever that is. So what a header is refused for is the misparse of the first of its types
that is none, and lies in the source inside the text of that type or at its end. -/
theorem misparse_places :
    (∀ text : List Char,
      (∃ t, ∀ base, TypePhrase.parseAt base text = .ok t) ∨
        ∃ m, ∃ token ∈ TypePhrase.Token.scanAll text, ∀ base,
          TypePhrase.parseAt base text = .error ⟨m, base + token.offset⟩) ∧
    ∀ (source : List Char) (h : Header) (fault : TypePhrase.Fault),
      parse source = .ok h → h.signature = .error fault →
        ∃ (before : List (List Char × Nat)) (text : List Char) (offset : Nat)
          (later : List (List Char × Nat)),
          h.phrases = before ++ (text, offset) :: later ∧
          (∀ r ∈ before, ∃ t, TypePhrase.parseAt r.2 r.1 = .ok t) ∧
          TypePhrase.parseAt offset text = .error fault ∧
          StandsAt source offset text ∧
          offset ≤ fault.offset ∧ fault.offset ≤ offset + text.length ∧
          fault.offset ≤ source.length := by
  refine ⟨TypePhrase.parseAt_cases, fun source h fault hparse hfault => ?_⟩
  obtain ⟨before, text, offset, later, hphrases, hbefore, htext⟩ := signature_error hfault
  obtain ⟨_, close, -, hplaced⟩ := placed_of_parse hparse
  have hmem : (text, offset) ∈ h.phrases := by simp [hphrases]
  have hstands := stands_of_mem_phrases hplaced _ hmem
  have hend := hstands.stands.le_length hstands.ne_nil
  refine ⟨before, text, offset, later, hphrases, hbefore, htext, hstands.stands, ?_⟩
  rcases TypePhrase.parseAt_cases text with ⟨t, ht⟩ | ⟨m, token, htoken, hm⟩
  · rw [ht] at htext
    cases htext
  · rw [hm] at htext
    obtain rfl := Except.error.inj htext
    have hle := TypePhrase.Token.offset_le_of_mem_scanAll htoken
    dsimp only at hend ⊢
    omega

/-- A header three of whose types are none: a record without a colon, a bracket, and a keyword. -/
def threeRefused : List Char :=
  "F(a: A,\n b?: a List of \x7b[[x]] B\x7d , c: ]): or".toList

def threeRefusedHeader : Header :=
  ⟨['F'],
    [⟨['a'], false, some ['A'], 5, 2⟩,
      ⟨['b'], true, some "a List of \x7b[[x]] B\x7d".toList, 13, 9⟩,
      ⟨['c'], false, some [']'], 38, 35⟩],
    some "or".toList, 42⟩

/-- The misparse of the record, at the word that has no colon before it. -/
def recordFault : TypePhrase.Fault := ⟨⟨.noColon, some ⟨.word, ['B'], 17⟩⟩, 30⟩

/-- The first of the types that are none is reported, at its place in the header. -/
theorem misparse_places_threeRefused :
    parse threeRefused = .ok threeRefusedHeader ∧
      threeRefusedHeader.signature = .error recordFault ∧
      ∃ (before : List (List Char × Nat)) (text : List Char) (offset : Nat)
        (later : List (List Char × Nat)),
        threeRefusedHeader.phrases = before ++ (text, offset) :: later ∧
        (∀ r ∈ before, ∃ t, TypePhrase.parseAt r.2 r.1 = .ok t) ∧
        TypePhrase.parseAt offset text = .error recordFault ∧
        StandsAt threeRefused offset text ∧
        offset ≤ recordFault.offset ∧ recordFault.offset ≤ offset + text.length ∧
        recordFault.offset ≤ threeRefused.length := by
  have hparse : parse threeRefused = .ok threeRefusedHeader := by decide +kernel
  have hfault : threeRefusedHeader.signature = .error recordFault := by decide +kernel
  exact ⟨hparse, hfault, misparse_places.2 _ _ _ hparse hfault⟩

end Concordance.Header
