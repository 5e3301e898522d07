import Concordance.Proofs.Header.Brackets
import Concordance.Proofs.Header.RoundTrip
import Concordance.Proofs.Header.Total
import Concordance.Proofs.TypePhrase.Stable

/-!
# Reading again the header of what was read

The signature of a header that was read is `Listable`, since the reader has made sure of what makes
it so: its names are names, no two parameters are called the same, and the texts of its types close
what they open. So its own text is read as a header that says the same, and of the types in it those
are read back that are `Stable`, and no others.

The main statement is `parse_render_iff`.
-/

namespace Concordance

open Header

/-- A signature all of whose types are read back from their texts. -/
structure Signature.Stable (s : Signature) : Prop where
  params : ∀ p ∈ s.params, ∀ t ∈ p.type, t.Stable
  returns : ∀ t ∈ s.returns, t.Stable

namespace Header

/-! ## Brackets of what is read -/

section After

variable {stack : List Char}

theorem after_trim (cs : List Char) : after stack (Text.trim cs) = after stack cs := by
  obtain ⟨us, vs, hcs, hus, hvs⟩ := Text.exists_eq_append_trim cs
  have hleft : after stack us = stack := after_of_forall fun c hc => isInert_of_isBlank (hus c hc)
  have hright : ∀ base, after base vs = base :=
    fun base => after_of_forall fun c hc => isInert_of_isBlank (hvs c hc)
  conv => rhs; rw [hcs, after_append, after_append, hleft, hright]

end After

/-! ## Parameters that were read -/

/-- What stands before the type of a parameter opens and closes nothing. -/
theorem Spelling.isInert_head (d : Spelling) : ∀ c ∈ d.head, IsInert c := by
  have hblank : ∀ w : List Char, (∀ c ∈ w, Text.isBlank c = true) → ∀ c ∈ w, IsInert c :=
    fun _ hw c hc => isInert_of_isBlank (hw c hc)
  have hoptional : ∀ c ∈ "optional".toList, IsInert c := fun c hc =>
    isInert_of_isNamePart (List.all_eq_true.1 (by decide) c hc)
  have hword : ∀ c ∈ wordChars d.word, IsInert c := by
    cases hw : d.word with
    | none => exact fun c hc => absurd hc List.not_mem_nil
    | some w =>
      rw [wordChars_some, List.forall_mem_append]
      exact ⟨hoptional, hblank w (d.word_blank w hw).2⟩
  have hmark : ∀ c ∈ markChars d.mark, IsInert c := by
    cases d.mark with
    | true => exact List.forall_mem_singleton.2 (by decide)
    | false => simp [markChars]
  simp only [head, List.forall_mem_append]
  exact ⟨hblank _ d.lead_blank, hword, fun c hc => isInert_of_isNamePart (d.isNamePart_run c hc),
    hmark, hblank _ d.gap_blank⟩

/-- A parameter that was read has a name, and its type closes what it opens if its piece does. -/
theorem readParameter_spec {chunk : Chunk} {raw : RawParameter}
    (h : readParameter chunk = .ok raw) :
    IsParameterName raw.name ∧ ∀ text ∈ raw.type, after [] text = after [] chunk.text := by
  obtain ⟨d, hd, hread⟩ := readParameter_ok h
  rw [Spelling.reading] at hread
  split at hread
  · cases hread
    exact ⟨d.isName, by simp⟩
  · next r hr =>
    dsimp only at hread
    split at hread
    · cases hread
    · cases hread
      refine ⟨d.isName, ?_⟩
      rintro _ ⟨⟩
      rw [after_trim, ← hd, d.chars_eq, after_append, after_of_forall d.isInert_head, hr]
      exact (after_cons_of_isInert (by decide) r).symm

/-! ## Headers that were read -/

theorem isOperationName_trim {source : List Char} {lead opening : Nat}
    (h : nameFaults (Text.trim (source.takeWhile (· ≠ '('))) lead opening = []) :
    IsOperationName (Text.trim (source.takeWhile (· ≠ '('))) := by
  obtain ⟨us, vs, hsource, -⟩ := Text.exists_eq_append_trim (source.takeWhile (· ≠ '('))
  have hparen : ∀ c ∈ Text.trim (source.takeWhile (· ≠ '(')), c ≠ '(' := by
    intro c hc
    have hmem : c ∈ source.takeWhile (· ≠ '(') := by
      rw [hsource]
      exact List.mem_append_left _ (List.mem_append_right _ hc)
    simpa using List.all_eq_true.1 List.all_takeWhile c hmem
  unfold nameFaults at h
  split at h
  · cases h
  · next hne =>
    split at h
    · cases h
    · next hplain =>
      simp only [List.any_eq_true, not_exists, not_and, Bool.or_eq_true, decide_eq_true_eq,
        not_or] at hplain
      refine ⟨Text.starts_trim hne, Text.ends_trim hne, fun c hc => ?_⟩
      obtain ⟨⟨⟨hclose, hcomma⟩, hopen⟩, hbrace⟩ := hplain c hc
      exact ⟨hparen c hc, hclose, hcomma, hopen, hbrace⟩

/-- What the reader has made sure of when it gives a header: the types of the parameters close what
they open, since the list is closed after them. -/
structure Sound (h : Header) : Prop where
  name : IsOperationName h.name
  distinct : (h.params.map RawParameter.name).Nodup
  params : ∀ raw ∈ h.params, IsParameterName raw.name ∧ ∀ text ∈ raw.type, after [] text = []

theorem sound_of_parse {source : List Char} {h : Header} (hparse : parse source = .ok h) :
    h.Sound := by
  obtain ⟨hname, ⟨_, _, hfaults⟩, chunks, _, hlist, -, -, hparams⟩ := parse_ok hparse
  refine ⟨?_, ?_, fun raw hraw => ?_⟩
  · rw [hname] at hfaults ⊢
    exact isOperationName_trim hfaults
  · rw [hparams]
    exact (nodup_readParameters [] _).1
  · rw [hparams] at hraw
    obtain ⟨chunk, hmem, hread⟩ :=
      exists_of_sublistForall₂ (sublistForall₂_readParameters [] _).1 raw hraw
    have hclosed := after_of_chunks? hlist chunk ((parameterChunks_sublist chunks).mem hmem)
    obtain ⟨hparameter, htype⟩ := readParameter_spec hread
    exact ⟨hparameter, fun text htext => (htype text htext).trans hclosed⟩

/-! ## Signatures that were read -/

theorem listable_of_read {raw : RawParameter} {p : Parameter} (hname : IsParameterName raw.name)
    (hclosed : ∀ text ∈ raw.type, after [] text = []) (h : raw.read = .ok p) : p.Listable := by
  obtain ⟨hp, -, htype⟩ := read_ok_iff.1 h
  have hread := parse_of_readType? htype
  refine ⟨?_, fun t ht => ?_, fun t ht => ?_, fun t ht => ?_⟩
  · rw [hp, String.toList_ofList]
    exact hname
  all_goals obtain ⟨w, hmem, hw⟩ := hread t ht
  · exact TypePhrase.valid_of_parse hw
  · exact TypePhrase.legible_of_parse hw
  · exact TypePhrase.passes_chars t (names_isPassed hw (hclosed w hmem)) []

/-- **The signature of a header that was read can be listed.** -/
theorem Sound.listable {h : Header} (hsound : h.Sound) {s : Signature}
    (hs : h.signature = .ok s) : s.Listable := by
  obtain ⟨hname, hparams, hreturns⟩ := signature_ok_iff.1 hs
  refine ⟨?_, ?_, ?_, valid_of_readType? hreturns, fun t ht => ?_⟩
  · rw [hname, String.toList_ofList]
    exact hsound.name
  · rw [names_of_forall₂ hparams]
    exact hsound.distinct.map fun _ _ heq => String.ofList_injective heq
  · refine forall_of_mapM (fun raw hraw p hp => ?_) (mapM_ok_iff.2 hparams)
    exact listable_of_read (hsound.params raw hraw).1 (hsound.params raw hraw).2 hp
  · obtain ⟨w, -, hw⟩ := parse_of_readType? hreturns t ht
    exact TypePhrase.legible_of_parse hw

/-! ## Reading again -/

theorem readType?_map_iff {t : Option TypePhrase} (hv : ∀ u ∈ t, u.Valid)
    (hl : ∀ u ∈ t, u.Legible) (offset : Nat) :
    readType? (t.map TypePhrase.chars) offset = .ok t ↔ ∀ u ∈ t, u.Stable := by
  cases t with
  | none => simp [readType?]
  | some t =>
    have hparse := TypePhrase.parse_chars_iff (hv t rfl) (hl t rfl)
    simp [readType?, map_ok_iff, TypePhrase.parseAt, mapError_ok_iff, hparse]

theorem Writes.read_iff {p : Parameter} (hp : p.Listable) {raw : RawParameter} (h : Writes p raw) :
    raw.read = .ok p ↔ ∀ t ∈ p.type, t.Stable := by
  obtain ⟨hname, hoptional, htype⟩ := h
  have hstring : p.name = String.ofList raw.name := by rw [hname, String.ofList_toList]
  rw [read_ok_iff, htype, readType?_map_iff hp.valid hp.legible]
  exact ⟨fun hread => hread.2.2, fun hstable => ⟨hstring, hoptional.symm, hstable⟩⟩

theorem forall₂_read_iff {ps : List Parameter} {raws : List RawParameter}
    (h : List.Forall₂ Writes ps raws) (hp : ∀ p ∈ ps, p.Listable) :
    List.Forall₂ (fun raw p => raw.read = .ok p) raws ps ↔
      ∀ p ∈ ps, ∀ t ∈ p.type, t.Stable := by
  induction h with
  | nil => simp
  | cons hwrites _ ih =>
    obtain ⟨hp, hps⟩ := List.forall_mem_cons.1 hp
    rw [List.forall₂_cons, List.forall_mem_cons, hwrites.read_iff hp, ih hps]

/-- The header that the text of a signature is read as declares the signature exactly when all its
types are read back. -/
theorem signature_iff_stable {s : Signature} (hs : s.Listable) {h : Header}
    (hname : h.name = s.name.toList) (hparams : List.Forall₂ Writes s.params h.params)
    (hreturns : h.returns = s.returns.map TypePhrase.chars) :
    h.signature = .ok s ↔ s.Stable := by
  have hstring : s.name = String.ofList h.name := by rw [hname, String.ofList_toList]
  rw [signature_ok_iff, forall₂_read_iff hparams hs.params, hreturns,
    readType?_map_iff hs.valid hs.legible]
  constructor
  · rintro ⟨-, hstable, hstable'⟩
    exact ⟨hstable, hstable'⟩
  · rintro ⟨hstable, hstable'⟩
    exact ⟨hstring, hstable, hstable'⟩

/-- **What was read is read again, but for its unstable types.** A type that was read is read again
from its text exactly when it is stable. The text of a signature that was read is read as a header
with the same name, the same parameters and the texts of the same types, and this header declares
the signature exactly when all its types are stable. -/
theorem parse_render_iff :
    (∀ (base base' : Int) (text : List Char) (t : TypePhrase),
      TypePhrase.parseAt base text = .ok t →
        (TypePhrase.parseAt base' t.render.toList = .ok t ↔ t.Stable)) ∧
    ∀ (source : List Char) (h : Header) (s : Signature),
      parse source = .ok h → h.signature = .ok s →
        ∃ h', parse s.render.toList = .ok h' ∧ h'.name = s.name.toList ∧
          List.Forall₂ Writes s.params h'.params ∧
          h'.returns = s.returns.map TypePhrase.chars ∧
          (h'.signature = .ok s ↔ s.Stable) := by
  constructor
  · intro base base' text t h
    have hparse := mapError_ok_iff.1 h
    rw [TypePhrase.parseAt, TypePhrase.render, String.toList_ofList, mapError_ok_iff]
    exact TypePhrase.parse_chars_iff (TypePhrase.valid_of_parse hparse)
      (TypePhrase.legible_of_parse hparse)
  · intro source h s hparse hs
    have hlistable := (sound_of_parse hparse).listable hs
    obtain ⟨h', hparse', hname, hparams, hreturns⟩ := parse_chars_of_listable hlistable
    rw [Signature.render, String.toList_ofList]
    exact ⟨h', hparse', hname, hparams, hreturns,
      signature_iff_stable hlistable hname hparams hreturns⟩

/-- The choice that `either A or B` writes. -/
def choice : TypePhrase := .union [.named "A", .named "B"]

/-- The signature that `GroupBy(items: either A or B, keys?: A[]): (A or B)[]` declares. -/
def groupBy : Signature :=
  ⟨"GroupBy", [⟨"items", some choice, false⟩, ⟨"keys", some (.list (.named "A")), true⟩],
    some (.list choice)⟩

/-- The header that it is read as. -/
def groupByHeader : Header :=
  ⟨"GroupBy".toList,
    [⟨"items".toList, false, some "either A or B".toList, 15, 8⟩,
      ⟨"keys".toList, true, some "A[]".toList, 37, 30⟩],
    some "(A or B)[]".toList, 43⟩

/-- Keywords, suffixes and parentheses that the text of a signature does without do not keep it from
being read again. -/
theorem parse_render_groupBy :
    (TypePhrase.parseAt 0 "either A or B".toList = .ok choice ∧ choice.Stable ∧
      TypePhrase.parseAt 0 choice.render.toList = .ok choice) ∧
    parse "GroupBy(items: either A or B, keys?: A[]): (A or B)[]".toList = .ok groupByHeader ∧
      groupByHeader.signature = .ok groupBy ∧ groupBy.Stable ∧
      ∃ h', parse groupBy.render.toList = .ok h' ∧ h'.signature = .ok groupBy := by
  have hchoice : choice.Stable := ⟨by decide, ⟨trivial, trivial, trivial⟩, by decide⟩
  have hlist : (TypePhrase.list (.named "A")).Stable :=
    ⟨by decide, ⟨by decide, trivial⟩, by decide⟩
  have hlists : (TypePhrase.list choice).Stable :=
    ⟨by decide, ⟨by decide, trivial, trivial, trivial⟩, by decide⟩
  have hstable : groupBy.Stable := ⟨by simp [groupBy, hchoice, hlist], by simp [groupBy, hlists]⟩
  have hread : TypePhrase.parseAt 0 "either A or B".toList = .ok choice := by decide +kernel
  have hparse : parse "GroupBy(items: either A or B, keys?: A[]): (A or B)[]".toList =
      .ok groupByHeader := by decide +kernel
  have hsignature : groupByHeader.signature = .ok groupBy := by decide +kernel
  obtain ⟨h', hparse', -, -, -, hiff⟩ := parse_render_iff.2 _ _ _ hparse hsignature
  exact ⟨⟨hread, hchoice, (parse_render_iff.1 0 0 _ _ hread).2 hchoice⟩,
    hparse, hsignature, hstable, h', hparse', hiff.2 hstable⟩

/-- A choice in parentheses with as many list suffixes as are read. -/
def manyLists : List Char := "(A or B)".toList ++ (List.replicate 63 "[]".toList).flatten

/-- Not everything that was read is read again: of a keyword that was written twice one is left, and
is dropped; and the list phrases for as many suffixes as are read nest one level too deep. -/
theorem exists_not_reread :
    (∃ h h', parse "F(): either either A".toList = .ok h ∧
      h.signature = .ok ⟨"F", [], some (.named "either A")⟩ ∧
      parse (⟨"F", [], some (.named "either A")⟩ : Signature).render.toList = .ok h' ∧
      h'.signature = .ok ⟨"F", [], some (.named "A")⟩) ∧
    ∃ t, TypePhrase.parseAt 0 manyLists = .ok t ∧
      TypePhrase.parseAt 0 t.render.toList ≠ .ok t := by
  constructor
  · exact ⟨⟨['F'], [], some "either either A".toList, 5⟩, ⟨['F'], [], some "either A".toList, 5⟩,
      by decide +kernel, by decide +kernel, by decide +kernel, by decide +kernel⟩
  · have hcost : (TypePhrase.parseAt 0 manyLists).toOption.map TypePhrase.cost = some 65 := by
      decide +kernel
    cases hparse : TypePhrase.parseAt 0 manyLists with
    | error fault => simp [hparse, Except.toOption] at hcost
    | ok t =>
      rw [hparse] at hcost
      have hcost : t.cost = 65 := Option.some.inj hcost
      have hread := mapError_ok_iff.1 hparse
      refine ⟨t, rfl, fun hreread => ?_⟩
      rw [TypePhrase.render, String.toList_ofList] at hreread
      have hstable := (TypePhrase.parse_chars_iff (TypePhrase.valid_of_parse hread)
        (TypePhrase.legible_of_parse hread)).1 (mapError_ok_iff.1 hreread)
      have hle := hstable.cost_le
      rw [hcost] at hle
      exact absurd hle (by decide)

end Header

end Concordance
