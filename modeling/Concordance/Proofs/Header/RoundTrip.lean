import Concordance.Proofs.Header.Parameter
import Concordance.Proofs.Outcome
import Concordance.Proofs.TypePhrase.RoundTrip

/-!
# Headers are read back

A signature that can be declared in a header is read back from its text. The splitter cuts the list
at the commas between the parameters and nowhere else, each piece is read as the parameter that was
written there, and what follows the list is the type of the result. The types are then read from
their own texts.

The main statement is `parse_render`.
-/

namespace Concordance

open Header

/-- The name of an operation: no blanks at its ends, and none of the characters that end a name. -/
structure Header.IsOperationName (name : List Char) : Prop where
  starts : Text.Starts name
  ends : Text.Ends name
  plain : ∀ c ∈ name, c ≠ '(' ∧ c ≠ ')' ∧ c ≠ ',' ∧ c ≠ '{' ∧ c ≠ '}'

/-- A signature that can be declared in a header. -/
structure Signature.Declarable (s : Signature) : Prop where
  name : IsOperationName s.name.toList
  distinct : (s.params.map Parameter.name).Nodup
  params : ∀ p ∈ s.params, p.Declarable
  returns : ∀ t ∈ s.returns, t.Declarable

/-- A signature whose text is a header that says what the signature does. -/
structure Signature.Listable (s : Signature) : Prop where
  name : IsOperationName s.name.toList
  distinct : (s.params.map Parameter.name).Nodup
  params : ∀ p ∈ s.params, p.Listable
  valid : ∀ t ∈ s.returns, t.Valid
  legible : ∀ t ∈ s.returns, t.Legible

theorem Signature.Declarable.listable {s : Signature} (h : s.Declarable) : s.Listable where
  name := h.name
  distinct := h.distinct
  params p hp := (h.params p hp).listable
  valid t ht := (h.returns t ht).canonical.valid
  legible t ht := TypePhrase.legible_of_plain t (h.returns t ht).canonical.plain

namespace Header

/-! ## Pieces of the parameter list -/

theorem isInert_of_isNamePart {c : Char} (h : isNamePart c = true) : IsInert c :=
  isInert_of_class (by decide) h

theorem passes_name {name : List Char} (h : IsParameterName name) : Passes [] name := by
  refine passes_of_forall (fun c hc => isInert_of_isNamePart (h.isNamePart c hc)) (.inl ?_)
  intro hcomma
  have hpart := h.isNamePart ',' hcomma
  revert hpart
  decide

theorem passes_typeSuffix {t : Option TypePhrase} (h : ∀ u ∈ t, Passes [] u.chars) :
    Passes [] (typeSuffix t) := by
  cases t with
  | none => exact passes_nil []
  | some t =>
    have hcolon : Passes [] [':', ' '] := passes_text (by decide)
    exact hcolon.append (h t rfl)

/-- The text of a parameter has no comma that the splitter cuts at. -/
theorem passes_chars {p : Parameter} (hp : p.Listable) : Passes [] p.chars := by
  have hword : Passes [] (if p.optional then "optional ".toList else []) := by
    cases p.optional with
    | true => exact passes_text (by decide)
    | false => exact passes_nil []
  exact (hword.append (passes_name hp.name)).append (passes_typeSuffix hp.passed)

/-- The piece holds the text of a parameter, blanks before it apart. -/
def Holds (p : Parameter) (chunk : Chunk) : Prop := Text.trimLeft chunk.text = p.chars

theorem Holds.allBlank {p : Parameter} (hp : p.Listable) {chunk : Chunk} (h : Holds p chunk) :
    Text.allBlank chunk.text = false := by
  obtain ⟨c, cs, hchars, -⟩ := starts_chars hp.name
  rw [Bool.eq_false_iff, Ne, ← Text.trimLeft_eq_nil_iff, h, hchars]
  exact List.cons_ne_nil c cs

theorem forall_not_blank {ps : List Parameter} {chunks : List Chunk}
    (h : List.Forall₂ Holds ps chunks) (hp : ∀ p ∈ ps, p.Listable) :
    ∀ chunk ∈ chunks, Text.allBlank chunk.text = false := by
  induction h with
  | nil => simp
  | cons hchunk _ ih =>
    obtain ⟨hp, hps⟩ := List.forall_mem_cons.1 hp
    exact List.forall_mem_cons.2 ⟨hchunk.allBlank hp, ih hps⟩

theorem parameterChunks_of_not_blank {chunks : List Chunk}
    (h : ∀ chunk ∈ chunks, Text.allBlank chunk.text = false) : parameterChunks chunks = chunks := by
  have hlast : ∀ chunk ∈ chunks.reverse, Text.allBlank chunk.text = false := by simpa using h
  unfold parameterChunks
  dsimp only
  split
  · next only heq =>
    rw [if_neg (by simp [hlast only (by simp [heq])]), ← List.reverse_reverse chunks, heq]
    rfl
  · next last _ _ heq =>
    have hblank : Text.allBlank last.text = false := hlast last (by simp [heq])
    simp [hblank]
  · next heq => rw [← List.reverse_reverse chunks, heq]; rfl

/-- The pieces of a written list hold the parameters, and the list is closed after the last. -/
theorem exists_chunks {ps : List Parameter} (hp : ∀ p ∈ ps, p.Listable) (offset : Nat)
    (rest : List Char) :
    ∃ chunks, chunks? offset ([',', ' '].intercalate (ps.map Parameter.chars) ++ ')' :: rest) =
        some (chunks, offset + ([',', ' '].intercalate (ps.map Parameter.chars)).length) ∧
      List.Forall₂ Holds ps (parameterChunks chunks) := by
  cases ps with
  | nil => exact ⟨[⟨[], offset⟩], by simp [chunks?, split_close], .nil⟩
  | cons p ps =>
    have hpass : ∀ u ∈ p.chars :: ps.map Parameter.chars, Passes [] u := by
      intro u hu
      obtain ⟨q, hq, rfl⟩ := List.mem_map.1 (List.map_cons .. ▸ hu)
      exact passes_chars (hp q hq)
    obtain ⟨more, hsplit, htexts⟩ := split_intercalate hpass offset rest
    have hmore : List.Forall₂ (fun q chunk => chunk.text = ' ' :: Parameter.chars q) ps more := by
      rw [← List.forall₂_eq_eq_eq, List.forall₂_map_left_iff, List.forall₂_map_right_iff,
        List.forall₂_map_right_iff] at htexts
      exact htexts.flip
    have hholds : List.Forall₂ Holds (p :: ps) (⟨p.chars, offset⟩ :: more) := by
      obtain ⟨hfirst, hps⟩ := List.forall_mem_cons.1 hp
      refine .cons (starts_chars hfirst.name).trimLeft ?_
      refine ((List.forall₂_and_left ps more).2 ⟨hps, hmore⟩).imp fun q chunk ⟨hq, htext⟩ => ?_
      rw [Holds, htext]
      exact (starts_chars hq.name).trimLeft_space
    refine ⟨⟨p.chars, offset⟩ :: more, by rw [chunks?, List.map_cons, hsplit]; rfl, ?_⟩
    rw [parameterChunks_of_not_blank (forall_not_blank hholds hp)]
    exact hholds

/-! ## Reading the pieces -/

/-- The raw parameter says what the parameter does, its type being a text. -/
def Writes (p : Parameter) (raw : RawParameter) : Prop :=
  raw.name = p.name.toList ∧ raw.optional = p.optional ∧ raw.type = p.type.map TypePhrase.chars

theorem readParameters_of_holds {ps : List Parameter} {chunks : List Chunk}
    (h : List.Forall₂ Holds ps chunks) (hp : ∀ p ∈ ps, p.Listable)
    (hd : (ps.map Parameter.name).Nodup) {seen : List (List Char)}
    (hseen : ∀ p ∈ ps, p.name.toList ∉ seen) :
    ∃ raws, readParameters seen chunks = (raws, []) ∧ List.Forall₂ Writes ps raws := by
  induction h generalizing seen with
  | nil => exact ⟨[], rfl, .nil⟩
  | @cons p chunk ps chunks hchunk _ ih =>
    obtain ⟨hp, hps⟩ := List.forall_mem_cons.1 hp
    obtain ⟨hnew, hd⟩ := List.nodup_cons.1 (List.map_cons .. ▸ hd)
    obtain ⟨hfresh, hseen⟩ := List.forall_mem_cons.1 hseen
    obtain ⟨raw, hraw, hwrites⟩ := readParameter_chars hp hchunk
    have hseen' : ∀ q ∈ ps, q.name.toList ∉ raw.name :: seen := by
      intro q hq hmem
      rcases List.mem_cons.1 hmem with heq | hmem
      · rw [hwrites.1] at heq
        exact hnew (List.mem_map.2 ⟨q, hq, String.toList_inj.1 heq⟩)
      · exact hseen q hq hmem
    obtain ⟨raws, hraws, hrest⟩ := ih hps hd hseen'
    have hname : raw.name ∉ seen := by
      rw [hwrites.1]
      exact hfresh
    exact ⟨raw :: raws, readParameters_cons hraw hname hraws, .cons hwrites hrest⟩

/-! ## The header -/

theorem takeWhile_name {name rest : List Char} (h : IsOperationName name) :
    (name ++ '(' :: rest).takeWhile (· ≠ '(') = name := by
  have hname : ∀ c ∈ name, decide (c ≠ '(') = true := fun c hc => decide_eq_true (h.plain c hc).1
  rw [List.takeWhile_append_of_pos hname, List.takeWhile_cons_of_neg (by decide), List.append_nil]

theorem nameFaults_eq_nil {name : List Char} (h : IsOperationName name) (lead opening : Nat) :
    nameFaults name lead opening = [] := by
  have hne : name ≠ [] := by
    obtain ⟨c, cs, rfl, -⟩ := h.starts
    exact List.cons_ne_nil c cs
  have hplain : name.any (fun c => c = ')' || c = ',' || c = '\x7b' || c = '}') = false := by
    rw [List.any_eq_false]
    intro c hc
    simp [h.plain c hc]
  rw [nameFaults, if_neg hne, if_neg (by simp [hplain])]

theorem readReturn_typeSuffix {t : Option TypePhrase} (hv : ∀ u ∈ t, u.Valid)
    (hl : ∀ u ∈ t, u.Legible) (offset : Nat) :
    ∃ place, readReturn (typeSuffix t) offset = .ok (t.map TypePhrase.chars, place) := by
  cases t with
  | none => exact ⟨offset, rfl⟩
  | some t =>
    have hs := TypePhrase.starts_chars t (hv t rfl) (hl t rfl)
    have he := TypePhrase.ends_chars t (hv t rfl) (hl t rfl)
    have hcolon : Text.Starts (':' :: ' ' :: t.chars) := ⟨':', _, rfl, by decide⟩
    simp only [typeSuffix, readReturn, hcolon.trimLeft, hs.allBlank_space, Text.trim_space hs he]
    exact ⟨_, rfl⟩

/-- A text is read as a header once its list is split, its pieces are read as parameters, and what
follows the list is read as the type of the result. -/
theorem parse_of_chunks {name list rest : List Char} {chunks : List Chunk}
    {raws : List RawParameter} {returns : Option (List Char)} {place : Nat}
    (hname : IsOperationName name)
    (hchunks : chunks? (name.length + 1) (list ++ ')' :: rest) =
      some (chunks, name.length + 1 + list.length))
    (hraws : readParameters [] (parameterChunks chunks) = (raws, []))
    (hreturn : readReturn rest (name.length + 1 + list.length + 1) = .ok (returns, place)) :
    parse (name ++ '(' :: (list ++ ')' :: rest)) = .ok ⟨name, raws, returns, place⟩ := by
  have hafter : (name ++ '(' :: (list ++ ')' :: rest)).drop (name.length + 1 + list.length + 1) =
      rest := by
    have hlength : name.length + 1 + list.length + 1 = (name ++ '(' :: (list ++ [')'])).length := by
      simp only [List.length_append, List.length_cons, List.length_nil]
      omega
    have hsplit : name ++ '(' :: (list ++ ')' :: rest) =
        name ++ '(' :: (list ++ [')']) ++ rest := by simp
    rw [hlength, hsplit, List.drop_left]
  simp only [parse, takeWhile_name hname, List.drop_left, hchunks, hraws, hafter, hreturn,
    nameFaults_eq_nil hname, Text.trim_eq hname.starts hname.ends, List.append_nil, if_true]

/-- The text of a signature is read as a header that says what the signature does, the types being
texts. -/
theorem parse_chars_of_listable {s : Signature} (h : s.Listable) :
    ∃ header, parse s.chars = .ok header ∧ header.name = s.name.toList ∧
      List.Forall₂ Writes s.params header.params ∧
      header.returns = s.returns.map TypePhrase.chars := by
  obtain ⟨hname, hdistinct, hparams, hv, hl⟩ := h
  have hsource : s.chars = s.name.toList ++
      '(' :: ([',', ' '].intercalate (s.params.map Parameter.chars) ++
        ')' :: typeSuffix s.returns) := by
    simp [Signature.chars]
  obtain ⟨chunks, hchunks, hholds⟩ :=
    exists_chunks hparams (s.name.toList.length + 1) (typeSuffix s.returns)
  obtain ⟨raws, hraws, hwrites⟩ :=
    readParameters_of_holds hholds hparams hdistinct fun _ _ => List.not_mem_nil
  obtain ⟨place, hplace⟩ := readReturn_typeSuffix hv hl _
  exact ⟨⟨s.name.toList, raws, s.returns.map TypePhrase.chars, place⟩,
    by rw [hsource, parse_of_chunks hname hchunks hraws hplace], rfl, hwrites, rfl⟩

theorem parse_chars {s : Signature} (h : s.Declarable) :
    ∃ header, parse s.chars = .ok header ∧ header.name = s.name.toList ∧
      List.Forall₂ Writes s.params header.params ∧
      header.returns = s.returns.map TypePhrase.chars :=
  parse_chars_of_listable h.listable

/-! ## Types -/

theorem parseAt_chars {t : TypePhrase} (h : t.Declarable) (base : Int) :
    TypePhrase.parseAt base t.chars = .ok t := by
  obtain ⟨⟨hv, hp⟩, hc, -⟩ := h
  have hread : TypePhrase.readUnion (TypePhrase.alt TypePhrase.maxLevels)
      (TypePhrase.Token.scan t.chars ++ []) = .ok (t, []) :=
    TypePhrase.readUnion_of_spells hv hp (Nat.le_refl _) hc
      (TypePhrase.spells_scan (TypePhrase.legible_of_plain t hp)) TypePhrase.noWord_nil
      TypePhrase.noSuffix_nil TypePhrase.noOr_nil
  rw [List.append_nil] at hread
  have hparse : TypePhrase.parse t.chars = .ok t := TypePhrase.ofTokens_ok_iff.2 hread
  exact mapError_ok_iff.2 hparse

theorem readType?_map {t : Option TypePhrase} (h : ∀ u ∈ t, u.Declarable) (offset : Nat) :
    readType? (t.map TypePhrase.chars) offset = .ok t := by
  cases t with
  | none => rfl
  | some t => exact map_ok_iff.2 ⟨t, parseAt_chars (h t rfl) offset, rfl⟩

theorem Writes.read {p : Parameter} (hp : p.Declarable) {raw : RawParameter} (h : Writes p raw) :
    raw.read = .ok p := by
  obtain ⟨hname, hoptional, htype⟩ := h
  refine bind_ok_iff.2 ⟨p.type, by rw [htype, readType?_map hp.type], ?_⟩
  rw [hname, hoptional, String.ofList_toList]
  rfl

/-- **Headers are read back.** The text of a signature that can be declared in a header is read as a
header, and the signature that this declares is the one that was written. -/
theorem parse_render {s : Signature} (h : s.Declarable) :
    ∃ header, parse s.render.toList = .ok header ∧ header.signature = .ok s := by
  obtain ⟨header, hparse, hname, hparams, hreturns⟩ := parse_chars h
  have hread : List.Forall₂ (fun raw p => raw.read = .ok p) header.params s.params := by
    have hwrites := (List.forall₂_and_left _ _).2 ⟨h.params, hparams⟩
    exact (hwrites.imp fun p raw ⟨hp, hraw⟩ => hraw.read hp).flip
  refine ⟨header, by rw [Signature.render, String.toList_ofList, hparse], ?_⟩
  refine bind_ok_iff.2 ⟨s.params, mapM_ok_iff.2 hread, ?_⟩
  refine bind_ok_iff.2 ⟨s.returns, by rw [hreturns, readType?_map h.returns], ?_⟩
  rw [hname, String.ofList_toList]
  rfl

/-- A record whose first field is a slot with a comma in it. -/
def pointRecord : TypePhrase :=
  .record [("[[x, y]]", .list (.union [.named "a Number", .named "undefined"])),
    ("size", .named "an integer")]

theorem pointRecord_declarable : pointRecord.Declarable where
  canonical.valid := by
    simp [pointRecord, TypePhrase.Valid, TypePhrase.ValidFields, TypePhrase.ValidAll,
      TypePhrase.isUnion]
    decide
  canonical.plain := by
    have hinner : "x, y".toList.all (!TypePhrase.Token.isBracket ·) = true := by decide
    have hslot : TypePhrase.IsPlainField "[[x, y]]" := by
      refine .inr ⟨"x, y".toList, by decide, fun c hc => ?_, by decide⟩
      simpa using List.all_eq_true.1 hinner c hc
    have hsize : TypePhrase.IsPlainField "size" := .inl (by decide)
    have hnumber : TypePhrase.IsPlainName "a Number" := ⟨by decide, by decide, by decide, by decide⟩
    have hundefined : TypePhrase.IsPlainName "undefined" :=
      ⟨by decide, by decide, by decide, by decide⟩
    have hinteger : TypePhrase.IsPlainName "an integer" :=
      ⟨by decide, by decide, by decide, by decide⟩
    exact ⟨hslot, ⟨hnumber, hundefined, trivial⟩, hsize, hinteger, trivial⟩
  cost_le := by decide
  undelimited := ⟨by decide, ⟨trivial, trivial, trivial⟩, by decide, trivial, trivial⟩

/-- An operation with parameters that are called `optional` and `x_`. -/
def arrayFrom : Signature :=
  ⟨"Array.from", [⟨"optional", none, true⟩, ⟨"x_", some pointRecord, false⟩], some pointRecord⟩

/-- A parameter may be called `optional`, a name may end in an underscore, and a type may hold
commas. -/
theorem parse_render_arrayFrom : arrayFrom.Declarable ∧
    ∃ header, parse arrayFrom.render.toList = .ok header ∧ header.signature = .ok arrayFrom := by
  have hname : IsOperationName "Array.from".toList := by
    refine ⟨?_, ?_, by simp⟩
    · exact ⟨'A', "rray.from".toList, by decide, by decide⟩
    · exact ⟨"Array.fro".toList, 'm', by decide, by decide⟩
  have hoptional : IsParameterName "optional".toList :=
    ⟨'o', "ptional".toList, by decide, by decide, List.all_eq_true.1 (by decide)⟩
  have hunderscore : IsParameterName "x_".toList :=
    ⟨'x', ['_'], by decide, by decide, List.all_eq_true.1 (by decide)⟩
  have hrecord : ∀ t ∈ some pointRecord, t.Declarable := by
    rintro _ ⟨⟩
    exact pointRecord_declarable
  have hparams : ∀ p ∈ arrayFrom.params, p.Declarable := by
    simp only [arrayFrom, List.forall_mem_cons]
    exact ⟨⟨hoptional, by simp⟩, ⟨hunderscore, hrecord⟩, by simp⟩
  have h : arrayFrom.Declarable := ⟨hname, by decide, hparams, hrecord⟩
  exact ⟨h, parse_render h⟩

end Header

end Concordance
