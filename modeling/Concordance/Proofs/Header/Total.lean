import Concordance.Proofs.Header.Pieces
import Concordance.Proofs.TypePhrase.Checked
import Mathlib.Data.List.Nodup

/-!
# Every text is read or refused

A text is read as a header or refused with at least one fault, and the types of a header are read or
the first that is no type is reported. Nothing else can happen: with the checks of all constructors
made, that of the signature included, no check ever fails, and a signature that is read has a name,
parameters with different names, and types that are valid at every depth.

The main statement is `parse_total`.
-/

namespace Concordance

namespace Header

/-! ## Reading types with checks -/

/-- What stops the reading of the types of a header: a text that is no type, a part of a type with a
defect, or a signature with a defect. -/
inductive Stop where
  | type (fault : TypePhrase.Fault)
  | phrase (defect : TypePhrase.Defect)
  | signature (defect : Signature.Defect)
  deriving DecidableEq, Repr

namespace Checked

/-- The type that a text writes which starts at an offset of a larger text. -/
def parseAt (base : Int) (text : List Char) : Except Stop TypePhrase :=
  (TypePhrase.Checked.parse text).mapError fun
    | .misparse m => .type ⟨m, base + m.offset text.length⟩
    | .defect d => .phrase d

/-- The type that a piece of a header writes, where there is one. -/
def readType? (text : Option (List Char)) (offset : Nat) : Except Stop (Option TypePhrase) :=
  match text with
  | none => .ok none
  | some text => (parseAt offset text).map some

/-- A parameter with its type read. -/
def read (p : RawParameter) : Except Stop Parameter := do
  return ⟨String.ofList p.name, ← readType? p.type p.typeOffset, p.optional⟩

/-- The signature that a header declares, with the check of its constructor. -/
def signature (h : Header) : Except Stop Signature := do
  let params ← h.params.mapM read
  let returns ← readType? h.returns h.returnOffset
  (Signature.make? (String.ofList h.name) params returns).mapError .signature

open TypePhrase.Checked (bind_eq_mapError)

theorem parseAt_eq (base : Int) (text : List Char) :
    parseAt base text = (TypePhrase.parseAt base text).mapError .type := by
  rw [parseAt, TypePhrase.parseAt, TypePhrase.Checked.parse_eq]
  cases TypePhrase.parse text <;> rfl

theorem readType?_eq (text : Option (List Char)) (offset : Nat) :
    readType? text offset = (Header.readType? text offset).mapError .type := by
  cases text with
  | none => rfl
  | some text =>
    rw [readType?, Header.readType?, parseAt_eq]
    cases TypePhrase.parseAt offset text <;> rfl

theorem read_eq (p : RawParameter) : read p = p.read.mapError .type :=
  bind_eq_mapError (readType?_eq p.type p.typeOffset) fun _ _ => rfl

theorem mapM_read (ps : List RawParameter) :
    ps.mapM read = (ps.mapM RawParameter.read).mapError .type := by
  induction ps with
  | nil => rfl
  | cons p ps ih =>
    rw [List.mapM_cons, List.mapM_cons]
    exact bind_eq_mapError (read_eq p) fun _ _ => bind_eq_mapError ih fun _ _ => rfl

/-- **No check fails while the types of a header are read.** -/
theorem signature_eq {h : Header} (hname : h.name ≠ []) :
    signature h = h.signature.mapError .type := by
  have hfilled : String.ofList h.name ≠ "" := by
    rw [Ne, ← String.toList_inj, String.toList_ofList]
    exact hname
  refine bind_eq_mapError (mapM_read h.params) fun params _ => ?_
  refine bind_eq_mapError (readType?_eq h.returns h.returnOffset) fun returns _ => ?_
  rw [Signature.make?, if_neg hfilled]
  rfl

end Checked

/-! ## What is read is valid -/

theorem parse_of_readType? {text : Option (List Char)} {offset : Nat} {t : Option TypePhrase}
    (h : readType? text offset = .ok t) : ∀ u ∈ t, ∃ w ∈ text, TypePhrase.parse w = .ok u := by
  cases text with
  | none =>
    obtain rfl := Except.ok.inj h
    simp
  | some w =>
    obtain ⟨u, hu, rfl⟩ := map_ok_iff.1 h
    rintro _ ⟨⟩
    exact ⟨w, rfl, mapError_ok_iff.1 hu⟩

theorem valid_of_readType? {text : Option (List Char)} {offset : Nat} {t : Option TypePhrase}
    (h : readType? text offset = .ok t) : ∀ u ∈ t, u.Valid := by
  intro u hu
  obtain ⟨w, -, hw⟩ := parse_of_readType? h u hu
  exact TypePhrase.valid_of_parse hw

theorem read_ok_iff {raw : RawParameter} {p : Parameter} : raw.read = .ok p ↔
    p.name = String.ofList raw.name ∧ p.optional = raw.optional ∧
      readType? raw.type raw.typeOffset = .ok p.type := by
  rw [RawParameter.read, bind_ok_iff]
  constructor
  · rintro ⟨t, ht, h⟩
    obtain rfl := Except.ok.inj h
    exact ⟨rfl, rfl, ht⟩
  · rintro ⟨hname, hoptional, ht⟩
    exact ⟨p.type, ht, by rw [← hname, ← hoptional]; rfl⟩

theorem signature_ok_iff {h : Header} {s : Signature} : h.signature = .ok s ↔
    s.name = String.ofList h.name ∧
      List.Forall₂ (fun raw p => raw.read = .ok p) h.params s.params ∧
      readType? h.returns h.returnOffset = .ok s.returns := by
  simp only [signature, bind_ok_iff, mapM_ok_iff]
  constructor
  · rintro ⟨params, hparams, returns, hreturns, heq⟩
    obtain rfl := Except.ok.inj heq
    exact ⟨rfl, hparams, hreturns⟩
  · rintro ⟨hname, hparams, hreturns⟩
    exact ⟨s.params, hparams, s.returns, hreturns, by rw [← hname]; rfl⟩

/-- The parameters of a signature are called what those of its header are. -/
theorem names_of_forall₂ {raws : List RawParameter} {ps : List Parameter}
    (h : List.Forall₂ (fun raw p => raw.read = .ok p) raws ps) :
    ps.map Parameter.name = (raws.map RawParameter.name).map String.ofList := by
  induction h with
  | nil => rfl
  | cons hp _ ih => rw [List.map_cons, List.map_cons, List.map_cons, ih, (read_ok_iff.1 hp).1]

theorem valid_of_signature {h : Header} {s : Signature} (hname : h.name ≠ [])
    (hs : h.signature = .ok s) : s.Valid := by
  obtain ⟨heq, hparams, hreturns⟩ := signature_ok_iff.1 hs
  refine ⟨?_, ?_, valid_of_readType? hreturns⟩
  · rw [heq, Ne, ← String.toList_inj, String.toList_ofList]
    exact hname
  · exact forall_of_mapM (fun _ _ _ hp => valid_of_readType? (read_ok_iff.1 hp).2.2)
      (mapM_ok_iff.2 hparams)

/-! ## What a header that is read is like -/

theorem nodup_readParameters (seen : List (List Char)) (chunks : List Chunk) :
    ((readParameters seen chunks).1.map RawParameter.name).Nodup ∧
      ∀ p ∈ (readParameters seen chunks).1, p.name ∉ seen := by
  induction chunks generalizing seen with
  | nil => exact ⟨List.nodup_nil, fun _ hp => absurd hp List.not_mem_nil⟩
  | cons chunk chunks ih =>
    rw [readParameters_first]
    split
    · exact ih seen
    · next p _ =>
      split
      · exact ih seen
      · next hfresh =>
        obtain ⟨hd, hnew⟩ := ih (p.name :: seen)
        refine ⟨List.nodup_cons.2 ⟨fun hmem => ?_, hd⟩, List.forall_mem_cons.2 ⟨hfresh, ?_⟩⟩
        · obtain ⟨q, hq, heq⟩ := List.mem_map.1 hmem
          exact hnew q hq (heq ▸ List.mem_cons_self)
        · exact fun q hq hmem => hnew q hq (List.mem_cons_of_mem _ hmem)

/-- A text that is not read as a header has a fault. -/
theorem ne_nil_of_parse {source : List Char} {faults : List Fault}
    (h : parse source = .error faults) : faults ≠ [] := by
  unfold parse at h
  dsimp only at h
  split at h
  · cases h
    simp
  split at h
  · cases h
    simp
  split at h
  · cases h
    simp
  split at h
  · cases h
  · next hsome =>
    cases h
    exact hsome

/-- What was made sure of when a header is read: its name is what stands before the list, without a
fault; the type of the result stands after the list; and the pieces of the list have no fault and
write the parameters. -/
theorem parse_ok {source : List Char} {h : Header} (hparse : parse source = .ok h) :
    h.name = Text.trim (source.takeWhile (· ≠ '(')) ∧
      (∃ lead opening, nameFaults h.name lead opening = []) ∧
      ∃ chunks close, list? source = some (chunks, close) ∧
        readReturn (source.drop (close + 1)) (close + 1) = .ok (h.returns, h.returnOffset) ∧
        (readParameters [] (parameterChunks chunks)).2 = [] ∧
        h.params = (readParameters [] (parameterChunks chunks)).1 := by
  cases hlist : list? source with
  | none =>
    rcases parse_of_list?_none hlist with ⟨-, herror⟩ | ⟨-, herror⟩
    · rw [herror] at hparse
      cases hparse
    · rw [herror] at hparse
      cases hparse
  | some r =>
    obtain ⟨chunks, close⟩ := r
    rw [parse_of_list? hlist] at hparse
    split at hparse
    · cases hparse
    · next hreturn =>
      split at hparse
      · next hnone =>
        cases hparse
        obtain ⟨hname, hfaults⟩ := List.append_eq_nil_iff.1 hnone
        exact ⟨rfl, ⟨_, _, hname⟩, chunks, close, rfl, hreturn, hfaults, rfl⟩
      · cases hparse

theorem ne_nil_of_nameFaults {name : List Char} {lead opening : Nat}
    (h : nameFaults name lead opening = []) : name ≠ [] := by
  rintro rfl
  cases h

/-- **Every text is read or refused.** A text is refused as a header with at least one fault, or it
is read; then either one of its types is no type, which is reported, or the header declares a valid
signature with different names for its parameters. The checks of all constructors, made along the
way, change nothing. -/
theorem parse_total (source : List Char) :
    (∃ faults, parse source = .error faults ∧ faults ≠ []) ∨
      ∃ h, parse source = .ok h ∧
        ((∃ fault, h.signature = .error fault ∧ Checked.signature h = .error (.type fault)) ∨
          ∃ s, h.signature = .ok s ∧ Checked.signature h = .ok s ∧ s.Valid ∧
            (s.params.map Parameter.name).Nodup) := by
  cases hparse : parse source with
  | error faults => exact .inl ⟨faults, rfl, ne_nil_of_parse hparse⟩
  | ok h =>
    obtain ⟨-, ⟨_, _, hfaults⟩, _, _, _, _, -, hparams⟩ := parse_ok hparse
    have hname := ne_nil_of_nameFaults hfaults
    refine .inr ⟨h, rfl, ?_⟩
    rw [Checked.signature_eq hname]
    cases hs : h.signature with
    | error fault => exact .inl ⟨fault, rfl, rfl⟩
    | ok s =>
      refine .inr ⟨s, rfl, rfl, valid_of_signature hname hs, ?_⟩
      rw [names_of_forall₂ (signature_ok_iff.1 hs).2.1, hparams]
      exact (nodup_readParameters [] _).1.map fun _ _ heq => String.ofList_injective heq

-- a header that is read with all its types: no check fails on the way
example : (parse "F(a: A or B, optional b): C[]".toList).toOption.map (fun h =>
      (h.signature.toOption, (Checked.signature h).toOption)) =
    let s : Signature :=
      ⟨"F", [⟨"a", some (.union [.named "A", .named "B"]), false⟩, ⟨"b", none, true⟩],
        some (.list (.named "C"))⟩
    some (some s, some s) := by
  decide +kernel

end Header

end Concordance
