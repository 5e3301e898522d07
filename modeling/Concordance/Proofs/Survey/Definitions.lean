import Concordance.Proofs.Numbering.Run
import Concordance.Proofs.Survey.Registration
import Concordance.Proofs.Text.Trim

/-!
# Definitions of concrete methods

A clause of the type of a concrete method defines a method: `definitions` lists what the clauses of
a document define, with their numbers and the types that they are for. In what a survey registers
these are the concrete methods, one for each definition and in the same order
(`forall₂_defines`), each beside the entry of its clause (`exists_clause`).

The number of a clause has no blanks in it, and the type does not end in one (`Legible`); so a
listing that puts both together and trims the text writes the label of the definition
(`Legible.trimString_eq`).
-/

namespace Concordance

open Node

/-- A concrete method as a clause defines it. -/
structure Definition where
  scope : String
  name : String
  /-- The id of the clause. -/
  id : String
  /-- The number of the clause. -/
  number : String
  /-- The type that the method is for. -/
  forType? : Option String

namespace Definition

/-- The label of a definition: the number of its clause, and the type that it is for, if any. -/
def label (d : Definition) : String :=
  match d.forType? with
  | some type => d.number ++ " " ++ type
  | none => d.number

end Definition

/-- The concrete method that a clause with a number defines, if it has an id and declares one. -/
def Clause.definition? (scope : String) (around : List Tag) (number : String) (f : Front) :
    Option Definition :=
  if f.tag.filled? "type" = some concreteMethod then
    (f.tag.filled? "id").bind fun id => f.declared?.map fun s =>
      ⟨scopeIn scope (f.tag :: around), s.name, id, number, f.forType?⟩
  else none

/-- What the clauses among sites define, from a state of the numbering on. -/
def definitions (scope : String) : Numbering → List Site → List Definition
  | _, [] => []
  | s, .clause around f :: sites =>
    match s.next around.length (Clause.kindOf f.tag) with
    | .ok (s, number) =>
      (Clause.definition? scope around number f).toList ++ definitions scope s sites
    | .error _ => definitions scope s sites
  | s, .table _ _ _ :: sites => definitions scope s sites
  | s, .listing _ _ :: sites => definitions scope s sites

/-! ## The entries of definitions -/

/-- An operation is the entry of a definition. -/
structure Defines (o : OperationEntry) (d : Definition) : Prop where
  scope_eq : o.scope = d.scope
  aoid_eq : o.aoid = d.name
  id_eq : o.id = .null
  refId_eq : o.refId = .string d.id
  forType_eq : o.forType = .ofOption d.forType?

theorem Defines.anchor_eq {o : OperationEntry} {d : Definition} (h : Defines o d) :
    o.anchor = .string d.id := by
  rw [OperationEntry.anchor, h.id_eq, h.refId_eq]
  rfl

/-- The concrete methods among entries. -/
def Entry.concretes (es : List Entry) : List OperationEntry :=
  (Entry.operations es).filter (·.kind = concreteMethod)

theorem Entry.concretes_append (es es' : List Entry) :
    concretes (es ++ es') = concretes es ++ concretes es' := by
  rw [concretes, operations_append, List.filter_append]
  rfl

theorem Clause.forall₂_defines (scope : String) (around : List Tag) (number : String) (f : Front) :
    List.Forall₂ Defines (Entry.concretes (entriesOf scope around number f))
      (definition? scope around number f).toList := by
  unfold entriesOf definition?
  cases hid : f.tag.filled? "id" with
  | none => simp [Entry.concretes, Entry.operations]
  | some id =>
    cases hdeclared : f.declared? with
    | none => simp [Entry.concretes, Entry.operations, Entry.operation?]
    | some s =>
      have hkind : (f.operation (scopeIn scope (f.tag :: around)) id s).kind = concreteMethod ↔
          f.tag.filled? "type" = some concreteMethod := by
        rw [Front.operation]
        cases f.tag.filled? "type" with
        | none => simp [concreteMethod]
        | some type => simp
      by_cases htype : f.tag.filled? "type" = some concreteMethod
      · simpa [Entry.concretes, Entry.operations, Entry.operation?, htype, hkind] using
          ⟨rfl, rfl, rfl, rfl, rfl⟩
      · simp [Entry.concretes, Entry.operations, Entry.operation?, htype, hkind]

/-- The concrete methods are among the entries that listings depend on. -/
theorem Entry.concretes_taken (es : List Entry) : concretes (taken true es) = concretes es := by
  rw [concretes, concretes, operations, operations, List.filter_filterMap, List.filter_filterMap,
    taken, if_pos rfl, List.filterMap_filter]
  refine List.filterMap_congr fun e _ => ?_
  cases e with
  | clause c => rfl
  | table t => rfl
  | operation o =>
    by_cases h : o.kind = concreteMethod <;> simp [isListed, operation?, Option.filter, h]

theorem Entry.clause_mem_taken_iff {es : List Entry} {c : ClauseEntry} :
    .clause c ∈ taken true es ↔ .clause c ∈ es :=
  List.mem_filter.trans (and_iff_left rfl)

theorem MethodTable.concretes_entriesOf (scope : String) (number : Nat) (tag : Tag)
    (methods : Option (String × List Node)) :
    Entry.concretes (entriesOf scope number tag methods) = [] := by
  rw [← Entry.concretes_taken, taken_entriesOf]
  rfl

/-- The concrete methods that sites call for are those that their clauses define. -/
theorem forall₂_defines (scope : String) (s : Numbering) (k : Nat) (sites : List Site) :
    List.Forall₂ Defines (Entry.concretes (registrations scope s k sites))
      (definitions scope s sites) := by
  induction sites generalizing s k with
  | nil => exact .nil
  | cons site sites ih =>
    cases site with
    | clause around f =>
      rw [registrations, definitions]
      cases s.next around.length (Clause.kindOf f.tag) with
      | error e => exact ih s k
      | ok r =>
        dsimp only
        rw [Entry.concretes_append]
        exact List.rel_append (Clause.forall₂_defines scope around r.2 f) (ih r.1 k)
    | table around tag methods =>
      rw [registrations, definitions, Entry.concretes_append, MethodTable.concretes_entriesOf]
      exact ih s (k + 1)
    | listing around tag => exact ih s k

/-! ## Labels of definitions -/

namespace Numbering

theorem isBlank_of_mem_decimal {n : Int} (h : 0 ≤ n) {c : Char} (hc : c ∈ decimal n) :
    Text.isBlank c = false :=
  Text.isBlank_of_isAlphanum (Bool.or_eq_true_iff.2 (.inr (isDigit_of_mem_decimal h hc)))

theorem front_ne_nil {inAnnex : Bool} {n : Int} (h : 1 ≤ n) : front inAnnex n ≠ [] := by
  cases inAnnex with
  | true => exact letters_ne_nil (by omega)
  | false =>
    rw [front, if_neg (by simp), decimal_of_nonneg (by omega)]
    exact Nat.toDigits_ne_nil

theorem isBlank_of_mem_front {inAnnex : Bool} {n : Int} (h : 1 ≤ n) {c : Char}
    (hc : c ∈ front inAnnex n) : Text.isBlank c = false := by
  cases inAnnex with
  | true =>
    have halpha : c.isAlpha = true :=
      Bool.or_eq_true_iff.2 (.inl (isUpper_of_mem_letters (n := n.toNat) hc))
    exact Text.isBlank_of_isAlphanum (Bool.or_eq_true_iff.2 (.inl halpha))
  | false => exact isBlank_of_mem_decimal (by omega) hc

/-- A number starts and ends with a letter or a digit. -/
theorem starts_and_ends_of_next {s t : Numbering} (hs : s.Positive) {depth : Int}
    {kind : ClauseKind} {number : String} (h : s.next depth kind = .ok (t, number)) :
    t.Positive ∧ Text.Starts number.toList ∧ Text.Ends number.toList := by
  obtain ⟨t', hadvance, h⟩ := bind_ok_iff.1 h
  obtain ⟨cs, htext, h⟩ := bind_ok_iff.1 h
  obtain ⟨rfl, rfl⟩ := Prod.mk.inj (Except.ok.inj h)
  obtain ⟨hpos, hne⟩ := hs.advance hadvance
  obtain ⟨_ | ⟨top, rest⟩, inAnnex⟩ := t'
  · exact absurd rfl hne
  obtain ⟨htop, hrest⟩ := List.forall_mem_cons.1 hpos
  rw [text_eq htop, Except.ok.injEq] at htext
  subst htext
  rw [String.toList_ofList]
  have hsolid : ∀ c ∈ front inAnnex top ++ rest.flatMap part, Text.isBlank c = false := by
    refine List.forall_mem_append.2 ⟨fun c hc => isBlank_of_mem_front htop hc, fun c hc => ?_⟩
    obtain ⟨n, hn, hc⟩ := List.mem_flatMap.1 hc
    rcases List.mem_cons.1 hc with rfl | hc
    · decide
    · exact isBlank_of_mem_decimal (by have := hrest n hn; omega) hc
  have hne : front inAnnex top ++ rest.flatMap part ≠ [] :=
    List.append_ne_nil_of_left_ne_nil (front_ne_nil htop) _
  exact ⟨hpos, Text.starts_of_forall hne hsolid, Text.ends_of_forall hne hsolid⟩

end Numbering

/-- The type that a list of terms gives is the text of one of its descriptions. -/
theorem Clause.exists_of_forTypeIn {term : Bool} {value : Option String} {ns : List Node}
    {type : String} (h : forTypeIn term value ns = some type) :
    value = some type ∨ ∃ n ∈ ns, n.labelText = type := by
  induction ns generalizing term value with
  | nil => exact .inl h
  | cons n ns ih =>
    rw [forTypeIn] at h
    split at h
    · rcases ih h with h | ⟨m, hm, h⟩
      · exact .inl h
      · exact .inr ⟨m, List.mem_cons_of_mem n hm, h⟩
    · split at h
      · rcases ih h with h | ⟨m, hm, h⟩
        · exact .inr ⟨n, List.mem_cons_self, Option.some.inj h⟩
        · exact .inr ⟨m, List.mem_cons_of_mem n hm, h⟩
      · rcases ih h with h | ⟨m, hm, h⟩
        · exact .inl h
        · exact .inr ⟨m, List.mem_cons_of_mem n hm, h⟩

theorem Node.ends_labelText {n : Node} (h : n.labelText ≠ "") : Text.Ends n.labelText.toList := by
  rw [labelText, String.toList_ofList]
  refine Text.ends_intercalate (fun hnil => h ?_) fun cs hcs => ?_
  · rw [labelText, hnil]
    rfl
  · obtain ⟨hcs, hne⟩ := List.mem_filter.1 hcs
    obtain ⟨ds, -, rfl⟩ := List.mem_map.1 hcs
    exact Text.ends_trim (by simpa using hne)

namespace Definition

/-- The parts of a definition that a label is made of: a number and perhaps a type, the number with
no blank at its ends, and the type with none at its end. -/
structure Legible (d : Definition) : Prop where
  id_ne : d.id ≠ ""
  starts : Text.Starts d.number.toList
  ends : Text.Ends d.number.toList
  forType_ends : ∀ type ∈ d.forType?, Text.Ends type.toList

theorem Legible.starts_label {d : Definition} (h : d.Legible) : Text.Starts d.label.toList := by
  rw [label]
  split
  · rw [String.toList_append, String.toList_append]
    exact (h.starts.append _).append _
  · exact h.starts

/-- A listing writes the label of a definition. -/
theorem Legible.trimString_eq {d : Definition} (h : d.Legible) :
    Text.trimString (d.number ++ " " ++ Listing.setText (.ofOption d.forType?)) = d.label := by
  rw [Text.trimString, label]
  cases htype : d.forType? with
  | none =>
    have hset : Listing.setText (.ofOption none) = "" := rfl
    rw [hset, String.append_empty, String.toList_append, Text.trim,
      (h.starts.append _).trimLeft, show " ".toList = [' '] from rfl, h.ends.trimRight_space,
      String.ofList_toList]
  | some type =>
    have hends := h.forType_ends type htype
    have hset : Listing.setText (.ofOption (some type)) = type := by
      have hne : type ≠ "" := by
        rintro rfl
        obtain ⟨ds, c, hcs, -⟩ := hends
        simp at hcs
      rw [Listing.setText, Json.ofOption, if_pos (Json.isSet_string.2 hne)]
      rfl
    rw [hset, String.toList_append, String.toList_append, List.append_assoc,
      Text.trim_eq (h.starts.append _) ((hends.append _).append _), ← List.append_assoc,
      ← String.toList_append, ← String.toList_append, String.ofList_toList]

end Definition

/-! ## The clauses of definitions -/

/-- What a clause with a number defines is legible, and it stands beside the entry of the clause. -/
theorem Clause.legible_of_definition? {scope number : String} {around : List Tag} {f : Front}
    {d : Definition} (hstarts : Text.Starts number.toList)
    (hends : Text.Ends number.toList) (h : definition? scope around number f = some d) :
    d.Legible ∧ ∃ c : ClauseEntry, .clause c ∈ entriesOf scope around number f ∧ c.id = d.id ∧
      c.number = d.number := by
  unfold definition? at h
  split at h
  · obtain ⟨id, hid, h⟩ := Option.bind_eq_some_iff.1 h
    obtain ⟨s, -, rfl⟩ := Option.map_eq_some_iff.1 h
    refine ⟨⟨Tag.filled?_ne_empty hid, hstarts, hends,
      fun type htype => ?_⟩, ?_⟩
    · obtain ⟨hbind, hne⟩ := Option.filter_eq_some_iff.1 (htype : f.forType? = some type)
      obtain ⟨dl, -, hin⟩ := Option.bind_eq_some_iff.1 hbind
      rcases exists_of_forTypeIn hin with hnone | ⟨n, -, rfl⟩
      · cases hnone
      · exact n.ends_labelText (by simpa using hne)
    · unfold entriesOf
      rw [hid]
      exact ⟨_, List.mem_append_right _ (List.mem_singleton.2 rfl), rfl, rfl⟩
  · cases h

/-- Beside what a clause defines stands the entry of the clause itself. -/
theorem exists_clause {scope : String} {s : Numbering} (hs : s.Positive) (k : Nat)
    {sites : List Site} {d : Definition} (hd : d ∈ definitions scope s sites) :
    d.Legible ∧ ∃ c : ClauseEntry, .clause c ∈ registrations scope s k sites ∧ c.id = d.id ∧
      c.number = d.number := by
  induction sites generalizing s k with
  | nil => cases hd
  | cons site sites ih =>
    cases site with
    | clause around f =>
      rw [definitions] at hd
      rw [registrations]
      cases hnext : s.next around.length (Clause.kindOf f.tag) with
      | error e =>
        rw [hnext] at hd
        exact ih hs k hd
      | ok r =>
        obtain ⟨t, number⟩ := r
        obtain ⟨ht, hstarts, hends⟩ := Numbering.starts_and_ends_of_next hs hnext
        rw [hnext] at hd
        rcases List.mem_append.1 hd with hd | hd
        · obtain ⟨hlegible, c, hc, hcd⟩ :=
            Clause.legible_of_definition? hstarts hends (Option.mem_toList.1 hd)
          exact ⟨hlegible, c, List.mem_append_left _ hc, hcd⟩
        · obtain ⟨hlegible, c, hc, hcd⟩ := ih ht k hd
          exact ⟨hlegible, c, List.mem_append_right _ hc, hcd⟩
    | table around tag methods =>
      obtain ⟨hlegible, c, hc, hcd⟩ := ih hs (k + 1) hd
      exact ⟨hlegible, c, List.mem_append_right _ hc, hcd⟩
    | listing around tag => exact ih hs k hd

end Concordance
