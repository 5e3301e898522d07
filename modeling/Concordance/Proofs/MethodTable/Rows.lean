import Concordance.MethodTable
import Mathlib.Data.List.TakeWhile

/-!
# Reading the rows of a table

The table element of a table is the first of its elements that has not been generated
(`fromTable?_eq_some_iff`).

A row of a table of methods is read in five ways, and `Reading` has one constructor for each: it has
too few cells, all that shows in its first cell is deleted, what is found there can be no header,
the header is malformed, or it declares a method. Only the last of them changes the row.

Where the header of a cell is depends on its children from the first that shows something on
(`headerPlace?_eq`): it is nowhere exactly if this child is a deletion and so is every element after
it (`headerPlace?_eq_none_iff`), and otherwise it is the cell or an element in it
(`headerPlace?_cases`).
-/

namespace Concordance

open Node

/-! ## Walks over siblings -/

namespace Node

theorem traverseWhile_node (p : Node → Bool) (ns : List Node) :
    traverseWhile .node p ns = ns.dropWhile p := by
  cases ns with
  | nil => rfl
  | cons n ns =>
    rw [traverseWhile, List.dropWhile_cons]

theorem traverseWhile_element {p : Node → Bool} {n : Node} (h : n.isElement = true)
    (ns : List Node) :
    traverseWhile .element p (n :: ns) = (n :: ns).dropWhile fun m => !m.isElement || p m := by
  rw [traverseWhile, List.dropWhile_cons, h]
  rfl

/-- A walk over elements from the first one on passes over all nodes that are no elements or meet
the condition. -/
theorem traverseWhile_fromFirstElement (p : Node → Bool) (ns : List Node) :
    traverseWhile .element p (fromFirstElement ns) = ns.dropWhile fun n => !n.isElement || p n := by
  induction ns with
  | nil => rfl
  | cons n ns ih =>
    cases h : n.isElement with
    | true =>
      rw [fromFirstElement, List.dropWhile_cons_of_neg (by simp [h]), traverseWhile_element h]
    | false =>
      rw [fromFirstElement, List.dropWhile_cons_of_pos (by simp [h]),
        List.dropWhile_cons_of_pos (by simp [h])]
      exact ih

theorem isElement_of_isNamed {n : Node} {name : String} (h : n.isNamed name = true) :
    n.isElement = true := by
  cases n with
  | text kind value => cases h
  | element tag cs rs => rfl

theorem modify_length_append (before : List Node) (n : Node) (after : List Node)
    (f : Node → Node) :
    (before ++ n :: after).modify before.length f = before ++ f n :: after := by
  induction before with
  | nil => rfl
  | cons b before ih => rw [List.cons_append, List.length_cons, List.modify_succ_cons, ih]; rfl

end Node

namespace MethodTable

/-! ## The table element -/

/-- The table element is the first child that is neither text nor generated. -/
theorem fromTable?_eq_some_iff {n table : Node} {rest : List Node} :
    fromTable? n = some (table, rest) ↔ ∃ before, n.children = before ++ table :: rest ∧
      (∀ m ∈ before, m.isElement = true → isGenerated m = true) ∧
        table.isNamed "table" = true := by
  rw [fromTable?, traverseWhile_fromFirstElement]
  constructor
  · intro h
    split at h
    · next m ms hfound =>
      split at h
      · next hname =>
        obtain ⟨rfl, rfl⟩ := Prod.mk.inj (Option.some.inj h)
        refine ⟨n.children.takeWhile fun m => !m.isElement || isGenerated m, ?_, ?_, hname⟩
        · rw [← hfound, List.takeWhile_append_dropWhile]
        · intro m hm helement
          simpa [helement] using List.mem_takeWhile_imp hm
      · cases h
    · cases h
  · rintro ⟨before, hchildren, hbefore, hname⟩
    have htable : isGenerated table = false := by
      cases table with
      | text kind value => cases hname
      | element tag cs rs => simp [isGenerated, isNamed, of_decide_eq_true hname]
    rw [hchildren, List.dropWhile_append_of_pos fun m hm => ?_, List.dropWhile_cons_of_neg ?_]
    · exact if_pos hname
    · simp [htable, isElement_of_isNamed hname]
    · cases helement : m.isElement with
      | false => rfl
      | true => exact hbefore m hm helement

/-! ## The header of a cell -/

/-- A node that a search for a header passes over after a deletion. -/
def isPassed (n : Node) : Bool := !n.isElement || isDeletion n

/-- Where the header is, given the children of a cell from the first that shows something on and the
number of all children. -/
def placeFrom? (count : Nat) : List Node → Option Place
  | [] => some .cell
  | first :: rest =>
    if isDeletion first then
      match (first :: rest).dropWhile isPassed with
      | [] => none
      | found => some (.child (count - found.length))
    else if first.isNamed "ins" then some (.child (count - (rest.length + 1)))
    else some .cell

theorem headerPlace?_eq (cell : Node) : headerPlace? cell =
    placeFrom? cell.children.length (cell.children.dropWhile isEmpty) := by
  rw [headerPlace?, traverseWhile_node]
  cases cell.children.dropWhile isEmpty with
  | nil => rfl
  | cons first rest =>
    by_cases hdel : isDeletion first = true
    · have helement := isElement_of_isNamed hdel
      simp only [placeFrom?, hdel, if_true, traverseWhile_element helement]
      rfl
    · simp only [placeFrom?, hdel]
      rfl

/-- A cell in which all that is marked up is deleted: its first child that shows something is a
deletion, and every element after it is one. -/
def Struck (cell : Node) : Prop :=
  ∃ before first after, cell.children = before ++ first :: after ∧
    (∀ n ∈ before, n.isEmpty = true) ∧ first.isEmpty = false ∧ isDeletion first = true ∧
    ∀ n ∈ after, n.isElement = true → isDeletion n = true

/-- What the children of a cell are, up to the first that shows something. -/
theorem exists_of_dropWhile_isEmpty {ns : List Node} {first : Node} {rest : List Node}
    (h : ns.dropWhile isEmpty = first :: rest) : ∃ before, ns = before ++ first :: rest ∧
      (∀ n ∈ before, n.isEmpty = true) ∧ first.isEmpty = false := by
  refine ⟨ns.takeWhile isEmpty, ?_, List.all_eq_true.1 List.all_takeWhile, ?_⟩
  · rw [← h, List.takeWhile_append_dropWhile]
  · have hfirst := List.head?_dropWhile_not isEmpty ns
    rw [h, List.head?_cons] at hfirst
    simpa using hfirst

theorem isPassed_iff {n : Node} :
    isPassed n = true ↔ (n.isElement = true → isDeletion n = true) := by
  cases h : n.isElement <;> simp [isPassed, h]

/-- All places where the header of a cell can be. -/
theorem headerPlace?_cases (cell : Node) :
    headerPlace? cell = some .cell ∨
      (∃ before header after, cell.children = before ++ header :: after ∧
        header.isElement = true ∧ headerPlace? cell = some (.child before.length)) ∨
      (headerPlace? cell = none ∧ Struck cell) := by
  rw [headerPlace?_eq]
  cases hlive : cell.children.dropWhile isEmpty with
  | nil => exact .inl rfl
  | cons first rest =>
    obtain ⟨before, hchildren, hbefore, hfirst⟩ := exists_of_dropWhile_isEmpty hlive
    rw [placeFrom?]
    by_cases hdel : isDeletion first = true
    · rw [if_pos hdel]
      cases hfound : (first :: rest).dropWhile isPassed with
      | nil =>
        refine .inr (.inr ⟨rfl, before, first, rest, hchildren, hbefore, hfirst, hdel, ?_⟩)
        intro n hn
        exact isPassed_iff.1
          (List.dropWhile_eq_nil_iff.1 hfound n (List.mem_cons_of_mem first hn))
      | cons header after =>
        obtain ⟨passed, hpassed⟩ := List.dropWhile_suffix isPassed (l := first :: rest)
        rw [hfound] at hpassed
        have hheader := List.head?_dropWhile_not isPassed (first :: rest)
        rw [hfound, List.head?_cons] at hheader
        have helement : header.isElement = true := by
          by_contra h
          simp [isPassed, h] at hheader
        rw [← hpassed, ← List.append_assoc] at hchildren
        refine .inr (.inl ⟨before ++ passed, header, after, hchildren, helement, ?_⟩)
        rw [hchildren]
        simp only [List.length_append, List.length_cons, Nat.add_sub_cancel]
    · rw [if_neg hdel]
      split
      · next hins =>
        refine .inr (.inl ⟨before, first, rest, hchildren, isElement_of_isNamed hins, ?_⟩)
        simp [hchildren]
      · exact .inl rfl

/-- The header is nowhere exactly in a cell in which all that is marked up is deleted. -/
theorem headerPlace?_eq_none_iff {cell : Node} : headerPlace? cell = none ↔ Struck cell := by
  constructor
  · intro h
    rcases headerPlace?_cases cell with hcell | ⟨_, _, _, _, _, hchild⟩ | ⟨-, hstruck⟩
    · rw [h] at hcell
      cases hcell
    · rw [h] at hchild
      cases hchild
    · exact hstruck
  · rintro ⟨before, first, after, hchildren, hbefore, hfirst, hdel, hafter⟩
    have hpassed : (first :: after).dropWhile isPassed = [] :=
      List.dropWhile_eq_nil_iff.2
        (List.forall_mem_cons.2
          ⟨isPassed_iff.2 fun _ => hdel, fun n hn => isPassed_iff.2 (hafter n hn)⟩)
    rw [headerPlace?_eq, hchildren, List.dropWhile_append_of_pos hbefore,
      List.dropWhile_cons_of_neg (by simp [hfirst]), placeFrom?, if_pos hdel, hpassed]

theorem Place.node_child {cell header : Node} {before after : List Node}
    (h : cell.children = before ++ header :: after) :
    Place.node (.child before.length) cell = header := by
  simp [Place.node, h]

/-! ## The ways to read a row -/

/-- Whether a node can be the header of a row. -/
def isHeader (n : Node) : Bool := n.isNamed "td" || n.isNamed "ins"

/-- The row that is made of one that declares a method with its header at a place. -/
def declaredRow (several : Bool) (tr cell : Node) (place : Place) (s : Signature) : Row where
  node := typesetRow place s ((place.node cell).isNamed "ins") tr
  method := some ⟨s.name, s, tr.tag.filled? "id"⟩
  diagnostics := if several && (tr.tag.filled? "id").isNone then [noRowId tr] else []

/-- All that can become of a row that is read. -/
inductive Reading (several : Bool) (tr : Node) : Row → Prop where
  | tooFew : tr.elements.length < 2 → Reading several tr (unchanged tr [tooFewCells tr])
  | struck {cell second : Node} {rest : List Node} : tr.elements = cell :: second :: rest →
      headerPlace? cell = none → Reading several tr (unchanged tr [])
  | noHeader {cell second : Node} {rest : List Node} {place : Place} :
      tr.elements = cell :: second :: rest → headerPlace? cell = some place →
      isHeader (place.node cell) = false →
      Reading several tr (unchanged tr [MethodTable.noHeader (place.node cell)])
  | malformed {cell second : Node} {rest : List Node} {place : Place} {ds : List Diagnostic} :
      tr.elements = cell :: second :: rest → headerPlace? cell = some place →
      isHeader (place.node cell) = true → (place.node cell).declaration = .error ds →
      Reading several tr (unchanged tr ds)
  | declared {cell second : Node} {rest : List Node} {place : Place} {s : Signature} :
      tr.elements = cell :: second :: rest → headerPlace? cell = some place →
      isHeader (place.node cell) = true → (place.node cell).declaration = .ok s →
      Reading several tr (declaredRow several tr cell place s)

theorem reading (several : Bool) (tr : Node) : Reading several tr (readRow several tr) := by
  unfold readRow
  split
  · next cell second rest hcells =>
    split
    · next hplace => exact .struck hcells hplace
    · next place hplace =>
      have hnames : (!(place.node cell).isNamed "td" && !(place.node cell).isNamed "ins") =
          !isHeader (place.node cell) := (Bool.not_or ..).symm
      rw [readHeader, hnames]
      cases hheader : isHeader (place.node cell) with
      | false => exact .noHeader hcells hplace hheader
      | true =>
        cases hread : (place.node cell).declaration with
        | error ds => exact .malformed hcells hplace hheader hread
        | ok s => exact .declared hcells hplace hheader hread
  · next hcells =>
    refine .tooFew ?_
    rcases h : tr.elements with _ | ⟨cell, _ | ⟨second, rest⟩⟩
    · simp
    · simp
    · exact absurd h (hcells cell second rest)

end MethodTable

end Concordance
