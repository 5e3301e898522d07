import Concordance.Proofs.Index.Actions
import Concordance.Proofs.MethodTable.Struck
import Concordance.Proofs.Survey.Documents

/-!
# Tables with their transclusions written out

The text that is transcluded into an element stands in an attribute, and `Node.inlined` writes it
out: each outermost element with the attribute loses it and gets its value for its only contents.
This does not change the text that a header reads as (`Node.headerChars_inlined`), but it can change
where the header is: whether an element is passed over as empty depends on its own text and not on
the one that is transcluded into it.

Where the search for the header ends in the same place, a row declares the same method and is
reported for the same rules when its transclusions are written out (`alike_readRow`), and so is a
table with all its rows (`ofNode_inlineTable`). The search does end there in a cell that is not
transcluded itself and has no child that is filled or emptied (`headerPlace?_inlined`). It does not
where an insertion has a transcluded text and none of its own (`inlineTable_transcludedInsertion`).
-/

namespace Concordance

/-- The tag without an attribute. -/
def Tag.erase (t : Tag) (name : String) : Tag :=
  { t with attrs := t.attrs.filter fun a => !(a.1 == name) }

theorem Tag.get?_erase (t : Tag) (name : String) : (t.erase name).get? name = none := by
  rw [get?, erase, Option.map_eq_none_iff, List.find?_eq_none]
  intro a ha
  simpa using (List.mem_filter.1 ha).2

namespace Node

/-! ## Writing transclusions out -/

mutual
/-- The tree with its outermost transclusions written out. -/
def inlined : Node → Node
  | .text kind value => .text kind value
  | .element tag children removed =>
    match tag.get? transcludeAttr with
    | some value => .element (tag.erase transcludeAttr) [.plain value] removed
    | none => .element tag (allInlined children) removed

/-- Trees with their outermost transclusions written out. -/
def allInlined : List Node → List Node
  | [] => []
  | n :: ns => n.inlined :: allInlined ns
end

theorem allInlined_eq_map (ns : List Node) : allInlined ns = ns.map inlined := by
  induction ns with
  | nil => rfl
  | cons n ns ih => rw [allInlined, List.map_cons, ih]

theorem inlined_of_none {tag : Tag} (h : tag.get? transcludeAttr = none) (cs rs : List Node) :
    (element tag cs rs).inlined = .element tag (cs.map inlined) rs := by
  rw [inlined, h, ← allInlined_eq_map]

theorem inlined_of_some {tag : Tag} {value : String} (h : tag.get? transcludeAttr = some value)
    (cs rs : List Node) :
    (element tag cs rs).inlined = .element (tag.erase transcludeAttr) [.plain value] rs := by
  rw [inlined, h]

@[simp] theorem isNamed_inlined (n : Node) (name : String) :
    n.inlined.isNamed name = n.isNamed name := by
  cases n with
  | text kind value => rfl
  | element tag cs rs => cases h : tag.get? transcludeAttr <;> simp [inlined, h, isNamed, Tag.erase]

@[simp] theorem isElement_inlined (n : Node) : n.inlined.isElement = n.isElement := by
  cases n with
  | text kind value => rfl
  | element tag cs rs => cases h : tag.get? transcludeAttr <;> simp [inlined, h, isElement]

mutual
/-- A header reads as the same text when its transclusions are written out. -/
theorem headerChars_inlined (n : Node) : n.inlined.headerChars = n.headerChars := by
  match n with
  | .text kind value => rfl
  | .element tag cs rs =>
    cases h : tag.get? transcludeAttr with
    | some value =>
      rw [inlined_of_some h, headerChars, headerChars, Tag.get?_erase, h]
      exact List.append_nil _
    | none =>
      rw [inlined, h, headerChars, headerChars, h]
      exact allHeaderChars_inlined cs

theorem allHeaderChars_inlined (ns : List Node) :
    allHeaderChars (allInlined ns) = allHeaderChars ns := by
  match ns with
  | [] => rfl
  | n :: ns =>
    rw [allInlined, allHeaderChars, allHeaderChars, headerChars_inlined, allHeaderChars_inlined]
end

/-- An element declares the same signature with its transclusions written out, or is reported for
the same rules. -/
theorem declaration_inlined (n : Node) :
    (∃ s, n.declaration = .ok s ∧ n.inlined.declaration = .ok s) ∨
      ∃ ds ds', n.declaration = .error ds ∧ n.inlined.declaration = .error ds' ∧
        ds'.map (·.rule) = ds.map (·.rule) := by
  have hsource : n.inlined.headerSource = n.headerSource :=
    congrArg Text.trim (headerChars_inlined n)
  unfold declaration
  dsimp only
  rw [hsource]
  cases Header.parse n.headerSource with
  | error faults =>
    refine .inr ⟨_, _, rfl, rfl, ?_⟩
    rw [List.map_map, List.map_map]
    rfl
  | ok header =>
    cases hs : header.signature with
    | error f =>
      exact .inr ⟨[n.typeReport n.headerSource f], [n.inlined.typeReport n.headerSource f],
        by simp only [hs], by simp only [hs], rfl⟩
    | ok s => exact .inl ⟨s, by simp only [hs], by simp only [hs]⟩

end Node

open Node

namespace MethodTable

/-! ## The place of a header -/

@[simp] theorem isDeletion_inlined (n : Node) : isDeletion n.inlined = isDeletion n :=
  isNamed_inlined n "del"

@[simp] theorem isPassed_inlined (n : Node) : isPassed n.inlined = isPassed n := by
  simp [isPassed]

theorem dropWhile_congr {p q : Node → Bool} {ns : List Node} (h : ∀ n ∈ ns, p n = q n) :
    ns.dropWhile p = ns.dropWhile q := by
  induction ns with
  | nil => rfl
  | cons n ns ih =>
    obtain ⟨hn, hns⟩ := List.forall_mem_cons.1 h
    rw [List.dropWhile_cons, List.dropWhile_cons, hn, ih hns]

theorem placeFrom?_map_inlined (count : Nat) (ns : List Node) :
    placeFrom? count (ns.map inlined) = placeFrom? count ns := by
  cases ns with
  | nil => rfl
  | cons first rest =>
    have hpassed : isPassed ∘ inlined = isPassed := funext isPassed_inlined
    have hdrop : (first.inlined :: rest.map inlined).dropWhile isPassed =
        ((first :: rest).dropWhile isPassed).map inlined := by
      rw [← List.map_cons, List.dropWhile_map, hpassed]
    rw [List.map_cons, placeFrom?, placeFrom?, hdrop, isDeletion_inlined, isNamed_inlined,
      List.length_map]
    cases (first :: rest).dropWhile isPassed with
    | nil => rfl
    | cons header after => simp

/-- In a cell that is not transcluded itself, the header is looked for after the children that are
empty once they are written out. -/
theorem headerPlace?_of_none {cell : Node} (h : cell.tag.get? transcludeAttr = none) :
    headerPlace? cell.inlined =
      placeFrom? cell.children.length (cell.children.dropWhile fun n => n.inlined.isEmpty) := by
  cases cell with
  | text kind value => rfl
  | element tag cs rs =>
    have htag : tag.get? transcludeAttr = none := h
    rw [inlined_of_none htag, headerPlace?_eq, children, children, List.dropWhile_map,
      List.length_map, placeFrom?_map_inlined]
    rfl

/-- So writing transclusions out does not move the header if it neither fills nor empties a child
of the cell. -/
theorem headerPlace?_inlined {cell : Node} (h : cell.tag.get? transcludeAttr = none)
    (hempty : ∀ n ∈ cell.children, n.inlined.isEmpty = n.isEmpty) :
    headerPlace? cell.inlined = headerPlace? cell := by
  have hdrop : (cell.children.dropWhile fun n => n.inlined.isEmpty) =
      cell.children.dropWhile isEmpty := dropWhile_congr hempty
  rw [headerPlace?_of_none h, hdrop, headerPlace?_eq]

/-- A cell that is transcluded itself is its own header once it is written out. -/
theorem headerPlace?_of_some {tag : Tag} {value : String}
    (h : tag.get? transcludeAttr = some value) (cs rs : List Node) :
    headerPlace? (element tag cs rs).inlined = some .cell := by
  rw [inlined_of_some h, headerPlace?_eq, children, List.dropWhile_cons]
  split <;> rfl

/-- The header in the same place is the header with its transclusions written out. -/
theorem node_inlined {cell : Node} {place : Place} (h : headerPlace? cell = some place)
    (h' : headerPlace? cell.inlined = some place) :
    place.node cell.inlined = (place.node cell).inlined := by
  cases place with
  | cell => rfl
  | child i =>
    cases cell with
    | text kind value => cases h
    | element tag cs rs =>
      cases hmark : tag.get? transcludeAttr with
      | some value =>
        -- written out, the cell has only a text in it, and the header is no child of it
        rw [headerPlace?_of_some hmark] at h'
        cases h'
      | none =>
        rcases headerPlace?_cases (.element tag cs rs) with
          hcell | ⟨before, header, after, hchildren, -, hchild⟩ | ⟨hnone, -⟩
        · rw [h] at hcell
          cases hcell
        · obtain rfl : cs = before ++ header :: after := hchildren
          rw [h] at hchild
          obtain rfl := Place.child.inj (Option.some.inj hchild)
          simp [Place.node, inlined_of_none hmark, children]
        · rw [h] at hnone
          cases hnone

/-! ## Rows -/

/-- The row with the transclusions in its cells written out. -/
def inlineRow (tr : Node) : Node := tr.withChildren (tr.children.map inlined)

/-- The header of a row is looked for in the same place when the transclusions in its first cell are
written out. -/
def HeaderStays (tr : Node) : Prop :=
  ∀ cell second rest, tr.elements = cell :: second :: rest →
    headerPlace? cell.inlined = headerPlace? cell

/-- Rows that declare the same and are reported for the same rules. -/
def Row.Alike (r r' : Row) : Prop :=
  r'.method = r.method ∧ r'.diagnostics.map (·.rule) = r.diagnostics.map (·.rule)

theorem elements_inlineRow (tr : Node) : (inlineRow tr).elements = tr.elements.map inlined := by
  cases tr with
  | text kind value => rfl
  | element tag cs rs =>
    have h : isElement ∘ inlined = isElement := funext isElement_inlined
    rw [elements, elements, inlineRow, withChildren, children, children, List.filter_map, h]

theorem tag_inlineRow (tr : Node) : (inlineRow tr).tag = tr.tag := by
  cases tr <;> rfl

theorem alike_readHeader (several : Bool) (tr : Node) {cell cell' : Node} {place : Place}
    (h : place.node cell' = (place.node cell).inlined) :
    (readHeader several tr cell place).Alike (readHeader several (inlineRow tr) cell' place) := by
  unfold readHeader
  dsimp only
  rw [h, isNamed_inlined, isNamed_inlined, tag_inlineRow]
  split
  · exact ⟨rfl, rfl⟩
  · rcases (place.node cell).declaration_inlined with ⟨s, hs, hs'⟩ | ⟨ds, ds', hds, hds', hrules⟩
    · rw [hs, hs']
      refine ⟨rfl, ?_⟩
      dsimp only
      split <;> rfl
    · rw [hds, hds']
      exact ⟨rfl, hrules⟩

/-- A row declares the same and is reported for the same rules when its transclusions are written
out, if its header stays where it is. -/
theorem alike_readRow (several : Bool) {tr : Node} (h : HeaderStays tr) :
    (readRow several tr).Alike (readRow several (inlineRow tr)) := by
  unfold readRow
  rw [elements_inlineRow]
  rcases hcells : tr.elements with _ | ⟨cell, _ | ⟨second, rest⟩⟩
  · exact ⟨rfl, rfl⟩
  · exact ⟨rfl, rfl⟩
  · have hstays := h cell second rest hcells
    simp only [List.map_cons, hstays]
    cases hplace : headerPlace? cell with
    | none => exact ⟨rfl, rfl⟩
    | some place =>
      exact alike_readHeader several tr (node_inlined hplace (hstays.trans hplace))

/-! ## Tables -/

/-- The rows among nodes with the transclusions in their cells written out. -/
def inlineRows (ns : List Node) : List Node := ns.map fun n => if isRow n then inlineRow n else n

/-- The body with the transclusions in its rows written out. -/
def inlineBody (b : Node) : Node := b.withChildren (inlineRows b.children)

/-- The table element with the transclusions in its rows written out. -/
def inlineElement (table : Node) : Node := modifyBody inlineBody table

/-- The table with the transclusions in its rows written out. -/
def inlineTable (n : Node) : Node :=
  match fromTable? n with
  | some (_, rest) =>
    n.withChildren (n.children.modify (n.children.length - (rest.length + 1)) inlineElement)
  | none => n

section Body

variable {name : String}

theorem firstNamedIn?_eq_none_iff {ns : List Node} : firstNamedIn? name ns = none ↔
    ∀ n ∈ ns, n.isNamed name = false ∧ firstNamed? name n = none := by
  induction ns with
  | nil => exact iff_of_true rfl (List.forall_mem_nil _)
  | cons n ns ih =>
    rw [firstNamedIn?, List.forall_mem_cons, ← ih]
    cases n.isNamed name with
    | true => simp
    | false => simp [Option.or_eq_none_iff]

mutual
/-- Where there is no element of a name, writing transclusions out brings none. -/
theorem firstNamed?_inlined {n : Node} (h : firstNamed? name n = none) :
    firstNamed? name n.inlined = none := by
  match n with
  | .text kind value => rfl
  | .element tag cs rs =>
    cases hmark : tag.get? transcludeAttr with
    | some value =>
      rw [inlined_of_some hmark]
      rfl
    | none =>
      rw [inlined, hmark]
      exact firstNamedIn?_inlined h

theorem firstNamedIn?_inlined {ns : List Node} (h : firstNamedIn? name ns = none) :
    firstNamedIn? name (allInlined ns) = none := by
  match ns with
  | [] => rfl
  | n :: ns =>
    obtain ⟨⟨hname, hn⟩, hns⟩ := List.forall_mem_cons.1 (firstNamedIn?_eq_none_iff.1 h)
    rw [allInlined, firstNamedIn?, isNamed_inlined, hname, firstNamed?_inlined hn,
      firstNamedIn?_inlined (firstNamedIn?_eq_none_iff.2 hns)]
    rfl
end

@[simp] theorem isNamed_modifyFirst (f : Node → Node) (n : Node) (other : String) :
    (modifyFirst name f n).isNamed other = n.isNamed other := by
  cases n <;> rfl

mutual
/-- The first element of a name, after a change made at it that keeps the name. -/
theorem firstNamed?_modifyFirst {f : Node → Node} {n b : Node} (hf : (f b).isNamed name = true)
    (h : firstNamed? name n = some b) : firstNamed? name (modifyFirst name f n) = some (f b) := by
  match n with
  | .text kind value => cases h
  | .element tag cs rs => exact firstNamedIn?_modifyFirstIn hf h

theorem firstNamedIn?_modifyFirstIn {f : Node → Node} {ns : List Node} {b : Node}
    (hf : (f b).isNamed name = true) (h : firstNamedIn? name ns = some b) :
    firstNamedIn? name (modifyFirstIn name f ns) = some (f b) := by
  match ns with
  | [] => cases h
  | n :: ns =>
    rw [firstNamedIn?] at h
    by_cases hname : n.isNamed name = true
    · rw [if_pos hname] at h
      obtain rfl := Option.some.inj h
      rw [modifyFirstIn, if_pos hname, firstNamedIn?, if_pos hf]
    · rw [if_neg hname] at h
      cases hfirst : firstNamed? name n with
      | some b' =>
        rw [hfirst, Option.some_or] at h
        rw [modifyFirstIn, if_neg hname, if_pos (by rw [hfirst]; rfl), firstNamedIn?,
          isNamed_modifyFirst, if_neg hname, firstNamed?_modifyFirst hf (hfirst.trans h),
          Option.some_or]
      | none =>
        rw [hfirst, Option.none_or] at h
        rw [modifyFirstIn, if_neg hname, if_neg (by rw [hfirst]; simp), firstNamedIn?, if_neg hname,
          hfirst, Option.none_or, firstNamedIn?_modifyFirstIn hf h]
end

end Body

theorem isNamed_withChildren (n : Node) (cs : List Node) (name : String) :
    (n.withChildren cs).isNamed name = n.isNamed name := by
  cases n <;> rfl

theorem children_inlineBody (b : Node) : (inlineBody b).children = inlineRows b.children := by
  cases b <;> rfl

theorem filter_isRow_inlineRows (ns : List Node) :
    (inlineRows ns).filter isRow = (ns.filter isRow).map inlineRow := by
  have hrow : isRow ∘ (fun n => if isRow n then inlineRow n else n) = isRow := by
    funext n
    rw [Function.comp_apply]
    split
    · exact isNamed_withChildren ..
    · rfl
  rw [inlineRows, List.filter_map, hrow]
  exact List.map_congr_left fun n hn => if_pos (List.mem_filter.1 hn).2

/-- Writing transclusions out in rows brings no element of a name where there was none. -/
theorem firstNamedIn?_inlineRows {name : String} {ns : List Node}
    (h : firstNamedIn? name ns = none) : firstNamedIn? name (inlineRows ns) = none := by
  refine firstNamedIn?_eq_none_iff.2 (List.forall_mem_map.2 fun n hn => ?_)
  obtain ⟨hname, hfirst⟩ := firstNamedIn?_eq_none_iff.1 h n hn
  split
  · refine ⟨(isNamed_withChildren ..).trans hname, ?_⟩
    cases n with
    | text kind value => rfl
    | element tag cs rs =>
      have hcs := firstNamedIn?_inlined hfirst
      rw [allInlined_eq_map] at hcs
      exact hcs
  · exact ⟨hname, hfirst⟩

/-- The body of a table element with the transclusions in its rows written out. -/
theorem body_inlineElement (table : Node) :
    body (inlineElement table) = inlineBody (body table) := by
  unfold inlineElement modifyBody
  cases h : firstNamed? "tbody" table with
  | none =>
    have hbody : body table = table := by rw [body, h]; rfl
    -- the table is its own body only as long as no other one turns up in it
    have hnone : firstNamed? "tbody" (inlineBody table) = none := by
      cases table with
      | text kind value => rfl
      | element tag cs rs => exact firstNamedIn?_inlineRows h
    rw [if_neg (by simp), hbody, body, hnone, Option.getD_none]
  | some b =>
    have hbody : body table = b := by rw [body, h]; rfl
    have hname : (inlineBody b).isNamed "tbody" = true :=
      (isNamed_withChildren ..).trans (mem_inside_of_firstNamed? h).2
    rw [if_pos (by rfl), hbody, body, firstNamed?_modifyFirst hname h, Option.getD_some]

theorem rows_inlineElement (table : Node) :
    rows (inlineElement table) = (rows table).map inlineRow := by
  rw [rows, body_inlineElement, children_inlineBody]
  exact filter_isRow_inlineRows _

theorem isNamed_inlineElement (table : Node) (name : String) :
    (inlineElement table).isNamed name = table.isNamed name := by
  unfold inlineElement modifyBody
  split
  · exact isNamed_modifyFirst ..
  · exact isNamed_withChildren ..

theorem exists_inlineTable_eq (n : Node) : ∃ cs, inlineTable n = n.withChildren cs := by
  unfold inlineTable
  split
  · exact ⟨_, rfl⟩
  · refine ⟨n.children, ?_⟩
    cases n <;> rfl

theorem tag_withChildren (n : Node) (cs : List Node) : (n.withChildren cs).tag = n.tag := by
  cases n <;> rfl

theorem tag_inlineTable (n : Node) : (inlineTable n).tag = n.tag := by
  obtain ⟨cs, h⟩ := exists_inlineTable_eq n
  rw [h, tag_withChildren]

theorem tag_captioned_element (owner : String) (tag : Tag) (cs rs : List Node) :
    (captioned owner (.element tag cs rs)).tag =
      if (tag.filled? "caption").isSome then tag else tag.set "caption" (captionOf owner) :=
  apply_ite Node.tag _ _ _

theorem tag_captioned_inlineTable (owner : String) (n : Node) :
    (captioned owner (inlineTable n)).tag = (captioned owner n).tag := by
  obtain ⟨cs, h⟩ := exists_inlineTable_eq n
  rw [h]
  cases n with
  | text kind value => rfl
  | element tag _ rs => rw [withChildren, tag_captioned_element, tag_captioned_element]

/-- Writing transclusions out leaves the table element where it is. -/
theorem fromTable?_inlineTable (n : Node) : fromTable? (inlineTable n) =
    (fromTable? n).map fun found => (inlineElement found.1, found.2) := by
  cases h : fromTable? n with
  | none => simp [inlineTable, h]
  | some found =>
    obtain ⟨table, rest⟩ := found
    obtain ⟨before, hchildren, hbefore, hname⟩ := fromTable?_eq_some_iff.1 h
    cases n with
    | text kind value => simp [children] at hchildren
    | element tag cs rs =>
      obtain rfl : cs = before ++ table :: rest := hchildren
      have hindex : (before ++ table :: rest).length - (rest.length + 1) = before.length := by simp
      have hinline : inlineTable (.element tag (before ++ table :: rest) rs) =
          .element tag (before ++ inlineElement table :: rest) rs := by
        rw [inlineTable, h]
        dsimp only [children, withChildren]
        rw [hindex, modify_length_append]
      rw [hinline]
      exact fromTable?_eq_some_iff.2
        ⟨before, rfl, hbefore, (isNamed_inlineElement ..).trans hname⟩

/-- Tables that declare the same and are reported for the same rules. -/
def Classified.Alike (c c' : Classified) : Prop :=
  c'.node.tag = c.node.tag ∧ c'.methods = c.methods ∧
    c'.diagnostics.map (·.rule) = c.diagnostics.map (·.rule)

theorem alike_classifyMethods {n table : Node} {after : Nat} {type owner : String}
    (h : ∀ tr ∈ rows table, HeaderStays tr) :
    (classifyMethods n table after type owner).Alike
      (classifyMethods (inlineTable n) (inlineElement table) after type owner) := by
  have hread : readRows (inlineElement table) =
      (rows table).map fun tr => readRow (1 < (rows table).length) (inlineRow tr) := by
    rw [readRows, rows_inlineElement, List.length_map, List.map_map]
    rfl
  have hrows : ∀ tr ∈ rows table, (readRow (1 < (rows table).length) tr).Alike
      (readRow (1 < (rows table).length) (inlineRow tr)) := fun tr htr => alike_readRow _ (h tr htr)
  refine ⟨?_, ?_, ?_⟩
  · have htag := tag_captioned_inlineTable owner n
    unfold classifyMethods
    dsimp only
    rw [tag_withChildren, tag_withChildren, htag]
  · unfold classifyMethods
    dsimp only
    rw [hread, readRows, List.filterMap_map, List.filterMap_map]
    exact List.filterMap_congr fun tr htr => (hrows tr htr).1
  · unfold classifyMethods
    dsimp only
    rw [hread, readRows, List.flatMap_map, List.flatMap_map, List.map_flatMap, List.map_flatMap]
    exact List.flatMap_congr fun tr htr => (hrows tr htr).2

/-- A table declares the same and is reported for the same rules when its transclusions are written
out, if the headers of its rows stay where they are. -/
theorem alike_classify {n : Node}
    (h : ∀ owner trs, methods? n = some (owner, trs) → ∀ tr ∈ trs, HeaderStays tr) :
    (classify n).Alike (classify (inlineTable n)) := by
  unfold classify
  dsimp only
  rw [tag_inlineTable, fromTable?_inlineTable]
  cases htype : n.tag.filled? "type" with
  | none => exact ⟨tag_inlineTable n, by cases fromTable? n <;> rfl, rfl⟩
  | some type =>
    by_cases hmethods : type ≠ methodsType
    · simp only [if_pos hmethods]
      exact ⟨tag_inlineTable n, rfl, rfl⟩
    · simp only [if_neg hmethods]
      cases hfound : fromTable? n with
      | none => exact ⟨tag_inlineTable n, rfl, rfl⟩
      | some found =>
        cases hof : n.tag.filled? "of" with
        | none => exact ⟨tag_inlineTable n, rfl, rfl⟩
        | some owner =>
          refine alike_classifyMethods (h owner _ ?_)
          rw [not_not] at hmethods
          rw [methods?, wellFormed?, if_pos (hmethods ▸ htype), hfound, hof]
          rfl

end MethodTable

/-- Outcomes with the same index and fault, and with reports for the same rules. -/
def Outcome.Alike (out out' : Outcome) : Prop :=
  out'.index = out.index ∧ out'.fault = out.fault ∧
    out'.diagnostics.map (·.rule) = out.diagnostics.map (·.rule)

namespace MethodTable

/-- Writing the transclusions of a table out changes neither the methods that it declares nor the
rules that it is reported for nor what is done to an index, if the header of each of its rows stays
where it is. -/
theorem ofNode_inlineTable {n : Node}
    (h : ∀ owner trs, methods? n = some (owner, trs) → ∀ tr ∈ trs, HeaderStays tr)
    (scope : String) (number : Int) :
    (ofNode (inlineTable n) scope number).1.methods = (ofNode n scope number).1.methods ∧
      ∀ ix, (Action.perform ix (ofNode n scope number).2.2).Alike
        (Action.perform ix (ofNode (inlineTable n) scope number).2.2) := by
  obtain ⟨htag, hmethods, hrules⟩ := alike_classify h
  refine ⟨hmethods, fun ix => ?_⟩
  unfold ofNode
  dsimp only
  rw [htag, hmethods, List.append_assoc, List.append_assoc, Action.perform_report_append,
    Action.perform_report_append]
  refine ⟨rfl, rfl, ?_⟩
  rw [List.map_append, List.map_append, hrules]

/-- A header that has been transcluded into an element with a text of its own. -/
def transcludedHeader : List Node :=
  [.new "span" [(transcludeAttr, "F(): a Number")] [.plain "see elsewhere"]]

theorem ofNode_transcludedHeader :
    methods? (sampleTable transcludedHeader) = some ("X", [sampleRow transcludedHeader]) ∧
      HeaderStays (sampleRow transcludedHeader) ∧
      (ofNode (inlineTable (sampleTable transcludedHeader)) "ns" 1).1.methods =
        (ofNode (sampleTable transcludedHeader) "ns" 1).1.methods ∧
      (ofNode (sampleTable transcludedHeader) "ns" 1).1.methods.map (·.name) = ["F"] := by
  have htable :
      methods? (sampleTable transcludedHeader) = some ("X", [sampleRow transcludedHeader]) := rfl
  have hstays : HeaderStays (sampleRow transcludedHeader) := by
    intro cell second rest hcells
    obtain ⟨rfl, -⟩ : .new "td" [] transcludedHeader = cell ∧ _ := List.cons.inj hcells
    exact headerPlace?_inlined rfl (by decide +kernel)
  refine ⟨htable, hstays, (ofNode_inlineTable ?_ "ns" 1).1, by decide +kernel⟩
  intro owner trs hmethods tr htr
  obtain ⟨-, rfl⟩ := Prod.mk.inj (Option.some.inj (htable.symm.trans hmethods))
  obtain rfl := List.mem_singleton.1 htr
  exact hstays

/-- A header that has been transcluded into an insertion without a text of its own. -/
def transcludedInsertion : List Node :=
  [.new "ins" [(transcludeAttr, "F()")] [], .new "del" [] [.plain "Old()"]]

/-- An insertion with nothing but a transcluded text is passed over as empty: the row declares
nothing and nothing is reported of it, and it declares a method once the text is written out. -/
theorem inlineTable_transcludedInsertion :
    (ofNode (sampleTable transcludedInsertion) "ns" 1).1.methods = [] ∧
      Action.reports (ofNode (sampleTable transcludedInsertion) "ns" 1).2.2 = [] ∧
      (ofNode (inlineTable (sampleTable transcludedInsertion)) "ns" 1).1.methods.map (·.name) =
        ["F"] := by
  refine ⟨rfl, rfl, ?_⟩
  decide +kernel

end MethodTable

end Concordance
