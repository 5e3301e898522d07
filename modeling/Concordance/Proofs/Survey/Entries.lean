import Concordance.Proofs.MethodTable.Rows
import Concordance.Proofs.Survey.Sites
import Mathlib.Data.List.Basic

/-!
# What clauses and tables call for

The entries that a clause or a table calls for can be read off the element as it was written:
`Clause.entriesOf` and `MethodTable.entriesOf` say which they are, and `registrations` lists those
of all sites of a document, one site after another.

What a survey does with an element comes down to them: `Clause.additions_ofNode` and
`MethodTable.additions_ofNode` say that the actions of an element add these entries and no others,
however its headers are typeset on the way.
-/

namespace Concordance

open Node

/-! ## What sites call for -/

/-- The signature that the text of an element reads as. -/
def Node.signature? (n : Node) : Option Signature :=
  (Header.parse n.headerSource).toOption.bind fun h => h.signature.toOption

/-- The namespace inside elements, innermost first: the first that names one counts. -/
def scopeIn (scope : String) (around : List Tag) : String :=
  (around.findSome? (·.filled? "namespace")).getD scope

namespace Clause

namespace Front

/-- The signature that a clause declares: it is of the type of an operation, and its heading reads
as one. -/
def declared? (f : Front) : Option Signature :=
  if (f.tag.filled? "type").any (operationTypes.contains ·) then f.heading?.bind Node.signature?
  else none

/-- The title of a clause: the name that it declares, or else the text of its heading. -/
def title (f : Front) : String :=
  match f.declared? with
  | some s => s.name
  | none => String.ofList (f.heading?.map Node.headerSource |>.getD [])

/-- The type that a clause says its operation is for. -/
def forType? (f : Front) : Option String :=
  (f.list?.bind fun dl => forTypeIn false none dl.elements).filter (· ≠ "")

/-- The operation that a clause with an id declares. -/
def operation (f : Front) (scope id : String) (s : Signature) : OperationEntry where
  aoid := s.name
  kind := (f.tag.filled? "type").getD ""
  scope := scope
  signature := some s
  effects := effects f.tag
  id := .null
  refId := .string id
  forType := .ofOption f.forType?

end Front

/-- The entries of a clause with a number: its operation and then the clause itself; none without
an id. -/
def entriesOf (scope : String) (around : List Tag) (number : String) (f : Front) : List Entry :=
  match f.tag.filled? "id" with
  | none => []
  | some id =>
    let scope := scopeIn scope (f.tag :: around)
    (f.declared?.map fun s => .operation (f.operation scope id s)).toList ++
      [.clause
        { id, number, title := f.title, scope
          parent := .ofOption (around.head?.bind (·.filled? "id")), refId := .null }]

end Clause

namespace MethodTable

/-- The signature that a row declares: it has two cells, and the header located in the first is a
cell or an insertion and reads as one. -/
def rowSignature? (tr : Node) : Option Signature :=
  match tr.elements with
  | cell :: _ :: _ =>
    (headerPlace? cell).bind fun place =>
      let header := place.node cell
      if header.isNamed "td" || header.isNamed "ins" then header.signature? else none
  | _ => none

/-- The entry of a row; a row without an id has none when its table has no id either. -/
def rowOperation? (scope : String) (tableId : Option String) (tr : Node) : Option Entry :=
  (rowSignature? tr).bind fun s =>
    let rowId := tr.tag.filled? "id"
    if rowId.isNone && tableId.isNone then none
    else some <| .operation
      { aoid := s.name, kind := abstractMethod, scope, signature := some s, effects := []
        id := .ofOption rowId, refId := .ofOption tableId, forType := .null }

/-- The caption of a table; a well-formed table of methods is never without one. -/
def captionText (tag : Tag) (methods : Option (String × List Node)) : String :=
  match tag.filled? "caption", methods with
  | none, some (owner, _) => captionOf owner
  | _, _ => (tag.get? "caption").getD ""

/-- The entries of a table with a number: the table, if it has an id, and then its methods, if it
is a well-formed table of methods. -/
def entriesOf (scope : String) (number : Nat) (tag : Tag) (methods : Option (String × List Node)) :
    List Entry :=
  let id? := tag.filled? "id"
  (id?.map fun id => .table ⟨id, number, captionText tag methods, scope, .null⟩).toList ++
    ((methods.map (·.2)).getD []).filterMap (rowOperation? scope id?)

end MethodTable

/-- The entries that sites call for, from a state of the numbering and a number of tables on. -/
def registrations (scope : String) : Numbering → Nat → List Site → List Entry
  | _, _, [] => []
  | s, k, .clause around f :: sites =>
    match s.next around.length (Clause.kindOf f.tag) with
    | .ok (s, number) => Clause.entriesOf scope around number f ++ registrations scope s k sites
    | .error _ => registrations scope s k sites
  | s, k, .table around tag methods :: sites =>
    MethodTable.entriesOf (scopeIn scope around) (k + 1) tag methods ++
      registrations scope s (k + 1) sites
  | s, k, .listing _ _ :: sites => registrations scope s k sites

/-! ## The entries of one element -/

theorem Tag.filled?_ne_empty {t : Tag} {name value : String} (h : t.filled? name = some value) :
    value ≠ "" := by
  obtain ⟨-, hne⟩ := Option.filter_eq_some_iff.1 h
  simpa using hne

namespace Action

theorem mem_additions_iff {as : List Action} {e : Entry} : e ∈ additions as ↔ .add e ∈ as := by
  rw [additions, List.mem_filterMap]
  constructor
  · rintro ⟨a, ha, heq⟩
    cases a with
    | add e' => exact Option.some.inj heq ▸ ha
    | report d => cases heq
    | halt f => cases heq
  · exact fun h => ⟨_, h, rfl⟩

@[simp] theorem additions_append (as bs : List Action) :
    additions (as ++ bs) = additions as ++ additions bs := List.filterMap_append

@[simp] theorem additions_report (ds : List Diagnostic) : additions (ds.map .report) = [] := by
  induction ds with
  | nil => rfl
  | cons d ds ih => exact ih

end Action

/-- A declaration is the signature that the text reads as, and otherwise there is none. -/
theorem Node.declaration_cases (n : Node) :
    (∃ s, n.declaration = .ok s ∧ n.signature? = some s) ∨
      ∃ ds, n.declaration = .error ds ∧ n.signature? = none := by
  unfold declaration signature?
  dsimp only
  cases Header.parse n.headerSource with
  | error fs => exact .inr ⟨_, rfl, rfl⟩
  | ok h =>
    cases hs : h.signature with
    | error f => exact .inr ⟨_, by simp only [hs]; rfl, by simp [Except.toOption, hs]⟩
    | ok s => exact .inl ⟨s, by simp only [hs], by simp [Except.toOption, hs]⟩

namespace Clause

/-- A clause declares an operation, or its declaration has no more than reports. -/
theorem declare_cases (c : Clause) (n : Node) (htype : c.type = n.tag.filled? "type") :
    (∃ s, (front n).declared? = some s ∧ c.declare n =
      ({ c with title := s.name, signature := some s }, modifyHeading (Node.typeset s) n,
        c.operationActions n s)) ∨
    ((front n).declared? = none ∧
      ∃ ds : List Diagnostic, c.declare n = (c, n, ds.map .report)) := by
  have hdeclared : (front n).declared? = if (n.tag.filled? "type").any (operationTypes.contains ·)
      then (heading? n).bind Node.signature? else none := rfl
  rw [hdeclared, declare, htype]
  by_cases hop : (n.tag.filled? "type").any (operationTypes.contains ·) = true
  · rw [if_pos hop, if_pos hop]
    cases hh : heading? n with
    | none => exact .inr ⟨rfl, [c.noHeading], rfl⟩
    | some h =>
      rcases h.declaration_cases with ⟨s, hd, hs⟩ | ⟨ds, hd, hs⟩
      · exact .inl ⟨s, hs, by simp only [hd]⟩
      · exact .inr ⟨hs, ds, by simp only [hd]⟩
  · rw [if_neg hop, if_neg hop]
    exact .inr ⟨rfl, [], rfl⟩

theorem additions_operationActions (c : Clause) (n : Node) (s : Signature) (htag : c.tag = n.tag)
    (htype : c.type = n.tag.filled? "type") :
    Action.additions (c.operationActions n s) = (n.tag.filled? "id").toList.map fun id =>
      .operation ((front n).operation c.scope id s) := by
  have hreport : Action.additions
      (if c.type = some concreteMethod ∧ forType? n = none then [.report c.noForType] else []) =
        [] := by split <;> rfl
  rw [operationActions, Action.additions_append, hreport, List.nil_append, Clause.id?, htag]
  cases n.tag.filled? "id" with
  | none => rfl
  | some id =>
    simp only [Action.additions, operationEntry, Front.operation, htag, htype]
    rfl

variable {around : List Clause} {chain : List Tag} {scope : String}

/-- The namespace of a clause is the one that it names, or else the one around it. -/
theorem scopeOf_eq {n : Node} (h : (around.head?.map (·.scope)).getD scope = scopeIn scope chain) :
    scopeOf n.tag around scope = scopeIn scope (n.tag :: chain) := by
  rw [scopeOf, h, scopeIn, scopeIn, List.findSome?_cons]
  cases n.tag.filled? "namespace" <;> rfl

/-- What a clause with a number calls for, and what is passed on to the elements in it. -/
theorem additions_ofNode (n : Node) (number : String)
    (hscope : (around.head?.map (·.scope)).getD scope = scopeIn scope chain)
    (hid : around.head?.bind (·.id?) = chain.head?.bind (·.filled? "id")) :
    Action.additions (ofNode n around number scope).2.2 =
        entriesOf scope chain number (front n) ∧
      (ofNode n around number scope).1.tag = n.tag ∧
      (ofNode n around number scope).1.scope = scopeIn scope (n.tag :: chain) := by
  have hscope' := scopeOf_eq (n := n) hscope
  unfold ofNode
  rcases declare_cases (undeclared n around number scope) n rfl with ⟨s, hs, h⟩ | ⟨hs, ds, h⟩
  · rw [h]
    refine ⟨?_, rfl, hscope'⟩
    have htitle : (front n).title = s.name := by rw [Front.title, hs]
    dsimp only
    rw [Action.additions_append, additions_operationActions _ n s rfl rfl, entriesOf,
      clauseActions, Clause.id?, htitle, hs]
    dsimp only [undeclared, front]
    rw [hid, hscope']
    cases n.tag.filled? "id" <;> rfl
  · rw [h]
    refine ⟨?_, rfl, hscope'⟩
    have htitle : (front n).title = (undeclared n around number scope).title := by
      rw [Front.title, hs]
      rfl
    dsimp only
    rw [Action.additions_append, Action.additions_report, entriesOf, clauseActions, Clause.id?,
      htitle, hs]
    dsimp only [undeclared, front]
    rw [hid, hscope']
    cases n.tag.filled? "id" <;> rfl

theorem mem_additions_clauseActions {c : Clause} {around : List Clause} {e : Entry}
    (h : e ∈ Action.additions (c.clauseActions around)) : ∃ c' : ClauseEntry, e = .clause c' ∧
      c'.id ≠ "" ∧ c'.number = c.number ∧ c'.title = c.title ∧ c'.refId = .null := by
  unfold clauseActions at h
  split at h
  · cases h
  · next id hid =>
    obtain rfl := List.mem_singleton.1 h
    exact ⟨_, rfl, Tag.filled?_ne_empty hid, rfl, rfl, rfl⟩

/-- A clause calls for the operation that it declares and for itself. -/
theorem mem_additions_ofNode {n : Node} {around : List Clause} {number scope : String} {e : Entry}
    (h : e ∈ Action.additions (ofNode n around number scope).2.2) :
    (∃ scope id s, (front n).declared? = some s ∧ id ≠ "" ∧
      e = .operation ((front n).operation scope id s)) ∨
    ∃ c : ClauseEntry, e = .clause c ∧ c.id ≠ "" ∧ c.number = number ∧
      c.title = (front n).title ∧ c.refId = .null := by
  unfold ofNode at h
  rcases declare_cases (undeclared n around number scope) n rfl with
    ⟨s, hs, hdeclare⟩ | ⟨hs, ds, hdeclare⟩
  · rw [hdeclare, Action.additions_append, additions_operationActions _ n s rfl rfl,
      List.mem_append] at h
    rcases h with h | h
    · obtain ⟨id, hid, rfl⟩ := List.mem_map.1 h
      exact .inl ⟨_, id, s, hs, Tag.filled?_ne_empty (Option.mem_toList.1 hid), rfl⟩
    · obtain ⟨c, rfl, hid, hnumber, htitle, href⟩ := mem_additions_clauseActions h
      exact .inr ⟨c, rfl, hid, hnumber, by rw [htitle, Front.title, hs], href⟩
  · rw [hdeclare, Action.additions_append, Action.additions_report, List.nil_append] at h
    obtain ⟨c, rfl, hid, hnumber, htitle, href⟩ := mem_additions_clauseActions h
    refine .inr ⟨c, rfl, hid, hnumber, ?_, href⟩
    rw [htitle, Front.title, hs]
    rfl

end Clause

namespace MethodTable

theorem method_readHeader (several : Bool) (tr cell : Node) (place : Place) :
    (readHeader several tr cell place).method =
      (if (place.node cell).isNamed "td" || (place.node cell).isNamed "ins" then
        (place.node cell).signature? else none).map
          fun s => ⟨s.name, s, tr.tag.filled? "id"⟩ := by
  unfold readHeader
  dsimp only
  rw [← Bool.not_or]
  cases (place.node cell).isNamed "td" || (place.node cell).isNamed "ins" with
  | false => rfl
  | true =>
    rcases (place.node cell).declaration_cases with ⟨s, hd, hs⟩ | ⟨ds, hd, hs⟩
    · rw [hd, hs]
      rfl
    · rw [hd, hs]
      rfl

/-- A row declares a method exactly where its header reads as a signature. -/
theorem method_readRow (several : Bool) (tr : Node) :
    (readRow several tr).method =
      (rowSignature? tr).map fun s => ⟨s.name, s, tr.tag.filled? "id"⟩ := by
  unfold readRow rowSignature?
  rcases tr.elements with _ | ⟨cell, _ | ⟨second, rest⟩⟩
  · rfl
  · rfl
  · dsimp only
    cases headerPlace? cell with
    | none => rfl
    | some place => exact method_readHeader several tr cell place

theorem getElem?_of_fromTable? {n table : Node} {rest : List Node}
    (h : fromTable? n = some (table, rest)) : table.isNamed "table" = true ∧
      n.children[n.children.length - (rest.length + 1)]? = some table := by
  obtain ⟨before, hchildren, -, hname⟩ := fromTable?_eq_some_iff.1 h
  refine ⟨hname, ?_⟩
  rw [hchildren]
  simp

/-- The rows of a well-formed table of methods are read. -/
theorem classify_of_wellFormed? {n table : Node} {owner : String}
    (h : wellFormed? n = some (owner, table)) : ∃ rest, fromTable? n = some (table, rest) ∧
      classify n = classifyMethods n table rest.length methodsType owner := by
  unfold wellFormed? at h
  split at h
  · next htype =>
    obtain ⟨⟨table, rest⟩, hfound, h⟩ := Option.bind_eq_some_iff.1 h
    obtain ⟨owner, hof, heq⟩ := Option.map_eq_some_iff.1 h
    obtain ⟨rfl, rfl⟩ := Prod.mk.inj heq
    refine ⟨rest, hfound, ?_⟩
    simp only [classify, htype, hfound, hof, ne_eq, not_true_eq_false, if_false]
  · cases h

/-- A table that is no well-formed table of methods stays as it is. -/
theorem classify_of_wellFormed?_eq_none {n : Node} (h : wellFormed? n = none) :
    ∃ hasTable ds, classify n = plainTable n hasTable ds := by
  unfold classify
  dsimp only
  split
  · exact ⟨_, _, rfl⟩
  · next type htype =>
    split
    · exact ⟨_, _, rfl⟩
    · next hmethods =>
      split
      · exact ⟨_, _, rfl⟩
      · next table rest hfound =>
        split
        · exact ⟨_, _, rfl⟩
        · next owner hof =>
          rw [ne_eq, not_not] at hmethods
          rw [wellFormed?, if_pos (hmethods ▸ htype), hfound, hof] at h
          cases h

/-- A table is well formed, and then its rows are read; or it stays as it is. -/
theorem classify_cases (n : Node) :
    (∃ owner table i, wellFormed? n = some (owner, table) ∧ table.isNamed "table" = true ∧
      n.children[i]? = some table ∧
      (classify n).node = (captioned owner n).withChildren (n.children.modify i typesetRows) ∧
      (classify n).methods = (readRows table).filterMap (·.method)) ∨
    (wellFormed? n = none ∧ (classify n).node = n ∧ (classify n).methods = []) := by
  cases hwell : wellFormed? n with
  | none =>
    obtain ⟨hasTable, ds, h⟩ := classify_of_wellFormed?_eq_none hwell
    rw [h]
    exact .inr ⟨rfl, rfl, rfl⟩
  | some found =>
    obtain ⟨owner, table⟩ := found
    obtain ⟨rest, hfound, h⟩ := classify_of_wellFormed? hwell
    obtain ⟨hname, hi⟩ := getElem?_of_fromTable? hfound
    rw [h]
    exact .inl ⟨owner, table, _, rfl, hname, hi, rfl, rfl⟩

/-! ### Captions -/

theorem find?_setIn_of_ne {attrs : List (String × String)} {name other value : String}
    (h : other ≠ name) :
    (Tag.setIn attrs name value).find? (·.1 == other) = attrs.find? (·.1 == other) := by
  induction attrs with
  | nil => simp [Tag.setIn, h.symm]
  | cons a attrs ih =>
    rw [Tag.setIn]
    split
    · next ha => simp [ha, h.symm]
    · rw [List.find?_cons, List.find?_cons, ih]

theorem find?_setIn_self (attrs : List (String × String)) (name value : String) :
    (Tag.setIn attrs name value).find? (·.1 == name) = some (name, value) := by
  induction attrs with
  | nil => simp [Tag.setIn]
  | cons a attrs ih =>
    rw [Tag.setIn]
    split
    · next ha => simp [ha]
    · next ha => simp [ha, ih]

theorem filter_setIn (attrs : List (String × String)) (name value : String) :
    (Tag.setIn attrs name value).filter (·.1 ≠ name) = attrs.filter (·.1 ≠ name) := by
  induction attrs with
  | nil => simp [Tag.setIn]
  | cons a as ih =>
    rw [Tag.setIn]
    split
    · next ha => simp [ha]
    · next ha => rw [List.filter_cons, List.filter_cons, ih]

/-- A caption is no list of words, so it is kept as it is written. -/
theorem kept_caption (element value : String) : Tag.kept element "caption" value = value := by
  simp [Tag.kept, Tag.isWordList, Tag.commonWordLists, Tag.wordLists]

theorem get?_captioned_of_ne {owner name : String} (h : name ≠ "caption") (n : Node) :
    (captioned owner n).tag.get? name = n.tag.get? name := by
  unfold captioned
  split
  · rfl
  · cases n with
    | text kind value => rfl
    | element tag cs rs => exact congrArg (Option.map Prod.snd) (find?_setIn_of_ne h)

theorem get?_caption_captioned (owner : String) (n : Node) (hn : n.isElement = true) :
    (captioned owner n).tag.get? "caption" =
      ((n.tag.filled? "caption").getD (captionOf owner) : String) := by
  unfold captioned
  cases hc : n.tag.filled? "caption" with
  | some caption =>
    rw [Option.isSome_some, if_pos rfl]
    exact (Option.filter_eq_some_iff.1 hc).1
  | none =>
    cases n with
    | text kind value => cases hn
    | element tag cs rs =>
      have hself := find?_setIn_self tag.attrs "caption" (captionOf owner)
      simp [Node.setAttr, Node.tag, tag?, Tag.set, Tag.get?, kept_caption, hself]

/-! ### The entries of a table -/

theorem additions_methodAction (tag : Tag) (scope : String) (m : Method) :
    Action.additions [methodAction tag scope m] =
      if m.rowId.isNone && (tag.filled? "id").isNone then []
      else [.operation (methodEntry scope (tag.filled? "id") m)] := by
  unfold methodAction
  dsimp only
  split <;> rfl

theorem additions_methodActions (tag : Tag) (scope : String) (several : Bool) (trs : List Node) :
    Action.additions
      (((trs.map (readRow several)).filterMap (·.method)).map (methodAction tag scope)) =
        trs.filterMap (rowOperation? scope (tag.filled? "id")) := by
  induction trs with
  | nil => rfl
  | cons tr trs ih =>
    rw [List.map_cons, List.filterMap_cons, List.filterMap_cons, method_readRow, rowOperation?]
    cases rowSignature? tr with
    | none => exact ih
    | some s =>
      rw [Option.map_some, List.map_cons, ← List.singleton_append, Action.additions_append, ih,
        additions_methodAction, Option.bind_some]
      dsimp only
      split <;> rfl

theorem additions_tableActions {tag : Tag} {scope : String} {number : Nat} (h : 1 ≤ number) :
    Action.additions (tableActions tag scope number) = ((tag.filled? "id").map fun id =>
      .table ⟨id, number, (tag.get? "caption").getD "", scope, .null⟩).toList := by
  unfold tableActions
  cases hid : tag.filled? "id" with
  | none => rfl
  | some id =>
    dsimp only
    rw [TableEntry.make?, if_neg (Tag.filled?_ne_empty hid), if_neg (by omega)]
    rfl

/-- What a table with a number calls for. -/
theorem additions_ofNode (n : Node) (scope : String) {number : Nat} (h : 1 ≤ number) :
    Action.additions (ofNode n scope number).2.2 =
      entriesOf scope number n.tag (methods? n) := by
  unfold ofNode entriesOf captionText methods?
  dsimp only
  rw [Action.additions_append, Action.additions_append, Action.additions_report, List.nil_append,
    additions_tableActions h]
  rcases classify_cases n with
    ⟨owner, table, i, hwell, -, hi, hnode, hmethods⟩ | ⟨hwell, hnode, hmethods⟩
  · have htag : (classify n).node.tag = (captioned owner n).tag := by
      rw [hnode]
      cases captioned owner n <;> rfl
    have hid : (captioned owner n).tag.filled? "id" = n.tag.filled? "id" :=
      congrArg (Option.filter _) (get?_captioned_of_ne (by decide) n)
    have hcaption := get?_caption_captioned owner n (by cases n <;> simp_all [children, isElement])
    rw [htag, hmethods, hwell, hid, hcaption, readRows, additions_methodActions, hid]
    cases hc : n.tag.filled? "caption" with
    | none => rfl
    | some caption =>
      rw [(Option.filter_eq_some_iff.1 hc).1]
      rfl
  · rw [hnode, hmethods, hwell]
    cases n.tag.filled? "caption" <;> rfl

/-- A table calls for itself and for the methods that its rows declare. -/
theorem mem_additions_ofNode {n : Node} {scope : String} {number : Nat} (h : 1 ≤ number)
    {e : Entry} (he : e ∈ Action.additions (ofNode n scope number).2.2) :
    (∃ t : TableEntry, e = .table t ∧ t.id ≠ "" ∧ t.refId = .null) ∨
    ∃ (tr : Node) (s : Signature) (id refId : Option String), rowSignature? tr = some s ∧
      ((∃ v ∈ id, v ≠ "") ∨ ∃ v ∈ refId, v ≠ "") ∧
      e = .operation ⟨s.name, abstractMethod, scope, some s, [], .ofOption id, .ofOption refId,
        .null⟩ := by
  rw [additions_ofNode n scope h, entriesOf, List.mem_append] at he
  rcases he with he | he
  · obtain ⟨id, hid, rfl⟩ := Option.map_eq_some_iff.1 (Option.mem_toList.1 he)
    exact .inl ⟨_, rfl, Tag.filled?_ne_empty hid, rfl⟩
  · obtain ⟨tr, -, hrow⟩ := List.mem_filterMap.1 he
    obtain ⟨s, hs, hrow⟩ := Option.bind_eq_some_iff.1 hrow
    dsimp only at hrow
    split at hrow
    · cases hrow
    · next hsome =>
      refine .inr ⟨tr, s, _, _, hs, ?_, (Option.some.inj hrow).symm⟩
      rw [Bool.and_eq_true, not_and_or, Bool.not_eq_true, Bool.not_eq_true,
        Option.isNone_eq_false_iff, Option.isNone_eq_false_iff, Option.isSome_iff_exists,
        Option.isSome_iff_exists] at hsome
      exact hsome.imp (fun ⟨v, hv⟩ => ⟨v, hv, Tag.filled?_ne_empty hv⟩)
        (fun ⟨v, hv⟩ => ⟨v, hv, Tag.filled?_ne_empty hv⟩)

end MethodTable

end Concordance
