import Concordance.Proofs.Build.Links
import Concordance.Proofs.Numbering.Run
import Concordance.Proofs.Survey.Entries

/-!
# Registering clauses and tables

Clauses and tables are registered one after another on one numbering and one index. A registration
may fail halfway: the number is drawn and some entries are added, and another one has an id that is
taken. A clause adds its operation before itself, so for a moment the operation refers to an id that
may not be there; the one thing that can keep the clause out is an entry that has the id already.
A table comes before its methods, and none of them is added if the table is not.

So after every registration, failed ones included, every reference of the index leads to an entry of
it (`Linked`). `Settles` says this of the actions of one element, and is closed under putting
actions together; `settles_ofRoot` says it of a whole survey, so the index of a document can always
be frozen (`firstPass_cases`). A clause is refused a number only where the clauses around it are
more than the last number has counters (`Numbering.next_cases`).

The main statement is `Registry.run_linked`.
-/

namespace Concordance

/-! ## References that lead to an entry -/

namespace Index

/-- There is an entry with an id. -/
def Has (ix : Index) (id : Json) : Prop := ∃ e ∈ ix.entries, e.id = id

/-- An index that takes entries and in which every reference leads to an entry. -/
structure Linked (ix : Index) : Prop where
  isOpen : ix.Open
  leads : ∀ e ∈ ix.entries, e.refId.isSet = true → ix.Has e.refId

theorem linked_empty : empty.Linked := ⟨open_empty, fun _ h => (List.not_mem_nil h).elim⟩

theorem Linked.danglingRefs_eq_nil {ix : Index} (h : ix.Linked) : ix.danglingRefs = [] := by
  refine List.filter_eq_nil_iff.2 fun r hr => ?_
  obtain ⟨e, he, rfl⟩ := List.mem_map.1 hr
  rw [isDangling, Bool.and_eq_true]
  rintro ⟨hset, hnone⟩
  obtain ⟨e', he', hid⟩ := h.leads e he hset
  have hfound : ix.find? e.refId = some e' := by
    rw [← hid]
    exact h.isOpen.1.find?_id he' (hid ▸ hset)
  rw [hfound] at hnone
  cases hnone

theorem Linked.exists_freeze {ix : Index} (h : ix.Linked) : ∃ ix', ix.freeze = .ok ix' :=
  ⟨_, freeze_ok_iff.2 ⟨h.danglingRefs_eq_nil, rfl⟩⟩

/-! ## Adding one entry -/

section Add

variable {ix : Index} {e : Entry}

/-- An entry whose id is a text or missing is added, unless there is an entry with its id. -/
theorem Open.add_cases (ho : ix.Open) (id : Option String) (hid : e.id = .ofOption id)
    (hset : e.id.isSet = true ∨ e.refId.isSet = true) :
    (∃ ix', ix.add e = .ok ix' ∧ ix'.Open ∧ ix'.entries = ix.entries ++ [e]) ∨
      ix.add e = .error (.duplicateId e.id) ∧ ix.Has e.id := by
  rw [add_of_open ho.2]
  have hkey : e.id.isSet = true → ∃ s, id = some s ∧ e.hasKey (.text s) = true := by
    intro h
    cases id with
    | none =>
      rw [hid] at h
      cases h
    | some s => exact ⟨s, rfl, Entry.hasKey_iff.2 ⟨h, by rw [hid]; rfl⟩⟩
  by_cases hapart : ∀ e' ∈ ix.entries, e'.Apart e
  · exact .inl (ho.exists_insert (Entry.insertable_of_ofOption id hid hset) hapart)
  · -- some entry answers to the same key, which is a text, so it has the same id
    unfold Entry.Apart at hapart
    push Not at hapart
    obtain ⟨e', he', hset', hown, heq⟩ := hapart
    obtain ⟨s, rfl, hs⟩ := hkey hown
    have hs' : e'.hasKey (.text s) = true :=
      Entry.hasKey_iff.2 ⟨hset', heq.trans (Entry.hasKey_iff.1 hs).2⟩
    have hid' : e'.id = .string s := (Json.ident?_eq_some_iff.1 (Entry.hasKey_text_iff.1 hs')).1
    have hmem : Json.Key.text s ∈ ix.byKey := by
      rw [Std.HashMap.mem_iff_isSome_getElem?, ho.1.byKey_eq_some_iff.2 ⟨he', hs'⟩]
      rfl
    have herr : ix.insert e = .error (.duplicateId e.id) :=
      insert_error_iff.2 (.inr (.inr ⟨_, hs, hmem, rfl⟩))
    exact .inr ⟨herr, e', he', hid'.trans hid.symm⟩

/-- An entry that refers to nothing, or to an entry of the index, keeps every reference leading to
an entry. -/
theorem Linked.append (h : ix.Linked) {ix' : Index} (ho : ix'.Open)
    (hes : ix'.entries = ix.entries ++ [e])
    (href : e.refId.isSet = true → ix'.Has e.refId) : ix'.Linked := by
  refine ⟨ho, fun e' he' hset => ?_⟩
  rw [hes] at he'
  rcases List.mem_append.1 he' with he' | he'
  · obtain ⟨target, hmem, hid⟩ := h.leads e' he' hset
    exact ⟨target, hes ▸ List.mem_append_left _ hmem, hid⟩
  · rw [List.mem_singleton.1 he'] at hset ⊢
    exact href hset

end Add

end Index

/-! ## Actions that leave no reference dangling -/

/-- The fault of an entry whose id is taken. -/
def BuildFault.IsTakenId (f : BuildFault) : Prop := ∃ id, f = .index (.duplicateId id)

namespace Action

theorem perform_append_of_ok {ix : Index} {as : List Action}
    (h : (perform ix as).fault = none) (bs : List Action) :
    (perform ix (as ++ bs)).index = (perform (perform ix as).index bs).index ∧
      (perform ix (as ++ bs)).fault = (perform (perform ix as).index bs).fault := by
  induction as generalizing ix with
  | nil => exact ⟨rfl, rfl⟩
  | cons a as ih =>
    cases a with
    | report d => exact @ih ix h
    | add e =>
      rw [List.cons_append, perform, perform]
      rw [perform] at h
      cases hadd : ix.add e with
      | ok ix' =>
        rw [hadd] at h
        exact ih h
      | error f =>
        rw [hadd] at h
        cases h
    | halt f => cases h

theorem perform_append_of_fault {ix : Index} {as : List Action} {f : BuildFault}
    (h : (perform ix as).fault = some f) (bs : List Action) :
    (perform ix (as ++ bs)).index = (perform ix as).index ∧
      (perform ix (as ++ bs)).fault = some f := by
  induction as generalizing ix with
  | nil => cases h
  | cons a as ih =>
    cases a with
    | report d => exact @ih ix h
    | add e =>
      rw [List.cons_append, perform, perform]
      rw [perform] at h
      cases hadd : ix.add e with
      | ok ix' =>
        rw [hadd] at h
        exact ih h
      | error f =>
        rw [hadd] at h
        exact ⟨rfl, h⟩
    | halt f => exact ⟨rfl, h⟩

/-- Nothing that is in an index is lost by actions. -/
theorem entries_prefix_perform (ix : Index) (as : List Action) :
    ix.entries <+: (perform ix as).index.entries := by
  induction as generalizing ix with
  | nil => exact List.prefix_rfl
  | cons a as ih =>
    cases a with
    | report d => exact ih ix
    | add e =>
      rw [perform]
      cases hadd : ix.add e with
      | ok ix' =>
        have hes : ix'.entries = ix.entries ++ [e] :=
          Index.entries_of_insert (Index.add_ok_iff.1 hadd).2
        exact (hes ▸ List.prefix_append _ _ : ix.entries <+: ix'.entries).trans (ih ix')
      | error f => exact List.prefix_rfl
    | halt f => exact List.prefix_rfl

/-- Actions that leave every reference leading to an entry, however far they get, once there is an
entry with the given id. They fail for an id that is taken, or with a fault that is allowed. -/
def Settles (allowed : BuildFault → Prop) (given : Option String) (as : List Action) : Prop :=
  ∀ ix : Index, ix.Linked → (∀ id ∈ given, ix.Has (.string id)) →
    (perform ix as).index.Linked ∧ ∀ f ∈ (perform ix as).fault, f.IsTakenId ∨ allowed f

section Settles

variable {allowed : BuildFault → Prop} {given : Option String} {as bs : List Action}

theorem settles_nil : Settles allowed given [] := fun _ h _ => ⟨h, by simp [perform]⟩

theorem settles_halt {f : BuildFault} (hf : allowed f) : Settles allowed given [.halt f] := by
  intro ix h _
  refine ⟨h, ?_⟩
  rintro f' ⟨⟩
  exact .inr hf

theorem Settles.append (has : Settles allowed given as) (hbs : Settles allowed given bs) :
    Settles allowed given (as ++ bs) := by
  intro ix h hgiven
  obtain ⟨hlinked, hfault⟩ := has ix h hgiven
  cases hf : (perform ix as).fault with
  | none =>
    obtain ⟨hindex, heq⟩ := perform_append_of_ok hf bs
    rw [hindex, heq]
    refine hbs _ hlinked fun id hid => ?_
    obtain ⟨e, he, h⟩ := hgiven id hid
    exact ⟨e, (entries_prefix_perform ix as).subset he, h⟩
  | some f =>
    obtain ⟨hindex, heq⟩ := perform_append_of_fault hf bs
    rw [hindex, heq]
    exact ⟨hlinked, hf ▸ hfault⟩

theorem settles_reports (ds : List Diagnostic) : Settles allowed given (ds.map .report) := by
  intro ix h hgiven
  induction ds with
  | nil => exact settles_nil ix h hgiven
  | cons d ds ih => exact ih

/-- An entry that refers to nothing or to the given id. -/
theorem settles_add {e : Entry} (id : Option String) (hid : e.id = .ofOption id)
    (hset : e.id.isSet = true ∨ e.refId.isSet = true)
    (href : e.refId.isSet = true → ∃ s ∈ given, e.refId = .string s) :
    Settles allowed given [.add e] := by
  intro ix h hgiven
  rw [perform]
  rcases h.isOpen.add_cases id hid hset with ⟨ix', hadd, ho, hes⟩ | ⟨hadd, -⟩
  · rw [hadd]
    refine ⟨h.append ho hes fun hr => ?_, by simp [perform]⟩
    obtain ⟨s, hs, hrs⟩ := href hr
    obtain ⟨target, hmem, htarget⟩ := hgiven s hs
    exact ⟨target, hes ▸ List.mem_append_left _ hmem, htarget.trans hrs.symm⟩
  · rw [hadd]
    refine ⟨h, ?_⟩
    rintro f ⟨⟩
    exact .inl ⟨_, rfl⟩

/-- An entry that has the id which the entries after it refer to. -/
theorem settles_add_given {e : Entry} {id : String} (hid : e.id = .string id)
    (hset : e.id.isSet = true) (href : e.refId = .null) (hbs : Settles allowed (some id) bs) :
    Settles allowed none (.add e :: bs) := by
  intro ix h _
  rw [perform]
  rcases h.isOpen.add_cases (some id) hid (.inl hset) with ⟨ix', hadd, ho, hes⟩ | ⟨hadd, -⟩
  · rw [hadd]
    refine hbs ix' (h.append ho hes fun hr => ?_) ?_
    · rw [href] at hr
      cases hr
    · rintro _ ⟨⟩
      exact ⟨e, by simp [hes], hid⟩
  · rw [hadd]
    refine ⟨h, ?_⟩
    rintro f ⟨⟩
    exact .inl ⟨_, rfl⟩

/-- An entry that refers to the id of the entry after it: the second one is added, or else its id is
in the index already. -/
theorem settles_add_pair {e e' : Entry} {id : String} (hid : e.id = .null)
    (href : e.refId = .string id) (hid' : e'.id = .string id) (href' : e'.refId = .null)
    (hset : id ≠ "") : Settles allowed none [.add e, .add e'] := by
  intro ix h _
  have hrefset : e.refId.isSet = true := by rw [href, Json.isSet_string]; exact hset
  have hidset : e'.id.isSet = true := by rw [hid', Json.isSet_string]; exact hset
  rw [perform]
  rcases h.isOpen.add_cases none hid (.inr hrefset) with ⟨ix', hadd, ho, hes⟩ | ⟨hadd, -⟩
  · rw [hadd]
    dsimp only
    rw [perform]
    rcases ho.add_cases (some id) hid' (.inl hidset) with
      ⟨ix'', hadd', ho', hes'⟩ | ⟨hadd', hhas⟩
    · rw [hadd']
      refine ⟨⟨ho', fun f hf hr => ?_⟩, by simp [perform]⟩
      change f ∈ ix''.entries at hf
      rw [hes', hes] at hf
      have hmem : ∀ g ∈ ix.entries, g ∈ ix''.entries := fun g hg => by simp [hes', hes, hg]
      rcases List.mem_append.1 hf with hf | hf
      · rcases List.mem_append.1 hf with hf | hf
        · obtain ⟨target, ht, htarget⟩ := h.leads f hf hr
          exact ⟨target, hmem target ht, htarget⟩
        · rw [List.mem_singleton.1 hf, href]
          exact ⟨e', hes' ▸ List.mem_append_right _ List.mem_cons_self, hid'⟩
      · rw [List.mem_singleton.1 hf, href'] at hr
        cases hr
    · rw [hadd']
      refine ⟨h.append ho hes fun _ => ?_, ?_⟩
      · rw [href, ← hid']
        exact hhas
      · rintro f ⟨⟩
        exact .inl ⟨_, rfl⟩
  · rw [hadd]
    refine ⟨h, ?_⟩
    rintro f ⟨⟩
    exact .inl ⟨_, rfl⟩

end Settles

end Action

open Concordance.Action

/-! ## Clauses and tables -/

namespace Clause

variable {allowed : BuildFault → Prop} {around : List Clause} {scope : String}

/-- What a clause calls for itself. -/
theorem settles_clauseActions (c : Clause) : Settles allowed none (c.clauseActions around) := by
  unfold clauseActions
  split
  · exact settles_nil
  · next id hid =>
    have hset : id ≠ "" := Tag.filled?_ne_empty hid
    exact settles_add_given rfl (Json.isSet_string.2 hset) rfl settles_nil

/-- A clause that declares an operation adds it and then itself. -/
theorem settles_operationActions (c c' : Clause) (n : Node) (s : Signature)
    (htag : c'.tag = c.tag) :
    Settles allowed none (c.operationActions n s ++ c'.clauseActions around) := by
  have hreports : Settles allowed none
      (if c.type = some concreteMethod ∧ forType? n = none then [.report c.noForType] else []) := by
    split
    · exact settles_reports [c.noForType]
    · exact settles_nil
  rw [operationActions, List.append_assoc]
  refine hreports.append ?_
  have hid : c'.id? = c.id? := by rw [id?, id?, htag]
  rw [clauseActions, hid]
  cases hc : c.id? with
  | none => exact settles_reports [c.noId]
  | some id => exact settles_add_pair rfl rfl rfl rfl (Tag.filled?_ne_empty hc)

/-- Whatever a clause calls for leaves no reference dangling. -/
theorem settles_ofNode (n : Node) (number : String) :
    Settles allowed none (ofNode n around number scope).2.2 := by
  unfold ofNode
  rcases declare_cases (undeclared n around number scope) n rfl with ⟨s, -, h⟩ | ⟨-, ds, h⟩
  · rw [h]
    exact settles_operationActions _ _ n s rfl
  · rw [h]
    exact (settles_reports ds).append (settles_clauseActions _)

end Clause

namespace MethodTable

variable {allowed : BuildFault → Prop} {scope : String} {tag : Tag}

/-- A method refers to its table or to nothing. -/
theorem settles_methodAction (m : Method) (hrow : ∀ id ∈ m.rowId, id ≠ "") :
    Settles allowed (tag.filled? "id") [methodAction tag scope m] := by
  unfold methodAction
  dsimp only
  split
  · exact settles_reports [unreferable tag m]
  · next hsome =>
    refine settles_add m.rowId rfl ?_ ?_
    · cases hid : m.rowId with
      | some id =>
        refine .inl ?_
        simpa [Entry.id, methodEntry, hid, Json.ofOption] using hrow id hid
      | none =>
        cases htable : tag.filled? "id" with
        | some id =>
          refine .inr ?_
          simpa [Entry.refId, methodEntry, Json.ofOption] using Tag.filled?_ne_empty htable
        | none => simp [hid, htable] at hsome
    · intro hr
      cases htable : tag.filled? "id" with
      | some id => exact ⟨id, rfl, rfl⟩
      | none =>
        rw [htable] at hr
        cases hr

theorem settles_methodActions {ms : List Method} (h : ∀ m ∈ ms, ∀ id ∈ m.rowId, id ≠ "") :
    Settles allowed (tag.filled? "id") (ms.map (methodAction tag scope)) := by
  induction ms with
  | nil => exact settles_nil
  | cons m ms ih =>
    obtain ⟨hm, hms⟩ := List.forall_mem_cons.1 h
    exact (settles_methodAction m hm).append (ih hms)

/-- The id of a method is that of its row, which is not empty. -/
theorem rowId_of_mem_methods {n : Node} {m : Method} (hm : m ∈ (classify n).methods) :
    ∀ id ∈ m.rowId, id ≠ "" := by
  rcases classify_cases n with ⟨owner, table, i, -, -, -, -, hms⟩ | ⟨-, -, hms⟩
  · rw [hms] at hm
    obtain ⟨row, hrow, hmethod⟩ := List.mem_filterMap.1 hm
    obtain ⟨tr, -, rfl⟩ := List.mem_map.1 hrow
    rw [method_readRow] at hmethod
    obtain ⟨s, -, rfl⟩ := Option.map_eq_some_iff.1 hmethod
    exact fun id hid => Tag.filled?_ne_empty hid
  · rw [hms] at hm
    exact (List.not_mem_nil hm).elim

/-- Whatever a table calls for leaves no reference dangling. -/
theorem settles_ofNode (n : Node) {number : Int} (hnumber : 1 ≤ number) :
    Settles allowed none (ofNode n scope number).2.2 := by
  unfold ofNode
  dsimp only
  rw [List.append_assoc]
  refine (settles_reports _).append ?_
  have hms : Settles allowed ((classify n).node.tag.filled? "id")
      ((classify n).methods.map (methodAction (classify n).node.tag scope)) :=
    settles_methodActions fun _ => rowId_of_mem_methods
  unfold tableActions
  cases hid : (classify n).node.tag.filled? "id" with
  | none =>
    rw [hid] at hms
    exact hms
  | some id =>
    have hset : id ≠ "" := Tag.filled?_ne_empty hid
    rw [hid] at hms
    dsimp only
    rw [TableEntry.make?, if_neg hset, if_neg (by omega)]
    exact settles_add_given rfl (Json.isSet_string.2 hset) rfl hms

end MethodTable

/-! ## Surveys -/

/-- A clause that is deeper than the last one has counters is refused a number. -/
def Registry.IsRefusal (f : BuildFault) : Prop :=
  ∃ depth deepest, f = .numbering (.noParent depth deepest)

namespace Survey

open Registry (IsRefusal)

variable {allowed : BuildFault → Prop} {s : Survey} {node : Node} {key : Nat}
  {around : List Clause} {scope : String}

/-- An element that is no clause leaves the numbering as it is and no reference dangling. -/
theorem settles_enter_of_not_clause (hname : Clause.names.contains node.tag.name = false)
    (hs : Settles allowed none s.actions) :
    (s.enter node key around scope).2.1 = around ∧
      (s.enter node key around scope).2.2.numbering = s.numbering ∧
      Settles allowed none (s.enter node key around scope).2.2.actions := by
  rcases enter_cases s node key around scope with
    ⟨hclause, -⟩ | ⟨-, h⟩ | ⟨-, h⟩ | ⟨-, h⟩ | ⟨-, -, -, -, h⟩
  · rw [hname] at hclause
    cases hclause
  · rw [h]
    exact ⟨rfl, rfl, hs.append (MethodTable.settles_ofNode node (by omega))⟩
  · rw [h]
    exact ⟨rfl, rfl, hs⟩
  · rw [h]
    unfold Survey.listing
    split
    · exact ⟨rfl, rfl, hs⟩
    · exact ⟨rfl, rfl, hs.append (settles_reports [noMethod node.tag])⟩
  · rw [h]
    exact ⟨rfl, rfl, hs⟩

/-- A clause that gets a number leaves no reference dangling. -/
theorem settles_clause_of_le (hpos : s.numbering.Positive)
    (hle : around.length ≤ s.numbering.counters.length) (hs : Settles allowed none s.actions) :
    (s.clause node around scope).2.2.numbering.Positive ∧
      (s.clause node around scope).2.2.numbering.counters.length = around.length + 1 ∧
      Settles allowed none (s.clause node around scope).2.2.actions := by
  unfold Survey.clause
  rcases Numbering.next_cases hpos around.length (Clause.kindOf node.tag) with
    ⟨-, t, number, hnext, ht, hlength⟩ | ⟨hlt, -⟩
  · rw [hnext]
    exact ⟨ht, hlength, hs.append (Clause.settles_ofNode node number)⟩
  · omega

/-- A clause that is refused a number leaves the numbering as it is. -/
theorem settles_clause_of_lt (hpos : s.numbering.Positive)
    (hlt : s.numbering.counters.length < around.length) (hs : Settles IsRefusal none s.actions) :
    (s.clause node around scope).2.2.numbering = s.numbering ∧
      Settles IsRefusal none (s.clause node around scope).2.2.actions := by
  unfold Survey.clause
  rcases Numbering.next_cases hpos around.length (Clause.kindOf node.tag) with
    ⟨hle, -⟩ | ⟨-, hnext⟩
  · omega
  · rw [hnext]
    exact ⟨rfl, hs.append (settles_halt ⟨_, _, rfl⟩)⟩

/-- Whatever the elements of a document call for leaves no reference dangling; all that can fail is
an id that is taken, and a clause that is refused a number. -/
theorem settles_ofRoot (scope : String) (root : Node) :
    Settles IsRefusal none (ofRoot scope root).2.actions := by
  refine (ofRoot_induction (K := fun _ => True)
    (I := fun s => s.numbering.Positive ∧ Settles IsRefusal none s.actions) ?_ (fun _ _ => trivial)
    ⟨Numbering.positive_start, settles_nil⟩).2
  rintro s node key around - - ⟨hpos, hs⟩
  cases hname : Clause.names.contains node.tag.name with
  | true =>
    rw [enter_of_clause hname]
    rcases Nat.lt_or_ge s.numbering.counters.length around.length with hlt | hle
    · obtain ⟨hnumbering, hsettles⟩ := settles_clause_of_lt hpos hlt hs
      exact ⟨hnumbering ▸ hpos, hsettles⟩
    · obtain ⟨hpos', -, hsettles⟩ := settles_clause_of_le hpos hle hs
      exact ⟨hpos', hsettles⟩
  | false =>
    obtain ⟨-, hnumbering, hsettles⟩ := settles_enter_of_not_clause hname hs
    exact ⟨hnumbering ▸ hpos, hsettles⟩

end Survey

/-- The first pass over actions that leave no reference dangling ends with a frozen index, or for an
id that is taken or another fault of the actions; never because of a reference. -/
theorem Build.firstPass_cases {allowed : BuildFault → Prop} {as : List Action}
    (h : Settles allowed none as) : (∃ ix ds, firstPass as = .ok (ix, ds)) ∨
      ∃ a, firstPass as = .error a ∧ (a.fault.IsTakenId ∨ allowed a.fault) := by
  obtain ⟨hlinked, hfault⟩ := h .empty Index.linked_empty (by simp)
  cases hf : (perform .empty as).fault with
  | some f => exact .inr ⟨_, firstPass_of_fault hf, hfault f hf⟩
  | none =>
    obtain ⟨ix, hix⟩ := hlinked.exists_freeze
    exact .inl ⟨ix, _, firstPass_of_freeze hf hix⟩

/-! ## One registration after another -/

/-- The numbering and the index that clauses and tables are registered on. -/
structure Registry where
  numbering : Numbering
  index : Index

/-- What is registered: a clause inside others, innermost first, or a table with a number. -/
inductive Registration where
  | clause (node : Node) (around : List Clause) (scope : String)
  | table (node : Node) (scope : String) (number : Int)

namespace Registry

/-- The registry before the first registration. -/
def start : Registry := ⟨.start, .empty⟩

/-- The registry after a registration, and the fault if it fails. What was done before the fault
stays done. -/
def register (r : Registry) : Registration → Registry × Option BuildFault
  | .clause node around scope =>
    match r.numbering.next around.length (Clause.kindOf node.tag) with
    | .ok (numbering, number) =>
      let out := Action.perform r.index (Clause.ofNode node around number scope).2.2
      (⟨numbering, out.index⟩, out.fault)
    | .error f => (r, some (.numbering f))
  | .table node scope number =>
    let out := Action.perform r.index (MethodTable.ofNode node scope number).2.2
    (⟨r.numbering, out.index⟩, out.fault)

/-- The registry after registrations made one after another, failed ones among them, and the faults
of those in order. -/
def run : Registry → List Registration → Registry × List BuildFault
  | r, [] => (r, [])
  | r, x :: xs =>
    let (r, fault) := r.register x
    let (r, faults) := run r xs
    (r, fault.toList ++ faults)

/-- A registry whose counters are positive and whose references lead to entries. -/
structure Sound (r : Registry) : Prop where
  positive : r.numbering.Positive
  linked : r.index.Linked

theorem sound_start : start.Sound := ⟨Numbering.positive_start, Index.linked_empty⟩

end Registry

namespace Registry

/-- A registration keeps the registry sound, whether it succeeds or fails. -/
theorem Sound.register {r : Registry} (h : r.Sound) (x : Registration)
    (hx : ∀ node scope number, x = .table node scope number → 1 ≤ number) :
    (r.register x).1.Sound ∧ ∀ f ∈ (r.register x).2, f.IsTakenId ∨ IsRefusal f := by
  cases x with
  | clause node around scope =>
    rw [Registry.register]
    rcases Numbering.next_cases h.positive around.length (Clause.kindOf node.tag) with
      ⟨-, t, number, hnext, ht, -⟩ | ⟨-, hnext⟩
    · rw [hnext]
      have hsettles :
          Action.Settles IsRefusal none (Clause.ofNode node around number scope).2.2 :=
        Clause.settles_ofNode node number
      obtain ⟨hlinked, hfault⟩ := hsettles r.index h.linked (by simp)
      exact ⟨⟨ht, hlinked⟩, hfault⟩
    · rw [hnext]
      refine ⟨h, ?_⟩
      rintro f ⟨⟩
      exact .inr ⟨_, _, rfl⟩
  | table node scope number =>
    have hsettles : Action.Settles IsRefusal none (MethodTable.ofNode node scope number).2.2 :=
      MethodTable.settles_ofNode node (hx node scope number rfl)
    obtain ⟨hlinked, hfault⟩ := hsettles r.index h.linked (by simp)
    exact ⟨⟨h.positive, hlinked⟩, hfault⟩

theorem Sound.run {r : Registry} (h : r.Sound) {xs : List Registration}
    (hxs : ∀ node scope number, .table node scope number ∈ xs → 1 ≤ number) :
    (run r xs).1.Sound ∧ ∀ f ∈ (run r xs).2, f.IsTakenId ∨ IsRefusal f := by
  induction xs generalizing r with
  | nil => exact ⟨h, fun f hf => (List.not_mem_nil hf).elim⟩
  | cons x xs ih =>
    obtain ⟨hsound, hfault⟩ :=
      h.register x fun node scope number hx => hxs node scope number (hx ▸ List.mem_cons_self)
    obtain ⟨hrun, hfaults⟩ :=
      ih hsound fun node scope number hmem => hxs node scope number (List.mem_cons_of_mem _ hmem)
    refine ⟨hrun, fun f hf => ?_⟩
    rcases List.mem_append.1 hf with hf | hf
    · exact hfault f (Option.mem_toList.1 hf)
    · exact hfaults f hf

/-- **Registering leaves no reference dangling.** Whatever clauses and tables are registered one
after another, and wherever some of them fail, every reference of the index leads to an entry of it
afterwards, so the index can be frozen; and a registration fails only for an id that is taken or for
a clause that has no numbered parent. -/
theorem run_linked (xs : List Registration)
    (hxs : ∀ node scope number, .table node scope number ∈ xs → 1 ≤ number) :
    (∀ e ∈ (run start xs).1.index.entries, e.refId.isSet = true →
      ∃ e' ∈ (run start xs).1.index.entries, e'.id = e.refId) ∧
    (∃ ix, (run start xs).1.index.freeze = .ok ix) ∧
    ∀ f ∈ (run start xs).2, (∃ id, f = .index (.duplicateId id)) ∨
      ∃ depth deepest, f = .numbering (.noParent depth deepest) := by
  obtain ⟨hsound, hfaults⟩ := sound_start.run hxs
  exact ⟨hsound.linked.leads, hsound.linked.exists_freeze, hfaults⟩

/-- A clause that declares an operation. -/
def linkClause : Node :=
  .new "emu-clause" [("id", "c"), ("type", "abstract operation")] [.new "h1" [] [.plain "Link()"]]

/-- The operation that the clause declares. -/
def linkEntry : OperationEntry :=
  ⟨"Link", "abstract operation", "ns", some ⟨"Link", [], none⟩, [], .null, .string "c", .null⟩

/-- The clause registered twice, and then a table. -/
def linkTwice : List Registration :=
  [.clause linkClause [] "ns", .clause linkClause [] "ns",
    .table (.new "emu-table" [("id", "t")] []) "ns" 1]

theorem run_linkTwice : (run start linkTwice).2 = [.index (.duplicateId (.string "c"))] ∧
    (run start linkTwice).1.index.entries =
      [.operation linkEntry, .clause ⟨"c", "1", "Link", "ns", .null, .null⟩,
        .operation linkEntry, .table ⟨"t", 1, "", "ns", .null⟩] := by
  have hclause : ∀ number, (Clause.ofNode linkClause [] number "ns").2.2 =
      [.add (.operation linkEntry), .add (.clause ⟨"c", number, "Link", "ns", .null, .null⟩)] :=
    fun _ => rfl
  have htable : (MethodTable.ofNode (.new "emu-table" [("id", "t")] []) "ns" 1).2.2 =
      [.add (.table ⟨"t", 1, "", "ns", .null⟩)] := rfl
  have hkind : Clause.kindOf linkClause.tag = .clause := rfl
  have hfirst : Numbering.start.next 0 .clause = .ok (⟨[1], false⟩, "1") := by decide +kernel
  have hsecond : (⟨[1], false⟩ : Numbering).next 0 .clause = .ok (⟨[2], false⟩, "2") := by
    decide +kernel
  simp [linkTwice, run, register, start, hclause, htable, hkind, hfirst, hsecond, perform,
    Index.add, Index.insert, Index.withKey, Index.empty, linkEntry, Entry.id, Entry.refId,
    Json.isSet, Json.key?, bind, Except.bind, pure, Except.pure]

/-- The second registration fails after the operation is added a second time; it leads to the clause
that was registered first. -/
theorem run_linked_linkTwice :
    (∀ node scope number, .table node scope number ∈ linkTwice → 1 ≤ number) ∧
    (run start linkTwice).2 = [.index (.duplicateId (.string "c"))] ∧
    (∃ e' ∈ (run start linkTwice).1.index.entries, e'.id = linkEntry.refId) ∧
    ∃ ix, (run start linkTwice).1.index.freeze = .ok ix := by
  have hnumbers : ∀ node scope number, .table node scope number ∈ linkTwice → 1 ≤ number := by
    intro node scope number h
    simp only [linkTwice, List.mem_cons, Registration.table.injEq, reduceCtorEq, List.not_mem_nil,
      false_or, or_false] at h
    omega
  obtain ⟨hfaults, hentries⟩ := run_linkTwice
  obtain ⟨hleads, hfreeze, -⟩ := run_linked linkTwice hnumbers
  have hmem : .operation linkEntry ∈ (run start linkTwice).1.index.entries := by
    rw [hentries]
    exact List.mem_cons_self
  exact ⟨hnumbers, hfaults, hleads _ hmem (Json.isSet_string.2 (by decide)), hfreeze⟩

end Registry

end Concordance
