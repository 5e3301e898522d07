import Concordance.Proofs.Build.Registry
import Concordance.Proofs.Survey.Declared

/-!
# How a build ends

A build ends in a document, or is given up for one of a few faults. Where nothing is imported, the
values of the index are texts, so every listing can be written, and the first pass alone can fail
(`exists_run_of_firstPass`): for an id that is there twice, or for a clause that is refused a
number. A clause is refused only where the clauses around it are more than the last number has
counters. Numbers are given in reading order, so a clause that is still in its place when it is
reached always gets one. Headings and rows are rewritten before what is in them is reached, and
what they held is then no longer inside the clauses around it: such a clause is numbered as one at
the outermost level, and a clause after it, in its place, may find that the counters do not go deep
enough. In a document without clauses in headings or rows (`Upright`) no clause is refused
(`Survey.ready_ofRoot`). How the first pass ends can be told from what the document declares before
a clause of it is refused a number (`firstPass_declared`).

The main statement is `run_outcome`.
-/

namespace Concordance

open Node

/-! ## Clauses in their places -/

namespace Node

/-- No element with a key in a tree is a clause. -/
def Clauseless (n : Node) : Prop := ∀ m ∈ n.keyed.map Tag.mark, Clause.names.contains m.2 = false

mutual
/-- No clause is in a heading, in a row or among what has been removed. -/
def Upright : Node → Prop
  | .text _ _ => True
  | .element tag children removed =>
    (∀ n ∈ removed, n.Clauseless) ∧
      (tag.name = "h1" ∨ tag.name = "tr" → ∀ n ∈ children, n.Clauseless) ∧ UprightIn children

/-- `Upright` for trees. -/
def UprightIn : List Node → Prop
  | [] => True
  | n :: ns => n.Upright ∧ UprightIn ns
end

theorem Clauseless.of_gentle {n n' : Node} (hn : n.Clauseless) (h : Gentle n n') :
    n'.Clauseless := fun m hm => hn m (h.marks.mem_iff.1 hm)

theorem Clauseless.of_mem {tag : Tag} {cs rs : List Node} (h : (element tag cs rs).Clauseless)
    {n : Node} (hn : n ∈ cs ∨ n ∈ rs) : n.Clauseless :=
  fun m hm => h m (Survey.mem_marks_element hn hm)

mutual
theorem Upright.of_clauseless {n : Node} (h : n.Clauseless) : n.Upright := by
  match n with
  | .text kind value => trivial
  | .element tag cs rs =>
    exact ⟨fun n hn => h.of_mem (.inr hn), fun _ n hn => h.of_mem (.inl hn),
      UprightIn.of_clauseless fun n hn => h.of_mem (.inl hn)⟩

theorem UprightIn.of_clauseless {ns : List Node} (h : ∀ n ∈ ns, n.Clauseless) :
    UprightIn ns := by
  match ns with
  | [] => trivial
  | n :: ns =>
    rw [List.forall_mem_cons] at h
    exact ⟨Upright.of_clauseless h.1, UprightIn.of_clauseless h.2⟩
end

/-- A heading or a row that is upright has no clause in it. -/
theorem Upright.clauseless {n : Node} (h : n.Upright)
    (hname : n.isNamed "h1" = true ∨ n.isNamed "tr" = true) : n.Clauseless := by
  cases n with
  | text kind value => exact fun m hm => (List.not_mem_nil hm).elim
  | element tag cs rs =>
    simp only [isNamed, decide_eq_true_eq] at hname
    obtain ⟨hrs, hcs, -⟩ := h
    intro m hm
    obtain ⟨t, ht, rfl⟩ := List.mem_map.1 hm
    rw [keyed, List.mem_append, List.mem_append, mem_keyedIn_iff, mem_keyedIn_iff] at ht
    rcases ht with ht | ⟨n, hn, ht⟩ | ⟨n, hn, ht⟩
    · split at ht
      · obtain rfl := List.mem_singleton.1 ht
        rcases hname with hname | hname
        · simp [Tag.mark, hname, Clause.names]
        · simp [Tag.mark, hname, Clause.names]
      · cases ht
    · exact hcs hname n hn _ (List.mem_map_of_mem ht)
    · exact hrs n hn _ (List.mem_map_of_mem ht)

/-- What rewriting makes of a tree in which clauses are in their places is such a tree. -/
structure Orderly (n n' : Node) : Prop where
  gentle : Gentle n n'
  upright : n.Upright → n'.Upright

theorem clauseless_of_forall₂ {ns ns' : List Node} (h : List.Forall₂ Orderly ns ns')
    (hns : ∀ n ∈ ns, n.Clauseless) : ∀ n ∈ ns', n.Clauseless := by
  induction h with
  | nil => exact hns
  | cons h _ ih =>
    rw [List.forall_mem_cons] at hns ⊢
    exact ⟨hns.1.of_gentle h.gentle, ih hns.2⟩

theorem uprightIn_of_forall₂ {ns ns' : List Node} (h : List.Forall₂ Orderly ns ns')
    (hns : UprightIn ns) : UprightIn ns' := by
  induction h with
  | nil => exact hns
  | cons h _ ih => exact ⟨h.upright hns.1, ih hns.2⟩

theorem rewrites_orderly : Rewrites Gentle Orderly where
  refl n := ⟨.refl n, id⟩
  element _ h h' := ⟨gentle_of_gentleIn rfl (h.imp fun _ _ => Orderly.gentle)
      (h'.imp fun _ _ => Orderly.gentle),
    fun ⟨hrs, hcs, hin⟩ => ⟨clauseless_of_forall₂ h' hrs,
      fun hname => clauseless_of_forall₂ h (hcs hname), uprightIn_of_forall₂ h hin⟩⟩
  typesets := typesets_gentle
  trans h h' := ⟨h.gentle.trans h'.gentle, h'.upright ∘ h.upright⟩
  header hname h := ⟨h, fun hn => .of_clauseless ((hn.clauseless hname).of_gentle h)⟩
  caption n value hname := ⟨gentle_setAttr n, fun hn => by
    cases n with
    | text kind value => trivial
    | element tag cs rs => exact hn⟩

/-- A clause stands in a heading or in a row. -/
def HasBuriedClause (root : Node) : Prop :=
  ∃ n ∈ root.inside, (n.isNamed "h1" = true ∨ n.isNamed "tr" = true) ∧
    ∃ m ∈ n.inside, Clause.names.contains m.tag.name = true

instance (root : Node) : Decidable root.HasBuriedClause :=
  inferInstanceAs (Decidable (∃ n ∈ root.inside, _ ∧ _))

/-- What makes a document upright, said of one node. -/
structure Unburied (n : Node) : Prop where
  removed_eq : n.removed = []
  unburied : n.isNamed "h1" = true ∨ n.isNamed "tr" = true →
    ∀ m ∈ n.inside, Clause.names.contains m.tag.name = false

mutual
theorem upright_of_unburied {n : Node} (h : ∀ m ∈ n :: n.inside, m.Unburied) : n.Upright := by
  match n with
  | .text kind value => trivial
  | .element tag cs rs =>
    rw [List.forall_mem_cons] at h
    obtain ⟨⟨hremoved, hburied⟩, hinside⟩ := h
    obtain rfl : rs = [] := hremoved
    refine ⟨fun n hn => (List.not_mem_nil hn).elim, fun hname c hc mark hmark => ?_,
      uprightIn_of_unburied hinside⟩
    obtain ⟨t, ht, rfl⟩ := List.mem_map.1 hmark
    have hin : ∀ m ∈ c :: c.inside, m ∈ insideIn cs := fun m hm => mem_insideIn_iff.2 ⟨c, hc, hm⟩
    obtain ⟨m, hm, heq⟩ := exists_of_mem_keyed (fun m hm => (hinside m (hin m hm)).removed_eq) ht
    rw [← heq]
    exact hburied (by simpa [isNamed] using hname) m (hin m hm)

theorem uprightIn_of_unburied {ns : List Node} (h : ∀ m ∈ insideIn ns, m.Unburied) :
    UprightIn ns := by
  match ns with
  | [] => trivial
  | n :: ns =>
    rw [insideIn_cons, List.forall_mem_append] at h
    exact ⟨upright_of_unburied h.1, uprightIn_of_unburied h.2⟩
end

theorem AsRead.uprightIn {root : Node} (hread : AsRead root) (h : ¬root.HasBuriedClause) :
    UprightIn root.children := by
  cases root with
  | text kind value => trivial
  | element tag cs rs =>
    refine uprightIn_of_unburied fun m hm =>
      ⟨hread.unremoved m (List.mem_cons_of_mem _ hm), fun hname c hc => ?_⟩
    rw [← Bool.not_eq_true]
    exact fun hclause => h ⟨m, hm, hname, c, hc, hclause⟩

end Node

/-! ## Numbers for all clauses -/

namespace Survey

open Concordance.Action (Settles)

/-- A survey whose last number has enough counters for the next clause inside so many others, and in
which nothing but an id that is taken can fail. -/
structure Ready (depth : Nat) (s : Survey) : Prop where
  positive : s.numbering.Positive
  depth_le : depth ≤ s.numbering.counters.length
  settles : Settles (fun _ => False) none s.actions

variable {scope : String}

theorem ready_start : Ready 0 start :=
  ⟨Numbering.positive_start, Nat.le_refl 0, Action.settles_nil⟩

theorem Ready.mono {depth depth' : Nat} {s : Survey} (h : Ready depth s) (hle : depth' ≤ depth) :
    Ready depth' s := ⟨h.positive, hle.trans h.depth_le, h.settles⟩

theorem Ready.enter_of_not_clause {depth : Nat} {s : Survey} (h : Ready depth s) {node : Node}
    (hname : Clause.names.contains node.tag.name = false) (key : Nat) (around : List Clause)
    (scope : String) :
    (s.enter node key around scope).2.1 = around ∧
      Ready depth (s.enter node key around scope).2.2 := by
  obtain ⟨haround, hnumbering, hsettles⟩ := settles_enter_of_not_clause hname h.settles
  exact ⟨haround, hnumbering ▸ h.positive, hnumbering ▸ h.depth_le, hsettles⟩

/-- An element that is entered where the counters go deep enough can be followed by the elements in
it, and by those after it. -/
theorem Ready.enter {s : Survey} {around : List Clause} (h : Ready around.length s) (node : Node)
    (key : Nat) (scope : String) : around.length ≤ (s.enter node key around scope).2.1.length ∧
      Ready (s.enter node key around scope).2.1.length (s.enter node key around scope).2.2 := by
  cases hname : Clause.names.contains node.tag.name with
  | true =>
    rw [enter_of_clause hname]
    obtain ⟨hpos, hlength, hsettles⟩ := settles_clause_of_le h.positive h.depth_le h.settles
    exact ⟨Nat.le_succ _, hpos, hlength.ge, hsettles⟩
  | false =>
    obtain ⟨haround, hready⟩ := h.enter_of_not_clause hname key around scope
    rw [haround]
    exact ⟨Nat.le_refl _, hready⟩

/-- A visit to trees without clauses leaves the numbering as deep as it was. -/
theorem Ready.visitAll_of_clauseless {depth levels : Nat} {around : List Clause} {s : Survey}
    {ns : List Node} (h : Ready depth s) (hns : ∀ n ∈ ns, n.Clauseless) :
    Ready depth (visitAll (visit scope levels around) s ns).2 :=
  visitAll_induction (K := fun m => Clause.names.contains m.2 = false)
    (fun _ _ => visit_induction fun _ _ key around _ hname hs =>
      (hs.enter_of_not_clause hname key around scope).2) hns h

theorem ready_visitAll {visit : Survey → Node → Node × Survey} {depth : Nat}
    (hvisit : ∀ s n, n.Upright → Ready depth s → Ready depth (visit s n).2) {ns : List Node}
    (hns : UprightIn ns) {s : Survey} (h : Ready depth s) :
    Ready depth (visitAll visit s ns).2 := by
  induction ns generalizing s with
  | nil => exact h
  | cons n ns ih => exact ih hns.2 (hvisit s n hns.1 h)

/-- A visit to an upright tree leaves enough counters for the clauses after it. -/
theorem ready_visit {levels depth : Nat} {around : List Clause} (haround : around.length = depth)
    {s : Survey} {n : Node} (hn : n.Upright) (h : Ready depth s) :
    Ready depth (visit scope levels around s n).2 := by
  subst haround
  induction levels generalizing around s n with
  | zero => exact h
  | succ levels ih =>
    cases n with
    | text kind value => rwa [visit_text]
    | element tag cs rs =>
      cases hkey : tag.key with
      | none => rwa [visit_keyless hkey]
      | some key =>
        obtain ⟨tag', cs', rs', around', s', henter, -⟩ :=
          exists_enter scope s tag cs rs key around
        obtain ⟨hle, hs'⟩ := h.enter (.element tag cs rs) key scope
        have horderly : Orderly (.element tag cs rs)
            (s.enter (.element tag cs rs) key around scope).1 := enter_of_rewrites rewrites_orderly
        rw [henter] at hle hs' horderly
        obtain ⟨hrs, -, hcs⟩ := horderly.upright hn
        rw [visit_of_enter hkey henter]
        exact (ready_visitAll (fun _ _ => ih) hcs (hs'.visitAll_of_clauseless hrs)).mono hle

theorem ready_ofRoot {root : Node} (h : UprightIn root.children) : Ready 0 (ofRoot scope root).2 :=
  ready_visitAll (fun _ _ => ready_visit List.length_nil) h ready_start

end Survey

/-! ## Listings that can be written -/

/-- An operation whose id, reference and type are texts or missing. -/
def OperationEntry.Textual (o : OperationEntry) : Prop :=
  ∃ id refId forType : Option String,
    o.id = .ofOption id ∧ o.refId = .ofOption refId ∧ o.forType = .ofOption forType

theorem Json.exists_string_of_isSet {v : Option String} (h : (ofOption v).isSet = true) :
    ∃ s, ofOption v = .string s := by
  cases v with
  | none => cases h
  | some s => exact ⟨s, rfl⟩

/-- A textual operation with an anchor can be listed in every index. -/
theorem OperationEntry.Textual.isListable {o : OperationEntry} (h : o.Textual)
    (hset : o.anchor.isSet = true) (ix : Index) : Listing.isListable ix o = true := by
  obtain ⟨id, refId, forType, hid, href, hfor⟩ := h
  obtain ⟨s, hs⟩ : ∃ s, o.anchor = .string s := by
    unfold anchor at hset ⊢
    split at hset
    · next h =>
      rw [if_pos h, hid]
      exact Json.exists_string_of_isSet (hid ▸ h)
    · next h =>
      rw [if_neg h, href]
      exact Json.exists_string_of_isSet (href ▸ hset)
  rw [Listing.isListable, hs, Bool.and_eq_true]
  refine ⟨rfl, ?_⟩
  unfold Listing.labelOf
  split
  · rfl
  · split
    · next h =>
      obtain ⟨t, ht⟩ := Json.exists_string_of_isSet (hfor ▸ h)
      rw [hfor, ht]
      rfl
    · rw [hs]
      rfl

/-- In an index of textual operations every listing can be written. -/
theorem Listing.isWritable_of_textual {ix : Index} (hc : ix.Coherent)
    (htextual : ∀ o, .operation o ∈ ix.entries → o.Textual) (l : Listing) :
    l.isWritable ix = true := by
  rw [isWritable, List.all_eq_true]
  intro o ho
  rw [methods, List.mem_filter, hc.concreteMethods_eq, List.mem_filter] at ho
  have hmem := Entry.mem_operations_iff.1 ho.1.1
  exact (htextual o hmem).isListable (OperationEntry.isSet_anchor (hc.insertable _ hmem)) ix

/-- Every operation that a document declares is textual. -/
theorem Survey.textual_ofRoot (scope : String) (root : Node) :
    ∀ o, .operation o ∈ Action.additions (ofRoot scope root).2.actions → o.Textual := by
  have hall : ∀ e ∈ Action.additions (ofRoot scope root).2.actions,
      ∀ o, e = .operation o → o.Textual := by
    refine forall_additions_ofRoot ?_ ?_ scope root
    · rintro n around number scope - e he o rfl
      rcases Clause.mem_additions_ofNode he with
        ⟨scope', id, s, -, -, heq⟩ | ⟨c, heq, -⟩
      · cases heq
        exact ⟨none, some id, _, rfl, rfl, rfl⟩
      · cases heq
    · rintro n scope number h e he o rfl
      rcases MethodTable.mem_additions_ofNode h he with
        ⟨t, heq, -⟩ | ⟨tr, s, id, refId, -, -, heq⟩
      · cases heq
      · cases heq
        exact ⟨id, refId, none, rfl, rfl, rfl⟩
  exact fun o ho => hall _ ho o rfl

namespace Build

/-! ## First passes -/

/-- The first pass over a document ends with an index, or for an id that is there twice, or for a
clause that is refused a number; and that happens only if some clause stands in a heading or in a
row. -/
theorem firstPass_outcome {root : Node} (hread : AsRead root) (scope : String) :
    (∃ ix ds, firstPass (Survey.ofRoot scope root).2.actions = .ok (ix, ds)) ∨
      ∃ a, firstPass (Survey.ofRoot scope root).2.actions = .error a ∧
        (a.fault.IsTakenId ∨ Registry.IsRefusal a.fault ∧ root.HasBuriedClause) := by
  by_cases hburied : root.HasBuriedClause
  · refine (firstPass_cases (Survey.settles_ofRoot scope root)).imp_right ?_
    rintro ⟨a, ha, hfault⟩
    exact ⟨a, ha, hfault.imp_right (⟨·, hburied⟩)⟩
  · refine (firstPass_cases (Survey.ready_ofRoot (hread.uprightIn hburied)).settles).imp_right ?_
    rintro ⟨a, ha, hfault⟩
    exact ⟨a, ha, .inl (hfault.resolve_right id)⟩

/-- Where a clause is refused a number, some clause stands in a heading or in a row. -/
theorem hasBuriedClause_of_isRefusal {root : Node} (hread : AsRead root) {scope : String}
    {a : Aborted} (h : firstPass (Survey.ofRoot scope root).2.actions = .error a)
    (hfault : Registry.IsRefusal a.fault) : root.HasBuriedClause := by
  obtain ⟨depth, deepest, hf⟩ := hfault
  rcases firstPass_outcome hread scope with
    ⟨ix, ds, hok⟩ | ⟨a', ha', ⟨id, hid⟩ | ⟨-, hburied⟩⟩
  · rw [h] at hok
    cases hok
  · obtain rfl := Except.error.inj (h.symm.trans ha')
    rw [hf] at hid
    cases hid
  · exact hburied

/-- How the first pass over a document ends, told from what the document declares. -/
theorem firstPass_declared (scope : String) (root : Node) :
    (¬(Action.declared (Survey.ofRoot scope root).2.actions).Pairwise Entry.Apart ∧
      ∃ a, firstPass (Survey.ofRoot scope root).2.actions = .error a ∧ a.fault.IsTakenId) ∨
    ((Action.declared (Survey.ofRoot scope root).2.actions).Pairwise Entry.Apart ∧
      (Survey.ofRoot scope root).2.actions.any Action.isHalt = true ∧
      ∃ a, firstPass (Survey.ofRoot scope root).2.actions = .error a ∧
        Registry.IsRefusal a.fault) ∨
    ((Action.declared (Survey.ofRoot scope root).2.actions).Pairwise Entry.Apart ∧
      (Survey.ofRoot scope root).2.actions.any Action.isHalt = false ∧
      ∃ ix ds, firstPass (Survey.ofRoot scope root).2.actions = .ok (ix, ds)) := by
  rcases Action.fault_perform Index.open_empty (Survey.insertable_ofRoot scope root) with
    ⟨hnot, id, hf⟩ | ⟨hap, hany, f, hhalt, hf⟩ | ⟨hap, hany, hf⟩
  · exact .inl ⟨hnot, _, firstPass_of_fault hf, id, rfl⟩
  · exact .inr (.inl ⟨hap, hany, _, firstPass_of_fault hf, Survey.eq_noParent_of_halt hhalt⟩)
  · refine .inr (.inr ⟨hap, hany, ?_⟩)
    obtain ⟨hlinked, -⟩ :=
      Survey.settles_ofRoot scope root .empty Index.linked_empty (by simp)
    obtain ⟨ix, hix⟩ := hlinked.exists_freeze
    exact ⟨ix, _, firstPass_of_freeze hf hix⟩

/-! ## Where a build is given up -/

/-- A listing that cannot be written ends the second pass. -/
theorem expandAll_error {ix : Index} {ls : List Listing}
    (hw : ¬∀ l ∈ ls, l.isWritable ix = true) (p : Pass) :
    ∃ a, expandAll ix p ls = .error a ∧ a.fault = .listing := by
  induction ls generalizing p with
  | nil => exact absurd (fun l hl => (List.not_mem_nil hl).elim) hw
  | cons l ls ih =>
    rw [expandAll]
    by_cases hl : l.isWritable ix = true
    · have hls : ¬∀ l ∈ ls, l.isWritable ix = true := fun hls =>
        hw (List.forall_mem_cons.2 ⟨hl, hls⟩)
      have hexpand : ∃ r, expand ix p l = .ok r := ⟨_, if_pos hl⟩
      obtain ⟨⟨p₁, refs⟩, hexpand⟩ := hexpand
      obtain ⟨a, ha, hfault⟩ := ih hls p₁
      exact ⟨a, bind_error_iff.2 (.inr ⟨_, hexpand, bind_error_iff.2 (.inl ha)⟩), hfault⟩
    · exact ⟨_, bind_error_iff.2 (.inl (if_neg hl)), rfl⟩

section Outcome

variable {o : BuildOptions} {root : Node}

theorem run_of_firstPass_error {a : Aborted}
    (h : firstPass (Survey.ofRoot o.scope root).2.actions = .error a) : run o root = .error a :=
  bind_error_iff.2 (.inl h)

variable {ix : Index} {ds : List Diagnostic}
  (h : firstPass (Survey.ofRoot o.scope root).2.actions = .ok (ix, ds))
include h

theorem run_of_mergedIndex_error {f : Index.Fault} (hm : mergedIndex o ix = .error f) :
    run o root = .error ⟨.index f, ds⟩ := by
  refine bind_error_iff.2 (.inr ⟨(ix, ds), h, ?_⟩)
  dsimp only
  rw [hm]

theorem run_of_mergedIndex_ok {merged : Index} (hm : mergedIndex o ix = .ok merged) :
    run o root =
      secondPass o (Survey.ofRoot o.scope root).1 (Survey.ofRoot o.scope root).2 ix merged ds := by
  simp only [run, h, hm, bind, Except.bind]

/-- A build whose merged index cannot write some listing is given up there. -/
theorem run_of_not_isWritable {merged : Index} (hm : mergedIndex o ix = .ok merged)
    (hw : ¬∀ l ∈ (Survey.ofRoot o.scope root).2.listings, l.isWritable merged = true) :
    ∃ a, run o root = .error a ∧ a.fault = .listing := by
  obtain ⟨a, ha, hfault⟩ := expandAll_error hw ⟨_, (Survey.ofRoot o.scope root).1.keyBound, ds⟩
  refine ⟨a, ?_, hfault⟩
  rw [run_of_mergedIndex_ok h hm]
  exact bind_error_iff.2 (.inl ha)

/-- A build whose merged index can write all listings succeeds. -/
theorem exists_run_of_isWritable {merged : Index} (hm : mergedIndex o ix = .ok merged)
    (hw : ∀ l ∈ (Survey.ofRoot o.scope root).2.listings, l.isWritable merged = true) :
    ∃ b, run o root = .ok b ∧ secondPass o (Survey.ofRoot o.scope root).1
        (Survey.ofRoot o.scope root).2 ix merged ds = .ok b ∧
      b.index = ix ∧ b.merged = merged ∧ b.clauses = (Survey.ofRoot o.scope root).2.clauses ∧
      b.tables = (Survey.ofRoot o.scope root).2.tables := by
  refine ⟨_, (run_of_mergedIndex_ok h hm).trans (secondPass_ok_iff.2 ⟨hw, rfl⟩),
    secondPass_ok_iff.2 ⟨hw, rfl⟩, rfl, rfl, rfl, rfl⟩

end Outcome

/-! ## Builds without imports -/

/-- Where nothing is imported, the first pass decides how the build ends. -/
theorem exists_run_of_firstPass {o : BuildOptions} {root : Node} (hexternal : o.external = [])
    {ix : Index} {ds : List Diagnostic}
    (h : firstPass (Survey.ofRoot o.scope root).2.actions = .ok (ix, ds)) :
    ∃ b, run o root = .ok b := by
  have hmerged : mergedIndex o ix = .ok ix := by rw [mergedIndex, hexternal]; rfl
  obtain ⟨hc, -, hentries, -⟩ := firstPass_ok h
  have htextual : ∀ o, .operation o ∈ ix.entries → o.Textual := by
    rw [hentries]
    exact Survey.textual_ofRoot o.scope root
  obtain ⟨b, hb, -⟩ := exists_run_of_isWritable h hmerged fun l _ =>
    l.isWritable_of_textual hc htextual
  exact ⟨b, hb⟩

/-- **How a build without imports ends.** A document as it is read is built, or the build is given
up for an id that is there twice, or for a clause that is refused a number; and that happens only if
some clause of the document stands in a heading or in a row. -/
theorem run_outcome (o : BuildOptions) (root : Node) (hexternal : o.external = [])
    (hread : AsRead root) : (∃ b, run o root = .ok b) ∨
      ∃ a, run o root = .error a ∧
        (a.fault.IsTakenId ∨ Registry.IsRefusal a.fault ∧ root.HasBuriedClause) := by
  rcases firstPass_outcome hread o.scope with ⟨ix, ds, hfirst⟩ | ⟨a, hfirst, hfault⟩
  · exact .inl (exists_run_of_firstPass hexternal hfirst)
  · exact .inr ⟨a, run_of_firstPass_error hfirst, hfault⟩

/-- Two clauses with the same id. -/
def twins : Node :=
  (document [.new "emu-clause" [("id", "c")] [], .new "emu-clause" [("id", "c")] []]).withKeys

theorem run_outcome_twins :
    AsRead twins ∧ ¬twins.HasBuriedClause ∧
      ∃ a, run ⟨"ns", [], .strict⟩ twins = .error a ∧ a.fault.IsTakenId := by
  have hread : AsRead twins := asRead_withKeys (by
    simp [inside, insideIn, removed, document, Node.new])
  have hburied : ¬twins.HasBuriedClause := by decide +kernel
  refine ⟨hread, hburied, ?_⟩
  rcases run_outcome ⟨"ns", [], .strict⟩ twins rfl hread with ⟨b, hb⟩ | ⟨a, ha, hfault⟩
  · -- a document that is built has an index without a repeated id
    obtain ⟨ix, ds, merged, hfirst, -⟩ := run_ok_iff.1 hb
    obtain ⟨hc, -, hentries, -⟩ := firstPass_ok hfirst
    have hids : (Entry.ids (Action.additions (Survey.ofRoot "ns" twins).2.actions)).Nodup :=
      hentries ▸ hc.nodup_ids
    exact absurd hids (by decide +kernel)
  · exact ⟨a, ha, hfault.resolve_right fun h => hburied h.2⟩

/-- The fault of a clause without a number. -/
def numberingFault? : BuildFault → Option Numbering.Fault
  | .numbering f => some f
  | _ => none

/-- A clause whose heading, an operation header, has a clause in it. -/
def buried : Node :=
  (document
    [.new "emu-clause" []
      [.new "emu-clause" [("type", "abstract operation")]
        [.new "h1" [] [.plain "F()", .new "emu-clause" [] []],
         .new "emu-clause" [] []]]]).withKeys

/-- The clause in the header is numbered at the outermost level, so the one after the header is
refused a number: no id is there twice, and still the build is given up. -/
theorem run_outcome_buried :
    AsRead buried ∧ ∃ a, run ⟨"ns", [], .strict⟩ buried = .error a ∧
      a.fault = .numbering (.noParent 2 1) ∧ ¬a.fault.IsTakenId := by
  refine ⟨asRead_withKeys (by simp [inside, insideIn, removed, document, Node.new, Node.plain]), ?_⟩
  have hfault : (Action.perform .empty (Survey.ofRoot "ns" buried).2.actions).fault.bind
      numberingFault? = some (.noParent 2 1) := by decide +kernel
  obtain ⟨f, hf, hnumbering⟩ := Option.bind_eq_some_iff.1 hfault
  cases f with
  | numbering g =>
    obtain rfl := Option.some.inj hnumbering
    refine ⟨_, run_of_firstPass_error (firstPass_of_fault hf), rfl, ?_⟩
    rintro ⟨id, hid⟩
    cases hid
  | _ => cases hnumbering

end Build

end Concordance
