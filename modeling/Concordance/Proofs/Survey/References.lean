import Concordance.Proofs.Survey.Collected

/-!
# References in a survey

A reference is taken down with the namespace that holds where the survey comes upon it. The survey
comes upon an element where it stands by then: among the children of the elements around it, or
among the nodes removed from one of them, with no clauses around it but those that were removed with
it. So `allXrefs` lists the references of a tree with the clauses around each, and begins anew at
removed nodes; a survey takes down the references of the surveyed document in the order of this
list, each with the namespace that its place in the list gives (`recorded_ofRoot`).

Rewriting never loses a reference, and what it removes is kept with the innermost of the clauses
around it (`Kept`). Outside headings and rows every reference stays in its place (`PlacesXrefs`).
-/

namespace Concordance

open Node

namespace Node

/-! ## The references of a tree -/

/-- Whether an element is a heading or a row. -/
def isHeader (tag : Tag) : Bool := tag.name = "h1" || tag.name = "tr"

/-- The reference that an element is, with the clauses around it. -/
def xrefHere (around : List Tag) (tag : Tag) : List (List Tag × Tag) :=
  if tag.name = "emu-xref" then [(around, tag)] else []

mutual
/-- The references that stand in a tree, each with the clauses around it, innermost first; those in
headings and rows are where they are asked for. -/
def xrefs (headers : Bool) (around : List Tag) : Node → List (List Tag × Tag)
  | .text _ _ => []
  | .element tag children _ =>
    if tag.key.isNone then []
    else xrefHere around tag ++
      if headers || !isHeader tag then xrefsIn headers (aroundInside around tag) children else []

/-- The references that stand in trees. -/
def xrefsIn (headers : Bool) (around : List Tag) : List Node → List (List Tag × Tag)
  | [] => []
  | n :: ns => n.xrefs headers around ++ xrefsIn headers around ns
end

mutual
/-- The references of a tree in the order of a visit, also those that have been removed, which have
no clauses around them but the removed ones. -/
def allXrefs (around : List Tag) : Node → List (List Tag × Tag)
  | .text _ _ => []
  | .element tag children removed =>
    if tag.key.isNone then []
    else xrefHere around tag ++
      (allXrefsIn [] removed ++ allXrefsIn (aroundInside around tag) children)

/-- The references of trees, also those that have been removed. -/
def allXrefsIn (around : List Tag) : List Node → List (List Tag × Tag)
  | [] => []
  | n :: ns => n.allXrefs around ++ allXrefsIn around ns
end

@[simp] theorem allXrefsIn_append (around : List Tag) (ns ms : List Node) :
    allXrefsIn around (ns ++ ms) = allXrefsIn around ns ++ allXrefsIn around ms := by
  induction ns with
  | nil => rfl
  | cons n ns ih => rw [List.cons_append, allXrefsIn, ih, allXrefsIn, List.append_assoc]

mutual
theorem mem_allXrefs_of_mem_xrefs {headers : Bool} {around : List Tag} {n : Node}
    {x : List Tag × Tag} (hx : x ∈ n.xrefs headers around) : x ∈ n.allXrefs around := by
  match n with
  | .text kind value => cases hx
  | .element tag cs rs =>
    rw [xrefs] at hx
    rw [allXrefs]
    split at hx
    · cases hx
    · next hkey =>
      rw [if_neg hkey]
      rcases List.mem_append.1 hx with hx | hx
      · exact List.mem_append_left _ hx
      · split at hx
        · exact List.mem_append_right _
            (List.mem_append_right _ (mem_allXrefsIn_of_mem_xrefsIn hx))
        · cases hx

theorem mem_allXrefsIn_of_mem_xrefsIn {headers : Bool} {around : List Tag} {ns : List Node}
    {x : List Tag × Tag} (hx : x ∈ xrefsIn headers around ns) : x ∈ allXrefsIn around ns := by
  match ns with
  | [] => cases hx
  | n :: ns =>
    rw [allXrefsIn, List.mem_append]
    exact (List.mem_append.1 hx).imp mem_allXrefs_of_mem_xrefs mem_allXrefsIn_of_mem_xrefsIn
end

theorem mem_keyed_of_mem_children {n : Node} {t : Tag} (ht : t ∈ keyedIn n.children) :
    t ∈ n.keyed := by
  cases n with
  | text kind value => cases ht
  | element tag cs rs => exact List.mem_append_right _ (List.mem_append_left _ ht)

mutual
/-- The references of a tree are elements of it, and no element is a reference twice. -/
theorem count_allXrefs_le (t : Tag) (around : List Tag) (n : Node) :
    ((n.allXrefs around).map (·.2)).count t ≤ n.keyed.count t := by
  match n with
  | .text kind value => exact Nat.le_refl 0
  | .element tag cs rs =>
    have hcs := countIn_allXrefsIn_le t (aroundInside around tag) cs
    have hrs := countIn_allXrefsIn_le t [] rs
    have hhere : ((xrefHere around tag).map (·.2)).count t ≤ [tag].count t := by
      unfold xrefHere
      split
      · exact Nat.le_refl _
      · exact Nat.zero_le _
    rw [allXrefs, keyed]
    cases hkey : tag.key with
    | none => simp
    | some key =>
      simp only [Option.isNone_some, Option.isSome_some, Bool.false_eq_true, if_false, if_true,
        List.map_append, List.count_append]
      omega

theorem countIn_allXrefsIn_le (t : Tag) (around : List Tag) (ns : List Node) :
    ((allXrefsIn around ns).map (·.2)).count t ≤ (keyedIn ns).count t := by
  match ns with
  | [] => exact Nat.le_refl 0
  | n :: ns =>
    have hn := count_allXrefs_le t around n
    have hns := countIn_allXrefsIn_le t around ns
    rw [allXrefsIn, keyedIn, List.map_append, List.count_append, List.count_append]
    omega
end

theorem mem_keyedIn_of_mem_allXrefsIn {around : List Tag} {ns : List Node} {x : List Tag × Tag}
    (hx : x ∈ allXrefsIn around ns) : x.2 ∈ keyedIn ns :=
  List.count_pos_iff.1 ((List.count_pos_iff.2 (List.mem_map_of_mem hx)).trans_le
    (countIn_allXrefsIn_le x.2 around ns))

/-- Where the keys of trees are distinct, so are those of their references. -/
theorem nodup_keys_allXrefsIn (around : List Tag) {ns : List Node} (hkeys : (keysIn ns).Nodup) :
    ((allXrefsIn around ns).map fun x => x.2.key).Nodup := by
  have hnodup := nodup_map_key hkeys
  have hcount := List.nodup_iff_count_le_one.1 (List.Nodup.of_map _ hnodup)
  have htags : ((allXrefsIn around ns).map (·.2)).Nodup := List.nodup_iff_count_le_one.2 fun t =>
    (countIn_allXrefsIn_le t around ns).trans (hcount t)
  have hmem : ∀ t ∈ (allXrefsIn around ns).map (·.2), t ∈ keyedIn ns := fun t ht => by
    obtain ⟨x, hx, rfl⟩ := List.mem_map.1 ht
    exact mem_keyedIn_of_mem_allXrefsIn hx
  have hmap := htags.map_on fun t ht t' ht' heq =>
    List.inj_on_of_nodup_map hnodup (hmem t ht) (hmem t' ht') heq
  rwa [List.map_map] at hmap

/-- Where the keys of trees are distinct, no reference stands in two places. -/
theorem eq_of_mem_allXrefsIn {around : List Tag} {ns : List Node} (hkeys : (keysIn ns).Nodup)
    {x y : List Tag × Tag} (hx : x ∈ allXrefsIn around ns) (hy : y ∈ allXrefsIn around ns)
    (hkey : x.2.key = y.2.key) : x = y :=
  List.inj_on_of_nodup_map (nodup_keys_allXrefsIn around hkeys) hx hy hkey

/-! ## References that are kept -/

/-- Every reference of one list is in the other, with the innermost of the clauses around it. -/
def Kept (xs ys : List (List Tag × Tag)) : Prop :=
  ∀ x ∈ xs, ∃ inner, inner <+: x.1 ∧ (inner, x.2) ∈ ys

namespace Kept

variable {xs xs' ys ys' zs : List (List Tag × Tag)}

theorem of_subset (h : xs ⊆ ys) : Kept xs ys := fun x hx => ⟨x.1, List.prefix_rfl, h hx⟩

theorem refl (xs : List (List Tag × Tag)) : Kept xs xs := of_subset (List.Subset.refl xs)

theorem trans (h : Kept xs ys) (h' : Kept ys zs) : Kept xs zs := fun x hx => by
  obtain ⟨inner, hprefix, hy⟩ := h x hx
  obtain ⟨inner', hprefix', hz⟩ := h' _ hy
  exact ⟨inner', hprefix'.trans hprefix, hz⟩

theorem append (h : Kept xs ys) (h' : Kept xs' ys') : Kept (xs ++ xs') (ys ++ ys') :=
  fun x hx => by
    rcases List.mem_append.1 hx with hx | hx
    · obtain ⟨inner, hprefix, hy⟩ := h x hx
      exact ⟨inner, hprefix, List.mem_append_left _ hy⟩
    · obtain ⟨inner, hprefix, hy⟩ := h' x hx
      exact ⟨inner, hprefix, List.mem_append_right _ hy⟩

end Kept

theorem aroundInside_append (inner around : List Tag) (tag : Tag) :
    aroundInside (inner ++ around) tag = aroundInside inner tag ++ around := by
  unfold aroundInside
  split <;> rfl

mutual
/-- A tree that is taken out of some clauses keeps its references, with the clauses inside it. -/
theorem kept_of_append (inner around : List Tag) (n : Node) :
    Kept (n.allXrefs (inner ++ around)) (n.allXrefs inner) := by
  match n with
  | .text kind value => exact .refl []
  | .element tag cs rs =>
    rw [allXrefs, allXrefs, aroundInside_append]
    split
    · exact .refl []
    · refine .append ?_ (.append (.refl _) (keptIn_of_append _ around cs))
      intro x hx
      unfold xrefHere at hx ⊢
      split at hx
      · next hname =>
        obtain rfl := List.mem_singleton.1 hx
        rw [if_pos hname]
        exact ⟨inner, List.prefix_append _ _, List.mem_cons_self⟩
      · cases hx

theorem keptIn_of_append (inner around : List Tag) (ns : List Node) :
    Kept (allXrefsIn (inner ++ around) ns) (allXrefsIn inner ns) := by
  match ns with
  | [] => exact .refl []
  | n :: ns => exact .append (kept_of_append inner around n) (keptIn_of_append inner around ns)
end

/-- What is made of a tree keeps its references. -/
structure KeepsXrefs (n n' : Node) : Prop where
  kept : ∀ around, Kept (n.allXrefs around) (n'.allXrefs around)

/-- What is made of a tree keeps its references, and those outside headings and rows stay in their
places. -/
structure PlacesXrefs (n n' : Node) : Prop extends KeepsXrefs n n' where
  placed : ∀ around, ∀ x ∈ n.xrefs false around, x ∈ n'.xrefs false around

section Lists

variable {ns ns' : List Node}

theorem kept_of_forall₂ (h : List.Forall₂ KeepsXrefs ns ns') (around : List Tag) :
    Kept (allXrefsIn around ns) (allXrefsIn around ns') := by
  induction h with
  | nil => exact .refl []
  | cons h _ ih => exact .append (h.kept around) ih

theorem placed_of_forall₂ (h : List.Forall₂ PlacesXrefs ns ns') (around : List Tag) :
    ∀ x ∈ xrefsIn false around ns, x ∈ xrefsIn false around ns' := by
  induction h with
  | nil => exact fun _ => id
  | cons h _ ih =>
    intro x hx
    rw [xrefsIn, List.mem_append]
    exact (List.mem_append.1 hx).imp (h.placed around x) (ih x)

end Lists

theorem keepsXrefs_element (tag : Tag) {cs cs' rs rs' : List Node}
    (hcs : List.Forall₂ KeepsXrefs cs cs') (hrs : List.Forall₂ KeepsXrefs rs rs') :
    KeepsXrefs (.element tag cs rs) (.element tag cs' rs') := by
  refine ⟨fun around => ?_⟩
  rw [allXrefs, allXrefs]
  split
  · exact .refl []
  · exact .append (.refl _) (.append (kept_of_forall₂ hrs _) (kept_of_forall₂ hcs _))

/-- Contents that are replaced are removed, and what is removed has lost the clauses around it. -/
theorem keepsXrefs_replaceChildren (ns : List Node) (n : Node) :
    KeepsXrefs n (replaceChildren ns n) := by
  refine ⟨fun around => ?_⟩
  cases n with
  | text kind value => exact .refl _
  | element tag cs rs =>
    rw [replaceChildren, allXrefs, allXrefs]
    split
    · exact .refl []
    · rw [allXrefsIn_append]
      refine .append (.refl _) (.trans (.append (.refl _) (keptIn_of_append [] _ cs)) ?_)
      exact .of_subset (List.subset_append_left _ _)

theorem keepsXrefs_prepend (m n : Node) : KeepsXrefs n (prepend m n) := by
  refine ⟨fun around => ?_⟩
  cases n with
  | text kind value => exact .refl _
  | element tag cs rs =>
    rw [prepend, allXrefs, allXrefs]
    split
    · exact .refl []
    · exact .append (.refl _) (.append (.refl _) (.of_subset (List.subset_append_right _ _)))

theorem typesets_keepsXrefs : Typesets KeepsXrefs where
  refl _ := ⟨fun _ => .refl _⟩
  element tag := keepsXrefs_element tag
  replace _ := keepsXrefs_replaceChildren _
  prepend _ := keepsXrefs_prepend _

/-- No reference outside headings and rows is in a heading or a row. -/
theorem xrefs_of_isHeader {n : Node} (h : n.isNamed "h1" = true ∨ n.isNamed "tr" = true)
    (around : List Tag) : n.xrefs false around = [] := by
  cases n with
  | text kind value => rfl
  | element tag cs rs =>
    simp only [isNamed, decide_eq_true_eq] at h
    have hheader : isHeader tag = true := by simpa [isHeader] using h
    have hname : tag.name ≠ "emu-xref" := by
      rcases h with h | h
      · rw [h]
        decide
      · rw [h]
        decide
    rw [xrefs, xrefHere, if_neg hname, hheader]
    split <;> rfl

/-- A table gets no other references with a caption. -/
theorem placesXrefs_setAttr {n : Node} (name value : String) (hname : n.tag.name = "emu-table") :
    PlacesXrefs n (n.setAttr name value) := by
  cases n with
  | text kind value => exact ⟨⟨fun _ => .refl _⟩, fun _ _ => id⟩
  | element tag cs rs =>
    rw [tag_element] at hname
    have hclause : ∀ t : Tag, t.name = "emu-table" → ∀ around, aroundInside around t = around :=
      fun t ht _ => aroundInside_of_not_clause (by rw [ht]; decide)
    have hhere : ∀ t : Tag, t.name = "emu-table" → ∀ around, xrefHere around t = [] :=
      fun t ht _ => if_neg (by rw [ht]; decide)
    have hset : (tag.set name value).name = "emu-table" := hname
    have hkey : (tag.set name value).key = tag.key := rfl
    have hheader : isHeader (tag.set name value) = isHeader tag := rfl
    refine ⟨⟨fun around => ?_⟩, fun around => ?_⟩
    · rw [setAttr, allXrefs, allXrefs, hkey, hhere _ hset, hhere _ hname, hclause _ hset,
        hclause _ hname]
      exact .refl _
    · rw [setAttr, xrefs, xrefs, hkey, hheader, hhere _ hset, hhere _ hname, hclause _ hset,
        hclause _ hname]
      exact fun _ => id

theorem rewrites_placesXrefs : Rewrites KeepsXrefs PlacesXrefs where
  refl _ := ⟨⟨fun _ => .refl _⟩, fun _ _ => id⟩
  element tag hcs hrs := by
    refine ⟨keepsXrefs_element tag (hcs.imp fun _ _ => PlacesXrefs.toKeepsXrefs)
      (hrs.imp fun _ _ => PlacesXrefs.toKeepsXrefs), fun around x => ?_⟩
    rw [xrefs, xrefs]
    split
    · exact id
    · rw [List.mem_append, List.mem_append]
      refine Or.imp_right ?_
      split
      · exact placed_of_forall₂ hcs _ x
      · exact id
  typesets := typesets_keepsXrefs
  trans h h' := ⟨⟨fun around => (h.kept around).trans (h'.kept around)⟩,
    fun around x hx => h'.placed around x (h.placed around x hx)⟩
  header hname h := ⟨h, fun around x hx => by
    rw [xrefs_of_isHeader hname] at hx
    cases hx⟩
  caption _ value hname := placesXrefs_setAttr "caption" value hname

end Node

/-! ## What is taken down -/

theorem Clause.tag_modifyHeading (f : Node → Node) (n : Node) :
    (modifyHeading f n).tag = n.tag := by
  unfold modifyHeading
  split
  · cases n <;> rfl
  · rfl

namespace Survey

variable {scope : String}

theorem tag_clause (s : Survey) (n : Node) (around : List Clause) (scope : String) :
    (s.clause n around scope).2.1.tag = n.tag := by
  unfold Survey.clause
  split
  · next numbering number _ =>
    change (Clause.modifyHeading _ (Clause.declare _ n).2.1).tag = n.tag
    rw [Clause.tag_modifyHeading]
    rcases Clause.declare_node_cases (.undeclared n around number scope) n with h | ⟨_, h⟩
    · rw [h]
    · rw [h, Clause.tag_modifyHeading]
  · rfl

/-- What is taken down of a reference: its key and the namespace that holds in the clauses around
it. -/
def taken (scope : String) (xs : List (List Tag × Tag)) : List (Option Nat × String) :=
  xs.map fun x => (x.2.key, scopeIn scope x.1)

/-- What a survey has taken down of references. -/
def recorded (s : Survey) : List (Option Nat × String) :=
  s.references.map fun r => (some r.key, r.scope)

theorem taken_append (scope : String) (xs ys : List (List Tag × Tag)) :
    taken scope (xs ++ ys) = taken scope xs ++ taken scope ys := List.map_append

/-- Entering an element: the clauses around its children are those by its tag then, and if it is a
reference, it is taken down. -/
theorem recorded_enter (s : Survey) {tag : Tag} {cs rs : List Node} {key : Nat}
    {around : List Clause} {chain : List Tag} (hkey : tag.key = some key)
    (h : Stands scope around chain) {tag' : Tag} {cs' rs' : List Node} {around' : List Clause}
    {s' : Survey}
    (henter : s.enter (.element tag cs rs) key around scope = (.element tag' cs' rs', around', s'))
    (hmark : tag'.mark = tag.mark) : Stands scope around' (aroundInside chain tag') ∧
      s'.recorded = s.recorded ++ taken scope (xrefHere chain tag') := by
  obtain ⟨hkey', hname'⟩ := Prod.mk.inj hmark
  have hother : tag'.name ≠ "emu-xref" → s'.references = s.references →
      s'.recorded = s.recorded ++ taken scope (xrefHere chain tag') := fun hne heq => by
    rw [xrefHere, if_neg hne, recorded, recorded, heq]
    exact (List.append_nil _).symm
  rcases enter_cases s (.element tag cs rs) key around scope with
    ⟨hname, h'⟩ | ⟨hname, h'⟩ | ⟨hname, h'⟩ | ⟨hname, h'⟩ | ⟨hclause, -, hxref, -, h'⟩
  · rw [tag_element, ← hname'] at hname
    obtain ⟨-, hstands⟩ := @tally_clause scope false s (.element tag cs rs) _ _ h
    rw [henter] at h'
    obtain ⟨hnode, hrest⟩ := Prod.mk.inj h'
    obtain ⟨rfl, rfl⟩ := Prod.mk.inj hrest
    have htag : tag' = tag := by
      have := tag_clause s (.element tag cs rs) around scope
      rwa [← hnode] at this
    refine ⟨?_, hother (fun heq => by rw [heq] at hname; cases hname) ?_⟩
    · rw [aroundInside, if_pos hname, htag]
      exact hstands
    · unfold Survey.clause
      split <;> rfl
  · rw [tag_element, ← hname'] at hname
    rw [henter] at h'
    obtain ⟨-, hrest⟩ := Prod.mk.inj h'
    obtain ⟨rfl, rfl⟩ := Prod.mk.inj hrest
    rw [aroundInside_of_not_clause (by rw [hname]; decide)]
    exact ⟨h, hother (by rw [hname]; decide) rfl⟩
  · rw [tag_element] at hname
    rw [henter] at h'
    obtain ⟨hnode, hrest⟩ := Prod.mk.inj h'
    obtain ⟨rfl, rfl⟩ := Prod.mk.inj hrest
    obtain ⟨rfl, -, -⟩ := Node.element.inj hnode
    rw [aroundInside_of_not_clause (by rw [hname]; decide), xrefHere, if_pos hname, h.scope_eq]
    refine ⟨h, ?_⟩
    simp [recorded, taken, Survey.reference, hkey]
  · rw [tag_element, ← hname'] at hname
    rw [henter] at h'
    obtain ⟨-, hrest⟩ := Prod.mk.inj h'
    obtain ⟨rfl, rfl⟩ := Prod.mk.inj hrest
    rw [aroundInside_of_not_clause (by rw [hname]; decide)]
    refine ⟨h, hother (by rw [hname]; decide) ?_⟩
    unfold Survey.listing
    split <;> rfl
  · rw [tag_element, ← hname'] at hclause hxref
    rw [henter] at h'
    obtain ⟨-, hrest⟩ := Prod.mk.inj h'
    obtain ⟨rfl, rfl⟩ := Prod.mk.inj hrest
    rw [aroundInside_of_not_clause hclause]
    exact ⟨h, hother hxref rfl⟩

theorem recorded_visitAll {visit : Survey → Node → Node × Survey} {levels : Nat}
    {chain : List Tag} (hvisit : ∀ s n, n.depth ≤ levels →
      (visit s n).2.recorded = s.recorded ++ taken scope ((visit s n).1.allXrefs chain))
    {ns : List Node} (hdepth : depthIn ns ≤ levels) (s : Survey) :
    (visitAll visit s ns).2.recorded =
      s.recorded ++ taken scope (allXrefsIn chain (visitAll visit s ns).1) := by
  induction ns generalizing s with
  | nil => exact (List.append_nil _).symm
  | cons n ns ih =>
    rw [depthIn] at hdepth
    rw [visitAll_cons, allXrefsIn, taken_append, ih (by omega), hvisit s n (by omega),
      List.append_assoc]

/-- A visit takes down the references that are in the tree when it has been visited, each with the
namespace of its place. -/
theorem recorded_visit {levels : Nat} {around : List Clause} {chain : List Tag} {s : Survey}
    {n : Node} (hlevels : n.depth ≤ levels) (h : Stands scope around chain) :
    (visit scope levels around s n).2.recorded =
      s.recorded ++ taken scope ((visit scope levels around s n).1.allXrefs chain) := by
  induction levels generalizing around chain s n with
  | zero =>
    cases n with
    | text kind value => exact (List.append_nil _).symm
    | element tag cs rs =>
      cases hkey : tag.key with
      | none =>
        rw [visit_keyless hkey, allXrefs, hkey]
        exact (List.append_nil _).symm
      | some key => simp [depth, hkey] at hlevels
  | succ levels ih =>
    cases n with
    | text kind value => exact (List.append_nil _).symm
    | element tag cs rs =>
      cases hkey : tag.key with
      | none =>
        rw [visit_keyless hkey, allXrefs, hkey]
        exact (List.append_nil _).symm
      | some key =>
        obtain ⟨tag', cs', rs', around', s', henter, hgentle⟩ :=
          exists_enter scope s tag cs rs key around
        have hmark : tag'.mark = tag.mark := Option.some.inj hgentle.mark
        have hkey' : tag'.key = some key := ((Prod.mk.inj hmark).1).trans hkey
        obtain ⟨hstands, hhere⟩ := recorded_enter s hkey h henter hmark
        have hdepth := hgentle.depth_le.trans hlevels
        simp only [depth, hkey', Option.isSome_some, if_true] at hdepth
        rw [visit_of_enter hkey henter, allXrefs, hkey']
        simp only [Option.isNone_some, Bool.false_eq_true, if_false]
        rw [recorded_visitAll (fun s n hn => ih hn hstands) (by omega),
          recorded_visitAll (fun s n hn => ih hn .nil) (by omega), hhere, taken_append,
          taken_append, List.append_assoc, List.append_assoc]

theorem nodup_keysIn_ofRoot {root : Node} (hkeys : root.keys.Nodup) :
    (keysIn (ofRoot scope root).1.children).Nodup := by
  have hgentle : Gentle root (ofRoot scope root).1 := gentle_ofRoot root
  have hnodup := hgentle.keys.nodup_iff.2 hkeys
  cases hroot : (ofRoot scope root).1 with
  | text kind value => exact List.nodup_nil
  | element tag cs rs =>
    rw [hroot, keys_element] at hnodup
    exact (List.nodup_append.1 (List.nodup_append.1 hnodup).2.1).1

/-- A survey keeps the references of a document, and leaves those outside headings and rows in
their places. -/
theorem xrefs_ofRoot (scope : String) (root : Node) :
    Kept (allXrefsIn [] root.children) (allXrefsIn [] (ofRoot scope root).1.children) ∧
      ∀ x ∈ xrefsIn false [] root.children,
        x ∈ xrefsIn false [] (ofRoot scope root).1.children := by
  have h : List.Forall₂ PlacesXrefs root.children (ofRoot scope root).1.children := by
    cases root with
    | text kind value => exact .nil
    | element tag cs rs => exact forall₂_visitAll (visit_of_rewrites rewrites_placesXrefs _ _) _ _
  exact ⟨kept_of_forall₂ (h.imp fun _ _ => PlacesXrefs.toKeepsXrefs) [], placed_of_forall₂ h []⟩

/-- A survey takes down the references that are in the document when it has been surveyed, each with
the namespace of its place. -/
theorem recorded_ofRoot (scope : String) (root : Node) :
    (ofRoot scope root).2.recorded =
      taken scope (allXrefsIn [] (ofRoot scope root).1.children) := by
  cases root with
  | text kind value => rfl
  | element tag cs rs =>
    have hle := depthIn_le_heightIn cs
    refine recorded_visitAll (fun s n hn => recorded_visit hn .nil) ?_ start
    rw [height, children]
    omega

/-- No reference is taken down twice. -/
theorem nodup_references {root : Node} (hkeys : root.keys.Nodup) :
    ((ofRoot scope root).2.references.map (·.key)).Nodup := by
  have hrecorded := congrArg (List.map Prod.fst) (recorded_ofRoot scope root)
  rw [recorded, taken, List.map_map, List.map_map] at hrecorded
  refine List.Nodup.of_map some ?_
  rw [List.map_map]
  exact hrecorded ▸ nodup_keys_allXrefsIn [] (nodup_keysIn_ofRoot hkeys)

end Survey

end Concordance
