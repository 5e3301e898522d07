import Concordance.Proofs.Build.Links
import Concordance.Proofs.Survey.Definitions

/-!
# Listings of a built document

A document is rewritten in many places after a listing has got its list: other listings get theirs,
and references get links. None of this takes the list away from the end of its element
(`Node.EndsInList.modify`), and each item of it is rewritten at the one reference in it, when that
is resolved (`Node.foldl_settle_of_mem`).

In a document without imports the methods that a listing names are those that the clauses of the
document define, in order (`forall₂_methods`), and the clause of each is found again under the
anchor of the method (`exists_find?_id`), so its number is in the label. The main statement is
`listings_complete`.
-/

namespace Concordance

open Node

/-! ## The list of an element -/

namespace Node

/-- The element with a key has a list with these items for its last child. -/
def EndsInList (root : Node) (k : Nat) (items : List Node) : Prop :=
  ∃ tag cs rs,
    root.find? k = some (.element tag (cs ++ [.element ⟨"ul", [], none⟩ items []]) rs)

theorem find?_append_of_notMem {child : Node} {k : Nat} (h : k ∉ child.keys) {tag : Tag}
    (htag : tag.key ≠ some k) (cs rs : List Node) :
    (append child (.element tag cs rs)).find? k = (element tag cs rs).find? k := by
  rw [append, find?, find?, if_neg htag, if_neg htag, findIn?_append, findIn?, find?_eq_none h,
    findIn?, Option.or_none, Option.or_none]

theorem find?_linked_of_ne {k : Nat} {tag : Tag} (h : tag.key ≠ some k) (t : Target)
    (cs rs : List Node) :
    (Reference.linked t (.element tag cs rs)).find? k = (element tag cs rs).find? k := by
  have hcontents : findIn? k (if cs.any (!·.isBlank) then cs else [.plain t.label]) =
      findIn? k cs := by
    split
    · rfl
    · next hblank =>
      have hno : k ∉ keysIn cs := by simp [keysIn, Reference.keyedIn_of_blank hblank]
      rw [findIn?_eq_none hno]
      rfl
  rw [Reference.linked_element, find?, find?, if_neg h, if_neg h, findIn?, find?, hcontents]
  simp [findIn?]

/-- An element that a list is put at the end of ends in it. -/
theorem endsInList_append {root : Node} {k : Nat} (hk : k ∈ root.keys) (items : List Node) :
    (root.modify k (append (.new "ul" [] items))).EndsInList k items := by
  obtain ⟨m, hm⟩ := Option.isSome_iff_exists.1 (find?_isSome_iff.2 hk)
  obtain ⟨tag, cs, rs, rfl, -⟩ := exists_of_find? hm
  refine ⟨tag, cs, rs, ?_⟩
  rw [find?_modify_self (fun _ _ _ => ⟨_, _, rfl⟩), hm]
  rfl

namespace EndsInList

variable {root : Node} {k : Nat} {items : List Node} (h : root.EndsInList k items)
include h

theorem mem_keys : k ∈ root.keys := by
  obtain ⟨tag, cs, rs, hfind⟩ := h
  exact find?_isSome_iff.1 (by rw [hfind]; rfl)

/-- A change elsewhere in the tree changes the items of the list and takes none away. -/
theorem modify (hkeys : root.keys.Nodup) {j : Nat} {f : Node → Node} (hne : k ≠ j)
    (hf : ∀ tag cs rs, tag.key = some j →
      (f (.element tag cs rs)).find? k = (element tag cs rs).find? k) :
    (root.modify j f).EndsInList k (items.map (Node.modify j f)) := by
  obtain ⟨tag, cs, rs, hfind⟩ := h
  obtain ⟨_, _, _, heq, hk⟩ := exists_of_find? hfind
  obtain ⟨rfl, -, -⟩ := element.inj heq
  refine ⟨tag, modifyIn j f cs, modifyIn j f rs, ?_⟩
  rw [find?_modify_of_ne hne hf hkeys, hfind, Option.map_some,
    modify_of_ne (by rw [hk]; simpa using hne), modifyIn_append, ← modifyIn_eq_map]
  rfl

theorem settle (hkeys : root.keys.Nodup) (target? : Reference → Option Target) {r : Reference}
    (hr : r.key ≠ k) : (Reference.settle target? root r).EndsInList k
      (items.map (Reference.settle target? · r)) := by
  unfold Reference.settle
  split
  · exact h.modify hkeys hr.symm fun tag cs rs hk =>
      find?_linked_of_ne (by rw [hk]; simpa using hr) _ cs rs
  · rwa [List.map_id']

/-- Links elsewhere in the tree change the items of a list, each for itself. -/
theorem foldl_settle (hkeys : root.keys.Nodup) (target? : Reference → Option Target)
    {rs : List Reference} (hrs : ∀ r ∈ rs, r.key ≠ k) :
    (rs.foldl (Reference.settle target?) root).EndsInList k
      (items.map fun n => rs.foldl (Reference.settle target?) n) := by
  induction rs generalizing root items with
  | nil => simpa using h
  | cons r rs ih =>
    rw [List.forall_mem_cons] at hrs
    have hrest := ih (h.settle hkeys target? hrs.1)
      (by rwa [Node.keys, Reference.keyed_settle, ← Node.keys]) hrs.2
    rw [List.map_map] at hrest
    exact hrest

end EndsInList

/-! ## Links in an item -/

section Item

variable {target? : Reference → Option Target} {rs : List Reference} {n : Node}

theorem settle_of_notMem {r : Reference} (h : r.key ∉ n.keys) :
    Reference.settle target? n r = n := by
  unfold Reference.settle
  split
  · exact modify_of_notMem h
  · rfl

theorem foldl_settle_of_notMem (h : ∀ r ∈ rs, r.key ∉ n.keys) :
    rs.foldl (Reference.settle target?) n = n := by
  induction rs with
  | nil => rfl
  | cons r rs ih =>
    rw [List.forall_mem_cons] at h
    rw [List.foldl_cons, settle_of_notMem h.1, ih h.2]

/-- A tree with one key in it is changed by the one reference with this key. -/
theorem foldl_settle_of_mem (hrs : (rs.map (·.key)).Nodup) {r : Reference} (hr : r ∈ rs)
    (hn : n.keys = [r.key]) :
    rs.foldl (Reference.settle target?) n = Reference.settle target? n r := by
  have hkeys (r' : Reference) (hne : r'.key ≠ r.key) {m : Node} (hm : m.keys = [r.key]) :
      r'.key ∉ m.keys := by rwa [hm, List.mem_singleton]
  induction rs with
  | nil => cases hr
  | cons r' rs ih =>
    rw [List.map_cons, List.nodup_cons, List.mem_map, not_exists] at hrs
    rw [List.foldl_cons]
    rcases List.mem_cons.1 hr with rfl | hr
    · refine foldl_settle_of_notMem fun r' hr' => hkeys r' (fun heq => hrs.1 r' ⟨hr', heq⟩) ?_
      rwa [Node.keys, Reference.keyed_settle, ← Node.keys]
    · rw [settle_of_notMem (hkeys r' (fun heq => hrs.1 r ⟨hr, heq.symm⟩) hn)]
      exact ih hrs.2 hr

end Item

end Node

/-! ## Listings one after another -/

namespace Build

open Listing (xrefTag xrefTags)
open Reference (target? settle)

variable {ix : Index}

/-- A pass whose keys are distinct and all below the next one. -/
structure Pass.Fresh (p : Pass) : Prop where
  distinct : p.root.keys.Nodup
  below : ∀ k ∈ p.root.keys, k < p.nextKey

theorem keysIn_items (ix : Index) (key : Nat) (os : List OperationEntry) :
    keysIn (Listing.items ix key os) = List.range' key os.length := by
  have hkeys := congrArg (List.filterMap id) (Listing.keys_xrefTags key os)
  rw [List.filterMap_map, List.filterMap_map] at hkeys
  rw [keysIn, Listing.keyedIn_items]
  exact hkeys.trans List.filterMap_some

theorem keys_list (ix : Index) (key : Nat) (os : List OperationEntry) :
    (Node.new "ul" [] (Listing.items ix key os)).keys = List.range' key os.length := by
  rw [← keysIn_items ix, Node.new, keys_element, keysIn_nil, List.append_nil]
  rfl

/-- A listing puts new keys beside those that there are. -/
theorem Pass.Fresh.keys_expanded {p : Pass} (h : p.Fresh) (ix : Index) {l : Listing}
    (hl : l.key ∈ p.root.keys) : (expanded ix p l).root.keys.Perm
      (p.root.keys ++ List.range' p.nextKey (l.methods ix).length) := by
  obtain ⟨m, hm⟩ := Option.isSome_iff_exists.1 (find?_isSome_iff.2 hl)
  obtain ⟨C, hfill, hmodify⟩ := exists_frame h.distinct hm
  obtain ⟨ks, hks⟩ := C.exists_keys_fill
  obtain ⟨tag, cs, rs, rfl, -⟩ := exists_of_find? hm
  rw [expanded, hmodify, ← hfill, Listing.expanded, append]
  refine (hks _).trans (List.Perm.trans ?_ ((hks _).append_right _).symm)
  rw [← keys_list ix, keys_element, keys_element, keysIn_append, keysIn_cons, keysIn_nil,
    List.append_nil]
  simp only [List.append_assoc]
  exact ((List.perm_append_comm.append_left _).append_left _).append_left _

theorem Pass.Fresh.expanded {p : Pass} (h : p.Fresh) {l : Listing} (hl : l.key ∈ p.root.keys) :
    (expanded ix p l).Fresh := by
  have hperm := h.keys_expanded ix hl
  refine ⟨hperm.nodup_iff.2 (List.nodup_append.2 ⟨h.distinct, List.nodup_range', ?_⟩),
    fun k hk => ?_⟩
  · rintro k hk k' hk' rfl
    have := h.below k hk
    have := (List.mem_range'_1.1 hk').1
    omega
  · change k < p.nextKey + (l.methods ix).length
    rcases List.mem_append.1 (hperm.mem_iff.1 hk) with hk | hk
    · have := h.below k hk
      omega
    · exact (List.mem_range'_1.1 hk).2

theorem Pass.Fresh.foldl_expanded {p : Pass} (h : p.Fresh) {ls : List Listing}
    (hls : ∀ l ∈ ls, l.key ∈ p.root.keys) : (ls.foldl (Build.expanded ix) p).Fresh := by
  induction ls generalizing p with
  | nil => exact h
  | cons l ls ih =>
    obtain ⟨hmem, hrest⟩ := List.forall_mem_cons.1 hls
    exact ih (h.expanded hmem) fun l' hl' =>
      (h.keys_expanded ix hmem).mem_iff.2 (List.mem_append_left _ (hrest l' hl'))

/-- Listings leave the list of another element as it is. -/
theorem endsInList_foldl_expanded {p : Pass} (hp : p.Fresh) {ls : List Listing} {k : Nat}
    {items : List Node} (h : p.root.EndsInList k items)
    (hls : ∀ l ∈ ls, l.key ∈ p.root.keys ∧ l.key ≠ k ∧ l.key ∉ keysIn items) :
    (ls.foldl (Build.expanded ix) p).root.EndsInList k items := by
  induction ls generalizing p with
  | nil => exact h
  | cons l ls ih =>
    obtain ⟨⟨hmem, hne, hno⟩, hls⟩ := List.forall_mem_cons.1 hls
    have hperm := hp.keys_expanded ix hmem
    refine ih (hp.expanded hmem) ?_ fun l' hl' => ?_
    · have hnew : k ∉ (Node.new "ul" [] (Listing.items ix p.nextKey (l.methods ix))).keys := by
        rw [keys_list]
        intro hk
        have := (List.mem_range'_1.1 hk).1
        have := hp.below k h.mem_keys
        omega
      have hlist := h.modify hp.distinct (j := l.key) (f := l.expanded ix p.nextKey) hne.symm
        fun tag cs rs hk => find?_append_of_notMem hnew (by rw [hk]; simpa using hne) cs rs
      rwa [← modifyIn_eq_map, modifyIn_of_notMem hno] at hlist
    · obtain ⟨hmem', hrest⟩ := hls l' hl'
      exact ⟨hperm.mem_iff.2 (List.mem_append_left _ hmem'), hrest⟩

/-- When all listings have been expanded, the element of each ends in the list that it has got. -/
theorem exists_endsInList (ix : Index) {p : Pass} (hp : p.Fresh) {ls : List Listing}
    (hls : ∀ l ∈ ls, l.key ∈ p.root.keys) (hnodup : (ls.map (·.key)).Nodup) {l : Listing}
    (hl : l ∈ ls) : ∃ key,
      (ls.foldl (Build.expanded ix) p).root.EndsInList l.key
        (Listing.items ix key (l.methods ix)) ∧
      ∀ t ∈ xrefTags key (l.methods ix), t ∈ allXrefTags ix p.nextKey ls := by
  induction ls generalizing p with
  | nil => cases hl
  | cons l' ls ih =>
    obtain ⟨hmem, hrest⟩ := List.forall_mem_cons.1 hls
    rw [List.map_cons, List.nodup_cons, List.mem_map, not_exists] at hnodup
    have hperm := hp.keys_expanded ix hmem
    have hkeys : ∀ l ∈ ls, l.key ∈ (Build.expanded ix p l').root.keys := fun l hl =>
      hperm.mem_iff.2 (List.mem_append_left _ (hrest l hl))
    rcases List.mem_cons.1 hl with rfl | hl
    · refine ⟨p.nextKey, endsInList_foldl_expanded (hp.expanded hmem) (endsInList_append hmem _)
        fun l' hl' => ⟨hkeys l' hl', fun heq => hnodup.1 l' ⟨hl', heq⟩, fun hk => ?_⟩,
        fun t ht => List.mem_append_left _ ht⟩
      -- the keys in the items are new, and those of listings are not
      have := hp.below _ (hrest l' hl')
      rw [keysIn_items] at hk
      have := (List.mem_range'_1.1 hk).1
      omega
    · obtain ⟨key, hlist, htags⟩ := ih (hp.expanded hmem) hkeys hnodup.2 hl
      exact ⟨key, hlist, fun t ht => List.mem_append_right _ (htags t ht)⟩

theorem keys_references (l : Listing) (key : Nat) :
    (l.references ix key).map (·.key) = List.range' key (l.methods ix).length := by
  rw [Listing.references, List.map_map, List.range'_eq_map_range]
  rfl

theorem keys_allReferences (key : Nat) (ls : List Listing) :
    (allReferences ix key ls).map (·.key) = List.range' key (listed ix ls).length := by
  induction ls generalizing key with
  | nil => rfl
  | cons l ls ih =>
    rw [allReferences, List.map_append, ih, keys_references, List.range'_append_1,
      ← List.length_append]
    rfl

/-- To every reference that listings write there is one to resolve. -/
theorem exists_mem_allReferences {key : Nat} {ls : List Listing} {t : Tag} {k : Nat}
    (ht : t ∈ allXrefTags ix key ls) (hk : t.key = some k) :
    key ≤ k ∧ ∃ r ∈ allReferences ix key ls, r.key = k := by
  have hmem := List.mem_map_of_mem (f := Tag.key) ht
  rw [keys_allXrefTags, hk, List.mem_map] at hmem
  obtain ⟨_, hmem, heq⟩ := hmem
  obtain rfl := Option.some.inj heq
  refine ⟨(List.mem_range'_1.1 hmem).1, ?_⟩
  rw [← keys_allReferences, List.mem_map] at hmem
  exact hmem

end Build

/-! ## Items and definitions -/

namespace Listing

/-- The item of a definition, its reference having a key and being linked to the clause. -/
def linkedItem (key : Nat) (d : Definition) : Node :=
  .element ⟨"li", [], none⟩
    [.element (xrefTag key (.string d.id))
      [.element ⟨"a", [("href", "#" ++ d.id)], none⟩ [.plain d.label] []] []] []

/-- A node is the item of a definition, and the reference in it is resolved to the clause. -/
def IsItem (gs : List Resolved) (n : Node) (d : Definition) : Prop :=
  ∃ g ∈ gs, n = linkedItem g.reference.key d ∧ g.target.map (·.anchor) = some (.string d.id)

theorem keys_item (key : Nat) (anchor : Json) (label : String) :
    (item key anchor label).keys = [key] := by
  rw [item_eq]
  rfl

/-- Items and definitions are as methods and definitions are, one by one. -/
theorem forall₂_items {R : OperationEntry → Definition → Prop} {Q : Node → Definition → Prop}
    {ix : Index} {f : Node → Node} {key : Nat} {ms : List OperationEntry} {ds : List Definition}
    (h : List.Forall₂ R ms ds)
    (hitem : ∀ k o d, xrefTag k o.anchor ∈ xrefTags key ms → R o d →
      Q (f (item k o.anchor (labelOf ix o).asText)) d) :
    List.Forall₂ Q ((items ix key ms).map f) ds := by
  induction h generalizing key with
  | nil => exact .nil
  | cons h _ ih =>
    exact .cons (hitem _ _ _ List.mem_cons_self h)
      (ih fun k o d hmem => hitem k o d (List.mem_cons_of_mem _ hmem))

/-- Resolving the reference in an item links it. -/
theorem settle_item {ix : Index} {o : OperationEntry} {d : Definition} (ho : Defines o d)
    (hd : d.Legible) (hlabel : labelOf ix o = .string d.label)
    {target? : Reference → Option Target} {r : Reference} {t : Target} (ht : target? r = some t)
    (hanchor : t.anchor = .string d.id) :
    Reference.settle target? (item r.key o.anchor (labelOf ix o).asText) r =
      linkedItem r.key d := by
  have hblank : [Node.plain d.label].any (!·.isBlank) = true := by
    simpa [Node.isBlank, Node.plain] using hd.starts_label.allBlank
  rw [Reference.settle, ht, hlabel, ho.anchor_eq, item_eq]
  dsimp only
  rw [modify_of_ne (by simp), modifyIn, modifyIn, modifyIn, Node.modify,
    if_pos (show (xrefTag r.key _).key = some r.key from rfl), Reference.linked_element, hanchor,
    show (Json.string d.label).asText = d.label from rfl, if_pos hblank]
  rfl

end Listing

namespace Build

open Listing (xrefTag xrefTags)
open Reference (target? report? settle)

section Index

variable {ix : Index} {scope : String} {sites : List Site} (hc : ix.Coherent)
  (hentries : Entry.taken true ix.entries =
    Entry.taken true (registrations scope .start 0 sites))
include hc hentries

/-- The methods that a listing names are those that clauses define in its namespace. -/
theorem forall₂_methods (l : Listing) :
    List.Forall₂
      (fun o d => .operation o ∈ ix.entries ∧ d ∈ definitions scope .start sites ∧ Defines o d)
      (l.methods ix)
      ((definitions scope .start sites).filter fun d => d.scope = l.scope ∧ d.name = l.aoid) := by
  have hmethods : l.methods ix = (Entry.concretes ix.entries).filter fun o =>
      (o.scope = l.scope ∧ o.aoid = l.aoid) ∧ o.anchor.isNull = false := by
    rw [Listing.methods, hc.concreteMethods_eq, Entry.concretes, List.filter_filter,
      List.filter_filter]
    refine List.filter_congr fun o _ => ?_
    rw [Bool.eq_iff_iff]
    simp
    tauto
  have hdefines := forall₂_defines scope .start 0 sites
  rw [← Entry.concretes_taken, ← hentries, Entry.concretes_taken] at hdefines
  rw [hmethods]
  have hpairs := ((List.forall₂_and_left _ _).2 ⟨fun d hd => hd, hdefines.flip⟩).flip
  refine List.rel_filter (fun o d h => ?_) ((List.forall₂_and_left _ _).2
    ⟨fun o ho => Entry.mem_operations_iff.1 (List.mem_filter.1 ho).1, hpairs⟩)
  simp [h.2.2.scope_eq, h.2.2.aoid_eq, h.2.2.anchor_eq, Json.isNull]

/-- The clause of a definition is found under its id. -/
theorem exists_find?_id {d : Definition} (hd : d ∈ definitions scope .start sites) :
    d.Legible ∧ ∃ c : ClauseEntry, ix.find? (.string d.id) = some (.clause c) ∧
      c.number = d.number := by
  obtain ⟨hlegible, c, hmem, hid, hnumber⟩ := exists_clause Numbering.positive_start 0 hd
  rw [← Entry.clause_mem_taken_iff, ← hentries, Entry.clause_mem_taken_iff] at hmem
  refine ⟨hlegible, c, hc.find?_string_eq_some_iff.2 ⟨hmem, ?_⟩, hnumber⟩
  exact Json.ident?_eq_some_iff.2 ⟨congrArg Json.string hid, hlegible.id_ne⟩

theorem labelOf_definition {o : OperationEntry} {d : Definition} (ho : Defines o d)
    (hd : d ∈ definitions scope .start sites) : Listing.labelOf ix o = .string d.label := by
  obtain ⟨hlegible, c, hfind, hnumber⟩ := exists_find?_id hc hentries hd
  rw [Listing.labelOf, ho.anchor_eq, hfind]
  dsimp only
  rw [hnumber, ho.forType_eq, hlegible.trimString_eq]

/-- No method of a document is without a clause, so listings report nothing. -/
theorem reports_eq_nil (l : Listing) (tag : Tag) : l.reports ix tag = [] := by
  refine List.flatMap_eq_nil_iff.2 fun o ho => ?_
  have hmem : o ∈ l.methods ix := by
    rcases List.mem_append.1 ho with ho | ho
    · exact (List.takeWhile_sublist _).subset ho
    · exact (List.dropWhile_sublist _).subset (List.mem_of_mem_take ho)
  obtain ⟨d, -, hd, hdefines⟩ := exists_of_forall₂ (forall₂_methods hc hentries l) hmem
  obtain ⟨-, c, hfind, -⟩ := exists_find?_id hc hentries hd
  rw [Listing.reportOf, hdefines.anchor_eq, hfind]

end Index

theorem diagnostics_foldl_expanded {ix : Index} {p : Pass} {ls : List Listing}
    (h : ∀ l ∈ ls, ∀ tag, l.reports ix tag = []) :
    (ls.foldl (expanded ix) p).diagnostics = p.diagnostics := by
  induction ls generalizing p with
  | nil => rfl
  | cons l ls ih =>
    rw [List.forall_mem_cons] at h
    rw [List.foldl_cons, ih h.2, expanded, h.1, List.append_nil]

/-- A survey and what comes of it in a document without imports. -/
theorem run_ok_of_no_imports {o : BuildOptions} {root : Node} {b : BuildResult}
    (hext : o.external = []) (h : run o root = .ok b) : ∃ ix ds, ix.Coherent ∧ ix.frozen = true ∧
      ix.entries = Action.additions (Survey.ofRoot o.scope root).2.actions ∧
      Action.reports (Survey.ofRoot o.scope root).2.actions = ds ∧
      secondPass o (Survey.ofRoot o.scope root).1 (Survey.ofRoot o.scope root).2 ix ix ds =
        .ok b := by
  obtain ⟨ix, ds, merged, hfirst, hmerged, hsecond⟩ := run_ok_iff.1 h
  obtain ⟨hc, hf, hentries, hreports⟩ := firstPass_ok hfirst
  rw [mergedIndex, hext] at hmerged
  obtain rfl := Except.ok.inj hmerged
  exact ⟨ix, ds, hc, hf, hentries, hreports, hsecond⟩

/-- A reference that a listing writes for a definition is resolved to the clause, and its item is
linked to it. -/
theorem isItem_foldl_settle {ix : Index} {scope : String} {sites : List Site} (hc : ix.Coherent)
    (hf : ix.frozen = true) (hentries : Entry.taken true ix.entries =
      Entry.taken true (registrations scope .start 0 sites))
    {root : Node} {s : Survey} {ds : List Diagnostic}
    (hlistings : ∀ l ∈ s.listings, l.key ∈ root.keys)
    (hreferences : ∀ r ∈ s.references, r.key ∈ root.keys) {k : Nat} {m : OperationEntry}
    {d : Definition} (hk : xrefTag k m.anchor ∈ allXrefTags ix root.keyBound s.listings)
    (hmem : .operation m ∈ ix.entries) (hd : d ∈ definitions scope .start sites)
    (hm : Defines m d) :
    Listing.IsItem
      ((surveyedReferences root s ix).map fun r =>
        ⟨r, target? ix scope (expandedPass root s ix ds).root r⟩)
      ((surveyedReferences root s ix).foldl
        (settle (target? ix scope (expandedPass root s ix ds).root))
        (Listing.item k m.anchor (Listing.labelOf ix m).asText)) d := by
  obtain ⟨hbound, r, hr, rfl⟩ := exists_mem_allReferences hk rfl
  have htext : m.anchor.isText = true := by
    rw [hm.anchor_eq]
    rfl
  obtain ⟨e, -, hok⟩ := exists_resolve_xrefTag hc hf hmem htext r.key r.scope scope
  have htarget : target? ix scope (expandedPass root s ix ds).root r = 
      some ⟨e, m.anchor, Reference.labelOf (xrefTag r.key m.anchor) e⟩ := by
    rw [target?, tagAt_expandedPass hlistings hk rfl, hok]
  have hkeys := Listing.keys_item r.key m.anchor (Listing.labelOf ix m).asText
  -- the references of the document have keys of their own, and of the others one has this key
  have hwritten : ∀ r' ∈ s.references,
      r'.key ∉ (Listing.item r.key m.anchor (Listing.labelOf ix m).asText).keys := fun r' hr' => by
    obtain ⟨t, ht, hkey⟩ := mem_keys_iff.1 (hreferences r' hr')
    have hlt := lt_keyBound ht hkey
    rw [hkeys, List.mem_singleton]
    omega
  have hnodup : ((allReferences ix root.keyBound s.listings).map (·.key)).Nodup := by
    rw [keys_allReferences]
    exact List.nodup_range'
  refine ⟨_, List.mem_map_of_mem (List.mem_append_right _ hr), ?_, ?_⟩
  · rw [surveyedReferences, List.foldl_append, foldl_settle_of_notMem hwritten,
      foldl_settle_of_mem hnodup hr hkeys]
    exact Listing.settle_item hm (exists_find?_id hc hentries hd).1
      (labelOf_definition hc hentries hm hd) htarget hm.anchor_eq
  · dsimp only
    rw [htarget, Option.map_some, hm.anchor_eq]

section Run

variable {scope : String} {root : Node} {ix : Index} {ds : List Diagnostic}

theorem fresh_of_nodup (hkeys : root.keys.Nodup) : Pass.Fresh ⟨root, root.keyBound, ds⟩ := by
  refine ⟨hkeys, fun k hk => ?_⟩
  obtain ⟨t, ht, hkey⟩ := mem_keys_iff.1 hk
  exact lt_keyBound ht hkey

/-- In a surveyed document listings can be expanded. -/
theorem fresh_ofRoot (hkeys : root.keys.Nodup) :
    Pass.Fresh ⟨(Survey.ofRoot scope root).1, (Survey.ofRoot scope root).1.keyBound, ds⟩ :=
  fresh_of_nodup ((Survey.gentle_ofRoot root).keys.nodup_iff.2 hkeys)

theorem nodup_keys_expandedPass (hkeys : root.keys.Nodup) :
    (expandedPass (Survey.ofRoot scope root).1 (Survey.ofRoot scope root).2 ix ds).root.keys.Nodup :=
  ((fresh_ofRoot hkeys).foldl_expanded fun _ => Survey.mem_keys_of_mem_listings).distinct

/-- No reference has the key of a listing, be it of the document or of a listing. -/
theorem key_ne_of_mem_surveyedReferences (hkeys : root.keys.Nodup) {l : Listing} {r : Reference}
    (hl : l ∈ (Survey.ofRoot scope root).2.listings)
    (hr : r ∈ surveyedReferences (Survey.ofRoot scope root).1 (Survey.ofRoot scope root).2 ix) :
    r.key ≠ l.key := by
  rcases List.mem_append.1 hr with hr | hr
  · exact Survey.key_ne_of_mem_references hkeys hl hr
  · obtain ⟨t, ht, hkey⟩ := mem_keys_iff.1 (Survey.mem_keys_of_mem_listings hl)
    have hbelow := lt_keyBound ht hkey
    have habove := List.mem_map_of_mem (f := Reference.key) hr
    rw [keys_allReferences] at habove
    have := (List.mem_range'_1.1 habove).1
    omega

/-- In the end the element of a listing ends in the list that it got, the references in its items
being resolved. -/
theorem exists_endsInList_foldl_settle (hkeys : root.keys.Nodup)
    (hnodup : ((Survey.ofRoot scope root).2.listings.map (·.key)).Nodup) {l : Listing}
    (hl : l ∈ (Survey.ofRoot scope root).2.listings) (target? : Reference → Option Target) :
    ∃ key,
      ((surveyedReferences (Survey.ofRoot scope root).1 (Survey.ofRoot scope root).2 ix).foldl
          (settle target?)
          (expandedPass (Survey.ofRoot scope root).1 (Survey.ofRoot scope root).2 ix ds).root
        ).EndsInList l.key ((Listing.items ix key (l.methods ix)).map fun n =>
          (surveyedReferences (Survey.ofRoot scope root).1 (Survey.ofRoot scope root).2 ix).foldl
            (settle target?) n) ∧
      ∀ t ∈ xrefTags key (l.methods ix),
        t ∈ allXrefTags ix (Survey.ofRoot scope root).1.keyBound
          (Survey.ofRoot scope root).2.listings := by
  obtain ⟨key, hlist, htags⟩ := exists_endsInList ix (fresh_ofRoot hkeys)
    (fun _ => Survey.mem_keys_of_mem_listings) hnodup hl
  exact ⟨key, hlist.foldl_settle (nodup_keys_expandedPass hkeys) target? fun r hr =>
    key_ne_of_mem_surveyedReferences hkeys hl hr, htags⟩

end Run

/-- **Every listing is complete, in order and linked.** In a document without imports, the element
of a listing of a name ends, once the document is built, in a list with one item for each clause
that defines a concrete method of that name in the namespace of the listing, in the order of the
clauses. The item holds a reference that is resolved to the clause and shows its number and the type
that the method is for. Listings report nothing but that they name no method. -/
theorem listings_complete (o : BuildOptions) (root : Node) (b : BuildResult)
    (hext : o.external = []) (hread : AsRead root) (hsheltered : Sheltered true root)
    (haccess : Accessible true root) (hrun : run o root = .ok b) :
    (∀ around tag name, .listing around tag ∈ sitesIn true [] root.children →
      tag.filled? "for" = some name → ∃ k items, tag.key = some k ∧ b.root.EndsInList k items ∧
        List.Forall₂ (Listing.IsItem b.references) items
          ((definitions o.scope .start (sitesIn true [] root.children)).filter fun d =>
            d.scope = scopeIn o.scope around ∧ d.name = name)) ∧
    ∀ d ∈ b.diagnostics, d.rule = "concrete-method-dfns" → d.subject.filled? "for" = none := by
  have hcalm := calmIn_of_accessible hread hsheltered haccess
  obtain ⟨ix, ds, hc, hf, hentries, hreports, hsecond⟩ := run_ok_of_no_imports hext hrun
  replace hentries := (congrArg (Entry.taken true) hentries).trans (Survey.additions_ofRoot hcalm)
  obtain ⟨-, rfl⟩ := secondPass_ok_iff.1 hsecond
  dsimp only
  rw [resolveAll_eq]
  constructor
  · intro around tag name hsite hname
    obtain ⟨l, hl, hk, rfl, hscope⟩ := Survey.exists_mem_listings hcalm hsite hname
    obtain ⟨key, hlist, htags⟩ := exists_endsInList_foldl_settle hread.distinct
      (Survey.nodup_listings hread.distinct hcalm) hl _
    refine ⟨l.key, _, hk, hlist, ?_⟩
    rw [← hscope]
    exact Listing.forall₂_items (forall₂_methods hc hentries l) fun k m d hk h =>
      isItem_foldl_settle hc hf hentries (fun _ => Survey.mem_keys_of_mem_listings)
        (fun _ => Survey.mem_keys_of_mem_references) (htags _ hk) h.1 h.2.1 h.2.2
  · intro d hd hrule
    rcases List.mem_append.1 hd with hd | hd
    · rw [expandedPass, diagnostics_foldl_expanded fun l _ => reports_eq_nil hc hentries l,
        ← hreports] at hd
      rcases Survey.isReport_ofRoot d hd with hd | ⟨tag, hnone, rfl⟩
      · rw [hrule] at hd
        exact absurd hd (by decide)
      · exact hnone
    · obtain ⟨r, -, hd⟩ := List.mem_filterMap.1 hd
      have hd := Reference.isUnresolved_of_report? hc hd
      rw [Diagnostic.isUnresolved, hrule] at hd
      exact absurd hd (by decide)

theorem listings_complete_listedMethod :
    AsRead listedMethod ∧ Sheltered true listedMethod ∧ Accessible true listedMethod ∧
      ∃ b, run ⟨"ns", [], .strict⟩ listedMethod = .ok b ∧ ∃ k items, b.root.EndsInList k items ∧
        List.Forall₂ (Listing.IsItem b.references) items
          ((definitions "ns" .start (sitesIn true [] listedMethod.children)).filter fun d =>
            d.scope = "ns" ∧ d.name = "F") ∧ items.length = 1 := by
  have hread : AsRead listedMethod := asRead_withKeys (by
    simp [inside, insideIn, removed, document, Node.new, Node.plain])
  have hsheltered : Sheltered true listedMethod := by decide +kernel
  have haccess : Accessible true listedMethod := by decide +kernel
  obtain ⟨b, hb, -⟩ := exists_run_listedMethod
  obtain ⟨k, items, -, hlist, hitems⟩ :=
    (listings_complete _ listedMethod b rfl hread hsheltered haccess hb).1 []
      ⟨"emu-concrete-method-dfns", [("for", "F")], some 6⟩ "F"
      (List.mem_of_getLast? rfl) rfl
  exact ⟨hread, hsheltered, haccess, b, hb, k, items, hlist, hitems,
    hitems.length_eq.trans (by decide +kernel)⟩

/-- A clause that defines a concrete method, headed by the row of the table that it stands in, and a
listing of the name of the method. -/
def headedByRowAndListed : Node :=
  (document
    [.new "emu-table" [("id", "t"), ("type", "abstract methods"), ("of", "X")]
      [.new "table" []
        [.new "emu-clause" [("id", "c"), ("type", "concrete method")]
          [.new "h1" []
            [.new "tbody" []
              [.new "tr" [] [.new "td" [] [.plain "F()"], .new "td" [] []]]],
           .new "dl" [("class", "header")]
            [.new "dt" [] [.plain "for"], .new "dd" [] [.plain "X"]]]]],
     .new "emu-concrete-method-dfns" [("for", "F")] []]).withKeys

/-- A concrete method whose heading is a row of a table is missing from the listing of its name. -/
theorem listings_headedByRow :
    AsRead headedByRowAndListed ∧ Sheltered true headedByRowAndListed ∧
      ∃ b, run ⟨"ns", [], .strict⟩ headedByRowAndListed = .ok b ∧ ∃ tag,
        .listing [] tag ∈ sitesIn true [] headedByRowAndListed.children ∧
        tag.filled? "for" = some "F" ∧ ¬∃ k items, tag.key = some k ∧ b.root.EndsInList k items ∧
          List.Forall₂ (Listing.IsItem b.references) items
            ((definitions "ns" .start (sitesIn true [] headedByRowAndListed.children)).filter
              fun d => d.scope = "ns" ∧ d.name = "F") := by
  have hread : AsRead headedByRowAndListed := asRead_withKeys (by
    simp [inside, insideIn, removed, document, Node.new, Node.plain])
  have hlistings : (Survey.ofRoot "ns" headedByRowAndListed).2.listings =
      [⟨12, "F", "ns", none⟩] := by decide +kernel
  have hreferences : (Survey.ofRoot "ns" headedByRowAndListed).2.references = [] := by
    decide +kernel
  have hmethods : ∀ ix : Index, ix.Coherent →
      ix.entries = Action.additions (Survey.ofRoot "ns" headedByRowAndListed).2.actions →
        Listing.methods ⟨12, "F", "ns", none⟩ ix = [] := fun ix hc hentries => by
    rw [Listing.methods, hc.concreteMethods_eq, hentries]
    exact List.eq_nil_of_length_eq_zero (by decide +kernel)
  obtain ⟨b, hb, hc, hentries⟩ := exists_run ⟨"ns", [], .strict⟩ headedByRowAndListed rfl
    (by decide +kernel) (by decide +kernel) (by decide +kernel) (by decide +kernel)
    (fun ix hc hentries l hl => by
      dsimp only at hentries hl
      rw [hlistings, List.mem_singleton] at hl
      rw [hl, Listing.isWritable, hmethods ix hc hentries, List.all_nil])
  dsimp only at hentries
  refine ⟨hread, by decide +kernel, b, hb, ⟨"emu-concrete-method-dfns", [("for", "F")], some 12⟩,
    List.mem_of_getLast? rfl, rfl, ?_⟩
  rintro ⟨k, items, -, -, hitems⟩
  -- the build has no references at all, so there is no item
  have hnone : b.references = [] := by
    rw [← List.map_eq_nil_iff (f := Resolved.reference), references_of_run hb, surveyedReferences,
      hreferences, hlistings, allReferences, Listing.references, hmethods _ hc hentries]
    rfl
  obtain rfl : items = [] := List.eq_nil_iff_forall_not_mem.2 fun n hn => by
    obtain ⟨d, g, hg, -⟩ := exists_of_forall₂ hitems hn
    rw [hnone] at hg
    cases hg
  exact absurd hitems.length_eq (by decide +kernel)

end Build

end Concordance
