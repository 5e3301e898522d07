import Concordance.Proofs.Build.Pass
import Concordance.Proofs.Survey.Collected

/-!
# Links of a built document

A link goes to the anchor of an entry: its id, or what it refers to. The index that references are
looked up in is frozen, so such an anchor is always the id of an entry of it
(`Reference.exists_hasKey_anchor`).

A listing writes references of its own. Their keys are new to the document
(`Node.lt_keyBound`), so each is found again as it was written (`tagAt_expandedPass`), and one that
was written for an anchor that is a text leads to that anchor. An anchor that is a number is written
as its digits, which are no id; such a reference stays unresolved.
-/

namespace Concordance

open Node

/-! ## Anchors -/

/-- In a frozen index the anchor of what a reference leads to is the id of an entry. -/
theorem Reference.exists_hasKey_anchor {ix : Index} (hc : ix.Coherent) (hf : ix.frozen = true)
    {tag : Tag} {scope fallback : String} {e : Entry}
    (h : lookUp ix tag scope fallback = .ok e) :
    ∃ e' ∈ ix.entries, ∃ k, e.anchor.key? = some k ∧ e'.hasKey k = true := by
  have hfound : ∃ e', ix.find? e.anchor = some e' := by
    unfold lookUp at h
    split at h
    · unfold byAddress at h
      split at h
      · dsimp only at h
        split at h
        · next e' he' =>
          obtain rfl := Except.ok.inj h
          rw [Entry.anchor_of_ident? (hc.find?_string_eq_some_iff.1 he').2]
          exact ⟨_, he'⟩
        · cases h
      · cases h
    · unfold byName at h
      split at h
      · next o ho =>
        obtain rfl := Except.ok.inj h
        exact hc.exists_find?_anchor hf (hc.mem_of_operation?_or ho)
      · cases h
    · cases h
  obtain ⟨e', he'⟩ := hfound
  obtain ⟨hmem, hkey⟩ := hc.exists_key_of_find? he'
  exact ⟨e', hmem, hkey⟩

/-! ## New elements -/

namespace Node

mutual
/-- All keys of a tree are below its bound. -/
theorem lt_keyBound {n : Node} {t : Tag} {k : Nat} (ht : t ∈ n.keyed) (hk : t.key = some k) :
    k < n.keyBound := by
  match n with
  | .text kind value => cases ht
  | .element tag cs rs =>
    rw [keyBound]
    rcases List.mem_append.1 ht with ht | ht
    · split at ht
      · obtain rfl := List.mem_singleton.1 ht
        rw [hk, Option.map_some, Option.getD_some]
        omega
      · cases ht
    · rcases List.mem_append.1 ht with ht | ht
      · have := lt_keyBoundIn ht hk
        omega
      · have := lt_keyBoundIn ht hk
        omega

theorem lt_keyBoundIn {ns : List Node} {t : Tag} {k : Nat} (ht : t ∈ keyedIn ns)
    (hk : t.key = some k) : k < keyBoundIn ns := by
  match ns with
  | [] => cases ht
  | n :: ns =>
    rw [keyBoundIn]
    rcases List.mem_append.1 ht with ht | ht
    · have := lt_keyBound ht hk
      omega
    · have := lt_keyBoundIn ht hk
      omega
end

/-- An element is found under its key if it is the only one that has it. -/
theorem tagAt_of_unique {n : Node} {t : Tag} {k : Nat} (ht : t ∈ n.keyed) (hk : t.key = some k)
    (hunique : ∀ t' ∈ n.keyed, t'.key = some k → t' = t) : n.tagAt k = t := by
  obtain ⟨t', ht'⟩ := Option.isSome_iff_exists.1 (List.find?_isSome.2
    ⟨t, ht, by simpa using hk⟩ : (n.keyed.find? (·.key = some k)).isSome = true)
  rw [tagAt, find?_tag, ht', Option.getD_some]
  exact hunique t' (List.mem_of_find?_eq_some ht') (by simpa using List.find?_some ht')

mutual
/-- A node put at the end of the element with a key adds its elements with keys. -/
theorem mem_keyed_modify_append {k : Nat} {child n : Node} {t : Tag} :
    t ∈ (n.modify k (append child)).keyed ↔ t ∈ n.keyed ∨ k ∈ n.keys ∧ t ∈ child.keyed := by
  match n with
  | .text kind value => simp [modify, keyed, keys]
  | .element tag cs rs =>
    rw [modify, keys_element]
    split
    · next hk =>
      rw [append, keyed, keyed, keyedIn_append]
      simp [hk, keyedIn]
      tauto
    · next hk =>
      rw [keyed, keyed, List.mem_append, List.mem_append, List.mem_append, List.mem_append,
        mem_keyedIn_modifyIn_append, mem_keyedIn_modifyIn_append]
      simp only [List.mem_append, Option.mem_toList, hk, false_or]
      tauto

theorem mem_keyedIn_modifyIn_append {k : Nat} {child : Node} {ns : List Node} {t : Tag} :
    t ∈ keyedIn (modifyIn k (append child) ns) ↔
      t ∈ keyedIn ns ∨ k ∈ keysIn ns ∧ t ∈ child.keyed := by
  match ns with
  | [] => simp [modifyIn, keyedIn]
  | n :: ns =>
    rw [modifyIn, keyedIn, keyedIn, keysIn_cons, List.mem_append, List.mem_append, List.mem_append,
      mem_keyed_modify_append, mem_keyedIn_modifyIn_append]
    tauto
end

end Node

/-! ## The references of listings -/

namespace Listing

/-- The tag of a reference that a listing writes. -/
def xrefTag (key : Nat) (anchor : Json) : Tag :=
  ⟨"emu-xref", [("href", "#" ++ anchor.asText)], some key⟩

/-- The tags of the references that a listing writes for methods, from a key on. -/
def xrefTags : (key : Nat) → List OperationEntry → List Tag
  | _, [] => []
  | key, o :: os => xrefTag key o.anchor :: xrefTags (key + 1) os

theorem item_eq (key : Nat) (anchor : Json) (label : String) :
    item key anchor label =
      .element ⟨"li", [], none⟩ [.element (xrefTag key anchor) [.plain label] []] [] := by
  rw [item, Node.new, Node.new, Tag.make_href]
  rfl

theorem keyedIn_items (ix : Index) (key : Nat) (os : List OperationEntry) :
    keyedIn (items ix key os) = xrefTags key os := by
  induction os generalizing key with
  | nil => rfl
  | cons o os ih =>
    rw [items, keyedIn, ih, item_eq, xrefTags]
    rfl

theorem keyed_list (ix : Index) (key : Nat) (os : List OperationEntry) :
    (Node.new "ul" [] (items ix key os)).keyed = xrefTags key os := by
  rw [← keyedIn_items ix, Node.new, Node.keyed, show keyedIn [] = [] from rfl, List.append_nil]
  rfl

theorem keys_xrefTags (key : Nat) (os : List OperationEntry) :
    (xrefTags key os).map Tag.key = (List.range' key os.length).map some := by
  induction os generalizing key with
  | nil => rfl
  | cons o os ih =>
    rw [xrefTags, List.map_cons, ih, List.length_cons, List.range'_succ, List.map_cons]
    rfl

theorem getElem?_xrefTags (key : Nat) (os : List OperationEntry) (i : Nat) :
    (xrefTags key os)[i]? = os[i]?.map fun o => xrefTag (key + i) o.anchor := by
  induction os generalizing key i with
  | nil => rfl
  | cons o os ih =>
    cases i with
    | zero => rfl
    | succ i =>
      rw [xrefTags, List.getElem?_cons_succ, List.getElem?_cons_succ, ih]
      congr 2
      funext o
      congr 1
      omega

/-- The references of a listing have the keys of what it writes, method by method. -/
theorem forall₂_references (l : Listing) (ix : Index) (key : Nat) :
    List.Forall₂ (fun (r : Reference) (o : OperationEntry) =>
        xrefTag r.key o.anchor ∈ xrefTags key (l.methods ix))
      (l.references ix key) (l.methods ix) := by
  rw [List.forall₂_iff_get]
  refine ⟨by simp [references], fun i h₁ h₂ => ?_⟩
  refine List.mem_of_getElem? (i := i) ?_
  rw [getElem?_xrefTags, List.getElem?_eq_getElem h₂]
  simp [references]

end Listing

namespace Build

open Listing (xrefTag xrefTags)
open Reference (target?)

variable {ix : Index}

/-- The tags of the references that listings write, from a key on. -/
def allXrefTags (ix : Index) : (key : Nat) → List Listing → List Tag
  | _, [] => []
  | key, l :: ls =>
    xrefTags key (l.methods ix) ++ allXrefTags ix (key + (l.methods ix).length) ls

/-- The methods that listings name, listing by listing. -/
def listed (ix : Index) (ls : List Listing) : List OperationEntry := ls.flatMap (·.methods ix)

theorem keys_allXrefTags (key : Nat) (ls : List Listing) :
    (allXrefTags ix key ls).map Tag.key = (List.range' key (listed ix ls).length).map some := by
  induction ls generalizing key with
  | nil => rfl
  | cons l ls ih =>
    rw [allXrefTags, List.map_append, ih, Listing.keys_xrefTags, ← List.map_append,
      List.range'_append_1, ← List.length_append]
    rfl

/-- What a listing writes is added to the elements with keys. -/
theorem mem_keyed_expanded {p : Pass} {l : Listing} (hl : l.key ∈ p.root.keys) {t : Tag} :
    t ∈ (expanded ix p l).root.keyed ↔
      t ∈ p.root.keyed ∨ t ∈ xrefTags p.nextKey (l.methods ix) := by
  rw [← Listing.keyed_list ix]
  exact mem_keyed_modify_append.trans (or_congr_right (and_iff_right hl))

/-- What all listings write is added to the elements with keys. -/
theorem mem_keyed_expandedPass {p : Pass} {ls : List Listing} (hls : ∀ l ∈ ls, l.key ∈ p.root.keys)
    {t : Tag} : t ∈ (ls.foldl (expanded ix) p).root.keyed ↔
      t ∈ p.root.keyed ∨ t ∈ allXrefTags ix p.nextKey ls := by
  induction ls generalizing p with
  | nil => simp [allXrefTags]
  | cons l ls ih =>
    rw [List.forall_mem_cons] at hls
    have hkeys : ∀ l' ∈ ls, l'.key ∈ (expanded ix p l).root.keys := fun l' hl' => by
      obtain ⟨t, ht, hk⟩ := mem_keys_iff.1 (hls.2 l' hl')
      exact mem_keys_iff.2 ⟨t, (mem_keyed_expanded hls.1).2 (.inl ht), hk⟩
    rw [List.foldl_cons, ih hkeys, mem_keyed_expanded hls.1, allXrefTags, List.mem_append, or_assoc]
    rfl

theorem le_key_of_mem_allXrefTags {key : Nat} {ls : List Listing} {t : Tag} {k : Nat}
    (ht : t ∈ allXrefTags ix key ls) (hk : t.key = some k) : key ≤ k := by
  have hmem := List.mem_map_of_mem (f := Tag.key) ht
  rw [keys_allXrefTags, hk, List.mem_map] at hmem
  obtain ⟨k', hk', heq⟩ := hmem
  obtain rfl := Option.some.inj heq
  exact (List.mem_range'_1.1 hk').1

section ExpandedPass

variable {root : Node} {s : Survey} {ds : List Diagnostic}
  (hls : ∀ l ∈ s.listings, l.key ∈ root.keys) {t : Tag} {k : Nat}
include hls

/-- The references that listings write are found as they were written. -/
theorem tagAt_expandedPass (ht : t ∈ allXrefTags ix root.keyBound s.listings)
    (hk : t.key = some k) : (expandedPass root s ix ds).root.tagAt k = t := by
  have hmem {t : Tag} : t ∈ (expandedPass root s ix ds).root.keyed ↔
      t ∈ root.keyed ∨ t ∈ allXrefTags ix root.keyBound s.listings := mem_keyed_expandedPass hls
  have hnodup : ((allXrefTags ix root.keyBound s.listings).map Tag.key).Nodup := by
    rw [keys_allXrefTags]
    exact List.Nodup.map (fun _ _ => Option.some.inj) List.nodup_range'
  refine tagAt_of_unique (hmem.2 (.inr ht)) hk fun t' ht' hk' => ?_
  rcases hmem.1 ht' with hold | hnew
  · have hlt := lt_keyBound hold hk'
    have hle := le_key_of_mem_allXrefTags ht hk
    omega
  · exact List.inj_on_of_nodup_map hnodup hnew ht (hk'.trans hk.symm)

/-- The elements of the document are found as they were before listings were expanded. -/
theorem tagAt_expandedPass_of_mem_keyed (hkeys : root.keys.Nodup) (ht : t ∈ root.keyed)
    (hk : t.key = some k) : (expandedPass root s ix ds).root.tagAt k = t := by
  have hmem {t : Tag} : t ∈ (expandedPass root s ix ds).root.keyed ↔
      t ∈ root.keyed ∨ t ∈ allXrefTags ix root.keyBound s.listings := mem_keyed_expandedPass hls
  refine tagAt_of_unique (hmem.2 (.inl ht)) hk fun t' ht' hk' => ?_
  rcases hmem.1 ht' with hold | hnew
  · exact eq_of_key_eq hkeys hold ht (hk'.trans hk.symm)
  · have hlt := lt_keyBound ht hk
    have hle := le_key_of_mem_allXrefTags hnew hk'
    omega

end ExpandedPass

/-- The references of listings have the keys of what the listings write. -/
theorem forall₂_allReferences (key : Nat) (ls : List Listing) :
    List.Forall₂ (fun (r : Reference) (o : OperationEntry) =>
        xrefTag r.key o.anchor ∈ allXrefTags ix key ls)
      (allReferences ix key ls) (listed ix ls) := by
  induction ls generalizing key with
  | nil => exact .nil
  | cons l ls ih =>
    rw [allReferences, allXrefTags]
    exact List.rel_append
      ((l.forall₂_references ix key).imp fun _ _ h => List.mem_append_left _ h)
      ((ih _).imp fun _ _ h => List.mem_append_right _ h)

theorem le_key_of_mem_allReferences {key : Nat} {ls : List Listing} {r : Reference}
    (hr : r ∈ allReferences ix key ls) : key ≤ r.key := by
  induction ls generalizing key with
  | nil => cases hr
  | cons l ls ih =>
    rcases List.mem_append.1 hr with hr | hr
    · obtain ⟨i, -, rfl⟩ := List.mem_map.1 hr
      exact Nat.le_add_right key i
    · exact (Nat.le_add_right _ _).trans (ih hr)

/-- A reference that a listing writes is looked up by the text of its anchor. -/
theorem lookUp_xrefTag (ix : Index) (key : Nat) (anchor : Json) (scope fallback : String) :
    Reference.lookUp ix (xrefTag key anchor) scope fallback =
      match ix.find? (.string anchor.asText) with
      | some e => .ok e
      | none => .error (Reference.unknownId (xrefTag key anchor) anchor.asText) :=
  Reference.lookUp_of_href ix (Option.filter_eq_some_iff.2 ⟨rfl, by simp⟩) scope fallback

/-- A reference that a listing writes for an anchor that is a text leads to that anchor. -/
theorem exists_resolve_xrefTag (hc : ix.Coherent) (hf : ix.frozen = true) {o : OperationEntry}
    (ho : .operation o ∈ ix.entries) (htext : o.anchor.isText = true) (key : Nat)
    (scope fallback : String) : ∃ e, ix.find? o.anchor = some e ∧
      Reference.resolve ix (xrefTag key o.anchor) scope fallback =
        .ok (some ⟨e, o.anchor, Reference.labelOf (xrefTag key o.anchor) e⟩) := by
  obtain ⟨e, he⟩ := hc.exists_find?_anchor hf ho
  refine ⟨e, he, ?_⟩
  cases hanchor : o.anchor with
  | string x =>
    rw [hanchor] at he
    have hanchor' := Entry.anchor_of_ident? (hc.find?_string_eq_some_iff.1 he).2
    have hlookUp : Reference.lookUp ix (xrefTag key (.string x)) scope fallback = .ok e := by
      rw [lookUp_xrefTag, show (Json.string x).asText = x from rfl, he]
    rw [Reference.resolve_of_lookUp hlookUp (by rw [hanchor']; rfl), hanchor']
  | _ => simp [hanchor, Json.isText] at htext

theorem mem_entries_of_mem_listed (hc : ix.Coherent) {ls : List Listing} {o : OperationEntry}
    (h : o ∈ listed ix ls) : .operation o ∈ ix.entries := by
  obtain ⟨l, -, ho⟩ := List.mem_flatMap.1 h
  have hmem := (List.mem_filter.1 ho).1
  rw [hc.concreteMethods_eq] at hmem
  exact Entry.mem_operations_iff.1 (List.mem_filter.1 hmem).1

/-- **No link dangles.** The anchor of every reference that is resolved is the id of an entry of the
index of the document and its imports. The references of listings come after those of the document,
one for each method that a listing names, and each of them leads to the anchor of its method, as
long as that is a text. -/
theorem links_lead (o : BuildOptions) (root : Node) (b : BuildResult) (h : run o root = .ok b) :
    (∀ g ∈ b.references, ∀ t, g.target = some t →
      ∃ e ∈ b.merged.entries, ∃ k, t.anchor.key? = some k ∧ e.hasKey k = true) ∧
    ∃ written generated, b.references = written ++ generated ∧
      written.map (·.reference) = (Survey.ofRoot o.scope root).2.references ∧
      List.Forall₂ (fun (g : Resolved) (m : OperationEntry) =>
          m.anchor.isText = true → ∃ t, g.target = some t ∧ t.anchor = m.anchor)
        generated (listed b.merged (Survey.ofRoot o.scope root).2.listings) := by
  obtain ⟨ix, ds, merged, hfirst, hmerged, hsecond⟩ := run_ok_iff.1 h
  obtain ⟨hc₀, hf₀, -, -⟩ := firstPass_ok hfirst
  obtain ⟨hc, hf⟩ := coherent_mergedIndex hc₀ hf₀ hmerged
  obtain ⟨-, rfl⟩ := secondPass_ok_iff.1 hsecond
  dsimp only
  rw [resolveAll_eq]
  constructor
  · intro g hg t ht
    obtain ⟨r, -, rfl⟩ := List.mem_map.1 hg
    unfold target? at ht
    rcases Reference.resolve_cases hc _ r.scope o.scope with
      ⟨e, -, hlook, hok⟩ | ⟨d, herror, -⟩
    · rw [hok] at ht
      obtain rfl := Option.some.inj ht
      exact Reference.exists_hasKey_anchor hc hf hlook
    · rw [herror] at ht
      cases ht
  · rw [surveyedReferences, List.map_append]
    refine ⟨_, _, rfl, by rw [List.map_map]; exact List.map_id _, ?_⟩
    rw [List.forall₂_map_left_iff]
    have hpairs := ((List.forall₂_and_left _ _).2 ⟨fun m hm => mem_entries_of_mem_listed hc hm,
      (forall₂_allReferences (Survey.ofRoot o.scope root).1.keyBound
        (Survey.ofRoot o.scope root).2.listings).flip⟩).flip
    refine hpairs.imp fun r m hpair htext => ?_
    obtain ⟨hmem, htag⟩ := hpair
    obtain ⟨e, -, hok⟩ := exists_resolve_xrefTag hc hf hmem htext r.key r.scope o.scope
    refine ⟨⟨e, m.anchor, Reference.labelOf (xrefTag r.key m.anchor) e⟩, ?_, rfl⟩
    dsimp only
    rw [target?, tagAt_expandedPass (fun _ => Survey.mem_keys_of_mem_listings) htag rfl, hok]

/-- A listing of the methods of a name. -/
def listingOfF : Node :=
  (document [.new "emu-concrete-method-dfns" [("for", "F")] []]).withKeys

/-- A method whose id is a number. -/
def numbered : OperationEntry :=
  ⟨"F", concreteMethod, "ns", none, [], .int 5, .null, .string "X"⟩

/-- An index with one method in it. -/
def numberedIndex : Index := Index.empty.after (.add (.operation numbered))

theorem insert_numbered : Index.empty.insert (.operation numbered) = .ok numberedIndex ∧
    numberedIndex.Open ∧ numberedIndex.entries = [.operation numbered] := by
  obtain ⟨ix, hix, hopen, hentries⟩ := Index.open_empty.exists_insert
    (Entry.insertable_of_isInsertable
      (show (Entry.operation numbered).isInsertable = true from rfl))
    (fun e he => (List.not_mem_nil he).elim)
  obtain rfl : numberedIndex = ix := by
    unfold numberedIndex Index.after Index.answer Index.add
    dsimp only
    rw [show Index.empty.frozen = false from rfl, if_neg Bool.false_ne_true, hix]
  exact ⟨hix, hopen, hentries⟩

/-- An empty index merged with that of the numbered method. -/
theorem exists_mergedIndex_numbered : ∃ merged : Index,
    mergedIndex ⟨"ns", [numberedIndex], .strict⟩ { Index.empty with frozen := true } =
      .ok merged ∧ merged.Coherent ∧ merged.entries = [.operation numbered] := by
  obtain ⟨hinsert, hopen, hentries⟩ := insert_numbered
  have hall : Index.empty.insertAll [.operation numbered] = .ok numberedIndex := by
    rw [Index.insertAll, List.foldlM_cons, hinsert]
    rfl
  have hfreeze : numberedIndex.freeze = .ok { numberedIndex with frozen := true } :=
    Index.freeze_ok_iff.2 ⟨by rw [hopen.1.danglingRefs_eq, hentries]; decide, rfl⟩
  have hcombine : Index.combine [numberedIndex] = .ok { numberedIndex with frozen := true } := by
    unfold Index.combine
    rw [List.flatMap_cons, List.flatMap_nil, List.append_nil, hentries, hall]
    exact hfreeze
  have hmerge : Index.mergeEntry .strict .empty (.operation numbered) = .ok numberedIndex := by
    rw [Index.mergeEntry, Index.isTaken, Index.coherent_empty.find?_eq]
    exact hinsert
  have hmerged : ({ Index.empty with frozen := true } : Index).merge
      { numberedIndex with frozen := true } .strict =
        .ok { numberedIndex with frozen := true } := by
    refine bind_ok_iff.2 ⟨.empty, rfl, bind_ok_iff.2 ⟨numberedIndex, ?_, hfreeze⟩⟩
    dsimp only
    rw [hentries, List.foldlM_cons, hmerge]
    rfl
  refine ⟨_, ?_, hopen.1.freeze hfreeze, hentries⟩
  unfold mergedIndex
  dsimp only
  rw [List.isEmpty_cons, if_neg Bool.false_ne_true, hcombine]
  exact hmerged

/-- The reference that a listing writes for a method with a number for its id leads nowhere. -/
theorem unresolved_numbered : numberedIndex.Reachable ∧
    ∃ b, run ⟨"ns", [numberedIndex], .strict⟩ listingOfF = .ok b ∧
      (Survey.ofRoot "ns" listingOfF).2.references = [] ∧
      ∃ g ∈ b.references, g.target = none := by
  have hlistings : (Survey.ofRoot "ns" listingOfF).2.listings = [⟨1, "F", "ns", none⟩] := by
    decide +kernel
  have hreferences : (Survey.ofRoot "ns" listingOfF).2.references = [] := by decide +kernel
  have hfirst : firstPass (Survey.ofRoot "ns" listingOfF).2.actions =
      .ok ({ Index.empty with frozen := true }, []) := by
    rw [List.eq_nil_of_length_eq_zero (show (Survey.ofRoot "ns" listingOfF).2.actions.length = 0 by
      decide +kernel)]
    rfl
  obtain ⟨merged, hmerged, hc, hentries⟩ := exists_mergedIndex_numbered
  have hmethods : Listing.methods ⟨1, "F", "ns", none⟩ merged = [numbered] := by
    rw [Listing.methods, hc.concreteMethods_eq, hentries]
    rfl
  have hwritable : ∀ l ∈ (Survey.ofRoot "ns" listingOfF).2.listings,
      l.isWritable merged = true := by
    rw [hlistings, List.forall_mem_singleton, Listing.isWritable, hmethods]
    unfold Listing.isListable Listing.labelOf
    simp only [hc.find?_eq, hentries]
    decide +kernel
  refine ⟨.after .empty _, _, run_ok_iff.2 ⟨_, _, _, hfirst, hmerged,
    secondPass_ok_iff.2 ⟨hwritable, rfl⟩⟩, hreferences, ?_⟩
  have hlookUp : ∀ key, Reference.resolve merged (xrefTag key (.int 5)) "ns" "ns" =
      .error (Reference.unknownId (xrefTag key (.int 5)) "5") := fun key => by
    unfold Reference.resolve
    rw [lookUp_xrefTag, hc.find?_eq, hentries]
    rfl
  dsimp only
  rw [resolveAll_eq, surveyedReferences, hreferences, hlistings, allReferences,
    Listing.references, hmethods]
  refine ⟨_, List.mem_cons_self, ?_⟩
  dsimp only
  rw [target?, tagAt_expandedPass (t := xrefTag _ (.int 5))
    (fun _ => Survey.mem_keys_of_mem_listings) ?_ rfl, hlookUp]
  rw [hlistings, allXrefTags, hmethods]
  exact List.mem_cons_self

/-- A concrete method, a listing of its name and a reference to it by name. -/
def listedMethod : Node :=
  (document
    [.new "emu-clause" [("id", "c"), ("type", "concrete method")]
      [.new "h1" [] [.plain "F()"],
       .new "dl" [("class", "header")] [.new "dt" [] [.plain "for"], .new "dd" [] [.plain "X"]]],
     .new "emu-concrete-method-dfns" [("for", "F")] [],
     .new "emu-xref" [("aoid", "F")] []]).withKeys

theorem exists_run_listedMethod : ∃ b, run ⟨"ns", [], .strict⟩ listedMethod = .ok b ∧
    b.merged.Coherent ∧
    b.merged.entries = Action.additions (Survey.ofRoot "ns" listedMethod).2.actions ∧
    (Survey.ofRoot "ns" listedMethod).2.listings = [⟨6, "F", "ns", none⟩] := by
  have hlistings : (Survey.ofRoot "ns" listedMethod).2.listings = [⟨6, "F", "ns", none⟩] := by
    decide +kernel
  obtain ⟨b, hb, hc, hentries⟩ := exists_run ⟨"ns", [], .strict⟩ listedMethod rfl
    (by decide +kernel) (by decide +kernel) (by decide +kernel) (by decide +kernel)
    (fun ix hc hentries l hl => by
      rw [hlistings] at hl
      obtain rfl := List.mem_singleton.1 hl
      unfold Listing.isWritable Listing.isListable Listing.labelOf Listing.methods
      rw [hc.concreteMethods_eq]
      simp only [hc.find?_eq, hentries]
      decide +kernel)
  exact ⟨b, hb, hc, hentries, hlistings⟩

theorem links_lead_listedMethod : ∃ b, run ⟨"ns", [], .strict⟩ listedMethod = .ok b ∧
    b.references.length = 2 ∧
    ∀ g ∈ b.references, ∀ t, g.target = some t →
      ∃ e ∈ b.merged.entries, ∃ k, t.anchor.key? = some k ∧ e.hasKey k = true := by
  obtain ⟨b, hb, hc, hentries, hlistings⟩ := exists_run_listedMethod
  refine ⟨b, hb, ?_, (links_lead _ _ b hb).1⟩
  have hlength := congrArg List.length (references_of_run hb)
  rw [List.length_map] at hlength
  rw [hlength, surveyedReferences, hlistings]
  simp only [allReferences, Listing.references, Listing.methods, hc.concreteMethods_eq, hentries]
  decide +kernel

end Build

end Concordance
