import Concordance.Proofs.Survey.Registration

/-!
# What a survey collects

References and listings are collected for later, by the keys of their elements. Each of these is an
element of the document, of the name that it should have (`marks_of_collected`), so no listing has
the key of a reference (`key_ne_of_mem_references`).

The listings of a calm document are those of its sites that name a method, in order
(`listings_ofRoot`), and where the keys of the document are distinct no listing is collected twice
(`nodup_listings`).
-/

namespace Concordance

open Node

/-- The tag of a site. -/
def Site.tag : Site → Tag
  | .clause _ front => front.tag
  | .table _ tag _ => tag
  | .listing _ tag => tag

/-- The listing that a site is, if it names a method. -/
def Site.listing? (scope : String) : Site → Option (Nat × String × String)
  | .listing around tag => Tally.listingOf? scope around tag
  | .clause _ _ => none
  | .table _ _ _ => none

theorem Site.key_of_listing? {scope : String} {site : Site} {l : Nat × String × String}
    (h : site.listing? scope = some l) : site.tag.key = some l.1 := by
  cases site with
  | listing around tag =>
    obtain ⟨key, hkey, h⟩ := Option.bind_eq_some_iff.1 h
    obtain ⟨aoid, -, rfl⟩ := Option.map_eq_some_iff.1 h
    exact hkey
  | clause around f => cases h
  | table around tag methods => cases h

namespace Node

variable {listings : Bool}

theorem tags_here_sublist (around : List Tag) (n : Node) :
    ((here listings around n).map Site.tag).Sublist [n.tag] := by
  unfold here
  split
  · exact List.Sublist.refl [n.tag]
  · split
    · exact List.Sublist.refl [n.tag]
    · split
      · exact List.Sublist.refl [n.tag]
      · exact List.nil_sublist [n.tag]

mutual
/-- Sites are elements with keys, and no element is a site twice. -/
theorem tags_sites_sublist (around : List Tag) (n : Node) :
    ((n.sites listings around).map Site.tag).Sublist n.keyed := by
  match n with
  | .text kind value => exact List.Sublist.refl []
  | .element tag cs rs =>
    rw [sites, keyed]
    cases hkey : tag.key with
    | none => simp
    | some key =>
      rw [Option.isNone_some, if_neg Bool.false_ne_true, Option.isSome_some, if_pos rfl,
        List.map_append]
      exact (tags_here_sublist around (.element tag cs rs)).append
        ((tags_sitesIn_sublist (aroundInside around tag) cs).trans (List.sublist_append_left _ _))

theorem tags_sitesIn_sublist (around : List Tag) (ns : List Node) :
    ((sitesIn listings around ns).map Site.tag).Sublist (keyedIn ns) := by
  match ns with
  | [] => exact List.Sublist.refl []
  | n :: ns =>
    rw [sitesIn, keyedIn, List.map_append]
    exact (tags_sites_sublist around n).append (tags_sitesIn_sublist around ns)
end

mutual
theorem isSome_key_of_mem_keyed {n : Node} {t : Tag} (ht : t ∈ n.keyed) : t.key.isSome = true := by
  match n with
  | .text kind value => cases ht
  | .element tag cs rs =>
    rcases List.mem_append.1 ht with ht | ht
    · split at ht
      · next hkey => rwa [List.mem_singleton.1 ht]
      · cases ht
    · rcases List.mem_append.1 ht with ht | ht
      · exact isSome_key_of_mem_keyedIn ht
      · exact isSome_key_of_mem_keyedIn ht

theorem isSome_key_of_mem_keyedIn {ns : List Node} {t : Tag} (ht : t ∈ keyedIn ns) :
    t.key.isSome = true := by
  match ns with
  | [] => cases ht
  | n :: ns =>
    rcases List.mem_append.1 ht with ht | ht
    · exact isSome_key_of_mem_keyed ht
    · exact isSome_key_of_mem_keyedIn ht
end

/-- Where the keys of trees are distinct, no two of their elements have the same. -/
theorem nodup_map_key {ns : List Node} (h : (keysIn ns).Nodup) :
    ((keyedIn ns).map Tag.key).Nodup := by
  rw [keysIn, List.Nodup, List.pairwise_filterMap] at h
  refine List.pairwise_map.2 (h.imp_of_mem fun {t t'} ht ht' hne heq => ?_)
  obtain ⟨k, hk⟩ := Option.isSome_iff_exists.1 (isSome_key_of_mem_keyedIn ht)
  exact hne k hk k (heq ▸ hk) rfl

/-- Where the keys of a tree are distinct, an element is known by its key. -/
theorem eq_of_key_eq {n : Node} (h : n.keys.Nodup) {t t' : Tag} (ht : t ∈ n.keyed)
    (ht' : t' ∈ n.keyed) (hkey : t.key = t'.key) : t = t' := by
  have hnodup : ((keyedIn [n]).map Tag.key).Nodup := nodup_map_key (by simpa)
  rw [keyedIn, keyedIn, List.append_nil] at hnodup
  exact List.inj_on_of_nodup_map hnodup ht ht' hkey

end Node

/-- The listings after sites are those before and those that sites are. -/
theorem Tally.listings_foldl_add (listings : Bool) (scope : String) (t : Tally)
    (sites : List Site) : (sites.foldl (add listings scope) t).listings =
      t.listings ++ sites.filterMap (Site.listing? scope) := by
  induction sites generalizing t with
  | nil => rw [List.foldl_nil, List.filterMap_nil, List.append_nil]
  | cons site sites ih =>
    rw [List.foldl_cons, ih, List.filterMap_cons]
    cases site with
    | clause around f =>
      rw [add]
      cases t.numbering.next around.length (Clause.kindOf f.tag) <;> rfl
    | table around tag methods => rfl
    | listing around tag =>
      rw [add, Site.listing?, List.append_assoc]
      cases listingOf? scope around tag <;> rfl

namespace Survey

variable {scope : String} {root : Node}

/-- What a survey collects are elements of the document, of the names that they should have. -/
theorem marks_of_collected :
    (∀ l ∈ (ofRoot scope root).2.listings,
      (some l.key, Listing.elementName) ∈ root.keyed.map Tag.mark) ∧
    ∀ r ∈ (ofRoot scope root).2.references,
      (some r.key, "emu-xref") ∈ root.keyed.map Tag.mark := by
  refine ofRoot_induction (K := (· ∈ root.keyed.map Tag.mark))
    (I := fun s => (∀ l ∈ s.listings, (some l.key, Listing.elementName) ∈ root.keyed.map Tag.mark) ∧
      ∀ r ∈ s.references, (some r.key, "emu-xref") ∈ root.keyed.map Tag.mark)
    (fun s node key around hkey hmark hs => ?_) (fun _ => id)
    ⟨fun _ h => (List.not_mem_nil h).elim, fun _ h => (List.not_mem_nil h).elim⟩
  rcases enter_cases s node key around scope with
    ⟨-, h⟩ | ⟨-, h⟩ | ⟨hname, h⟩ | ⟨hname, h⟩ | ⟨-, -, -, -, h⟩
  · rw [h]
    unfold Survey.clause
    split
    · exact hs
    · exact hs
  · rw [h]
    exact hs
  · rw [h]
    rw [Tag.mark, hkey, hname] at hmark
    exact ⟨hs.1, List.forall_mem_append.2 ⟨hs.2, List.forall_mem_singleton.2 hmark⟩⟩
  · rw [h]
    rw [Tag.mark, hkey, hname] at hmark
    unfold Survey.listing
    split
    · exact ⟨List.forall_mem_append.2 ⟨hs.1, List.forall_mem_singleton.2 hmark⟩, hs.2⟩
    · exact hs
  · rw [h]
    exact hs

/-- The listings of a survey are elements of the document. -/
theorem mem_keys_of_mem_listings {l : Listing} (hl : l ∈ (ofRoot scope root).2.listings) :
    l.key ∈ (ofRoot scope root).1.keys := by
  rw [(gentle_ofRoot root).keys.mem_iff]
  obtain ⟨t, ht, hmark⟩ := List.mem_map.1 (marks_of_collected.1 l hl)
  exact mem_keys_iff.2 ⟨t, ht, (Prod.mk.inj hmark).1⟩

theorem mem_keys_of_mem_references {r : Reference} (hr : r ∈ (ofRoot scope root).2.references) :
    r.key ∈ (ofRoot scope root).1.keys := by
  rw [(gentle_ofRoot root).keys.mem_iff]
  obtain ⟨t, ht, hmark⟩ := List.mem_map.1 (marks_of_collected.2 r hr)
  exact mem_keys_iff.2 ⟨t, ht, (Prod.mk.inj hmark).1⟩

/-- No listing has the key of a reference. -/
theorem key_ne_of_mem_references (hkeys : root.keys.Nodup) {l : Listing} {r : Reference}
    (hl : l ∈ (ofRoot scope root).2.listings) (hr : r ∈ (ofRoot scope root).2.references) :
    r.key ≠ l.key := by
  intro heq
  obtain ⟨t, ht, hmark⟩ := List.mem_map.1 (marks_of_collected.1 l hl)
  obtain ⟨t', ht', hmark'⟩ := List.mem_map.1 (marks_of_collected.2 r hr)
  obtain ⟨hkey, hname⟩ := Prod.mk.inj hmark
  obtain ⟨hkey', hname'⟩ := Prod.mk.inj hmark'
  have hsame : t = t' := eq_of_key_eq hkeys ht ht' (by rw [hkey, hkey', heq])
  rw [← hsame, hname] at hname'
  exact absurd hname' (by decide)

/-- The listings of a calm document are those of its sites. -/
theorem listings_ofRoot (hcalm : CalmIn true root.children) :
    (ofRoot scope root).2.listings.map (fun l => (l.key, l.aoid, l.scope)) =
      (sitesIn true [] root.children).filterMap (Site.listing? scope) := by
  have h : ((ofRoot scope root).2.tally true).listings = _ :=
    congrArg Tally.listings (tally_ofRoot hcalm)
  rwa [Tally.listings_foldl_add] at h

/-- A site that is a listing of a name is collected. -/
theorem exists_mem_listings (hcalm : CalmIn true root.children) {around : List Tag} {tag : Tag}
    {name : String} (hsite : .listing around tag ∈ sitesIn true [] root.children)
    (hname : tag.filled? "for" = some name) :
    ∃ l ∈ (ofRoot scope root).2.listings,
      tag.key = some l.key ∧ l.aoid = name ∧ l.scope = scopeIn scope around := by
  obtain ⟨k, hk⟩ : ∃ k, tag.key = some k := Option.isSome_iff_exists.1 (isSome_key_of_mem_keyedIn
    ((tags_sitesIn_sublist [] root.children).subset (List.mem_map_of_mem hsite)))
  have hmem : (k, name, scopeIn scope around) ∈
      (ofRoot scope root).2.listings.map fun l => (l.key, l.aoid, l.scope) := by
    rw [listings_ofRoot hcalm, List.mem_filterMap]
    refine ⟨_, hsite, ?_⟩
    rw [Site.listing?, Tally.listingOf?, hk, hname]
    rfl
  obtain ⟨l, hl, heq⟩ := List.mem_map.1 hmem
  obtain ⟨rfl, hrest⟩ := Prod.mk.inj heq
  obtain ⟨rfl, hscope⟩ := Prod.mk.inj hrest
  exact ⟨l, hl, hk, rfl, hscope⟩

/-- No listing is collected twice. -/
theorem nodup_listings (hkeys : root.keys.Nodup) (hcalm : CalmIn true root.children) :
    ((ofRoot scope root).2.listings.map (·.key)).Nodup := by
  have htags : (((sitesIn true [] root.children).map Site.tag).map Tag.key).Nodup := by
    refine (((tags_sitesIn_sublist [] root.children).map Tag.key).nodup (nodup_map_key ?_))
    cases root with
    | text kind value => exact List.nodup_nil
    | element tag cs rs =>
      rw [keys_element] at hkeys
      exact (List.nodup_append.1 (List.nodup_append.1 hkeys).2.1).1
  have hmap : (ofRoot scope root).2.listings.map (·.key) =
      ((sitesIn true [] root.children).filterMap (Site.listing? scope)).map (·.1) := by
    rw [← listings_ofRoot hcalm, List.map_map]
    rfl
  rw [List.map_map, List.Nodup, List.pairwise_map] at htags
  rw [hmap, List.Nodup, List.pairwise_map, List.pairwise_filterMap]
  refine htags.imp fun {site site'} hne b hb b' hb' heq => hne ?_
  rw [Function.comp_apply, Function.comp_apply, Site.key_of_listing? hb, Site.key_of_listing? hb',
    heq]

end Survey

end Concordance
