import Concordance.Proofs.Build.Listings
import Concordance.Proofs.Survey.Declared
import Concordance.Proofs.Survey.References

/-!
# Links that show

The link of a reference with nothing in it gets a label, and the label is made of what the survey
has found: a number, a name, a title or a caption. All of these show except titles and captions. A
reference to a table falls back on the number of the table where the caption is empty; one to a
clause has no such fallback for an empty title. `AsksForBlank` says which references get a label
that does not show, and `allBlank_labelOf_iff` that there are no others.

No other reference can stand in one with nothing in it, so what it contains in the end is what it
got when it was resolved (`Node.find?_foldl_settle`). The main statement is `links_show`.
-/

namespace Concordance

open Node

/-! ## Labels -/

namespace Reference

/-- A reference asks for a title that does not show: for the empty title of a clause, or for a
caption of blanks. -/
def AsksForBlank (tag : Tag) : Entry → Prop
  | .clause c => tag.has "title" = true ∧ c.title = ""
  | .table t => tag.has "title" = true ∧ t.caption ≠ "" ∧ Text.allBlank t.caption.toList = true
  | .operation _ => False

theorem starts_label (t : TableEntry) : Text.Starts t.label.toList := by
  rw [TableEntry.label, String.toList_append]
  exact Text.Starts.append ⟨'T', "able ".toList, rfl, by decide⟩ _

/-- The label of an entry that can be read shows, except where a blank title is asked for. -/
theorem allBlank_labelOf_iff {tag : Tag} {e : Entry} (h : e.Legible) :
    Text.allBlank (labelOf tag e).toList = true ↔ AsksForBlank tag e := by
  cases e with
  | clause c =>
    obtain ⟨hnumber, htitle⟩ := h
    rw [labelOf, AsksForBlank]
    split
    · next htag =>
      by_cases hempty : c.title = ""
      · simp [htag, hempty, Text.allBlank]
      · simp [htag, hempty, (htitle hempty).allBlank]
    · next htag => simp [htag, hnumber.allBlank]
  | table t =>
    rw [labelOf, AsksForBlank]
    split
    · next htag =>
      rw [Bool.and_eq_true, decide_eq_true_eq] at htag
      simp [htag]
    · next htag =>
      rw [Bool.and_eq_true, decide_eq_true_eq] at htag
      rw [(starts_label t).allBlank]
      simp only [Bool.false_eq_true, false_iff]
      exact fun hasks => htag ⟨hasks.1, hasks.2.1⟩
  | operation o => simp [labelOf, AsksForBlank, Text.Starts.allBlank h]

end Reference

/-! ## Elements without other elements in them -/

namespace Node

section Settle

variable (target? : Reference → Option Target) {root : Node} {k : Nat} {tag : Tag}
  {cs removed : List Node}

/-- An element with no other in it keeps what it contains while a reference elsewhere is linked. -/
theorem find?_settle_of_ne (hkeys : root.keys.Nodup)
    (hfind : root.find? k = some (.element tag cs removed)) (hcs : keysIn cs = []) {r : Reference}
    (hne : r.key ≠ k) : ∃ removed',
      (Reference.settle target? root r).find? k = some (.element tag cs removed') := by
  obtain ⟨_, _, _, heq, hkey⟩ := exists_of_find? hfind
  obtain ⟨rfl, -, -⟩ := element.inj heq
  unfold Reference.settle
  split
  · next t _ =>
    have hmodify := find?_modify_of_ne hne.symm (f := Reference.linked t)
      (fun tag cs rs hk => find?_linked_of_ne (by rw [hk]; simpa using hne) t cs rs) hkeys
    refine ⟨modifyIn r.key (Reference.linked t) removed, ?_⟩
    rw [hmodify, hfind, Option.map_some, modify_of_ne (by rw [hkey]; simpa using hne.symm),
      modifyIn_of_notMem (by rw [hcs]; exact List.not_mem_nil)]
  · exact ⟨removed, hfind⟩

theorem find?_foldl_settle_of_ne {rs : List Reference} (hkeys : root.keys.Nodup)
    (hfind : root.find? k = some (.element tag cs removed)) (hcs : keysIn cs = [])
    (hrs : ∀ r ∈ rs, r.key ≠ k) : ∃ removed',
      (rs.foldl (Reference.settle target?) root).find? k = some (.element tag cs removed') := by
  induction rs generalizing root removed with
  | nil => exact ⟨removed, hfind⟩
  | cons r rs ih =>
    rw [List.forall_mem_cons] at hrs
    obtain ⟨removed', hfind'⟩ := find?_settle_of_ne target? hkeys hfind hcs hrs.1
    exact ih (by rwa [Node.keys, Reference.keyed_settle, ← Node.keys]) hfind' hrs.2

/-- A reference with nothing in it that leads somewhere contains a link with its label once all
references are resolved. -/
theorem find?_foldl_settle {rs : List Reference} (hkeys : root.keys.Nodup)
    (hrs : (rs.map (·.key)).Nodup) {r : Reference} (hr : r ∈ rs) {t : Target}
    (ht : target? r = some t) (hfind : root.find? r.key = some (.element tag cs removed))
    (hblank : cs.all isBlank = true) : ∃ removed',
      (rs.foldl (Reference.settle target?) root).find? r.key =
        some (.element tag [Reference.link t.anchor [.plain t.label]] removed') := by
  have hempty : keysIn cs = [] := by
    rw [keysIn, Reference.keyedIn_of_blank (by simpa [List.not_all_eq_any_not] using hblank)]
    rfl
  induction rs generalizing root removed with
  | nil => cases hr
  | cons r' rs ih =>
    obtain ⟨hnew, hrest⟩ := List.nodup_cons.1 hrs
    have hkeys' : (Reference.settle target? root r').keys.Nodup := by
      rwa [Node.keys, Reference.keyed_settle, ← Node.keys]
    rw [List.foldl_cons]
    rcases List.mem_cons.1 hr with rfl | hr
    · have hlinked : (Reference.settle target? root r).find? r.key =
          some (.element tag [Reference.link t.anchor [.plain t.label]] removed) := by
        rw [Reference.settle_of_some ht, find?_modify_self fun tag cs rs => ⟨_, _, rfl⟩, hfind,
          Option.map_some, Reference.linked, Reference.linkContents, children, if_pos hblank]
        rfl
      exact find?_foldl_settle_of_ne target? hkeys' hlinked rfl fun r' hr' heq =>
        hnew (List.mem_map.2 ⟨r', hr', heq⟩)
    · have hne : r'.key ≠ r.key := fun heq => hnew (List.mem_map.2 ⟨r, hr, heq.symm⟩)
      obtain ⟨removed', hfind'⟩ := find?_settle_of_ne target? hkeys hfind hempty hne
      exact ih hkeys' hrest hr hfind'

end Settle

end Node

/-! ## The references of a document -/

namespace Build

open Reference (target? settle)

section Run

variable {scope : String} {root : Node} {ix : Index}

/-- All references of a document have keys of their own. -/
theorem nodup_surveyedReferences (hkeys : root.keys.Nodup) :
    ((surveyedReferences (Survey.ofRoot scope root).1 (Survey.ofRoot scope root).2 ix).map
      (·.key)).Nodup := by
  rw [surveyedReferences, List.map_append, keys_allReferences]
  refine List.nodup_append.2 ⟨Survey.nodup_references hkeys, List.nodup_range', ?_⟩
  rintro k hk _ hk' rfl
  obtain ⟨r, hr, rfl⟩ := List.mem_map.1 hk
  obtain ⟨t, ht, hkey⟩ := mem_keys_iff.1 (Survey.mem_keys_of_mem_references hr)
  have hbelow := lt_keyBound ht hkey
  have habove := (List.mem_range'_1.1 hk').1
  omega

/-- The references of a document are elements of it once its listings are expanded. -/
theorem mem_keys_expandedPass (ds : List Diagnostic) {r : Reference}
    (hr : r ∈ surveyedReferences (Survey.ofRoot scope root).1 (Survey.ofRoot scope root).2 ix) :
    r.key ∈ (expandedPass (Survey.ofRoot scope root).1 (Survey.ofRoot scope root).2 ix
      ds).root.keys := by
  have hmem {t : Tag} : t ∈ (expandedPass (Survey.ofRoot scope root).1
      (Survey.ofRoot scope root).2 ix ds).root.keyed ↔ _ :=
    mem_keyed_expandedPass fun _ => Survey.mem_keys_of_mem_listings
  rcases List.mem_append.1 hr with hr | hr
  · obtain ⟨t, ht, hkey⟩ := mem_keys_iff.1 (Survey.mem_keys_of_mem_references hr)
    exact mem_keys_iff.2 ⟨t, hmem.2 (.inl ht), hkey⟩
  · obtain ⟨o, ho⟩ := exists_of_forall₂ (forall₂_allReferences _ _) hr
    exact mem_keys_iff.2 ⟨_, hmem.2 (.inr ho), rfl⟩

theorem exists_find?_expandedPass (ds : List Diagnostic) {r : Reference}
    (hr : r ∈ surveyedReferences (Survey.ofRoot scope root).1 (Survey.ofRoot scope root).2 ix) :
    ∃ tag cs removed, (expandedPass (Survey.ofRoot scope root).1 (Survey.ofRoot scope root).2 ix
      ds).root.find? r.key = some (.element tag cs removed) := by
  obtain ⟨m, hm⟩ := Option.isSome_iff_exists.1 (find?_isSome_iff.2 (mem_keys_expandedPass ds hr))
  obtain ⟨tag, cs, removed, rfl, -⟩ := exists_of_find? hm
  exact ⟨tag, cs, removed, hm⟩

end Run

/-- **Which links show.** In a document that is built without imports, let the listings be expanded
and the references not yet resolved. Then a reference that leads somewhere and has nothing in it
but blanks and comments contains, in the end, one link, with the label of its target for its text;
and the label shows, unless the reference asks for the title of a clause without one or for a
caption of blanks. -/
theorem links_show (o : BuildOptions) (root : Node) (b : BuildResult) (hext : o.external = [])
    (hkeys : root.keys.Nodup) (h : run o root = .ok b) : ∃ p refs,
      expandAll b.merged ⟨(Survey.ofRoot o.scope root).1, (Survey.ofRoot o.scope root).1.keyBound,
        Action.reports (Survey.ofRoot o.scope root).2.actions⟩
        (Survey.ofRoot o.scope root).2.listings = .ok (p, refs) ∧
      ∀ g ∈ b.references, ∀ t, g.target = some t → ∃ tag cs removed,
        p.root.find? g.reference.key = some (.element tag cs removed) ∧
        (cs.all isBlank = true → ∃ removed',
          b.root.find? g.reference.key =
            some (.element tag [Reference.link t.anchor [.plain t.label]] removed')) ∧
        (Text.allBlank t.label.toList = true ↔ Reference.AsksForBlank tag t.entry) := by
  obtain ⟨ix, ds, hc, -, hentries, rfl, hsecond⟩ := run_ok_of_no_imports hext h
  obtain ⟨hwritable, rfl⟩ := secondPass_ok_iff.1 hsecond
  dsimp only
  rw [resolveAll_eq]
  refine ⟨_, _, expandAll_ok_iff.2 ⟨hwritable, rfl, rfl⟩, fun g hg t ht => ?_⟩
  obtain ⟨r, hr, rfl⟩ := List.mem_map.1 hg
  dsimp only at ht ⊢
  obtain ⟨tag, cs, removed, hm⟩ :=
    exists_find?_expandedPass (Action.reports (Survey.ofRoot o.scope root).2.actions) hr
  refine ⟨tag, cs, removed, hm, fun hblank => ?_, ?_⟩
  · exact find?_foldl_settle _ (nodup_keys_expandedPass hkeys) (nodup_surveyedReferences hkeys) hr
      ht hm hblank
  · -- the target has been looked up by the tag that the element has
    rw [target?, tagAt_of_find? hm] at ht
    rcases Reference.resolve_cases hc tag r.scope o.scope with ⟨e, he, -, hok⟩ | ⟨d, herror, -⟩
    · rw [hok] at ht
      obtain rfl := Option.some.inj ht
      exact Reference.allBlank_labelOf_iff (Survey.legible_ofRoot o.scope root e (hentries ▸ he))
    · rw [herror] at ht
      cases ht

/-- The references of a document without listings are resolved in the surveyed document. -/
theorem references_of_no_listings {o : BuildOptions} {root : Node} {b : BuildResult}
    (h : run o root = .ok b) (hlistings : (Survey.ofRoot o.scope root).2.listings = []) :
    b.references = (Survey.ofRoot o.scope root).2.references.map (fun r =>
      ⟨r, target? b.merged o.scope (Survey.ofRoot o.scope root).1 r⟩) ∧
    b.root = (Survey.ofRoot o.scope root).2.references.foldl
      (settle (target? b.merged o.scope (Survey.ofRoot o.scope root).1))
      (Survey.ofRoot o.scope root).1 := by
  obtain ⟨ix, ds, merged, -, -, hsecond⟩ := run_ok_iff.1 h
  obtain ⟨-, rfl⟩ := secondPass_ok_iff.1 hsecond
  dsimp only
  rw [resolveAll_eq, surveyedReferences, expandedPass, hlistings, allReferences, List.append_nil]
  exact ⟨rfl, rfl⟩

/-- A clause without a title, a reference that asks for its title and one that does not. -/
def untitled : Node :=
  (document
    [.new "emu-clause" [("id", "c")] [], .new "emu-xref" [("href", "#c"), ("title", "")] [],
     .new "emu-xref" [("href", "#c")] []]).withKeys

/-- The clause without a title under a label. -/
def untitledTarget (label : String) : Target :=
  ⟨.clause ⟨"c", "1", "", "ns", .null, .null⟩, .string "c", label⟩

theorem ofRoot_untitled : (Survey.ofRoot "ns" untitled).1 = untitled := rfl

theorem exists_run_untitled : ∃ b, run ⟨"ns", [], .strict⟩ untitled = .ok b ∧
    b.references = [⟨⟨2, "ns", none⟩, some (untitledTarget "")⟩,
      ⟨⟨3, "ns", none⟩, some (untitledTarget "1")⟩] ∧
    b.root = (untitled.modify 2 (Reference.linked (untitledTarget ""))).modify 3
      (Reference.linked (untitledTarget "1")) := by
  have hlistings : (Survey.ofRoot "ns" untitled).2.listings = [] := by decide +kernel
  have hwritten : (Survey.ofRoot "ns" untitled).2.references =
      [⟨2, "ns", none⟩, ⟨3, "ns", none⟩] := by decide +kernel
  obtain ⟨b, hb, hc, hentries⟩ := exists_run ⟨"ns", [], .strict⟩ untitled rfl
    (by decide +kernel) (by decide +kernel) (by decide +kernel) (by decide +kernel)
    (fun _ _ _ l hl => by
      rw [hlistings] at hl
      cases hl)
  obtain ⟨hreferences, hroot⟩ := references_of_no_listings hb hlistings
  dsimp only at hreferences hroot
  have hfind : b.merged.find? (.string "c") = some (untitledTarget "").entry := by
    rw [hc.find?_eq, hentries]
    rfl
  have htarget (tag : Tag) (hhref : tag.filled? "href" = some "#c") :
      Reference.resolve b.merged tag "ns" "ns" =
        .ok (some (untitledTarget (Reference.labelOf tag (untitledTarget "").entry))) := by
    refine Reference.resolve_of_lookUp ?_ rfl
    rw [Reference.lookUp_of_href b.merged (show _ = some ("#" ++ "c") from hhref), hfind]
    rfl
  rw [hwritten] at hreferences hroot
  have htitle : target? b.merged "ns" untitled ⟨2, "ns", none⟩ = some (untitledTarget "") := by
    rw [target?, htarget _ rfl]
    rfl
  have hnumber : target? b.merged "ns" untitled ⟨3, "ns", none⟩ = some (untitledTarget "1") := by
    rw [target?, htarget _ rfl]
    rfl
  rw [ofRoot_untitled] at hreferences hroot
  rw [List.map_cons, List.map_cons, htitle, hnumber] at hreferences
  rw [List.foldl_cons, List.foldl_cons, Reference.settle_of_some htitle,
    Reference.settle_of_some hnumber] at hroot
  exact ⟨b, hb, hreferences, hroot⟩

/-- The reference that does not ask for the title shows the number of the clause. -/
theorem links_show_number : untitled.keys.Nodup ∧ ∃ b,
    run ⟨"ns", [], .strict⟩ untitled = .ok b ∧ ∃ removed,
      b.root.find? 3 = some (.element ⟨"emu-xref", [("href", "#c")], some 3⟩
        [Reference.link (.string "c") [.plain "1"]] removed) ∧
      Text.allBlank "1".toList = false := by
  have hkeys : untitled.keys.Nodup := by decide +kernel
  have hlistings : (Survey.ofRoot "ns" untitled).2.listings = [] := by decide +kernel
  obtain ⟨b, hb, hreferences, -⟩ := exists_run_untitled
  have hmem : (⟨⟨3, "ns", none⟩, some (untitledTarget "1")⟩ : Resolved) ∈ b.references := by
    rw [hreferences]
    exact List.mem_cons_of_mem _ List.mem_cons_self
  obtain ⟨p, refs, hexpand, hall⟩ := links_show ⟨"ns", [], .strict⟩ untitled b rfl hkeys hb
  obtain ⟨tag, cs, removed, hfind, hlink, hblank⟩ := hall _ hmem _ rfl
  rw [hlistings] at hexpand
  obtain ⟨rfl, rfl⟩ := Prod.mk.inj (Except.ok.inj hexpand)
  have hwritten : untitled.find? 3 =
      some (.element ⟨"emu-xref", [("href", "#c")], some 3⟩ [] []) := rfl
  obtain ⟨rfl, rfl, rfl⟩ := Node.element.inj (Option.some.inj (hwritten.symm.trans hfind))
  obtain ⟨removed, hlink⟩ := hlink rfl
  refine ⟨hkeys, b, hb, removed, hlink, ?_⟩
  rw [← Bool.not_eq_true]
  exact fun h => absurd (hblank.1 h).1 (by decide)

/-- The reference that asks for the title gets a link with nothing in it. -/
theorem links_show_emptyTitle : untitled.keys.Nodup ∧
    untitled.find? 2 =
      some (.element ⟨"emu-xref", [("href", "#c"), ("title", "")], some 2⟩ [] []) ∧
    ∃ b, run ⟨"ns", [], .strict⟩ untitled = .ok b ∧
      (∃ g ∈ b.references, g.reference.key = 2 ∧ g.target.isSome = true) ∧
      b.root.find? 2 = some (.element ⟨"emu-xref", [("href", "#c"), ("title", "")], some 2⟩
        [Reference.link (.string "c") [.plain ""]] []) := by
  obtain ⟨b, hb, hreferences, hroot⟩ := exists_run_untitled
  refine ⟨by decide +kernel, rfl, b, hb,
    ⟨⟨⟨2, "ns", none⟩, some (untitledTarget "")⟩, ?_, rfl, rfl⟩, by rw [hroot]; rfl⟩
  rw [hreferences]
  exact List.mem_cons_self

end Build

end Concordance
