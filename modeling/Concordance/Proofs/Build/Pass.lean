import Concordance.Build
import Concordance.Proofs.Index.Actions
import Concordance.Proofs.Survey.Reports

/-!
# References in the second pass

In an index whose views are in step with its entries, a reference either leads to an entry, whose
anchor a link can go to, or is reported once, at its own element (`Reference.resolve_cases`). A link
keeps all elements with keys, so every reference of a document is resolved by the tag that its
element had before any of them was: `resolveAll_eq` gives the outcome of all references at once.

The rules under which unresolved references are reported are used for nothing else, neither by a
survey nor by a listing. So there are as many of these reports as there are unresolved references
(`references_accounted`).
-/

namespace Concordance

open Node

/-! ## Changes that keep the elements with keys -/

namespace Node

/-- The tag of the element with a key, and an empty one where there is none. -/
def tagAt (k : Nat) (root : Node) : Tag := ((root.find? k).bind tag?).getD default

theorem tagAt_of_find? {k : Nat} {root : Node} {tag : Tag} {cs rs : List Node}
    (h : root.find? k = some (.element tag cs rs)) : root.tagAt k = tag := by
  rw [tagAt, h]
  rfl

theorem tagAt_eq_of_keyed {k : Nat} {root root' : Node} (h : root'.keyed = root.keyed) :
    tagAt k root' = tagAt k root := by
  rw [tagAt, tagAt, find?_tag, find?_tag, h]

mutual
/-- A change at a key that keeps the elements with keys keeps them in the whole tree. -/
theorem keyed_modify {k : Nat} {f : Node → Node} (hf : ∀ n, (f n).keyed = n.keyed) (n : Node) :
    (n.modify k f).keyed = n.keyed := by
  match n with
  | .text kind value => rfl
  | .element tag cs rs =>
    rw [modify]
    split
    · exact hf _
    · rw [keyed, keyed, keyedIn_modifyIn hf cs, keyedIn_modifyIn hf rs]

theorem keyedIn_modifyIn {k : Nat} {f : Node → Node} (hf : ∀ n, (f n).keyed = n.keyed)
    (ns : List Node) : keyedIn (modifyIn k f ns) = keyedIn ns := by
  match ns with
  | [] => rfl
  | n :: ns => rw [modifyIn, keyedIn, keyedIn, keyed_modify hf n, keyedIn_modifyIn hf ns]
end

theorem keyed_of_isBlank {n : Node} (h : n.isBlank = true) : n.keyed = [] := by
  cases n with
  | text kind value => rfl
  | element tag cs rs => cases h

end Node

namespace Diagnostic

/-- The rules under which references are reported that lead nowhere. -/
def referenceRules : List String := ["xref-not-found", "invalid-xref"]

/-- Whether a diagnostic is about a reference that leads nowhere. -/
def isUnresolved (d : Diagnostic) : Bool := referenceRules.contains d.rule

end Diagnostic

/-- An address is no list of words, so it is kept as it is written. -/
theorem Tag.make_href (name href : String) :
    Tag.make name [("href", href)] = ⟨name, [("href", href)], none⟩ := by
  have hlists : ∀ l ∈ wordLists, l.2.contains "href" = false := by decide
  have hkept : kept name "href" href = href := by
    have hlist : isWordList name "href" = false := by
      rw [isWordList, show commonWordLists.contains "href" = false by decide, Bool.false_or,
        List.any_eq_false]
      intro l hl
      rw [hlists l hl, Bool.and_false]
      exact Bool.false_ne_true
    rw [kept, hlist]
    rfl
  rw [make, List.foldl_cons, List.foldl_nil, set, hkept]
  rfl

/-! ## One reference -/

namespace Entry

/-- An entry that is found under a text has it for an anchor. -/
theorem anchor_of_ident? {e : Entry} {s : String} (h : e.id.ident? = some s) :
    e.anchor = .string s := by
  obtain ⟨hid, hne⟩ := Json.ident?_eq_some_iff.1 h
  cases e with
  | clause c => exact hid
  | table t => exact hid
  | operation o =>
    have hset : o.id.isSet = true := by
      rw [show o.id = _ from hid]
      exact Json.isSet_string.2 hne
    exact (if_pos hset).trans hid

end Entry

theorem Json.isNull_of_isSet {v : Json} (h : v.isSet = true) : v.isNull = false := by
  cases v with
  | null => cases h
  | _ => rfl

theorem Index.Coherent.mem_of_operation? {ix : Index} (hc : ix.Coherent) {scope aoid : String}
    {o : OperationEntry} (h : ix.operation? scope aoid = some o) : .operation o ∈ ix.entries := by
  rw [hc.operation?_eq] at h
  exact Entry.mem_operations_iff.1 (List.mem_of_find?_eq_some h)

theorem Index.Coherent.mem_of_operation?_or {ix : Index} (hc : ix.Coherent)
    {scope fallback aoid : String} {o : OperationEntry}
    (h : (ix.operation? scope aoid).or (ix.operation? fallback aoid) = some o) :
    .operation o ∈ ix.entries := by
  rcases Option.or_eq_some_iff.1 h with h | ⟨-, h⟩
  · exact hc.mem_of_operation? h
  · exact hc.mem_of_operation? h

/-- An operation as what a reference by name leads to. -/
def OperationEntry.target (o : OperationEntry) : Target := ⟨.operation o, o.anchor, o.aoid⟩

namespace Reference

/-- A link takes the contents of its reference if any of them shows, and else the label. -/
theorem linkContents_eq (label : String) (cs : List Node) :
    linkContents label cs = if cs.any (!·.isBlank) then cs else [.plain label] := by
  rw [linkContents, ← List.not_all_eq_any_not]
  cases cs.all isBlank <;> rfl

/-- Contents that the label takes the place of have no elements in them. -/
theorem keyedIn_of_blank {cs : List Node} (h : ¬cs.any (!·.isBlank) = true) : keyedIn cs = [] := by
  rw [Bool.not_eq_true, ← List.not_all_eq_any_not, Bool.not_eq_false', List.all_eq_true] at h
  exact keyedIn_eq_nil_iff.2 fun n hn => keyed_of_isBlank (h n hn)

theorem linked_element (t : Target) (tag : Tag) (cs rs : List Node) :
    linked t (.element tag cs rs) =
      .element tag
        [.element ⟨"a", [("href", "#" ++ t.anchor.asText)], none⟩
          (if cs.any (!·.isBlank) then cs else [.plain t.label]) []] rs := by
  rw [linked, withChildren, link, Node.new, Tag.make_href, linkContents_eq, children]

theorem keyed_linked (t : Target) (n : Node) : (linked t n).keyed = n.keyed := by
  cases n with
  | text kind value => rfl
  | element tag cs rs =>
    have hcontents : keyedIn (if cs.any (!·.isBlank) then cs else [.plain t.label]) =
        keyedIn cs := by
      split
      · rfl
      · next h =>
        rw [keyedIn_of_blank h]
        rfl
    rw [linked_element, keyed, keyedIn, keyed, hcontents, keyed]
    simp [keyedIn]

variable {ix : Index}

theorem byAddress_cases (hc : ix.Coherent) (tag : Tag) (href : String) :
    (∃ e ∈ ix.entries, byAddress ix tag href = .ok e ∧ e.anchor.isNull = false) ∨
      ∃ d : Diagnostic, byAddress ix tag href = .error d ∧ d.isUnresolved = true ∧
        d.subject = tag := by
  unfold byAddress
  split
  · next id _ =>
    dsimp only
    split
    · next e he =>
      obtain ⟨hmem, hid⟩ := hc.find?_string_eq_some_iff.1 he
      exact .inl ⟨e, hmem, rfl, by rw [Entry.anchor_of_ident? hid]; rfl⟩
    · exact .inr ⟨_, rfl, rfl, rfl⟩
  · exact .inr ⟨_, rfl, rfl, rfl⟩

theorem byName_cases (hc : ix.Coherent) (tag : Tag) (aoid scope fallback : String) :
    (∃ e ∈ ix.entries, byName ix tag aoid scope fallback = .ok e ∧ e.anchor.isNull = false) ∨
      ∃ d : Diagnostic, byName ix tag aoid scope fallback = .error d ∧ d.isUnresolved = true ∧
        d.subject = tag := by
  unfold byName
  split
  · next o ho =>
    have hmem := hc.mem_of_operation?_or ho
    exact .inl ⟨_, hmem, rfl,
      Json.isNull_of_isSet (OperationEntry.isSet_anchor (hc.insertable _ hmem))⟩
  · exact .inr ⟨_, rfl, rfl, rfl⟩

/-- What is looked up is in the index and has an anchor, or it is reported once. -/
theorem lookUp_cases (hc : ix.Coherent) (tag : Tag) (scope fallback : String) :
    (∃ e ∈ ix.entries, lookUp ix tag scope fallback = .ok e ∧ e.anchor.isNull = false) ∨
      ∃ d : Diagnostic, lookUp ix tag scope fallback = .error d ∧ d.isUnresolved = true ∧
        d.subject = tag := by
  unfold lookUp
  split
  · exact byAddress_cases hc tag _
  · exact byName_cases hc tag _ scope fallback
  · exact .inr ⟨_, rfl, rfl, rfl⟩

/-- A reference with an address in the document is looked up by the id. -/
theorem lookUp_of_href (ix : Index) {tag : Tag} {id : String}
    (hhref : tag.filled? "href" = some ("#" ++ id)) (scope fallback : String) :
    lookUp ix tag scope fallback =
      match ix.find? (.string id) with
      | some e => .ok e
      | none => .error (unknownId tag id) := by
  have hlist : ("#" ++ id).toList = '#' :: id.toList := by simp
  have hself : String.ofList id.toList = id := by simp
  rw [lookUp, hhref]
  dsimp only
  rw [byAddress, hlist]
  cases hfind : ix.find? (.string id) with
  | none => simp [hself, hfind]
  | some e => simp [hself, hfind]

theorem resolve_of_lookUp {tag : Tag} {scope fallback : String} {e : Entry}
    (h : lookUp ix tag scope fallback = .ok e) (hanchor : e.anchor.isNull = false) :
    resolve ix tag scope fallback = .ok (some ⟨e, e.anchor, labelOf tag e⟩) := by
  unfold resolve
  rw [h]
  simp [bind, Except.bind, pure, Except.pure, hanchor]

/-- A reference by name leads to the operation of that name in its own namespace, or else in the
namespace of the document, and otherwise nowhere. -/
theorem resolve_of_aoid (hc : ix.Coherent) {tag : Tag} {aoid : String}
    (hhref : tag.filled? "href" = none) (haoid : tag.filled? "aoid" = some aoid)
    (scope fallback : String) : resolve ix tag scope fallback =
      match (ix.operation? scope aoid).or (ix.operation? fallback aoid) with
      | some o => .ok (some o.target)
      | none => .error (unknownOperation tag aoid scope) := by
  have hlookUp : lookUp ix tag scope fallback = byName ix tag aoid scope fallback := by
    rw [lookUp, hhref, haoid]
  rw [byName] at hlookUp
  cases hfound : (ix.operation? scope aoid).or (ix.operation? fallback aoid) with
  | none =>
    rw [hfound] at hlookUp
    rw [resolve, hlookUp]
    rfl
  | some o =>
    rw [hfound] at hlookUp
    have hinsertable := hc.insertable _ (hc.mem_of_operation?_or hfound)
    exact resolve_of_lookUp hlookUp
      (Json.isNull_of_isSet (OperationEntry.isSet_anchor hinsertable))

/-- A reference leads to an entry, or it is reported once. -/
theorem resolve_cases (hc : ix.Coherent) (tag : Tag) (scope fallback : String) :
    (∃ e ∈ ix.entries, lookUp ix tag scope fallback = .ok e ∧
        resolve ix tag scope fallback = .ok (some ⟨e, e.anchor, labelOf tag e⟩)) ∨
      ∃ d : Diagnostic, resolve ix tag scope fallback = .error d ∧ d.isUnresolved = true ∧
        d.subject = tag := by
  rcases lookUp_cases hc tag scope fallback with ⟨e, he, hlook, hanchor⟩ | ⟨d, hlook, hd⟩
  · exact .inl ⟨e, he, hlook, resolve_of_lookUp hlook hanchor⟩
  · refine .inr ⟨d, ?_, hd⟩
    unfold resolve
    rw [hlook]
    rfl

section Outcome

variable (ix : Index) (scope : String) (root : Node) (r : Reference)

/-- Where a reference of a document leads. -/
def target? : Option Target :=
  match resolve ix (root.tagAt r.key) r.scope scope with
  | .ok t => t
  | .error _ => none

/-- What is reported of a reference of a document. -/
def report? : Option Diagnostic :=
  match resolve ix (root.tagAt r.key) r.scope scope with
  | .ok _ => none
  | .error d => some d

/-- The document with a reference linked, if it leads somewhere. -/
def settle (target? : Reference → Option Target) (root : Node) (r : Reference) : Node :=
  match target? r with
  | some t => root.modify r.key (linked t)
  | none => root

variable {ix scope root r}

theorem target?_congr {root' : Node} (h : root'.keyed = root.keyed) :
    target? ix scope root' = target? ix scope root := by
  funext r
  rw [target?, target?, tagAt_eq_of_keyed h]

theorem report?_congr {root' : Node} (h : root'.keyed = root.keyed) :
    report? ix scope root' = report? ix scope root := by
  funext r
  rw [report?, report?, tagAt_eq_of_keyed h]

/-- A reference has a target or a report, and not both. -/
theorem target?_isNone_iff (hc : ix.Coherent) :
    (r.target? ix scope root).isNone = ((r.report? ix scope root).map (·.isUnresolved)).getD false
    := by
  unfold target? report?
  rcases resolve_cases hc (root.tagAt r.key) r.scope scope with
    ⟨e, -, -, hok⟩ | ⟨d, herror, hd, -⟩
  · rw [hok]
    rfl
  · rw [herror]
    exact hd.symm

theorem isUnresolved_of_report? (hc : ix.Coherent) {d : Diagnostic}
    (h : r.report? ix scope root = some d) : d.isUnresolved = true := by
  unfold report? at h
  rcases resolve_cases hc (root.tagAt r.key) r.scope scope with
    ⟨e, -, -, hok⟩ | ⟨d', herror, hd, -⟩
  · rw [hok] at h
    cases h
  · rw [herror] at h
    exact Option.some.inj h ▸ hd

end Outcome

theorem settle_of_some {target? : Reference → Option Target} {root : Node} {r : Reference}
    {t : Target} (h : target? r = some t) :
    settle target? root r = root.modify r.key (linked t) := by
  rw [settle, h]

theorem keyed_settle (target? : Reference → Option Target) (root : Node) (r : Reference) :
    (settle target? root r).keyed = root.keyed := by
  unfold settle
  split
  · exact keyed_modify (keyed_linked _) root
  · rfl

end Reference

/-! ## All references -/

namespace Build

open Reference (target? report? settle)

variable {ix : Index} {scope : String}

theorem resolve_eq (ix : Index) (scope : String) (p : Pass) (r : Reference) :
    resolve ix scope p r =
      ({ p with
          root := settle (target? ix scope p.root) p.root r
          diagnostics := p.diagnostics ++ (report? ix scope p.root r).toList },
        ⟨r, target? ix scope p.root r⟩) := by
  unfold resolve settle target? report?
  dsimp only [tagAt]
  split
  · next t h => simp only [h, Option.toList_none, List.append_nil]
  · next h => simp only [h, Option.toList_none, List.append_nil]
  · next d h => simp only [h, Option.toList_some]

/-- The outcome of resolving all references of a document. -/
theorem resolveAll_eq (ix : Index) (scope : String) (p : Pass) (rs : List Reference) :
    resolveAll ix scope p rs =
      ({ p with
          root := rs.foldl (settle (target? ix scope p.root)) p.root
          diagnostics := p.diagnostics ++ rs.filterMap (report? ix scope p.root) },
        rs.map fun r => ⟨r, target? ix scope p.root r⟩) := by
  induction rs generalizing p with
  | nil => simp [resolveAll]
  | cons r rs ih =>
    -- the elements with keys stay, so the references to come are resolved as before
    have hkeyed := Reference.keyed_settle (target? ix scope p.root) p.root r
    rw [resolveAll, resolve_eq]
    dsimp only
    rw [ih]
    dsimp only
    rw [Reference.target?_congr hkeyed, Reference.report?_congr hkeyed, List.foldl_cons,
      List.map_cons, List.filterMap_cons, List.append_assoc]
    cases report? ix scope p.root r <;> rfl

/-- As many references are unresolved as there are reports of such references. -/
theorem countP_resolveAll (hc : ix.Coherent) (p : Pass) (rs : List Reference) :
    (resolveAll ix scope p rs).1.diagnostics.countP (·.isUnresolved) =
      p.diagnostics.countP (·.isUnresolved) +
        (resolveAll ix scope p rs).2.countP (·.target.isNone) := by
  rw [resolveAll_eq, List.countP_append, Nat.add_left_cancel_iff, List.countP_map]
  induction rs with
  | nil => rfl
  | cons r rs ih =>
    rw [List.filterMap_cons, List.countP_cons, ← ih]
    have hnone : (target? ix scope p.root r).isNone =
        ((report? ix scope p.root r).map (·.isUnresolved)).getD false :=
      Reference.target?_isNone_iff hc
    rw [Function.comp_apply, hnone]
    cases report? ix scope p.root r with
    | none => rfl
    | some d => exact List.countP_cons

/-! ## The passes one after another -/

/-- The pass after a listing that can be written. -/
def expanded (ix : Index) (p : Pass) (l : Listing) : Pass :=
  ⟨p.root.modify l.key (l.expanded ix p.nextKey), p.nextKey + (l.methods ix).length,
    p.diagnostics ++ l.reports ix (p.root.tagAt l.key)⟩

/-- The references of listings, from a key on. -/
def allReferences (ix : Index) : (key : Nat) → List Listing → List Reference
  | _, [] => []
  | key, l :: ls => l.references ix key ++ allReferences ix (key + (l.methods ix).length) ls

theorem expandAll_ok_iff {p p' : Pass} {ls : List Listing} {refs : List Reference} :
    expandAll ix p ls = .ok (p', refs) ↔ (∀ l ∈ ls, l.isWritable ix = true) ∧
      ls.foldl (expanded ix) p = p' ∧ allReferences ix p.nextKey ls = refs := by
  induction ls generalizing p p' refs with
  | nil => simp [expandAll, allReferences]
  | cons l ls ih =>
    have hexpand : expand ix p l = if l.isWritable ix then
        .ok (expanded ix p l, l.references ix p.nextKey)
        else .error ⟨.listing, p.diagnostics ++ l.reports ix (p.root.tagAt l.key)⟩ := by
      simp [expand, expanded, tagAt, Listing.references]
    rw [expandAll, bind_ok_iff, hexpand, List.forall_mem_cons, List.foldl_cons, allReferences]
    cases hl : l.isWritable ix with
    | false => simp
    | true =>
      rw [if_pos rfl]
      constructor
      · rintro ⟨_, hfirst, h⟩
        obtain rfl := Except.ok.inj hfirst
        obtain ⟨⟨p₁, more⟩, h₁, h⟩ := bind_ok_iff.1 h
        obtain ⟨hw, rfl, rfl⟩ := ih.1 h₁
        obtain ⟨rfl, rfl⟩ := Prod.mk.inj (Except.ok.inj h)
        exact ⟨⟨rfl, hw⟩, rfl, rfl⟩
      · rintro ⟨⟨-, hw⟩, rfl, rfl⟩
        exact ⟨_, rfl, bind_ok_iff.2 ⟨_, ih.2 ⟨hw, rfl, rfl⟩, rfl⟩⟩

/-- The reports of listings are no reports of references. -/
theorem isUnresolved_of_mem_reports {l : Listing} {tag : Tag} {d : Diagnostic}
    (h : d ∈ l.reports ix tag) : d.isUnresolved = false := by
  obtain ⟨o, -, hd⟩ := List.mem_flatMap.1 h
  unfold Listing.reportOf at hd
  split at hd
  · cases hd
  · exact List.mem_singleton.1 hd ▸ rfl

theorem countP_expanded (p : Pass) (ls : List Listing) :
    (ls.foldl (expanded ix) p).diagnostics.countP (·.isUnresolved) =
      p.diagnostics.countP (·.isUnresolved) := by
  induction ls generalizing p with
  | nil => rfl
  | cons l ls ih =>
    have hnone : (l.reports ix (p.root.tagAt l.key)).countP (·.isUnresolved) = 0 :=
      List.countP_eq_zero.2 fun d hd => by rw [isUnresolved_of_mem_reports hd]; simp
    rw [List.foldl_cons, ih, expanded, List.countP_append, hnone, Nat.add_zero]

theorem firstPass_of_fault {as : List Action} {f : BuildFault}
    (h : (Action.perform .empty as).fault = some f) :
    firstPass as = .error ⟨f, (Action.perform .empty as).diagnostics⟩ := by
  unfold firstPass
  simp only [h]

theorem firstPass_of_freeze {as : List Action} (h : (Action.perform .empty as).fault = none)
    (hfreeze : (Action.perform .empty as).index.freeze = .ok ix) :
    firstPass as = .ok (ix, (Action.perform .empty as).diagnostics) := by
  unfold firstPass
  simp only [h, hfreeze]

/-- The index after a first pass holds what the actions add, and all references in it lead to an
entry; the diagnostics are what the actions report. -/
theorem firstPass_ok {as : List Action} {ds : List Diagnostic} (h : firstPass as = .ok (ix, ds)) :
    ix.Coherent ∧ ix.frozen = true ∧ ix.entries = Action.additions as ∧
      Action.reports as = ds := by
  unfold firstPass at h
  dsimp only at h
  split at h
  · cases h
  · next hfault =>
    split at h
    · next ix' hfreeze =>
      obtain ⟨rfl, rfl⟩ := Prod.mk.inj (Except.ok.inj h)
      obtain ⟨-, hinsert, hreports⟩ := (Action.perform_ok_iff rfl).1
        (show Action.perform .empty as = ⟨_, _, none⟩ by rw [← hfault])
      have hopen := Index.open_empty.insertAll hinsert
      refine ⟨hopen.1.freeze hfreeze, ?_, ?_, hreports⟩
      · obtain ⟨-, rfl⟩ := Index.freeze_ok_iff.1 hfreeze
        rfl
      · obtain ⟨-, rfl⟩ := Index.freeze_ok_iff.1 hfreeze
        exact Index.entries_of_insertAll hinsert
    · cases h

/-- The index that references are looked up in is frozen, and its views are in step. -/
theorem coherent_mergedIndex {o : BuildOptions} {merged : Index} (hc : ix.Coherent)
    (hf : ix.frozen = true) (h : mergedIndex o ix = .ok merged) :
    merged.Coherent ∧ merged.frozen = true := by
  unfold mergedIndex at h
  split at h
  · obtain rfl := Except.ok.inj h
    exact ⟨hc, hf⟩
  · obtain ⟨external, -, h⟩ := bind_ok_iff.1 h
    refine ⟨Index.coherent_of_merge h, ?_⟩
    unfold Index.merge at h
    obtain ⟨base, -, h⟩ := bind_ok_iff.1 h
    obtain ⟨all, -, h⟩ := bind_ok_iff.1 h
    obtain ⟨-, rfl⟩ := Index.freeze_ok_iff.1 h
    rfl

/-- All that a successful build does. -/
theorem run_ok_iff {o : BuildOptions} {root : Node} {b : BuildResult} :
    run o root = .ok b ↔ ∃ ix ds merged,
      firstPass (Survey.ofRoot o.scope root).2.actions = .ok (ix, ds) ∧
      mergedIndex o ix = .ok merged ∧
      secondPass o (Survey.ofRoot o.scope root).1 (Survey.ofRoot o.scope root).2 ix merged ds =
        .ok b := by
  unfold run
  dsimp only
  rw [bind_ok_iff]
  constructor
  · rintro ⟨⟨ix, ds⟩, hfirst, h⟩
    split at h
    · next merged hmerged => exact ⟨ix, ds, merged, hfirst, hmerged, h⟩
    · cases h
  · rintro ⟨ix, ds, merged, hfirst, hmerged, h⟩
    refine ⟨(ix, ds), hfirst, ?_⟩
    dsimp only
    rw [hmerged]
    exact h

/-- The pass in which all listings of a survey are expanded. -/
def expandedPass (root : Node) (s : Survey) (merged : Index) (ds : List Diagnostic) : Pass :=
  s.listings.foldl (expanded merged) ⟨root, root.keyBound, ds⟩

/-- The references of a survey and of its listings. -/
def surveyedReferences (root : Node) (s : Survey) (merged : Index) : List Reference :=
  s.references ++ allReferences merged root.keyBound s.listings

/-- All that a successful second pass does. -/
theorem secondPass_ok_iff {o : BuildOptions} {root : Node} {s : Survey} {ix merged : Index}
    {ds : List Diagnostic} {b : BuildResult} :
    secondPass o root s ix merged ds = .ok b ↔ (∀ l ∈ s.listings, l.isWritable merged = true) ∧
      let out := resolveAll merged o.scope (expandedPass root s merged ds)
        (surveyedReferences root s merged)
      b = { root := out.1.root, index := ix, merged, clauses := s.clauses, tables := s.tables
            references := out.2, diagnostics := out.1.diagnostics } := by
  unfold secondPass
  rw [bind_ok_iff]
  constructor
  · rintro ⟨⟨p, refs⟩, hexpand, h⟩
    obtain ⟨hw, rfl, rfl⟩ := expandAll_ok_iff.1 hexpand
    exact ⟨hw, (Except.ok.inj h).symm⟩
  · rintro ⟨hw, rfl⟩
    exact ⟨_, expandAll_ok_iff.2 ⟨hw, rfl, rfl⟩, rfl⟩

/-- A document without imports is built when the actions of its survey make an index that can be
frozen, and when its listings can be written in such an index. -/
theorem exists_run (o : BuildOptions) (root : Node) (hext : o.external = [])
    (hhalt : (Survey.ofRoot o.scope root).2.actions.any Action.isHalt = false)
    (hinsertable :
      ∀ e ∈ Action.additions (Survey.ofRoot o.scope root).2.actions, e.isInsertable = true)
    (hkeys :
      ((Action.additions (Survey.ofRoot o.scope root).2.actions).filterMap Entry.key?).Nodup)
    (hrefs : Entry.danglingRefs (Action.additions (Survey.ofRoot o.scope root).2.actions) = [])
    (hwritable : ∀ ix : Index, ix.Coherent →
      ix.entries = Action.additions (Survey.ofRoot o.scope root).2.actions →
        ∀ l ∈ (Survey.ofRoot o.scope root).2.listings, l.isWritable ix = true) :
    ∃ b, run o root = .ok b ∧ b.merged.Coherent ∧
      b.merged.entries = Action.additions (Survey.ofRoot o.scope root).2.actions := by
  obtain ⟨ix, hperform, hopen, hentries⟩ := Action.exists_perform _ hhalt hinsertable hkeys
  have hfreeze : ix.freeze = .ok { ix with frozen := true } :=
    Index.freeze_ok_iff.2 ⟨by rw [hopen.1.danglingRefs_eq, hentries, hrefs], rfl⟩
  have hc := hopen.1.freeze hfreeze
  have hfirst : firstPass (Survey.ofRoot o.scope root).2.actions =
      .ok ({ ix with frozen := true }, Action.reports (Survey.ofRoot o.scope root).2.actions) := by
    rw [firstPass_of_freeze (by rw [hperform]) (by rw [hperform, hfreeze]), hperform]
  have hmerged : mergedIndex o { ix with frozen := true } = .ok { ix with frozen := true } := by
    rw [mergedIndex, hext]
    rfl
  exact ⟨_, run_ok_iff.2 ⟨_, _, _, hfirst, hmerged,
    secondPass_ok_iff.2 ⟨hwritable _ hc hentries, rfl⟩⟩, hc, hentries⟩

/-! ## The account of references -/

/-- What becomes of one reference. It is resolved without a report, and then its element holds one
link, to the anchor of its target, around what was in the element, or around the label where that
was blank; or it is reported once, at its own element, and nothing in the document changes. Nothing
around the element changes in either case. -/
theorem resolve_once {ix : Index} (hix : ix.Coherent) (scope : String) (p : Pass) (r : Reference)
    {tag : Tag} {cs rs : List Node} (hkeys : p.root.keys.Nodup)
    (hfind : p.root.find? r.key = some (.element tag cs rs)) :
    ∃ C : Frame, C.fill (.element tag cs rs) = p.root ∧
      ((∃ e ∈ ix.entries, Reference.lookUp ix tag r.scope scope = .ok e ∧ resolve ix scope p r =
          ({ p with root := C.fill (.element tag
              [.element ⟨"a", [("href", "#" ++ e.anchor.asText)], none⟩
                (if cs.any (!·.isBlank) then cs else [.plain (Reference.labelOf tag e)]) []] rs) },
            ⟨r, some ⟨e, e.anchor, Reference.labelOf tag e⟩⟩)) ∨
        ∃ d, resolve ix scope p r =
          ({ p with diagnostics := p.diagnostics ++ [d] }, ⟨r, none⟩) ∧
          d.isUnresolved = true ∧ d.subject = tag) := by
  obtain ⟨C, hfill, hmodify⟩ := exists_frame hkeys hfind
  have htag : ((p.root.find? r.key).bind tag?).getD default = tag := by
    rw [hfind]
    rfl
  refine ⟨C, hfill, ?_⟩
  unfold resolve
  dsimp only
  rw [htag]
  rcases Reference.resolve_cases hix tag r.scope scope with
    ⟨e, he, hlook, hok⟩ | ⟨d, herror, hd, hsubject⟩
  · refine .inl ⟨e, he, hlook, ?_⟩
    rw [hok]
    dsimp only
    rw [hmodify, Reference.linked_element]
  · refine .inr ⟨d, ?_, hd, hsubject⟩
    rw [herror]

/-- The references of a built document are those of its survey and of its listings, in order. -/
theorem references_of_run {o : BuildOptions} {root : Node} {b : BuildResult}
    (h : run o root = .ok b) : b.references.map (·.reference) = surveyedReferences
      (Survey.ofRoot o.scope root).1 (Survey.ofRoot o.scope root).2 b.merged := by
  obtain ⟨ix, ds, merged, -, -, hsecond⟩ := run_ok_iff.1 h
  obtain ⟨-, rfl⟩ := secondPass_ok_iff.1 hsecond
  dsimp only
  rw [resolveAll_eq, List.map_map]
  exact List.map_id _

/-- As many references of a built document are unresolved as there are reports of such
references. -/
theorem countP_unresolved {o : BuildOptions} {root : Node} {b : BuildResult}
    (h : run o root = .ok b) :
    b.references.countP (·.target.isNone) = b.diagnostics.countP (·.isUnresolved) := by
  obtain ⟨ix, ds, merged, hfirst, hmerged, hsecond⟩ := run_ok_iff.1 h
  obtain ⟨hc, hf, -, hreports⟩ := firstPass_ok hfirst
  obtain ⟨-, rfl⟩ := secondPass_ok_iff.1 hsecond
  have hds : ds.countP (·.isUnresolved) = 0 := by
    rw [List.countP_eq_zero, ← hreports]
    intro d hd
    have hrules : ∀ rule ∈ Survey.rules, Diagnostic.referenceRules.contains rule = false := by
      decide
    rcases Survey.isReport_ofRoot d hd with hrule | ⟨tag, -, rfl⟩
    · rw [Diagnostic.isUnresolved, hrules _ (List.contains_iff_mem.1 hrule)]
      exact Bool.false_ne_true
    · exact Bool.false_ne_true
  dsimp only
  rw [countP_resolveAll (coherent_mergedIndex hc hf hmerged).1, expandedPass, countP_expanded, hds,
    Nat.zero_add]

/-- **Every reference is resolved or reported, once.** One that is resolved gets a link in its
element and no report, one that is not gets a report at its element and no change (`resolve_once`);
and in a built document, with the references of its listings, the unresolved references and their
reports are equally many. -/
theorem references_accounted :
    (∀ (ix : Index) (scope : String) (p : Pass) (r : Reference) (tag : Tag) (cs rs : List Node),
      ix.Reachable → p.root.keys.Nodup → p.root.find? r.key = some (.element tag cs rs) →
      ∃ C : Frame, C.fill (.element tag cs rs) = p.root ∧
        ((∃ e ∈ ix.entries, Reference.lookUp ix tag r.scope scope = .ok e ∧
            resolve ix scope p r =
              ({ p with root := C.fill (.element tag
                  [.element ⟨"a", [("href", "#" ++ e.anchor.asText)], none⟩
                    (if cs.any (!·.isBlank) then cs else [.plain (Reference.labelOf tag e)])
                    []] rs) },
                ⟨r, some ⟨e, e.anchor, Reference.labelOf tag e⟩⟩)) ∨
          ∃ d, resolve ix scope p r =
            ({ p with diagnostics := p.diagnostics ++ [d] }, ⟨r, none⟩) ∧
            d.isUnresolved = true ∧ d.subject = tag)) ∧
    ∀ (o : BuildOptions) (root : Node) (b : BuildResult), run o root = .ok b →
      b.references.countP (·.target.isNone) = b.diagnostics.countP (·.isUnresolved) :=
  ⟨fun _ scope p r _ _ _ hix hkeys hfind => resolve_once hix.coherent scope p r hkeys hfind,
    fun _ _ _ => countP_unresolved⟩

/-- A clause, a reference to it and one to nothing. -/
def twoReferences : Node :=
  (document
    [.new "emu-clause" [("id", "sec-a")] [.new "h1" [] [.plain "A"]],
     .new "emu-xref" [("href", "#sec-a")] [], .new "emu-xref" [("href", "#sec-b")] []]).withKeys

/-- A reference to an id, the element with a key. -/
def referenceTag (id : String) (key : Nat) : Tag := ⟨"emu-xref", [("href", "#" ++ id)], some key⟩

theorem exists_run_twoReferences : ∃ b, run ⟨"ns", [], .strict⟩ twoReferences = .ok b ∧
    b.references.length = 2 := by
  have hlistings : (Survey.ofRoot "ns" twoReferences).2.listings = [] := by decide +kernel
  obtain ⟨b, hb, -, -⟩ := exists_run ⟨"ns", [], .strict⟩ twoReferences rfl
    (by decide +kernel) (by decide +kernel) (by decide +kernel) (by decide +kernel)
    (fun _ _ _ l hl => by
      rw [hlistings] at hl
      cases hl)
  refine ⟨b, hb, ?_⟩
  have hlength := congrArg List.length (references_of_run hb)
  rw [List.length_map] at hlength
  rw [hlength, surveyedReferences, hlistings, allReferences, List.append_nil]
  decide +kernel

/-- The clause of `pair` is found by its id, and nothing is found by another one. -/
theorem lookUp_pair (key : Nat) :
    Reference.lookUp Index.pair (referenceTag "sec-a" key) "ns" "ns" =
      .ok (.clause ⟨"sec-a", "1", "A", "ns", .null, .null⟩) ∧
    Reference.lookUp Index.pair (referenceTag "sec-b" key) "ns" "ns" =
      .error (Reference.unknownId (referenceTag "sec-b" key) "sec-b") := by
  have hfind : ∀ {id e}, Index.pair.find? (.string id) = some e ↔
      e ∈ Index.pairEntries ∧ e.id.ident? = some id := fun {id e} => by
    rw [Index.pair_reachable.coherent.find?_string_eq_some_iff, Index.pair_state.1]
  have hnone : Index.pair.find? (.string "sec-b") = none := by
    rw [Option.eq_none_iff_forall_not_mem]
    intro e he
    obtain ⟨hmem, hid⟩ := hfind.1 he
    rcases List.mem_pair.1 hmem with rfl | rfl
    · exact absurd hid (by decide)
    · cases hid
  have hsome : Index.pair.find? (.string "sec-a") =
      some (.clause ⟨"sec-a", "1", "A", "ns", .null, .null⟩) :=
    hfind.2 ⟨List.mem_cons_self, rfl⟩
  have hhref : ∀ id : String, (referenceTag id key).filled? "href" = some ("#" ++ id) :=
    fun id => Option.filter_eq_some_iff.2 ⟨rfl, by simp⟩
  rw [Reference.lookUp_of_href _ (hhref "sec-a"), Reference.lookUp_of_href _ (hhref "sec-b"), hsome,
    hnone]
  exact ⟨rfl, rfl⟩

/-- The reference to the clause gets a link with the number of the clause, the other one is
reported; and when the document is built, one reference is unresolved for each report. -/
theorem references_accounted_two :
    (∃ b, run ⟨"ns", [], .strict⟩ twoReferences = .ok b ∧ b.references.length = 2 ∧
      b.references.countP (·.target.isNone) = b.diagnostics.countP (·.isUnresolved)) ∧
    Index.pair.Reachable ∧ twoReferences.keys.Nodup ∧
    (twoReferences.find? 3 = some (.element (referenceTag "sec-a" 3) [] []) ∧
      ∃ C : Frame, ∃ t : Target,
        C.fill (.element (referenceTag "sec-a" 3) [] []) = twoReferences ∧
        resolve Index.pair "ns" ⟨twoReferences, 5, []⟩ ⟨3, "ns", none⟩ =
          (⟨C.fill (.element (referenceTag "sec-a" 3)
              [.element ⟨"a", [("href", "#sec-a")], none⟩ [.plain "1"] []] []), 5, []⟩,
            ⟨⟨3, "ns", none⟩, some t⟩)) ∧
    twoReferences.find? 4 = some (.element (referenceTag "sec-b" 4) [] []) ∧
      ∃ d : Diagnostic, resolve Index.pair "ns" ⟨twoReferences, 5, []⟩ ⟨4, "ns", none⟩ =
          (⟨twoReferences, 5, [d]⟩, ⟨⟨4, "ns", none⟩, none⟩) ∧
        d.isUnresolved = true ∧ d.subject = referenceTag "sec-b" 4 := by
  have hreachable := Index.pair_reachable
  have hkeys : twoReferences.keys.Nodup := by decide +kernel
  have hfind : twoReferences.find? 3 = some (.element (referenceTag "sec-a" 3) [] []) := rfl
  have hfind' : twoReferences.find? 4 = some (.element (referenceTag "sec-b" 4) [] []) := rfl
  obtain ⟨b, hb, hlength⟩ := exists_run_twoReferences
  refine ⟨⟨b, hb, hlength, references_accounted.2 _ _ b hb⟩, hreachable, hkeys, ⟨hfind, ?_⟩,
    hfind', ?_⟩
  · obtain ⟨C, hfill, ⟨e, -, hlook, hresolve⟩ | ⟨d, hresolve, -⟩⟩ := references_accounted.1
      Index.pair "ns" ⟨twoReferences, 5, []⟩ ⟨3, "ns", none⟩ _ _ _ hreachable hkeys hfind
    · obtain rfl := Except.ok.inj ((lookUp_pair 3).1.symm.trans hlook)
      exact ⟨C, _, hfill, hresolve⟩
    · have hresolve' := congrArg (fun r => r.2.target.isSome) hresolve
      simp only [resolve, hfind, Option.bind_some, tag?, Option.getD_some,
        Reference.resolve_of_lookUp (lookUp_pair 3).1 rfl] at hresolve'
      cases hresolve'
  · obtain ⟨C, -, ⟨e, -, hlook, -⟩ | ⟨d, hresolve, hd, hsubject⟩⟩ := references_accounted.1
      Index.pair "ns" ⟨twoReferences, 5, []⟩ ⟨4, "ns", none⟩ _ _ _ hreachable hkeys hfind'
    · cases (lookUp_pair 4).2.symm.trans hlook
    · exact ⟨d, hresolve, hd, hsubject⟩

end Build

end Concordance
