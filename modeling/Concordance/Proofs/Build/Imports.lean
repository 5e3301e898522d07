import Concordance.Proofs.Build.Outcomes
import Concordance.Proofs.Index.Imports

/-!
# The order of imports

A document is built twice with the same imports in two orders. Both builds fail in the same way or
both succeed, and then every id leads to the same entry (`run_perm`). They also give the same
document, references and diagnostics if no two imports have an operation of one name: a second pass
asks the merged index for nothing else (`secondPass_congr`). An operation that two imports have is
looked up in the first of them and listed in their order, so there the order of imports shows.
-/

namespace Concordance

/-! ## Indices that give the same answers -/

/-- Every look-up gives the same in two indices. -/
structure Index.Agree (ix ix' : Index) : Prop where
  find? : ∀ id, ix.find? id = ix'.find? id
  operation? : ∀ scope aoid, ix.operation? scope aoid = ix'.operation? scope aoid
  concreteMethods : ∀ scope aoid, ix.concreteMethods scope aoid = ix'.concreteMethods scope aoid

theorem Reference.resolve_congr {ix ix' : Index} (h : ix.Agree ix') :
    resolve ix = resolve ix' := by
  funext tag scope fallback
  unfold resolve lookUp byAddress byName
  simp only [h.find?, h.operation?]

namespace Listing

section Find

variable {ix ix' : Index} (h : ∀ id, ix.find? id = ix'.find? id)
include h

theorem labelOf_congr : labelOf ix = labelOf ix' := by
  funext o
  unfold labelOf
  rw [h]

theorem isListable_congr : isListable ix = isListable ix' := by
  funext o
  unfold isListable
  rw [labelOf_congr h]

theorem reportOf_congr : reportOf ix = reportOf ix' := by
  funext tag o
  unfold reportOf
  rw [h]

theorem items_congr (key : Nat) (os : List OperationEntry) :
    items ix key os = items ix' key os := by
  induction os generalizing key with
  | nil => rfl
  | cons o os ih => rw [items, items, ih, labelOf_congr h]

/-- Whether a listing can be written does not depend on the order of its methods. -/
theorem isWritable_of_perm (l : Listing)
    (hperm : (ix.concreteMethods l.scope l.aoid).Perm (ix'.concreteMethods l.scope l.aoid)) :
    l.isWritable ix = l.isWritable ix' := by
  unfold isWritable methods
  rw [isListable_congr h, (hperm.filter _).all_eq]

end Find

variable {ix ix' : Index} (h : ix.Agree ix')
include h

theorem methods_congr (l : Listing) : l.methods ix = l.methods ix' := by
  unfold methods
  rw [h.concreteMethods]

theorem isWritable_congr (l : Listing) : l.isWritable ix = l.isWritable ix' :=
  l.isWritable_of_perm h.find? (by rw [h.concreteMethods])

theorem reports_congr (l : Listing) : l.reports ix = l.reports ix' := by
  funext tag
  unfold reports
  rw [methods_congr h, isListable_congr h.find?, reportOf_congr h.find?]

theorem references_congr (l : Listing) : l.references ix = l.references ix' := by
  funext key
  unfold references
  rw [methods_congr h]

theorem expanded_congr (l : Listing) : l.expanded ix = l.expanded ix' := by
  funext key n
  unfold expanded
  rw [methods_congr h, items_congr h.find?]

end Listing

open Node

namespace Build

open Reference (target?)

/-! ## The second pass -/

section Agree

variable {ix ix' : Index} (h : ix.Agree ix')
include h

theorem expandAll_congr (p : Pass) (ls : List Listing) :
    expandAll ix p ls = expandAll ix' p ls := by
  induction ls generalizing p with
  | nil => rfl
  | cons l ls ih =>
    have hexpand : expand ix p l = expand ix' p l := by
      unfold expand
      rw [l.isWritable_congr h, l.reports_congr h, l.references_congr h, l.expanded_congr h]
    simp only [expandAll, hexpand, ih]

theorem resolveAll_congr (scope : String) (p : Pass) (rs : List Reference) :
    resolveAll ix scope p rs = resolveAll ix' scope p rs := by
  have hresolve : ∀ p r, resolve ix scope p r = resolve ix' scope p r := fun p r => by
    unfold resolve
    rw [Reference.resolve_congr h]
  induction rs generalizing p with
  | nil => rfl
  | cons r rs ih => simp only [resolveAll, hresolve, ih]

/-- A second pass depends on the answers of the merged index alone. -/
theorem secondPass_congr {o o' : BuildOptions} (hscope : o.scope = o'.scope) {root : Node}
    {s : Survey} {own : Index} {ds : List Diagnostic} {b b' : BuildResult}
    (hb : secondPass o root s own ix ds = .ok b) (hb' : secondPass o' root s own ix' ds = .ok b') :
    b' = { b with merged := b'.merged } := by
  unfold secondPass at hb hb'
  rw [bind_ok_iff] at hb hb'
  obtain ⟨⟨p, refs⟩, hexpand, hb⟩ := hb
  obtain ⟨⟨p', refs'⟩, hexpand', hb'⟩ := hb'
  rw [expandAll_congr h, hexpand', Except.ok.injEq, Prod.mk.injEq] at hexpand
  obtain ⟨rfl, rfl⟩ := hexpand
  dsimp only at hb hb'
  rw [resolveAll_congr h, hscope] at hb
  obtain rfl := Except.ok.inj hb
  obtain rfl := Except.ok.inj hb'
  rfl

end Agree

/-! ## The merged index -/

section Merged

variable {o : BuildOptions} {ix : Index} (hix : ix.Sealed) (himports : ∀ x ∈ o.external, x.Sealed)
include hix himports

/-- Imports that clash are refused for a duplicate id. -/
theorem mergedIndex_error (h : ix.Clash o.policy o.external) :
    ∃ id, mergedIndex o ix = .error (.duplicateId id) := by
  have hne : o.external.isEmpty = false := by
    rw [List.isEmpty_eq_false_iff]
    intro hnil
    simp [Index.Clash, hnil] at h
  unfold mergedIndex
  rw [hne, if_neg Bool.false_ne_true]
  by_cases hap : (o.external.flatMap Index.entries).Pairwise Entry.Apart
  · obtain ⟨external, hcombine, hx, hes⟩ := Index.combine_ok himports hap
    obtain ⟨hpolicy, e, he, htaken⟩ := h.resolve_left (not_not_intro hap)
    obtain ⟨id, hid⟩ := hix.merge_error hx (hes ▸ he) htaken
    refine ⟨id, bind_error_iff.2 (.inr ⟨external, hcombine, ?_⟩)⟩
    rw [hpolicy, hid]
  · obtain ⟨id, hid⟩ := Index.combine_error himports hap
    exact ⟨id, bind_error_iff.2 (.inl hid)⟩

/-- All other imports are merged: after the entries of the document come those of each import whose
id is free, in the order of the imports. -/
theorem mergedIndex_ok (h : ¬ix.Clash o.policy o.external) :
    ∃ merged : Index, mergedIndex o ix = .ok merged ∧ merged.Coherent ∧
      merged.entries = ix.entries ++ o.external.flatMap ix.admitted := by
  obtain ⟨hap, hfree⟩ := not_or.1 h
  unfold mergedIndex
  split
  · next hnil =>
    rw [List.isEmpty_iff.1 hnil]
    exact ⟨ix, rfl, hix.coherent, (List.append_nil _).symm⟩
  · obtain ⟨external, hcombine, hx, hes⟩ := Index.combine_ok himports (not_not.1 hap)
    obtain ⟨merged, hmerge, hm, hentries⟩ := hix.merge_ok hx fun hpolicy e he => by
      rw [← Bool.not_eq_true]
      exact fun htaken => hfree ⟨hpolicy, e, hes ▸ he, htaken⟩
    refine ⟨merged, bind_ok_iff.2 ⟨external, hcombine, hmerge⟩, hm.coherent, ?_⟩
    rw [hentries, hes, List.filter_flatMap]
    rfl

end Merged

/-! ## Two orders -/

/-- Imports that are frozen take no more entries. -/
theorem sealed_of_frozen {imports : List Index}
    (h : ∀ x ∈ imports, x.Reachable ∧ x.frozen = true) : ∀ x ∈ imports, x.Sealed :=
  fun x hx => ⟨(h x hx).1.coherent, (h x hx).2⟩

/-- **What the order of imports can change.** With imports that are frozen, in two orders, a
document is not built in either case, for the same fault or both times for an id that is there
twice; or it is built in both. Then the merged indices have the same entries and give the same for
every id, and for the name of every operation that no two imports have. If there is no operation
that two imports have, the document, the references with their targets and the diagnostics are the
same. -/
theorem run_perm (o : BuildOptions) (imports : List Index) (root : Node)
    (himports : ∀ x ∈ o.external, x.Reachable ∧ x.frozen = true)
    (hperm : o.external.Perm imports) :
    (∃ a a', run o root = .error a ∧ run { o with external := imports } root = .error a' ∧
      (a.fault = a'.fault ∨ a.fault.IsTakenId ∧ a'.fault.IsTakenId)) ∨
    ∃ b b', run o root = .ok b ∧ run { o with external := imports } root = .ok b' ∧
      b.merged.entries.Perm b'.merged.entries ∧
      (∀ id, b.merged.find? id = b'.merged.find? id) ∧
      (∀ n, Index.Sole o.external n → b.merged.operation? n.1 n.2 = b'.merged.operation? n.1 n.2 ∧
        b.merged.concreteMethods n.1 n.2 = b'.merged.concreteMethods n.1 n.2) ∧
      b.index = b'.index ∧ b.clauses = b'.clauses ∧ b.tables = b'.tables ∧
      ((∀ n, Index.Sole o.external n) → b' = { b with merged := b'.merged }) := by
  have hsealed := sealed_of_frozen himports
  have hsealed' : ∀ x ∈ imports, x.Sealed := fun x hx => hsealed x (hperm.mem_iff.2 hx)
  let o' : BuildOptions := { o with external := imports }
  cases hfirst : firstPass (Survey.ofRoot o.scope root).2.actions with
  | error a =>
    have hfirst' : firstPass (Survey.ofRoot o'.scope root).2.actions = .error a := hfirst
    exact .inl ⟨a, a, run_of_firstPass_error hfirst, run_of_firstPass_error hfirst', .inl rfl⟩
  | ok r =>
    obtain ⟨ix, ds⟩ := r
    have hfirst' : firstPass (Survey.ofRoot o'.scope root).2.actions = .ok (ix, ds) := hfirst
    obtain ⟨hc, hf, -, -⟩ := firstPass_ok hfirst
    have hix : ix.Sealed := ⟨hc, hf⟩
    by_cases hclash : ix.Clash o.policy o.external
    · obtain ⟨id, hid⟩ := mergedIndex_error hix hsealed hclash
      obtain ⟨id', hid'⟩ :=
        mergedIndex_error (o := o') hix hsealed' ((Index.clash_perm hperm).1 hclash)
      exact .inl ⟨_, _, run_of_mergedIndex_error hfirst hid, run_of_mergedIndex_error hfirst' hid',
        .inr ⟨⟨id, rfl⟩, id', rfl⟩⟩
    · obtain ⟨merged, hm, hcm, hes⟩ := mergedIndex_ok hix hsealed hclash
      obtain ⟨merged', hm', hcm', hes'⟩ := mergedIndex_ok (o := o') hix hsealed'
        fun h => hclash ((Index.clash_perm hperm).2 h)
      have hentries : merged.entries.Perm merged'.entries := by
        rw [hes, hes']
        exact (hperm.flatMap_right _).append_left _
      have hfind := hcm.find?_eq_of_perm hcm' hentries
      have hviews : ∀ n, Index.Sole o.external n →
          merged.operation? n.1 n.2 = merged'.operation? n.1 n.2 ∧
            merged.concreteMethods n.1 n.2 = merged'.concreteMethods n.1 n.2 := fun n hn =>
        hcm.views_eq_of_named hcm' <| by
          rw [hes, hes', Index.named_append, Index.named_append,
            Index.named_admitted_of_sole hperm hn]
      have hwritable : ∀ l : Listing, l.isWritable merged = l.isWritable merged' := fun l =>
        l.isWritable_of_perm hfind (hcm.concreteMethods_perm hcm' hentries l.scope l.aoid)
      by_cases hw : ∀ l ∈ (Survey.ofRoot o.scope root).2.listings, l.isWritable merged = true
      · obtain ⟨b, hb, hsecond, rfl, rfl, hclauses, htables⟩ :=
          exists_run_of_isWritable hfirst hm hw
        obtain ⟨b', hb', hsecond', hix', rfl, hclauses', htables'⟩ :=
          exists_run_of_isWritable hfirst' hm' fun l hl => (hwritable l).symm.trans (hw l hl)
        refine .inr ⟨b, b', hb, hb', hentries, hfind, hviews, hix'.symm,
          hclauses.trans hclauses'.symm, htables.trans htables'.symm, fun hsole => ?_⟩
        have hagree : b.merged.Agree b'.merged :=
          ⟨hfind, fun scope aoid => (hviews (scope, aoid) (hsole _)).1,
            fun scope aoid => (hviews (scope, aoid) (hsole _)).2⟩
        have hscope : o.scope = o'.scope := rfl
        exact secondPass_congr hagree hscope hsecond hsecond'
      · obtain ⟨a, ha, hfault⟩ := run_of_not_isWritable hfirst hm hw
        obtain ⟨a', ha', hfault'⟩ := run_of_not_isWritable hfirst' hm' fun hw' =>
          hw fun l hl => (hwritable l).trans (hw' l hl)
        exact .inl ⟨a, a', ha, ha', .inl (hfault.trans hfault'.symm)⟩

/-- An operation with a name and an id. -/
def anchored (aoid id : String) : OperationEntry :=
  ⟨aoid, "abstract operation", "ns", none, [], .string id, .null, .null⟩

/-- The frozen index of an operation with a name and an id. -/
def anchoredIndex (aoid id : String) : Index :=
  (Index.empty.after (.add (.operation (anchored aoid id)))).after .freeze

theorem anchoredIndex_state (aoid : String) {id : String} (hid : id ≠ "") :
    (anchoredIndex aoid id).Reachable ∧
    (anchoredIndex aoid id).entries = [.operation (anchored aoid id)] ∧
    (anchoredIndex aoid id).frozen = true := by
  refine ⟨(Index.Reachable.empty.after _).after _, ?_⟩
  simp [anchoredIndex, anchored, Index.after, Index.answer, Index.add, Index.insert, Index.withKey,
    Entry.id, Entry.refId, Json.isSet, Json.key?, Index.empty, bind, Except.bind, pure,
    Except.pure, Index.freeze, Index.danglingRefs, Index.isDangling, hid]

/-- The index of a document without entries. -/
def bare : Index := { Index.empty with frozen := true }

theorem sealed_bare : bare.Sealed := ⟨Index.coherent_empty.freeze rfl, rfl⟩

theorem isTaken_bare (e : Entry) : bare.isTaken e = false := by
  simp [bare, Index.isTaken, Index.find?, Index.empty]

theorem admitted_bare (x : Index) : bare.admitted x = x.entries := by
  simp [Index.admitted, isTaken_bare]

/-- A reference to an operation by its name. -/
def namedReference : Node := (document [.new "emu-xref" [("aoid", "F")] []]).withKeys

theorem firstPass_namedReference :
    firstPass (Survey.ofRoot "ns" namedReference).2.actions = .ok (bare, []) := by
  rw [List.eq_nil_of_length_eq_zero (show
    (Survey.ofRoot "ns" namedReference).2.actions.length = 0 by decide +kernel)]
  rfl

/-- A document without entries takes all entries of its imports and looks an operation up in the
first import that has it. -/
theorem exists_run_namedReference {imports : List Index} {id : String} (hid : id ≠ "")
    (hsealed : ∀ x ∈ imports, x.Sealed)
    (hap : (imports.flatMap Index.entries).Pairwise Entry.Apart)
    (hfound : (Entry.operations (imports.flatMap Index.entries)).find?
      (fun o => o.scope = "ns" ∧ o.aoid = "F") = some (anchored "F" id)) :
    ∃ b, run ⟨"ns", imports, .strict⟩ namedReference = .ok b ∧
      b.merged.entries = imports.flatMap Index.entries ∧
      b.references.map (fun r => r.target.map (·.anchor)) = [some (.string id)] := by
  have hlistings : (Survey.ofRoot "ns" namedReference).2.listings = [] := by decide +kernel
  have hreferences : (Survey.ofRoot "ns" namedReference).2.references = [⟨1, "ns", none⟩] := by
    decide +kernel
  have htag : tagAt 1 (Survey.ofRoot "ns" namedReference).1 =
      ⟨"emu-xref", [("aoid", "F")], some 1⟩ := by decide +kernel
  obtain ⟨merged, hmerged, hc, hentries⟩ := mergedIndex_ok (o := ⟨"ns", imports, .strict⟩)
    sealed_bare hsealed (by simp [Index.Clash, hap, isTaken_bare])
  replace hentries : merged.entries = imports.flatMap Index.entries := by
    rw [hentries, funext admitted_bare]
    rfl
  have hoperation : merged.operation? "ns" "F" = some (anchored "F" id) := by
    rw [hc.operation?_eq, hentries, ← hfound]
  obtain ⟨b, hb, hsecond, -⟩ :=
    exists_run_of_isWritable firstPass_namedReference hmerged (by rw [hlistings]; simp)
  obtain ⟨-, rfl⟩ := secondPass_ok_iff.1 hsecond
  refine ⟨_, hb, hentries, ?_⟩
  have hresolve : Reference.resolve merged ⟨"emu-xref", [("aoid", "F")], some 1⟩ "ns" "ns" =
      .ok (some (anchored "F" id).target) := by
    rw [Reference.resolve_of_aoid hc rfl rfl, hoperation]
    rfl
  have hanchor : (anchored "F" id).target.anchor = .string id := if_pos (Json.isSet_string.2 hid)
  dsimp only
  rw [resolveAll_eq, surveyedReferences, expandedPass, hreferences, hlistings, allReferences]
  simp only [List.foldl_nil, List.append_nil, List.map_cons, List.map_nil, target?, htag, hresolve,
    Option.map_some, hanchor]

/-- Two operations with different ids, each in an import of its own. -/
theorem anchoredPair_state (aoid aoid' : String) {id id' : String} (hid : id ≠ "") (hid' : id' ≠ "")
    (hne : id ≠ id') :
    (∀ x ∈ [anchoredIndex aoid id, anchoredIndex aoid' id'], x.Reachable ∧ x.frozen = true) ∧
    [anchoredIndex aoid id, anchoredIndex aoid' id'].flatMap Index.entries =
      [.operation (anchored aoid id), .operation (anchored aoid' id')] ∧
    [Entry.operation (anchored aoid id), .operation (anchored aoid' id')].Pairwise Entry.Apart := by
  obtain ⟨hreach, hes, hf⟩ := anchoredIndex_state aoid hid
  obtain ⟨hreach', hes', hf'⟩ := anchoredIndex_state aoid' hid'
  refine ⟨by simpa using ⟨⟨hreach, hf⟩, hreach', hf'⟩, by simp [hes, hes'], ?_⟩
  simp [Entry.Apart, anchored, Entry.id, Json.key?, hne]

/-- Imports of two operations of different names have no name in common. -/
theorem sole_anchoredIndex {aoid aoid' id id' : String} (hid : id ≠ "") (hid' : id' ≠ "")
    (h : aoid ≠ aoid') (n : Name) :
    Index.Sole [anchoredIndex aoid id, anchoredIndex aoid' id'] n := by
  have hnamed : ∀ {aoid id : String}, id ≠ "" → n.2 ≠ aoid →
      Index.named n (anchoredIndex aoid id).entries = [] := fun {aoid id} hid hn => by
    rw [(anchoredIndex_state aoid hid).2.1]
    exact List.filter_eq_nil_iff.2 fun o ho => by
      obtain rfl := List.mem_singleton.1 ho
      exact decide_eq_true_iff.not.2 fun hname => hn (congrArg Prod.snd hname).symm
  refine List.pairwise_pair.2 ?_
  by_cases hn : n.2 = aoid
  · exact .inr (hnamed hid' fun hn' => h (hn.symm.trans hn'))
  · exact .inl (hnamed hid hn)

/-- Two operations of different names, imported in two orders: the reference to one of them leads to
this one both times. -/
theorem run_perm_twoNames :
    (∀ x ∈ [anchoredIndex "F" "a", anchoredIndex "G" "b"], x.Reachable ∧ x.frozen = true) ∧
    [anchoredIndex "F" "a", anchoredIndex "G" "b"].Perm
      [anchoredIndex "G" "b", anchoredIndex "F" "a"] ∧
    (∀ n, Index.Sole [anchoredIndex "F" "a", anchoredIndex "G" "b"] n) ∧
    ∃ b b', run ⟨"ns", [anchoredIndex "F" "a", anchoredIndex "G" "b"], .strict⟩ namedReference =
        .ok b ∧
      run ⟨"ns", [anchoredIndex "G" "b", anchoredIndex "F" "a"], .strict⟩ namedReference =
        .ok b' ∧
      b.merged.entries = [.operation (anchored "F" "a"), .operation (anchored "G" "b")] ∧
      b'.merged.entries = [.operation (anchored "G" "b"), .operation (anchored "F" "a")] ∧
      b.merged.operation? "ns" "G" = b'.merged.operation? "ns" "G" ∧
      b' = { b with merged := b'.merged } ∧
      b'.references.map (fun r => r.target.map (·.anchor)) = [some (.string "a")] := by
  obtain ⟨hfrozen, hes, hap⟩ := anchoredPair_state "F" "G" (show "a" ≠ "" by decide)
    (show "b" ≠ "" by decide) (by decide)
  obtain ⟨hfrozen', hes', hap'⟩ := anchoredPair_state "G" "F" (show "b" ≠ "" by decide)
    (show "a" ≠ "" by decide) (by decide)
  have hsole := sole_anchoredIndex (show "a" ≠ "" by decide) (show "b" ≠ "" by decide)
    (show "F" ≠ "G" by decide)
  obtain ⟨b, hb, hentries, -⟩ := exists_run_namedReference (show "a" ≠ "" by decide)
    (sealed_of_frozen hfrozen) (hes ▸ hap) (by rw [hes]; rfl)
  obtain ⟨b', hb', hentries', hanchors⟩ := exists_run_namedReference (show "a" ≠ "" by decide)
    (sealed_of_frozen hfrozen') (hes' ▸ hap') (by rw [hes']; rfl)
  rcases run_perm ⟨"ns", [anchoredIndex "F" "a", anchoredIndex "G" "b"], .strict⟩ _ namedReference
    hfrozen (.swap _ _ _) with ⟨a, -, ha, -⟩ | ⟨b₁, b₁', hb₁, hb₁', -, -, hviews, -, -, -, hsame⟩
  · rw [hb] at ha
    cases ha
  · obtain rfl := Except.ok.inj (hb.symm.trans hb₁)
    obtain rfl := Except.ok.inj (hb'.symm.trans hb₁')
    exact ⟨hfrozen, .swap _ _ _, hsole, b, b', hb, hb', hentries.trans hes, hentries'.trans hes',
      (hviews ("ns", "G") (hsole _)).1, hsame hsole, hanchors⟩

/-- Two imports have an operation of one name: the reference to it leads to the first of them. -/
theorem run_perm_shared :
    (∀ x ∈ [anchoredIndex "F" "a", anchoredIndex "F" "b"], x.Reachable ∧ x.frozen = true) ∧
    [anchoredIndex "F" "a", anchoredIndex "F" "b"].Perm
      [anchoredIndex "F" "b", anchoredIndex "F" "a"] ∧
    ∃ b b', run ⟨"ns", [anchoredIndex "F" "a", anchoredIndex "F" "b"], .strict⟩ namedReference =
        .ok b ∧
      run ⟨"ns", [anchoredIndex "F" "b", anchoredIndex "F" "a"], .strict⟩ namedReference =
        .ok b' ∧
      b.references.map (fun r => r.target.map (·.anchor)) = [some (.string "a")] ∧
      b'.references.map (fun r => r.target.map (·.anchor)) = [some (.string "b")] := by
  obtain ⟨hfrozen, hes, hap⟩ := anchoredPair_state "F" "F" (show "a" ≠ "" by decide)
    (show "b" ≠ "" by decide) (by decide)
  obtain ⟨hfrozen', hes', hap'⟩ := anchoredPair_state "F" "F" (show "b" ≠ "" by decide)
    (show "a" ≠ "" by decide) (by decide)
  obtain ⟨b, hb, -, hanchors⟩ := exists_run_namedReference (show "a" ≠ "" by decide)
    (sealed_of_frozen hfrozen) (hes ▸ hap) (by rw [hes]; rfl)
  obtain ⟨b', hb', -, hanchors'⟩ := exists_run_namedReference (show "b" ≠ "" by decide)
    (sealed_of_frozen hfrozen') (hes' ▸ hap') (by rw [hes']; rfl)
  exact ⟨hfrozen, .swap _ _ _, b, b', hb, hb', hanchors, hanchors'⟩

end Build

end Concordance
