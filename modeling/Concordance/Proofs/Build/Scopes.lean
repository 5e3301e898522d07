import Concordance.Proofs.Build.Links
import Concordance.Proofs.Survey.References

/-!
# Where names are looked up

A reference to an operation by name is looked up in the namespace that it was taken down with, and
then in that of the document. The first is the namespace of the clauses around the reference in the
document as it is read, for every reference that is still in its place when the survey comes upon
it: outside headings and rows, and inside them where these are not rewritten. The header of an
operation is typeset before the survey gets to its contents. A reference in it has lost the clauses
around the header by then, and it is looked up in the namespace of the document.

The main statement is `xref_scope`.
-/

namespace Concordance

open Node

namespace Build

open Reference (target?)

section Run

variable {o : BuildOptions} {root : Node} {b : BuildResult} (h : run o root = .ok b)
include h

theorem coherent_merged_of_run : b.merged.Coherent := by
  obtain ⟨ix, ds, merged, hfirst, hmerged, hsecond⟩ := run_ok_iff.1 h
  obtain ⟨hc, hf, -, -⟩ := firstPass_ok hfirst
  obtain ⟨-, rfl⟩ := secondPass_ok_iff.1 hsecond
  exact (coherent_mergedIndex hc hf hmerged).1

/-- The references of a built document that have the key of one of its elements are those that the
survey has taken down. -/
theorem mem_recorded_iff {tag : Tag} (htag : tag ∈ (Survey.ofRoot o.scope root).1.keyed)
    (scope : String) : (tag.key, scope) ∈ (Survey.ofRoot o.scope root).2.recorded ↔
      ∃ g ∈ b.references, tag.key = some g.reference.key ∧ g.reference.scope = scope := by
  have hrefs := references_of_run h
  rw [Survey.recorded, List.mem_map]
  constructor
  · rintro ⟨r, hr, heq⟩
    obtain ⟨hkey, hscope⟩ := Prod.mk.inj heq
    have hmem : r ∈ b.references.map (·.reference) := hrefs ▸ List.mem_append_left _ hr
    obtain ⟨g, hg, rfl⟩ := List.mem_map.1 hmem
    exact ⟨g, hg, hkey.symm, hscope⟩
  · rintro ⟨g, hg, hkey, rfl⟩
    have hmem : g.reference ∈ b.references.map (·.reference) := List.mem_map_of_mem hg
    rw [hrefs] at hmem
    rcases List.mem_append.1 hmem with hr | hr
    · exact ⟨g.reference, hr, Prod.ext hkey.symm rfl⟩
    · -- the keys of references that listings write are new
      have hlt := lt_keyBound htag hkey
      have hle := le_key_of_mem_allReferences hr
      omega

/-- A reference by name is resolved by the tag that its element has after the survey. -/
theorem target_of_run (hkeys : root.keys.Nodup) {g : Resolved} (hg : g ∈ b.references) {tag : Tag}
    (htag : tag ∈ (Survey.ofRoot o.scope root).1.keyed) (hkey : tag.key = some g.reference.key)
    (hhref : tag.filled? "href" = none) (aoid : String) (haoid : tag.filled? "aoid" = some aoid) :
    g.target = ((b.merged.operation? g.reference.scope aoid).or
      (b.merged.operation? o.scope aoid)).map OperationEntry.target := by
  have hc := coherent_merged_of_run h
  obtain ⟨ix, ds, merged, -, -, hsecond⟩ := run_ok_iff.1 h
  obtain ⟨-, rfl⟩ := secondPass_ok_iff.1 hsecond
  dsimp only at hg hc ⊢
  rw [resolveAll_eq] at hg
  obtain ⟨r, -, rfl⟩ := List.mem_map.1 hg
  dsimp only at hkey ⊢
  have hgentle : Gentle root (Survey.ofRoot o.scope root).1 := Survey.gentle_ofRoot root
  have hnodup := hgentle.keys.nodup_iff.2 hkeys
  rw [target?, tagAt_expandedPass_of_mem_keyed (fun _ => Survey.mem_keys_of_mem_listings) hnodup
    htag hkey, Reference.resolve_of_aoid hc hhref haoid]
  cases (merged.operation? r.scope aoid).or (merged.operation? o.scope aoid) <;> rfl

end Run

/-- **Where a reference by name is looked up.** In a document that is built, every reference by name
is looked up in one namespace and then in that of the document. The first is the namespace that
holds in the clauses around the reference in the document as it was read, or only in the innermost
of them; and that is only for a reference in a heading or in a row, out of which the survey has
taken it. -/
theorem xref_scope (o : BuildOptions) (root : Node) (b : BuildResult) (hread : AsRead root)
    (h : run o root = .ok b) (around : List Tag) (tag : Tag) (aoid : String)
    (hx : (around, tag) ∈ xrefsIn true [] root.children)
    (hhref : tag.filled? "href" = none) (haoid : tag.filled? "aoid" = some aoid) :
    ∃ inner, inner <+: around ∧
      (inner = around ∨ (around, tag) ∉ xrefsIn false [] root.children ∧
        (around, tag) ∉ xrefsIn true [] (Survey.ofRoot o.scope root).1.children) ∧
      (∃ g ∈ b.references, tag.key = some g.reference.key) ∧
      ∀ g ∈ b.references, tag.key = some g.reference.key →
        g.reference.scope = scopeIn o.scope inner ∧
        g.target = ((b.merged.operation? (scopeIn o.scope inner) aoid).or
          (b.merged.operation? o.scope aoid)).map OperationEntry.target := by
  obtain ⟨hkept, hplaced⟩ := Survey.xrefs_ofRoot o.scope root
  obtain ⟨inner, hprefix, hin, hplace⟩ : ∃ inner, inner <+: around ∧
      (inner, tag) ∈ allXrefsIn [] (Survey.ofRoot o.scope root).1.children ∧
      (inner = around ∨ (around, tag) ∉ xrefsIn false [] root.children ∧
        (around, tag) ∉ xrefsIn true [] (Survey.ofRoot o.scope root).1.children) := by
    by_cases hstays : (around, tag) ∈ xrefsIn true [] (Survey.ofRoot o.scope root).1.children
    · exact ⟨around, List.prefix_rfl, mem_allXrefsIn_of_mem_xrefsIn hstays, .inl rfl⟩
    · by_cases hfree : (around, tag) ∈ xrefsIn false [] root.children
      · exact ⟨around, List.prefix_rfl, mem_allXrefsIn_of_mem_xrefsIn (hplaced _ hfree), .inl rfl⟩
      · obtain ⟨inner, hprefix, hin⟩ := hkept _ (mem_allXrefsIn_of_mem_xrefsIn hx)
        exact ⟨inner, hprefix, hin, .inr ⟨hfree, hstays⟩⟩
  have htag : tag ∈ (Survey.ofRoot o.scope root).1.keyed :=
    mem_keyed_of_mem_children (mem_keyedIn_of_mem_allXrefsIn hin)
  have hscope (scope : String) : (∃ g ∈ b.references, tag.key = some g.reference.key ∧
      g.reference.scope = scope) ↔ scope = scopeIn o.scope inner := by
    rw [← mem_recorded_iff h htag, Survey.recorded_ofRoot, Survey.taken, List.mem_map]
    constructor
    · rintro ⟨y, hy, heq⟩
      obtain ⟨hkey, rfl⟩ := Prod.mk.inj heq
      rw [eq_of_mem_allXrefsIn (Survey.nodup_keysIn_ofRoot hread.distinct) hy hin hkey]
    · rintro rfl
      exact ⟨_, hin, rfl⟩
  refine ⟨inner, hprefix, hplace, ?_, fun g hg hkey => ?_⟩
  · obtain ⟨g, hg, hkey, -⟩ := (hscope _).2 rfl
    exact ⟨g, hg, hkey⟩
  · have hg' := (hscope _).1 ⟨g, hg, hkey, rfl⟩
    refine ⟨hg', ?_⟩
    rw [target_of_run h hread.distinct hg htag hkey hhref aoid haoid, hg']

/-- A clause with a namespace of its own that declares an operation, with a reference to it in its
heading and another one after that. -/
def selfReferring : Node :=
  (document
    [.new "emu-clause" [("id", "c"), ("namespace", "inner"), ("type", "abstract operation")]
      [.new "h1" [] [.plain "F()", .new "emu-xref" [("aoid", "F")] []],
       .new "emu-xref" [("aoid", "F")] []]]).withKeys

/-- The tag of the clause. -/
def selfReferringClause : Tag :=
  ⟨"emu-clause", [("id", "c"), ("namespace", "inner"), ("type", "abstract operation")], some 1⟩

/-- The tag of a reference to the operation. -/
def referenceToF (key : Nat) : Tag := ⟨"emu-xref", [("aoid", "F")], some key⟩

theorem asRead_selfReferring : AsRead selfReferring := asRead_withKeys (by
  simp [inside, insideIn, removed, document, Node.new, Node.plain])

theorem exists_run_selfReferring : ∃ b, run ⟨"ns", [], .strict⟩ selfReferring = .ok b ∧
    b.merged.operation? "ns" "F" = none ∧ (b.merged.operation? "inner" "F").isSome = true := by
  have hlistings : (Survey.ofRoot "ns" selfReferring).2.listings = [] := by decide +kernel
  obtain ⟨b, hb, hc, hentries⟩ := exists_run ⟨"ns", [], .strict⟩ selfReferring rfl
    (by decide +kernel) (by decide +kernel) (by decide +kernel) (by decide +kernel)
    (fun _ _ _ l hl => by
      rw [hlistings] at hl
      cases hl)
  refine ⟨b, hb, ?_, ?_⟩
  · rw [hc.operation?_eq, hentries, ← Option.not_isSome_iff_eq_none]
    decide +kernel
  · rw [hc.operation?_eq, hentries]
    decide +kernel

/-- The reference after the heading is looked up in the namespace of the clause, and there it
finds the operation. -/
theorem xref_scope_body : AsRead selfReferring ∧
    ∃ b, run ⟨"ns", [], .strict⟩ selfReferring = .ok b ∧
      ([selfReferringClause], referenceToF 4) ∈ xrefsIn true [] selfReferring.children ∧
      (referenceToF 4).filled? "href" = none ∧ (referenceToF 4).filled? "aoid" = some "F" ∧
      (∃ g ∈ b.references, g.reference.key = 4) ∧
      ∀ g ∈ b.references, g.reference.key = 4 →
        g.reference.scope = "inner" ∧ g.target.isSome = true := by
  obtain ⟨b, hb, -, hinner⟩ := exists_run_selfReferring
  have hx : ([selfReferringClause], referenceToF 4) ∈ xrefsIn true [] selfReferring.children := by
    decide +kernel
  have hfree : ([selfReferringClause], referenceToF 4) ∈
      xrefsIn false [] selfReferring.children := by decide +kernel
  obtain ⟨inner, -, hplace, ⟨g, hg, hkey⟩, hall⟩ := xref_scope ⟨"ns", [], .strict⟩
    selfReferring b asRead_selfReferring hb [selfReferringClause] (referenceToF 4) "F" hx rfl rfl
  obtain rfl := hplace.resolve_right fun hmoved => hmoved.1 hfree
  have hnamespace : scopeIn "ns" [selfReferringClause] = "inner" := by decide +kernel
  refine ⟨asRead_selfReferring, b, hb, hx, rfl, rfl, ⟨g, hg, (Option.some.inj hkey).symm⟩,
    fun g hg hkey => ?_⟩
  obtain ⟨hscope, htarget⟩ := hall g hg (hkey ▸ rfl)
  obtain ⟨op, hop⟩ := Option.isSome_iff_exists.1 hinner
  refine ⟨hscope.trans hnamespace, ?_⟩
  rw [htarget, hnamespace, hop]
  rfl

/-- The reference in the heading stands in the same clause. It is looked up in the namespace of the
document, where the operation is not, and leads nowhere. -/
theorem xref_scope_header : AsRead selfReferring ∧
    ∃ b, run ⟨"ns", [], .strict⟩ selfReferring = .ok b ∧
      ([selfReferringClause], referenceToF 3) ∈ xrefsIn true [] selfReferring.children ∧
      (referenceToF 3).filled? "href" = none ∧ (referenceToF 3).filled? "aoid" = some "F" ∧
      scopeIn "ns" [selfReferringClause] = "inner" ∧
      (b.merged.operation? "inner" "F").isSome = true ∧
      (∃ g ∈ b.references, g.reference.key = 3) ∧
      ∀ g ∈ b.references, g.reference.key = 3 → g.reference.scope = "ns" ∧ g.target = none := by
  obtain ⟨b, hb, houter, hinner⟩ := exists_run_selfReferring
  have htag : referenceToF 3 ∈ (Survey.ofRoot "ns" selfReferring).1.keyed := by decide +kernel
  have hrecorded : (Survey.ofRoot "ns" selfReferring).2.recorded =
      [(some 3, "ns"), (some 4, "inner")] := by decide +kernel
  have hscope (scope : String) : (∃ g ∈ b.references,
      (referenceToF 3).key = some g.reference.key ∧ g.reference.scope = scope) ↔ scope = "ns" := by
    rw [← mem_recorded_iff hb htag scope, hrecorded]
    simp [referenceToF]
  refine ⟨asRead_selfReferring, b, hb, by decide +kernel, rfl, rfl, by decide +kernel, hinner,
    ?_, fun g hg hkey => ?_⟩
  · obtain ⟨g, hg, hkey, -⟩ := (hscope "ns").2 rfl
    exact ⟨g, hg, (Option.some.inj hkey).symm⟩
  · have hg' := (hscope _).1 ⟨g, hg, by rw [hkey]; rfl, rfl⟩
    refine ⟨hg', ?_⟩
    rw [target_of_run hb asRead_selfReferring.distinct hg htag (by rw [hkey]; rfl) rfl "F" rfl,
      hg', houter]
    rfl

end Build

end Concordance
