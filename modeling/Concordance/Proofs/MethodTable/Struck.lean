import Concordance.Proofs.Header.Total
import Concordance.Proofs.MethodTable.Rows
import Concordance.Proofs.Survey.Entries

/-!
# Rows that are passed over

A row that declares no method and of which nothing is reported is one in whose first cell all that
is marked up is deleted (`silent_iff`). The elements of such a cell have no visible text outside of
deletions: they are deletions themselves, or no text shows in them. A search for the header steps
from a deletion over elements only, so texts that stand directly in the cell after it are passed
over with it. They are all that can be lost (`liveText_of_silent`), and they can be lost
(`liveText_textAfterDeletion`).
-/

namespace Concordance

namespace Node

/-! ## Text outside of deletions -/

mutual
/-- The texts of some kinds below a node that are in no deletion, in order. -/
def liveTexts (p : TextKind → Bool) : Node → List (List Char)
  | .text kind value => if p kind then [value.toList] else []
  | .element tag children _ => if tag.name = "del" then [] else allLiveTexts p children

/-- The texts of some kinds below nodes that are in no deletion, in order. -/
def allLiveTexts (p : TextKind → Bool) : List Node → List (List Char)
  | [] => []
  | n :: ns => n.liveTexts p ++ allLiveTexts p ns
end

/-- The text that a reader sees in an element outside of the deletions in it. -/
def liveText (n : Node) : List Char := (allLiveTexts n.tag.shows n.children).flatten

/-- The text that a reader sees directly in an element and not in the elements in it. -/
def bareText (n : Node) : List Char :=
  (allLiveTexts n.tag.shows (n.children.filter (!·.isElement))).flatten

mutual
theorem liveTexts_subset (p : TextKind → Bool) (n : Node) : n.liveTexts p ⊆ n.texts p := by
  match n with
  | .text kind value => exact List.Subset.refl _
  | .element tag cs rs =>
    rw [liveTexts, texts]
    split
    · exact List.nil_subset _
    · exact allLiveTexts_subset p cs

theorem allLiveTexts_subset (p : TextKind → Bool) (ns : List Node) :
    allLiveTexts p ns ⊆ allTexts p ns := by
  match ns with
  | [] => exact List.Subset.refl _
  | n :: ns =>
    rw [allLiveTexts, allTexts]
    exact List.append_subset.2
      ⟨List.Subset.trans (liveTexts_subset p n) (List.subset_append_left _ _),
        List.Subset.trans (allLiveTexts_subset p ns) (List.subset_append_right _ _)⟩
end

theorem allBlank_allLiveTexts (p : TextKind → Bool) (ns : List Node) :
    Text.allBlank (allLiveTexts p ns).flatten =
      ns.all fun n => Text.allBlank (n.liveTexts p).flatten := by
  induction ns with
  | nil => rfl
  | cons n ns ih =>
    rw [allLiveTexts, List.flatten_append, Text.allBlank, List.all_append, List.all_cons, ← ih]
    rfl

/-- Where the elements of an element have no visible text outside of deletions, all such text stands
directly in it. -/
theorem allBlank_liveText {n : Node}
    (h : ∀ e ∈ n.elements, Text.allBlank (e.liveTexts n.tag.shows).flatten = true) :
    Text.allBlank n.liveText = Text.allBlank n.bareText := by
  rw [liveText, bareText, allBlank_allLiveTexts, allBlank_allLiveTexts, Bool.eq_iff_iff,
    List.all_eq_true, List.all_eq_true]
  constructor
  · intro hall e he
    exact hall e (List.mem_filter.1 he).1
  · intro hbare e he
    cases helement : e.isElement with
    | false => exact hbare e (List.mem_filter.2 ⟨he, by rw [helement]; rfl⟩)
    | true => exact h e (List.mem_filter.2 ⟨he, helement⟩)

theorem shows_of_contentKind? {t u : Tag} (h : t.contentKind? = u.contentKind?) :
    t.shows = u.shows := by
  funext kind
  rw [Tag.shows, Tag.shows, h]

/-- An element without visible text has none outside of deletions either, for a reader who looks for
the kinds of text that the element shows. -/
theorem allBlank_liveTexts_of_isEmpty {e : Node} {p : TextKind → Bool}
    (helement : e.isElement = true) (hp : e.tag.shows = p) (hempty : e.isEmpty = true) :
    Text.allBlank (e.liveTexts p).flatten = true := by
  subst hp
  cases e with
  | text kind value => cases helement
  | element tag cs rs =>
    rw [isEmpty, plainText, visible, Text.allBlank, List.all_eq_true] at hempty
    rw [Text.allBlank, List.all_eq_true]
    intro c hc
    obtain ⟨t, ht, hct⟩ := List.mem_flatten.1 hc
    exact hempty c (List.mem_flatten.2 ⟨t, liveTexts_subset _ _ ht, hct⟩)

theorem liveTexts_of_isDeletion {e : Node} (h : MethodTable.isDeletion e = true)
    (p : TextKind → Bool) : e.liveTexts p = [] := by
  cases e with
  | text kind value => cases h
  | element tag cs rs => exact if_pos (of_decide_eq_true h)

/-- A text that cannot be read as a declaration has a fault at least. -/
theorem ne_nil_of_declaration {n : Node} {ds : List Diagnostic} (h : n.declaration = .error ds) :
    ds ≠ [] := by
  unfold declaration at h
  dsimp only at h
  split at h
  · next faults hparse =>
    obtain rfl := Except.error.inj h
    exact fun hnil => Header.ne_nil_of_parse hparse (List.map_eq_nil_iff.1 hnil)
  · split at h
    · obtain rfl := Except.error.inj h
      exact List.cons_ne_nil _ _
    · cases h

end Node

open Node

namespace MethodTable

/-! ## Silent rows -/

/-- A row that declares no method and of which nothing is reported. -/
def Row.Silent (r : Row) : Prop := r.method = none ∧ r.diagnostics = []

/-- The rows that are passed over in silence are those in whose first cell all that is marked up is
deleted. -/
theorem silent_iff {several : Bool} {tr : Node} : (readRow several tr).Silent ↔
    ∃ cell second rest, tr.elements = cell :: second :: rest ∧ Struck cell := by
  have hread := reading several tr
  constructor
  · generalize readRow several tr = row at hread
    rintro ⟨hmethod, hdiagnostics⟩
    cases hread with
    | tooFew _ => cases hdiagnostics
    | struck hcells hplace => exact ⟨_, _, _, hcells, headerPlace?_eq_none_iff.1 hplace⟩
    | noHeader _ _ _ => cases hdiagnostics
    | malformed _ _ _ hds => exact absurd hdiagnostics (ne_nil_of_declaration hds)
    | declared _ _ _ _ => cases hmethod
  · rintro ⟨cell, second, rest, hcells, hstruck⟩
    rw [readRow, hcells]
    dsimp only
    rw [headerPlace?_eq_none_iff.2 hstruck]
    exact ⟨rfl, rfl⟩

theorem Struck.allBlank_liveText {cell : Node} (h : Struck cell)
    (hkind : ∀ e ∈ cell.elements, e.tag.contentKind? = cell.tag.contentKind?) :
    Text.allBlank cell.liveText = Text.allBlank cell.bareText := by
  obtain ⟨before, first, after, hchildren, hbefore, -, hfirst, hafter⟩ := h
  refine Node.allBlank_liveText fun e he => ?_
  have hshows := shows_of_contentKind? (hkind e he)
  obtain ⟨hmem, helement⟩ := List.mem_filter.1 he
  rw [hchildren, List.mem_append, List.mem_cons] at hmem
  rcases hmem with hmem | rfl | hmem
  · exact allBlank_liveTexts_of_isEmpty helement hshows (hbefore e hmem)
  · rw [liveTexts_of_isDeletion hfirst]
    rfl
  · rw [liveTexts_of_isDeletion (hafter e hmem helement)]
    rfl

/-- What a well-formed table of methods declares and what is reported of it come from its rows. -/
theorem classify_of_methods? {n : Node} {owner : String} {trs : List Node}
    (h : methods? n = some (owner, trs)) :
    (classify n).methods = trs.filterMap (fun tr => (readRow (1 < trs.length) tr).method) ∧
      (classify n).diagnostics =
        trs.flatMap (fun tr => (readRow (1 < trs.length) tr).diagnostics) := by
  obtain ⟨⟨owner, table⟩, hwell, heq⟩ := Option.map_eq_some_iff.1 h
  obtain ⟨rfl, rfl⟩ := Prod.mk.inj heq
  obtain ⟨rest, -, hclassify⟩ := classify_of_wellFormed? hwell
  rw [hclassify]
  exact ⟨List.filterMap_map, List.flatMap_map ..⟩

/-- A row of a table of methods that is passed over in silence has two cells, and all that is marked
up in the first of them is deleted. So the text in this cell that a reader sees outside of deletions
is blank exactly if the texts that stand directly in the cell are. -/
theorem liveText_of_silent {n : Node} {owner : String} {trs : List Node}
    (htable : methods? n = some (owner, trs)) :
    (classify n).methods = trs.filterMap (fun tr => (readRow (1 < trs.length) tr).method) ∧
      (classify n).diagnostics =
        trs.flatMap (fun tr => (readRow (1 < trs.length) tr).diagnostics) ∧
      ∀ tr ∈ trs, (readRow (1 < trs.length) tr).Silent →
        ∃ cell second rest, tr.elements = cell :: second :: rest ∧ Struck cell ∧
          ((∀ e ∈ cell.elements, e.tag.contentKind? = cell.tag.contentKind?) →
            Text.allBlank cell.liveText = Text.allBlank cell.bareText) := by
  obtain ⟨hmethods, hdiagnostics⟩ := classify_of_methods? htable
  refine ⟨hmethods, hdiagnostics, fun tr _ hsilent => ?_⟩
  obtain ⟨cell, second, rest, hcells, hstruck⟩ := silent_iff.1 hsilent
  exact ⟨cell, second, rest, hcells, hstruck, hstruck.allBlank_liveText⟩

/-- A row whose first cell has some contents. -/
def sampleRow (contents : List Node) : Node :=
  .new "tr" [] [.new "td" [] contents, .new "td" [] [.plain "Links."]]

/-- A table of methods with one row. -/
def sampleTable (contents : List Node) : Node :=
  .new "emu-table" [("id", "t"), ("type", methodsType), ("of", "X")]
    [.new "table" [] [.new "tbody" [] [sampleRow contents]]]

/-- A deleted header with blanks around it. -/
def deletedHeader : List Node := [.plain " ", .new "del" [] [.plain "Old()"], .plain "\n"]

theorem liveText_deletedHeader :
    methods? (sampleTable deletedHeader) = some ("X", [sampleRow deletedHeader]) ∧
      (readRow (1 < [sampleRow deletedHeader].length) (sampleRow deletedHeader)).Silent ∧
      ∃ cell second rest, (sampleRow deletedHeader).elements = cell :: second :: rest ∧
        (∀ e ∈ cell.elements, e.tag.contentKind? = cell.tag.contentKind?) ∧
        Text.allBlank cell.liveText = true := by
  have htable : methods? (sampleTable deletedHeader) = some ("X", [sampleRow deletedHeader]) := rfl
  have hsilent : (readRow (1 < [sampleRow deletedHeader].length) (sampleRow deletedHeader)).Silent :=
    ⟨rfl, rfl⟩
  obtain ⟨cell, second, rest, hcells, -, hlive⟩ :=
    (liveText_of_silent htable).2.2 _ List.mem_cons_self hsilent
  obtain ⟨rfl, -⟩ : .new "td" [] deletedHeader = cell ∧ _ := List.cons.inj hcells
  have hkind : ∀ e ∈ (Node.new "td" [] deletedHeader).elements,
      e.tag.contentKind? = (Node.new "td" [] deletedHeader).tag.contentKind? := by decide +kernel
  exact ⟨htable, hsilent, _, second, rest, hcells, hkind, (hlive hkind).trans (by decide +kernel)⟩

/-- A text after a deletion is passed over with it: the row declares nothing and nothing is reported
of it, though the text shows and is not deleted. -/
theorem liveText_textAfterDeletion :
    ∃ tr cell second,
      methods? (sampleTable [.new "del" [] [.plain "Old()"], .plain " New()"]) =
        some ("X", [tr]) ∧
      tr.elements = [cell, second] ∧
      (classify (sampleTable [.new "del" [] [.plain "Old()"], .plain " New()"])).methods = [] ∧
      (classify (sampleTable [.new "del" [] [.plain "Old()"], .plain " New()"])).diagnostics = [] ∧
      cell.liveText = " New()".toList :=
  ⟨_, _, _, rfl, rfl, rfl, rfl, rfl⟩

end MethodTable

end Concordance
