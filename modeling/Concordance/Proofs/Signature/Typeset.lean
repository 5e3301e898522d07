import Concordance.Proofs.Markup.Segments
import Concordance.Signature.Typeset

/-!
# Typeset headers

A typeset header is the text of its signature with the name of every parameter as a variable
(`markup_segments`, `chars_segments`). Each of its texts holds a parenthesis or a comma, so reading
it gives these variables and texts, and nothing that stands in a name or a type becomes markup.

The main statement is `parse_typeset_header`.
-/

namespace Concordance

open Markup (Segment Lasting LastingAfter)
open Markup.Growth (isSpace)

/-! ## Segments -/

/-- A parameter in a header. -/
def Parameter.segments (p : Parameter) : List Segment :=
  [.text p.lead, .variable p.name.toList, .text (typeSuffix p.type)]

/-- A header with its parameters as variables. -/
def Signature.segments (s : Signature) : List Segment :=
  .text (s.name.toList ++ ['(']) ::
    ([.text [',', ' ']].intercalate (s.params.map Parameter.segments) ++
      [.text (')' :: typeSuffix s.returns)])

theorem flatMap_intercalate {α β : Type} (f : α → List β) (sep : List α) (xss : List (List α)) :
    (sep.intercalate xss).flatMap f = (sep.flatMap f).intercalate (xss.map (·.flatMap f)) := by
  induction xss with
  | nil => rfl
  | cons xs xss ih =>
    cases xss with
    | nil => simp
    | cons ys yss =>
      rw [List.intercalate_cons_cons, List.flatMap_append, List.flatMap_append, ih, List.map_cons,
        List.map_cons, List.map_cons, List.intercalate_cons_cons]

namespace Parameter

variable (p : Parameter)

theorem markup_segments : p.segments.flatMap Segment.markup = p.typeset := by
  have hlead : Text.escape p.lead = p.lead := by
    rw [lead]
    split <;> rfl
  have hsplit : p.segments.flatMap Segment.markup =
      Text.escape p.lead ++ (p.variable ++ (Text.escape (typeSuffix p.type) ++ [])) := rfl
  rw [hsplit, hlead, List.append_nil, typeset, List.append_assoc]

theorem chars_segments : p.segments.flatMap Segment.chars = p.chars := by
  simp only [segments, List.flatMap_cons, List.flatMap_nil, List.append_nil, Segment.chars, chars,
    lead, List.append_assoc]

end Parameter

namespace Signature

theorem flatMap_segments {β : Type} (f : Segment → List β) (s : Signature) :
    s.segments.flatMap f = f (.text (s.name.toList ++ ['('])) ++
      ((f (.text [',', ' '])).intercalate (s.params.map fun p => p.segments.flatMap f) ++
        f (.text (')' :: typeSuffix s.returns))) := by
  rw [segments, List.flatMap_cons, List.flatMap_append, flatMap_intercalate, List.map_map,
    List.flatMap_singleton, List.flatMap_singleton]
  rfl

theorem markup_segments (s : Signature) :
    s.segments.flatMap Segment.markup = s.typeset.header := by
  have hopen : Text.escape (s.name.toList ++ ['(']) = Text.escape s.name.toList ++ ['('] :=
    Text.escape_append _ _
  have hclose : Text.escape (')' :: typeSuffix s.returns) =
      ')' :: Text.escape (typeSuffix s.returns) := Markup.escape_cons _ _
  have hcomma : Text.escape [',', ' '] = [',', ' '] := rfl
  simp only [flatMap_segments, Parameter.markup_segments, Segment.markup_text, hopen, hclose,
    hcomma, typeset, List.append_assoc, List.singleton_append]
  rfl

theorem chars_segments (s : Signature) : s.segments.flatMap Segment.chars = s.chars := by
  simp only [flatMap_segments, Parameter.chars_segments, Segment.chars, chars, List.append_assoc,
    List.singleton_append]
  rfl

theorem names_segments (s : Signature) :
    s.segments.flatMap Segment.names = s.params.map (·.name.toList) := by
  have hparams : ∀ ps : List Parameter, [].intercalate (ps.map fun p => [p.name.toList]) =
      ps.map (·.name.toList) := by
    intro ps
    induction ps with
    | nil => rfl
    | cons p ps ih =>
      cases ps with
      | nil => rfl
      | cons q qs =>
        rw [List.map_cons, List.map_cons, List.intercalate_cons_cons]
        exact congrArg (List.cons p.name.toList) ih
  rw [flatMap_segments]
  exact (List.append_nil _).trans (hparams s.params)

end Signature

/-! ## Texts that last -/

/-- A text with a character that is no blank lasts. -/
theorem lasting_of_mem {cs : List Char} {c : Char} (hc : c ∈ cs) (h : isSpace c = false) :
    Lasting cs := by
  intro hall
  have hspace := List.all_eq_true.1 hall c hc
  rw [h] at hspace
  cases hspace

/-- Every text between the parameters of a header holds a parenthesis or a comma. -/
theorem lastingAfter_params {ps : List Parameter} (h : ∀ p ∈ ps, Lasting p.name.toList)
    (returns : Option TypePhrase) {cs : List Char} {c : Char} (hc : c ∈ cs)
    (hspace : isSpace c = false) :
    LastingAfter cs ([.text [',', ' ']].intercalate (ps.map Parameter.segments) ++
      [.text (')' :: typeSuffix returns)]) := by
  induction ps generalizing cs c with
  | nil => exact lasting_of_mem (List.mem_append_left _ hc) hspace
  | cons p ps ih =>
    obtain ⟨hp, hps⟩ := List.forall_mem_cons.1 h
    have hlead : Lasting (cs ++ p.lead) := lasting_of_mem (List.mem_append_left _ hc) hspace
    cases ps with
    | nil =>
      have hclose : ')' ∈ [] ++ typeSuffix p.type ++ ')' :: typeSuffix returns := by simp
      exact ⟨hlead, hp, lasting_of_mem hclose (by decide)⟩
    | cons q qs =>
      have hcomma : ',' ∈ [] ++ typeSuffix p.type ++ [',', ' '] := by simp
      have hrest := ih hps hcomma (by decide)
      rw [List.map_cons, List.map_cons, List.intercalate_cons_cons]
      exact ⟨hlead, hp, hrest⟩

theorem lastingAfter_segments {s : Signature} (h : ∀ p ∈ s.params, Lasting p.name.toList) :
    LastingAfter [] s.segments :=
  lastingAfter_params h s.returns (c := '(') (by simp) (by decide)

/-! ## Reading typeset headers -/

/-- A typeset header is read as the nodes of its segments. -/
theorem Signature.parse?_segments {s : Signature} (h : ∀ p ∈ s.params, Lasting p.name.toList) :
    Markup.parse? s.typeset.header = .ok (Markup.nodesAfter [] s.segments) := by
  rw [← markup_segments]
  exact Markup.parse?_markup (lastingAfter_segments h)

/-- The element of a parameter in a typeset header. -/
def Parameter.node (p : Parameter) : Node :=
  .element ⟨"var", [], none⟩ (if p.name = "" then [] else [.plain p.name]) []

theorem toList_eq_nil_iff {name : String} : name.toList = [] ↔ name = "" := by
  rw [← String.toList_inj]
  rfl

theorem Parameter.variableNode_name (p : Parameter) :
    Markup.variableNode p.name.toList = p.node := by
  rw [Markup.variableNode, Markup.textNodes, Parameter.node, String.ofList_toList]
  simp only [toList_eq_nil_iff]

theorem Node.allHeaderChars_eq (ns : List Node) :
    Node.allHeaderChars ns = ns.flatMap Node.headerChars := by
  induction ns with
  | nil => rfl
  | cons n ns ih => rw [Node.allHeaderChars, ih, List.flatMap_cons]

/-- What a header element says once its contents are replaced. -/
theorem Node.headerSource_replaceContents {markup : List Char} {nodes : List Node}
    (h : Markup.parse? markup = .ok nodes) {tag : Tag} (htag : tag.get? transcludeAttr = none)
    (children removed : List Node) :
    ((Node.element tag children removed).replaceContents markup).headerSource =
      Text.trim (nodes.flatMap Node.headerChars) := by
  have hparse : Markup.parse markup = nodes := by
    rw [Markup.parse, h]
    rfl
  rw [Node.replaceContents, hparse, Node.replaceChildren, Node.headerSource, Node.headerChars, htag]
  exact congrArg Text.trim (Node.allHeaderChars_eq nodes)

/-- **A typeset header is the text of its signature with the parameters as variables.** If no
parameter has a name of blanks alone, the header of a typeset signature is read as texts and the
elements of its parameters, one for each in order and with its name as its text, and the text of
all is the text of the signature. So this is what a header element says, blanks at its ends apart,
whose contents are replaced by the typeset header, unless its own text stands in an attribute. -/
theorem Signature.parse_typeset_header (s : Signature)
    (h : ∀ p ∈ s.params, p.name.toList.all isSpace = true → p.name = "") :
    ∃ nodes, Markup.parse? s.typeset.header = .ok nodes ∧
      (∀ n ∈ nodes, (∃ value, n = .plain value) ∨ ∃ p ∈ s.params, n = p.node) ∧
      nodes.filter Node.isElement = s.params.map Parameter.node ∧
      (∀ p ∈ s.params, p.node.plainText = p.name.toList) ∧
      nodes.flatMap Node.plainText = s.render.toList ∧
      ∀ tag children removed, tag.get? transcludeAttr = none →
        ((Node.element tag children removed).replaceContents s.typeset.header).headerSource =
          Text.trim s.render.toList := by
  have hlasting : ∀ p ∈ s.params, Lasting p.name.toList :=
    fun p hp hall => toList_eq_nil_iff.2 (h p hp hall)
  have hparse := parse?_segments hlasting
  have helements : (Markup.nodesAfter [] s.segments).filter Node.isElement =
      s.params.map Parameter.node := by
    rw [Markup.filter_isElement_nodesAfter, names_segments, List.map_map]
    exact List.map_congr_left fun p _ => p.variableNode_name
  have hrender : s.segments.flatMap Segment.chars = s.render.toList := by
    rw [chars_segments, render, String.toList_ofList]
  refine ⟨Markup.nodesAfter [] s.segments, hparse, fun n hn => ?_, helements, fun p _ => ?_, ?_, ?_⟩
  · refine (Markup.mem_nodesAfter hn).imp_right ?_
    rintro ⟨name, rfl⟩
    have hmem : Markup.variableNode name ∈ s.params.map Parameter.node := by
      rw [← helements]
      exact List.mem_filter.2 ⟨hn, rfl⟩
    obtain ⟨p, hp, heq⟩ := List.mem_map.1 hmem
    exact ⟨p, hp, heq.symm⟩
  · rw [← p.variableNode_name, Markup.plainText_variableNode]
  · rw [Markup.flatMap_nodesAfter Markup.plainText_plain Markup.plainText_variableNode, hrender,
      List.nil_append]
  · intro tag children removed htag
    rw [Node.headerSource_replaceContents hparse htag,
      Markup.flatMap_nodesAfter (fun _ => rfl) Markup.headerChars_variableNode, hrender,
      List.nil_append]

/-- A signature with brackets, quotes and a reference in its names and types. -/
def marked : Signature :=
  ⟨"At<T>", [⟨"&lt;b>", some (.list (.named "a 'T'")), true⟩, ⟨"<var>", none, false⟩],
    some (.named "the \"end\"")⟩

/-- Nothing in these names and types becomes markup. -/
theorem marked_typeset_header : (∀ p ∈ marked.params, p.name.toList.all isSpace = true →
      p.name = "") ∧
    ∃ nodes, Markup.parse? marked.typeset.header = .ok nodes ∧
      nodes.filter Node.isElement =
        [.element ⟨"var", [], none⟩ [.plain "&lt;b>"] [],
          .element ⟨"var", [], none⟩ [.plain "<var>"] []] ∧
      nodes.flatMap Node.plainText = marked.render.toList ∧
      ((Node.element ⟨"h1", [("id", "at")], none⟩ [] []).replaceContents
        marked.typeset.header).headerSource =
          "At<T>(optional &lt;b>: List of a 'T', <var>): the \"end\"".toList := by
  have hnames : ∀ p ∈ marked.params, p.name.toList.all isSpace = true → p.name = "" := by
    decide
  obtain ⟨nodes, hparse, -, helements, -, htext, hsource⟩ :=
    Signature.parse_typeset_header marked hnames
  refine ⟨hnames, nodes, hparse, helements, htext, ?_⟩
  rw [hsource _ [] [] (by decide)]
  decide +kernel

end Concordance
