import Concordance.Markup.Content
import Concordance.Markup.Reader
import Concordance.Proofs.Markup.Escaped

/-!
# Texts with variables

A text in which some words are variables is written with every text escaped and every variable in an
element of its own. Reading this markup gives the texts and the variables back and nothing else
(`parse?_markup`): neighbouring texts are one text, and a text stays as it is unless it is made of
blanks alone.
-/

namespace Concordance.Markup

open Text (escape)
open Growth (isSpace collapse)

/-! ## Segments -/

/-- A part of a text in which some words are variables. -/
inductive Segment where
  | text (cs : List Char)
  | variable (name : List Char)
  deriving DecidableEq, Repr

namespace Segment

/-- The characters of a segment. -/
def chars : Segment → List Char
  | .text cs => cs
  | .variable name => name

/-- The segment as markup. -/
def markup : Segment → List Char
  | .text cs => escape cs
  | .variable name => "<var>".toList ++ escape name ++ "</var>".toList

@[simp] theorem markup_text (cs : List Char) : (Segment.text cs).markup = escape cs := rfl

/-- The name of a variable, alone in a list. -/
def names : Segment → List (List Char)
  | .text _ => []
  | .variable name => [name]

end Segment

/-- The text as a node, unless it is empty. -/
def textNodes (cs : List Char) : List Node := if cs = [] then [] else [.plain (String.ofList cs)]

/-- The element of a variable. -/
def variableNode (name : List Char) : Node := .element ⟨"var", [], none⟩ (textNodes name) []

/-- The nodes of segments after a text. -/
def nodesAfter (cs : List Char) : List Segment → List Node
  | [] => textNodes cs
  | .text ds :: ss => nodesAfter (cs ++ ds) ss
  | .variable name :: ss => textNodes cs ++ variableNode name :: nodesAfter [] ss

/-- The text is not made of blanks alone, unless it is empty. -/
def Lasting (cs : List Char) : Prop := cs.all isSpace = true → cs = []

/-- No text among the segments after a text is made of blanks alone, neighbours being one text. -/
def LastingAfter (cs : List Char) : List Segment → Prop
  | [] => Lasting cs
  | .text ds :: ss => LastingAfter (cs ++ ds) ss
  | .variable name :: ss => Lasting cs ∧ Lasting name ∧ LastingAfter [] ss

/-! ## Tags of variables -/

theorem reads_opening (rest : List Char) : Reads "<var>".toList rest [.opening "var" [] false] := by
  have htag : readTag ("var>".toList ++ rest) = .piece (.opening "var" [] false) rest := by
    rfl
  exact reads_tag htag (by decide)

theorem reads_closing (rest : List Char) : Reads "</var>".toList rest [.closing "var"] := by
  have htag : readTag ("/var>".toList ++ rest) = .piece (.closing "var") rest := by
    rfl
  exact reads_tag htag rfl

/-! ## Trees -/

namespace Growth

section

variable {g : Growth} {texts : List (List Char)}

theorem foldl_add_texts (texts : List (List Char)) (g : Growth) :
    (texts.map Piece.text).foldl add g = { g with pending := texts.reverse ++ g.pending } := by
  induction texts generalizing g with
  | nil => rfl
  | cons cs texts ih =>
    rw [List.map_cons, List.foldl_cons, ih, add]
    simp

/-- A text that lasts becomes a node where plain texts are plain. -/
theorem settle_texts (hpending : g.pending = []) (hkind : g.kindHere = .plain)
    (hne : ∀ u ∈ texts, u ≠ []) (hlasting : Lasting texts.flatten) :
    settle { g with pending := texts.reverse } .plain = (textNodes texts.flatten).foldl push g := by
  obtain ⟨opened, outside, pending, ended⟩ := g
  obtain rfl : pending = [] := hpending
  cases texts with
  | nil => rfl
  | cons u us =>
    have hflat : (u :: us).flatten ≠ [] := by simp [hne u List.mem_cons_self]
    have hcollapse : collapse (u :: us).flatten = (u :: us).flatten :=
      if_neg fun hall => hflat (hlasting hall)
    rw [textNodes, if_neg hflat]
    unfold settle
    split
    · next hnil => simp at hnil
    · simp only [List.reverse_reverse, hcollapse, ite_self, if_true]
      exact congrArg (fun kind => push _ (.text kind _)) hkind

theorem foldl_push_outside (ns outside : List Node) (ended : List String) :
    ns.foldl push ⟨[], outside, [], ended⟩ = ⟨[], ns.reverse ++ outside, [], ended⟩ := by
  induction ns generalizing outside with
  | nil => rfl
  | cons n ns ih =>
    rw [List.foldl_cons, push, ih]
    simp

theorem foldl_push_opened (ns : List Node) (o : Open) (rest : List Open) (outside : List Node)
    (ended : List String) :
    ns.foldl push ⟨o :: rest, outside, [], ended⟩ =
      ⟨{ o with nodes := ns.reverse ++ o.nodes } :: rest, outside, [], ended⟩ := by
  induction ns generalizing o with
  | nil => rfl
  | cons n ns ih =>
    rw [List.foldl_cons, push, ih]
    simp

theorem add_opening {outside : List Node} (h : g.settle .plain = ⟨[], outside, [], []⟩) :
    g.add (.opening "var" [] false) = ⟨[⟨⟨"var", [], none⟩, []⟩], outside, [], []⟩ := by
  rw [add, startTag, h]
  rfl

theorem add_closing {ns outside : List Node} (hended : g.ended = [])
    (h : g.settle .plain = ⟨[⟨⟨"var", [], none⟩, ns⟩], outside, [], []⟩) :
    g.add (.closing "var") = ⟨[], .element ⟨"var", [], none⟩ ns.reverse [] :: outside, [], []⟩ := by
  rw [add, endTag, hended, h]
  rfl

/-- The texts outside of all elements. -/
theorem settle_outside (hne : ∀ u ∈ texts, u ≠ []) (hlasting : Lasting texts.flatten)
    (outside : List Node) : settle ⟨[], outside, texts.reverse, []⟩ .plain =
      ⟨[], (textNodes texts.flatten).reverse ++ outside, [], []⟩ := by
  rw [← foldl_push_outside]
  exact settle_texts (g := ⟨[], outside, [], []⟩) rfl rfl hne hlasting

/-- The texts inside the element of a variable. -/
theorem settle_variable (hne : ∀ u ∈ texts, u ≠ []) (hlasting : Lasting texts.flatten)
    (outside : List Node) : settle ⟨[⟨⟨"var", [], none⟩, []⟩], outside, texts.reverse, []⟩ .plain =
      ⟨[⟨⟨"var", [], none⟩, (textNodes texts.flatten).reverse⟩], outside, [], []⟩ := by
  have hpush := foldl_push_opened (textNodes texts.flatten) ⟨⟨"var", [], none⟩, []⟩ [] outside []
  rw [List.append_nil] at hpush
  rw [← hpush]
  exact settle_texts (g := ⟨[⟨⟨"var", [], none⟩, []⟩], outside, [], []⟩) rfl rfl hne hlasting

/-- The pieces of a text and of a variable after it. -/
def variablePieces (texts names : List (List Char)) : List Piece :=
  texts.map .text ++ ([.opening "var" [] false] ++ (names.map .text ++ [.closing "var"]))

/-- A text and a variable become the node of the text and the element of the variable. -/
theorem foldl_add_variablePieces {names : List (List Char)} (htexts : ∀ u ∈ texts, u ≠ [])
    (hnames : ∀ u ∈ names, u ≠ []) (htext : Lasting texts.flatten)
    (hname : Lasting names.flatten) (outside : List Node) :
    (variablePieces texts names).foldl add ⟨[], outside, [], []⟩ =
      ⟨[], variableNode names.flatten :: ((textNodes texts.flatten).reverse ++ outside), [],
        []⟩ := by
  have hopening := add_opening (settle_outside htexts htext outside)
  have hclosing := add_closing rfl
    (settle_variable hnames hname ((textNodes texts.flatten).reverse ++ outside))
  simp only [variablePieces, List.foldl_append, List.foldl_cons, List.foldl_nil, foldl_add_texts,
    List.append_nil, hopening]
  rw [hclosing, List.reverse_reverse, variableNode]

end

end Growth

/-! ## Segments are read back -/

/-- A markup that the first round reads to its end has the pieces that are read. -/
theorem pieces_of_reads {markup : List Char} {ps : List Piece} (h : Reads markup [] ps) :
    pieces markup = .ok ps := by
  obtain ⟨fuel, hfuel, hround⟩ := h (markup.length + 1) (by simp)
  obtain ⟨fuel, rfl⟩ := Nat.exists_eq_add_one_of_ne_zero (Nat.ne_zero_of_lt hfuel)
  have hend : ∀ final fuel, round final (fuel + 1) none [] = .ok ⟨[], none, []⟩ :=
    fun _ _ => by rw [round]
  rw [List.append_nil, hend] at hround
  rw [pieces, hround]
  simp [bind, Except.bind, Except.map, Round.precede, hend, textPiece, pure, Except.pure]

/-- The first round reads a text and a variable after it as pieces that make these up. -/
theorem exists_reads_variable (cs name rest : List Char) :
    ∃ texts names : List (List Char), texts.flatten = cs ∧ (∀ u ∈ texts, u ≠ []) ∧
      names.flatten = name ∧ (∀ u ∈ names, u ≠ []) ∧
      Reads (escape cs ++ (Segment.variable name).markup) rest
        (Growth.variablePieces texts names) := by
  obtain ⟨names, hnames, hne', hreadsName⟩ :=
    exists_reads_escape name (by simp : ∀ c ∈ ("</var>".toList ++ rest).head?, c = '<')
  have hvariable := (reads_opening (escape name ++ "</var>".toList ++ rest)).append
    (hreadsName.append (reads_closing rest))
  obtain ⟨texts, htexts, hne, hreadsText⟩ := exists_reads_escape cs
    (by simp : ∀ c ∈ ("<var>".toList ++ (escape name ++ "</var>".toList) ++ rest).head?, c = '<')
  have hmarkup : (Segment.variable name).markup =
      "<var>".toList ++ (escape name ++ "</var>".toList) := List.append_assoc _ _ _
  refine ⟨texts, names, htexts, hne, hnames, hne', ?_⟩
  rw [hmarkup]
  exact hreadsText.append hvariable

/-- The first round reads segments after a text as pieces that put up their nodes. -/
theorem exists_reads_markup (ss : List Segment) (cs : List Char) (h : LastingAfter cs ss) :
    ∃ ps, Reads (escape cs ++ ss.flatMap Segment.markup) [] ps ∧ ∀ outside,
      (ps.foldl Growth.add ⟨[], outside, [], []⟩).finish = outside.reverse ++ nodesAfter cs ss := by
  match ss with
  | [] =>
    obtain ⟨texts, hflat, hne, hreads⟩ := exists_reads_escape cs (by simp : ∀ c ∈ [].head?, c = '<')
    subst hflat
    refine ⟨_, by simpa using hreads, fun outside => ?_⟩
    rw [Growth.foldl_add_texts, Growth.finish, List.append_nil, Growth.settle_outside hne h]
    simp [Growth.closeMany, nodesAfter]
  | .text ds :: ss =>
    obtain ⟨ps, hreads, hfold⟩ := exists_reads_markup ss (cs ++ ds) h
    have hsplit : escape cs ++ (Segment.text ds :: ss).flatMap Segment.markup =
        escape (cs ++ ds) ++ ss.flatMap Segment.markup := by
      rw [Text.escape_append, List.append_assoc]
      rfl
    exact ⟨ps, by rwa [hsplit], hfold⟩
  | .variable name :: ss =>
    obtain ⟨hcs, hname, hss⟩ := h
    obtain ⟨ps, hreads, hfold⟩ := exists_reads_markup ss [] hss
    obtain ⟨texts, names, rfl, htexts, rfl, hnames, hreads'⟩ :=
      exists_reads_variable cs name (ss.flatMap Segment.markup ++ [])
    refine ⟨Growth.variablePieces texts names ++ ps, ?_, fun outside => ?_⟩
    · rw [List.flatMap_cons, ← List.append_assoc (escape _)]
      exact hreads'.append hreads
    · rw [List.foldl_append, Growth.foldl_add_variablePieces htexts hnames hcs hname, hfold,
        nodesAfter]
      simp

/-- **Segments are read back.** -/
theorem parse?_markup {ss : List Segment} (h : LastingAfter [] ss) :
    parse? (ss.flatMap Segment.markup) = .ok (nodesAfter [] ss) := by
  obtain ⟨ps, hreads, hfold⟩ := exists_reads_markup ss [] h
  have hpieces : pieces (ss.flatMap Segment.markup) = .ok ps := pieces_of_reads hreads
  rw [parse?, hpieces]
  exact congrArg Except.ok (hfold [])

/-! ## The nodes of segments -/

/-- The nodes are texts and variables. -/
theorem mem_nodesAfter {cs : List Char} {ss : List Segment} {n : Node} (h : n ∈ nodesAfter cs ss) :
    (∃ value, n = .plain value) ∨ ∃ name, n = variableNode name := by
  have htext : ∀ ds, n ∈ textNodes ds → ∃ value, n = .plain value := by
    intro ds hn
    rw [textNodes] at hn
    split at hn
    · cases hn
    · exact ⟨_, List.mem_singleton.1 hn⟩
  match ss with
  | [] => exact .inl (htext cs h)
  | .text ds :: ss =>
    rw [nodesAfter] at h
    exact mem_nodesAfter h
  | .variable name :: ss =>
    rw [nodesAfter, List.mem_append, List.mem_cons] at h
    rcases h with h | h | h
    · exact .inl (htext cs h)
    · exact .inr ⟨name, h⟩
    · exact mem_nodesAfter h
termination_by ss.length

/-- The elements are those of the variables, in order. -/
theorem filter_isElement_nodesAfter (cs : List Char) (ss : List Segment) :
    (nodesAfter cs ss).filter Node.isElement = (ss.flatMap Segment.names).map variableNode := by
  have htext : ∀ ds, (textNodes ds).filter Node.isElement = [] := by
    intro ds
    rw [textNodes]
    split <;> rfl
  match ss with
  | [] => exact htext cs
  | .text ds :: ss => exact filter_isElement_nodesAfter (cs ++ ds) ss
  | .variable name :: ss =>
    have hrest := filter_isElement_nodesAfter [] ss
    rw [nodesAfter, List.filter_append, htext, List.nil_append, List.filter_cons_of_pos rfl, hrest]
    rfl

/-- What is read off texts and variables as they stand is read off the nodes of segments. -/
theorem flatMap_nodesAfter {f : Node → List Char}
    (hplain : ∀ value, f (.plain value) = value.toList)
    (hvariable : ∀ name, f (variableNode name) = name) (cs : List Char) (ss : List Segment) :
    (nodesAfter cs ss).flatMap f = cs ++ ss.flatMap Segment.chars := by
  have htext : ∀ ds, (textNodes ds).flatMap f = ds := by
    intro ds
    rw [textNodes]
    split
    · next hnil => simp [hnil]
    · simp [hplain]
  match ss with
  | [] => rw [nodesAfter, htext, List.flatMap_nil, List.append_nil]
  | .text ds :: ss =>
    rw [nodesAfter, flatMap_nodesAfter hplain hvariable, List.flatMap_cons, List.append_assoc]
    rfl
  | .variable name :: ss =>
    rw [nodesAfter, List.flatMap_append, htext, List.flatMap_cons, hvariable,
      flatMap_nodesAfter hplain hvariable, List.flatMap_cons]
    rfl

theorem plainText_plain (value : String) : (Node.plain value).plainText = value.toList := by
  simp [Node.plainText, Node.visible, Node.tag?, Node.plain, Node.texts, Tag.shows,
    Tag.contentKind?, default, instInhabitedTag.default]

theorem plainText_variableNode (name : List Char) : (variableNode name).plainText = name := by
  rw [variableNode, textNodes]
  split
  · next hnil =>
    subst hnil
    rfl
  · simp [Node.plainText, Node.visible, Node.tag?, Node.plain, Node.texts, Node.allTexts,
      Tag.shows, Tag.contentKind?]

theorem headerChars_variableNode (name : List Char) : (variableNode name).headerChars = name := by
  rw [variableNode, textNodes]
  split
  · next hnil =>
    subst hnil
    rfl
  · change (String.ofList name).toList ++ [] = name
    simp

end Concordance.Markup
