import Concordance.Proofs.Header.Reread
import Concordance.Proofs.MethodTable.Rows
import Concordance.Proofs.Signature.Typeset

/-!
# Typeset rows

A row that declares a method is typeset: the contents of its header give way to the typeset header
of the method, and a paragraph comes first in its second cell (`TypesetAs`).

A typeset header holds a parenthesis, so there is text in a row that has been typeset, be it that
there was none before (`readRow_eq_or_wordy`). What was told from its neighbours by having text in
it is told from them all the same after the rows in it have been read.
-/

namespace Concordance

open Node

/-! ## Trees with text in them -/

namespace Node

/-- Somewhere in a tree there is a plain text that is not empty. -/
def Wordy (n : Node) : Prop := ∃ t ∈ n.texts (· = .plain), t ≠ []

theorem mem_allTexts_iff {p : TextKind → Bool} {t : List Char} {ns : List Node} :
    t ∈ allTexts p ns ↔ ∃ n ∈ ns, t ∈ n.texts p := by
  induction ns with
  | nil => simp [allTexts]
  | cons n ns ih => rw [allTexts, List.mem_append, ih, List.exists_mem_cons_iff]

theorem Wordy.of_mem {c : Node} (h : c.Wordy) {cs : List Node} (hc : c ∈ cs) (tag : Tag)
    (rs : List Node) : (element tag cs rs).Wordy := by
  obtain ⟨t, ht, hne⟩ := h
  exact ⟨t, mem_allTexts_iff.2 ⟨c, hc, ht⟩, hne⟩

/-- Where children stay as they are or have text in them, so does the element. -/
theorem eq_or_wordy_of_forall₂ {cs cs' : List Node}
    (h : List.Forall₂ (fun n n' => n' = n ∨ n'.Wordy) cs cs') (tag : Tag) (rs : List Node) :
    element tag cs' rs = element tag cs rs ∨ (element tag cs' rs).Wordy := by
  by_cases hwordy : ∃ n' ∈ cs', n'.Wordy
  · obtain ⟨n', hn', hwordy⟩ := hwordy
    exact .inr (hwordy.of_mem hn' tag rs)
  · left
    congr 1
    induction h with
    | nil => rfl
    | cons hn _ ih =>
      simp only [List.exists_mem_cons_iff, not_or] at hwordy
      rw [hn.resolve_right hwordy.1, ih hwordy.2]

mutual
/-- Texts of some kinds are texts of more kinds. -/
theorem mem_texts_of_imp {p q : TextKind → Bool} (hpq : ∀ k, p k = true → q k = true)
    {t : List Char} {n : Node} (h : t ∈ n.texts p) : t ∈ n.texts q := by
  match n with
  | .text kind value =>
    rw [texts] at h ⊢
    split at h
    · next hkind => rwa [if_pos (hpq kind hkind)]
    · cases h
  | .element tag cs rs => exact mem_allTexts_of_imp hpq h

theorem mem_allTexts_of_imp {p q : TextKind → Bool} (hpq : ∀ k, p k = true → q k = true)
    {t : List Char} {ns : List Node} (h : t ∈ allTexts p ns) : t ∈ allTexts q ns := by
  match ns with
  | [] => cases h
  | n :: ns =>
    rw [allTexts, List.mem_append] at h ⊢
    exact h.imp (mem_texts_of_imp hpq) (mem_allTexts_of_imp hpq)
end

/-- Plain text in a span shows. -/
theorem Wordy.plainText_ne_nil {n : Node} (h : n.Wordy) (hname : n.isNamed "span" = true) :
    n.plainText ≠ [] := by
  cases n with
  | text kind value => cases hname
  | element tag cs rs =>
    simp only [isNamed, decide_eq_true_eq] at hname
    obtain ⟨t, ht, hne⟩ := h
    have hshown : t ∈ (element tag cs rs).visible := by
      refine mem_texts_of_imp (fun k hk => ?_) ht
      simp_all [tag?, Tag.shows, Tag.contentKind?]
    exact fun hnil => hne (List.flatten_eq_nil_iff.1 hnil t hshown)

end Node

/-! ## Typeset headers have text in them -/

theorem isBlank_of_isSpace {c : Char} (h : Markup.Growth.isSpace c = true) :
    Text.isBlank c = true := by
  simp only [Markup.Growth.isSpace, Bool.or_eq_true, decide_eq_true_eq] at h
  rcases h with (((rfl | rfl) | rfl) | rfl) | rfl <;> decide

/-- The names of the parameters of a declaration are kept by a reader of markup. -/
theorem Node.lasting_of_declaration {n : Node} {s : Signature} (h : n.declaration = .ok s) :
    ∀ p ∈ s.params, Markup.Lasting p.name.toList := by
  unfold declaration at h
  dsimp only at h
  split at h
  · cases h
  · next hparse =>
    split at h
    · cases h
    · next hs =>
      obtain rfl := Except.ok.inj h
      intro p hp
      have hlistable := ((Header.sound_of_parse hparse).listable hs).params p hp
      obtain ⟨c, cs, hname, hblank⟩ := hlistable.name.starts
      refine lasting_of_mem (c := c) (hname ▸ List.mem_cons_self) ?_
      rw [Bool.eq_false_iff]
      exact fun hspace => by simp [isBlank_of_isSpace hspace] at hblank

theorem texts_variableNode (name : List Char) :
    ((Markup.variableNode name).texts (· = .plain)).flatten = name := by
  rw [Markup.variableNode, Markup.textNodes]
  split
  · next hnil =>
    subst hnil
    rfl
  · simp [Node.plain, Node.texts, Node.allTexts]

theorem Signature.exists_wordy {s : Signature}
    (h : ∀ p ∈ s.params, Markup.Lasting p.name.toList) :
    ∃ n ∈ Markup.parse s.typeset.header, n.Wordy := by
  have hparse : Markup.parse s.typeset.header = Markup.nodesAfter [] s.segments := by
    rw [Markup.parse, parse?_segments h]
    rfl
  have hopen : '(' ∈ (Markup.nodesAfter [] s.segments).flatMap fun n =>
      (n.texts (· = .plain)).flatten := by
    rw [Markup.flatMap_nodesAfter (fun value => by simp [Node.plain, Node.texts]) texts_variableNode,
      chars_segments]
    simp [chars]
  obtain ⟨n, hn, hmem⟩ := List.mem_flatMap.1 hopen
  obtain ⟨t, ht, hmem⟩ := List.mem_flatten.1 hmem
  exact ⟨n, hparse ▸ hn, t, ht, List.ne_nil_of_mem hmem⟩

namespace MethodTable

/-! ## Rows -/

/-- A cell with its header, and the cell with this header typeset: the header is the cell itself or
a child of it. The nodes of the typeset header take the place of what was in it, and all else
stays. -/
inductive HeaderTypeset (s : Signature) : Node → Node → Node → Prop where
  | cell (tag : Tag) (cs removed : List Node) :
      HeaderTypeset s (.element tag cs removed) (.element tag cs removed)
        (.element tag (Markup.parse s.typeset.header) (removed ++ cs))
  | child (tag : Tag) (before : List Node) (tag' : Tag) (cs removed' after removed : List Node) :
      HeaderTypeset s (.element tag' cs removed')
        (.element tag (before ++ .element tag' cs removed' :: after) removed)
        (.element tag (before ++
          .element tag' (Markup.parse s.typeset.header) (removed' ++ cs) :: after) removed)

/-- A row that declares a signature and what is made of it: in its first cell the header that is
found there is typeset, in its second one a paragraph with the sentence about the method comes
first, and all else stays. -/
inductive TypesetAs (s : Signature) : Node → Node → Prop where
  | row {tag tag₂ : Tag} {before between after removed cs₂ removed₂ : List Node}
      {cell cell' header : Node} {place : Place} :
      (∀ n ∈ before, n.isElement = false) → cell.isElement = true →
      (∀ n ∈ between, n.isElement = false) →
      headerPlace? cell = some place → place.node cell = header → isHeader header = true →
      HeaderTypeset s header cell cell' →
      TypesetAs s
        (.element tag
          (before ++ cell :: (between ++ .element tag₂ cs₂ removed₂ :: after)) removed)
        (.element tag (before ++ cell' :: (between ++ .element tag₂
          (.element ⟨"p", [], none⟩ (Markup.parse (sentence s (header.isNamed "ins"))) [] :: cs₂)
          removed₂ :: after)) removed)

theorem isElement_of_isHeader {n : Node} (h : isHeader n = true) : n.isElement = true := by
  rcases Bool.or_eq_true_iff.1 h with h | h
  · exact isElement_of_isNamed h
  · exact isElement_of_isNamed h

theorem headerTypeset_modify {cell : Node} {place : Place} (h : headerPlace? cell = some place)
    (hheader : isHeader (place.node cell) = true) (s : Signature) :
    HeaderTypeset s (place.node cell) cell (place.modify (Node.typeset s) cell) := by
  replace hheader := isElement_of_isHeader hheader
  rcases headerPlace?_cases cell with
    hcell | ⟨before, header, after, hchildren, -, hchild⟩ | ⟨hnone, -⟩
  · rw [h] at hcell
    obtain rfl := Option.some.inj hcell
    cases cell with
    | text kind value => cases hheader
    | element tag cs rs => exact .cell tag cs rs
  · rw [h] at hchild
    obtain rfl := Option.some.inj hchild
    rw [Place.node_child hchildren] at hheader ⊢
    cases cell with
    | text kind value => simp [children] at hchildren
    | element tag cs rs =>
      obtain rfl : cs = before ++ header :: after := hchildren
      have hmodify : Place.modify (Node.typeset s) (.child before.length)
          (.element tag (before ++ header :: after) rs) =
            .element tag (before ++ header.typeset s :: after) rs :=
        congrArg (element tag · rs) (modify_length_append before header after (Node.typeset s))
      rw [hmodify]
      cases header with
      | text kind value => cases hheader
      | element tag' cs rs' => exact .child tag before tag' cs rs' after rs
  · rw [h] at hnone
    cases hnone

theorem modifyElements_append {before : List Node} (hbefore : ∀ n ∈ before, n.isElement = false)
    {n : Node} (hn : n.isElement = true) (f : Node → Node) (fs : List (Node → Node))
    (ns : List Node) :
    modifyElements (f :: fs) (before ++ n :: ns) = before ++ f n :: modifyElements fs ns := by
  induction before with
  | nil => rw [List.nil_append, modifyElements, if_pos hn]; rfl
  | cons b before ih =>
    obtain ⟨hb, hbefore⟩ := List.forall_mem_cons.1 hbefore
    rw [List.cons_append, modifyElements, hb, if_neg (by simp), ih hbefore]
    rfl

theorem typesetAs_typesetRow {tr cell second : Node} {rest : List Node} {place : Place}
    (hcells : tr.elements = cell :: second :: rest) (hplace : headerPlace? cell = some place)
    (hheader : isHeader (place.node cell) = true) (s : Signature) :
    TypesetAs s tr (typesetRow place s ((place.node cell).isNamed "ins") tr) := by
  cases tr with
  | text kind value => cases hcells
  | element tag cs rs =>
    obtain ⟨before, tail, rfl, hbefore, hcell, htail⟩ := List.filter_eq_cons_iff.1 hcells
    obtain ⟨between, after, rfl, hbetween, hsecond, -⟩ := List.filter_eq_cons_iff.1 htail
    have hbefore : ∀ n ∈ before, n.isElement = false := by simpa using hbefore
    have hbetween : ∀ n ∈ between, n.isElement = false := by simpa using hbetween
    rw [typesetRow, children, modifyElements_append hbefore hcell,
      modifyElements_append hbetween hsecond, modifyElements]
    cases second with
    | text kind value => cases hsecond
    | element tag₂ cs₂ rs₂ =>
      exact .row hbefore hcell hbetween hplace rfl hheader (headerTypeset_modify hplace hheader s)

theorem HeaderTypeset.wordy {s : Signature} (hs : ∀ p ∈ s.params, Markup.Lasting p.name.toList)
    {header cell cell' : Node} (h : HeaderTypeset s header cell cell') : cell'.Wordy := by
  obtain ⟨n, hn, hwordy⟩ := s.exists_wordy hs
  cases h with
  | cell tag cs rs => exact hwordy.of_mem hn tag _
  | child tag before tag' cs rs' after rs =>
    exact (hwordy.of_mem hn tag' _).of_mem (List.mem_append_right _ List.mem_cons_self) tag rs

/-- There is text in a typeset row. -/
theorem TypesetAs.wordy {s : Signature} (hs : ∀ p ∈ s.params, Markup.Lasting p.name.toList)
    {tr tr' : Node} (h : TypesetAs s tr tr') : tr'.Wordy := by
  cases h with
  | row _ _ _ _ _ _ hcell =>
    exact (hcell.wordy hs).of_mem (List.mem_append_right _ List.mem_cons_self) _ _

/-- Reading a row leaves it as it is or makes a row with text in it. -/
theorem readRow_eq_or_wordy (several : Bool) (tr : Node) :
    (readRow several tr).node = tr ∨ (readRow several tr).node.Wordy := by
  have hread := reading several tr
  generalize readRow several tr = row at hread
  cases hread with
  | declared hcells hplace hheader hs =>
    exact .inr ((typesetAs_typesetRow hcells hplace hheader _).wordy (lasting_of_declaration hs))
  | _ => exact .inl rfl

end MethodTable

end Concordance
