import Concordance.Proofs.Markup.Keys
import Concordance.Proofs.MethodTable.Rows
import Concordance.Survey

/-!
# What a survey leaves of a document

A survey typesets headers, gives captions and numbers headings while it visits a document. What is
made of a header puts generated nodes into it and takes contents out of it; elsewhere only the
caption of a table is new. So a relation between a node and what is made of it holds of an element
that is entered once it has the closure properties of `Rewrites` (`Survey.enter_of_rewrites`), those
of `Typesets` inside headings and rows. A change inside a table is made on the way to the first
element of a name, so what holds of the changed element and of every element on this way holds of
the whole table (`modifyFirst_induction`).

Such a relation then holds of a document and of what a whole survey makes of it
(`Survey.ofRoot_of_rewrites`). All rewriting is gentle: it keeps the elements with keys and how deep
they nest (`rewrites_gentle`). `visit_induction` carries what every entered element keeps through a
visit, and `ofRoot_induction` through a survey.
-/

namespace Concordance

open Node

@[simp] theorem Node.tag_element (tag : Tag) (cs rs : List Node) :
    (element tag cs rs).tag = tag := rfl

/-! ## Relations that rewriting keeps -/

/-- A relation that holds between an element and one whose contents are related to its own. -/
structure Congruent (R : Node → Node → Prop) : Prop where
  refl : ∀ n, R n n
  element : ∀ {cs cs' rs rs' : List Node} (tag : Tag), List.Forall₂ R cs cs' →
    List.Forall₂ R rs rs' → R (.element tag cs rs) (.element tag cs' rs')

/-- A relation that may hold between any node and what typesetting makes of it: generated nodes take
the place of the contents or come first in them, in the node itself or inside it. -/
structure Typesets (R : Node → Node → Prop) : Prop extends Congruent R where
  replace : ∀ {ns : List Node}, Keyless ns → ∀ n, R n (replaceChildren ns n)
  prepend : ∀ {m : Node}, Keyless [m] → ∀ n, R n (prepend m n)

/-- A relation that may hold between a node and what a survey makes of it: tables get a caption, and
headings and rows are typeset, so that another relation holds there. -/
structure Rewrites (R Q : Node → Node → Prop) : Prop extends Congruent Q where
  typesets : Typesets R
  trans : ∀ {a b c : Node}, Q a b → Q b c → Q a c
  header : ∀ {n n' : Node}, n.isNamed "h1" = true ∨ n.isNamed "tr" = true → R n n' → Q n n'
  caption : ∀ (n : Node) (value : String), n.tag.name = "emu-table" →
    Q n (n.setAttr "caption" value)

namespace Congruent

variable {R : Node → Node → Prop} (h : Congruent R)
include h

theorem refl_all (ns : List Node) : List.Forall₂ R ns ns :=
  List.forall₂_same.2 fun n _ => h.refl n

theorem withChildren {n : Node} {cs : List Node} (hcs : List.Forall₂ R n.children cs) :
    R n (n.withChildren cs) := by
  cases n with
  | text kind value => exact h.refl _
  | element tag _ rs => exact h.element tag hcs (h.refl_all rs)

end Congruent

theorem Clause.keyless_numberSpan (number : String) : Keyless [numberSpan number] :=
  keyless_new rfl

theorem MethodTable.keyless_paragraph (s : Signature) (inserted : Bool) :
    Keyless [paragraph s inserted] := keyless_new (keyless_parse _)

/-! ### Headers -/

namespace Typesets

open MethodTable

variable {R : Node → Node → Prop} (h : Typesets R)
include h

theorem typeset (s : Signature) (n : Node) : R n (n.typeset s) := h.replace (keyless_parse _) n

theorem place {f : Node → Node} (hf : ∀ n, R n (f n)) (p : Place) (n : Node) :
    R n (p.modify f n) := by
  cases p with
  | cell => exact hf n
  | child i => exact h.withChildren (forall₂_modify h.refl fun m _ => hf m)

theorem modifyElements {fs : List (Node → Node)} (hfs : ∀ f ∈ fs, ∀ n, R n (f n))
    (ns : List Node) : List.Forall₂ R ns (modifyElements fs ns) := by
  induction ns generalizing fs with
  | nil =>
    cases fs with
    | nil => exact .nil
    | cons f fs => exact .nil
  | cons n ns ih =>
    cases fs with
    | nil => exact h.refl_all _
    | cons f fs =>
      rw [MethodTable.modifyElements]
      split
      · exact .cons (hfs f List.mem_cons_self n) (ih fun g hg => hfs g (List.mem_cons_of_mem f hg))
      · exact .cons (h.refl n) (ih hfs)

theorem typesetRow (place : Place) (s : Signature) (inserted : Bool) (tr : Node) :
    R tr (typesetRow place s inserted tr) := by
  refine h.withChildren (h.modifyElements ?_ _)
  simp only [List.forall_mem_cons, List.not_mem_nil, false_implies, implies_true, and_true]
  exact ⟨h.place (h.typeset s) place, h.prepend (keyless_paragraph s inserted)⟩

theorem readRow (several : Bool) (tr : Node) : R tr (readRow several tr).node := by
  have hread := reading several tr
  generalize MethodTable.readRow several tr = row at hread
  cases hread with
  | declared _ _ _ _ => exact h.typesetRow _ _ _ tr
  | _ => exact h.refl tr

end Typesets

/-! ### Tables -/

namespace MethodTable

/-! ### The way to the first element of a name -/

section Way

variable (P : Tag → Node → Prop) (name : String)

mutual
/-- On the way from a node to the first element of a name below it, every node stands in its parent
in some manner. -/
def Clear : Node → Prop
  | .text _ _ => True
  | .element tag children _ => ClearIn tag children

/-- `Clear` for the way through the children of an element. -/
def ClearIn (parent : Tag) : List Node → Prop
  | [] => True
  | n :: ns =>
    if n.isNamed name then P parent n
    else if (firstNamed? name n).isSome then P parent n ∧ Clear n
    else ClearIn parent ns
end

variable {P name} {R : Node → Node → Prop} {f : Node → Node}

/-- A node that stays as it is, or one that is rewritten where it stands in a manner. -/
def Rewritten (P : Tag → Node → Prop) (R : Node → Node → Prop) (parent : Tag) (n n' : Node) :
    Prop := n' = n ∨ P parent n ∧ R n n'

theorem Rewritten.imp (hR : ∀ n, R n n) {parent : Tag} {n n' : Node}
    (h : Rewritten P R parent n n') : R n n' := by
  rcases h with rfl | ⟨-, h⟩
  · exact hR _
  · exact h

mutual
/-- What holds of the changed element, and of an element whose children it holds of, holds of the
tree. -/
theorem modifyFirst_induction (hR : ∀ n, R n n)
    (helement : ∀ tag cs cs' rs, List.Forall₂ (Rewritten P R tag) cs cs' →
      R (.element tag cs rs) (.element tag cs' rs))
    (hf : ∀ n, n.isNamed name = true → R n (f n)) {n : Node} (hn : Clear P name n) :
    R n (modifyFirst name f n) := by
  match n with
  | .text kind value => exact hR _
  | .element tag cs rs =>
    rw [Clear] at hn
    exact helement tag cs _ rs (modifyFirstIn_induction hR helement hf hn)

theorem modifyFirstIn_induction (hR : ∀ n, R n n)
    (helement : ∀ tag cs cs' rs, List.Forall₂ (Rewritten P R tag) cs cs' →
      R (.element tag cs rs) (.element tag cs' rs))
    (hf : ∀ n, n.isNamed name = true → R n (f n)) {parent : Tag} {ns : List Node}
    (hns : ClearIn P name parent ns) :
    List.Forall₂ (Rewritten P R parent) ns (modifyFirstIn name f ns) := by
  match ns with
  | [] => exact .nil
  | n :: ns =>
    have hsame : List.Forall₂ (Rewritten P R parent) ns ns :=
      List.forall₂_same.2 fun m _ => .inl rfl
    rw [ClearIn] at hns
    rw [modifyFirstIn]
    split
    · next hname =>
      rw [if_pos hname] at hns
      exact .cons (.inr ⟨hns, hf n hname⟩) hsame
    · next hname =>
      rw [if_neg hname] at hns
      split
      · next hfirst =>
        rw [if_pos hfirst] at hns
        exact .cons (.inr ⟨hns.1, modifyFirst_induction hR helement hf hns.2⟩) hsame
      · next hfirst =>
        rw [if_neg hfirst] at hns
        exact .cons (.inl rfl) (modifyFirstIn_induction hR helement hf hns)
end

mutual
theorem Clear.of_forall (hP : ∀ t n, P t n) (n : Node) : Clear P name n := by
  match n with
  | .text kind value => trivial
  | .element tag cs rs => exact ClearIn.of_forall hP tag cs

theorem ClearIn.of_forall (hP : ∀ t n, P t n) (parent : Tag) (ns : List Node) :
    ClearIn P name parent ns := by
  match ns with
  | [] => trivial
  | n :: ns =>
    rw [ClearIn]
    split
    · exact hP parent n
    · split
      · exact ⟨hP parent n, Clear.of_forall hP n⟩
      · exact ClearIn.of_forall hP parent ns
end

end Way

/-- A body with its rows read. -/
def readBody (several : Bool) (body : Node) : Node :=
  body.withChildren (body.children.map fun n => if isRow n then (readRow several n).node else n)

theorem typesetRows_eq (table : Node) :
    typesetRows table = modifyBody (readBody (1 < (rows table).length)) table := rfl

theorem children_captioned (owner : String) (n : Node) :
    (captioned owner n).children = n.children := by
  unfold captioned
  split
  · rfl
  · cases n <;> rfl

end MethodTable

/-- A declaration leaves the clause as it is or typesets its heading. -/
theorem Clause.declare_node_cases (c : Clause) (n : Node) :
    (c.declare n).2.1 = n ∨ ∃ s, (c.declare n).2.1 = modifyHeading (Node.typeset s) n := by
  unfold declare
  split
  · split
    · exact .inl rfl
    · split
      · exact .inl rfl
      · next s _ => exact .inr ⟨s, rfl⟩
  · exact .inl rfl

/-! ### Clauses and tables -/

namespace Rewrites

open MethodTable

variable {R Q : Node → Node → Prop} (h : Rewrites R Q)
include h

theorem modifyHeading {f : Node → Node} (hf : ∀ m, R m (f m)) (n : Node) :
    Q n (Clause.modifyHeading f n) := by
  unfold Clause.modifyHeading
  split
  · next i hi =>
    refine h.withChildren (forall₂_modify h.refl fun m hm => ?_)
    obtain ⟨hlt, hheading, -⟩ := List.findIdx?_eq_some_iff_getElem.1 hi
    obtain rfl : n.children[i] = m := List.getElem_of_getElem? hm |>.2
    exact h.header (.inl hheading) (hf _)
  · exact h.refl n

theorem declare (c : Clause) (n : Node) : Q n (c.declare n).2.1 := by
  rcases Clause.declare_node_cases c n with heq | ⟨s, heq⟩
  · rw [heq]
    exact h.refl n
  · rw [heq]
    exact h.modifyHeading (h.typesets.typeset s) n

theorem clauseNode (n : Node) (around : List Clause) (number scope : String) :
    Q n (Clause.ofNode n around number scope).2.1 :=
  h.trans (h.declare _ n)
    (h.modifyHeading (h.typesets.prepend (Clause.keyless_numberSpan number)) _)

theorem readBody (several : Bool) (body : Node) : Q body (readBody several body) := by
  refine h.withChildren ?_
  rw [List.forall₂_map_right_iff, List.forall₂_same]
  intro n _
  split
  · next hrow => exact h.header (.inr hrow) (h.typesets.readRow _ n)
  · exact h.refl n

theorem typesetRows (table : Node) : Q table (typesetRows table) := by
  rw [typesetRows_eq, modifyBody]
  split
  · exact modifyFirst_induction (P := fun _ _ => True) h.refl
      (fun tag cs cs' rs hcs =>
        h.element tag (hcs.imp fun _ _ => Rewritten.imp h.refl) (h.refl_all rs))
      (fun n _ => h.readBody _ n) (Clear.of_forall (fun _ _ => trivial) table)
  · exact h.readBody _ table

theorem captioned (owner : String) {n : Node} (hname : n.tag.name = "emu-table") :
    Q n (captioned owner n) := by
  unfold MethodTable.captioned
  split
  · exact h.refl n
  · exact h.caption n _ hname

theorem classify {n : Node} (hname : n.tag.name = "emu-table") : Q n (classify n).node := by
  unfold MethodTable.classify
  dsimp only
  split
  · exact h.refl n
  · split
    · exact h.refl n
    · split
      · exact h.refl n
      · split
        · exact h.refl n
        · refine h.trans (h.captioned _ hname) (h.withChildren ?_)
          rw [children_captioned]
          exact forall₂_modify h.refl fun m _ => h.typesetRows m

end Rewrites

/-! ### Gentle rewriting -/

theorem congruent_gentle : Congruent Gentle where
  refl := .refl
  element _ := gentle_of_gentleIn rfl

theorem Node.gentle_setAttr {name value : String} (n : Node) :
    Gentle n (n.setAttr name value) := by
  cases n with
  | text kind v => exact .refl _
  | element tag cs rs => exact gentle_of_gentleIn rfl (.refl cs) (.refl rs)

theorem typesets_gentle : Typesets Gentle where
  toCongruent := congruent_gentle
  replace := gentle_replaceChildren
  prepend := gentle_prepend

theorem rewrites_gentle : Rewrites Gentle Gentle where
  toCongruent := congruent_gentle
  typesets := typesets_gentle
  trans := .trans
  header _ h := h
  caption n _ _ := gentle_setAttr n

/-! ## Entering an element -/

namespace Survey

section Enter

variable {s : Survey} {node : Node} {key : Nat} {around : List Clause} {scope : String}

/-- All that entering an element can do. -/
theorem enter_cases (s : Survey) (node : Node) (key : Nat) (around : List Clause) (scope : String) :
    (Clause.names.contains node.tag.name = true ∧
      s.enter node key around scope = ((s.clause node around scope).2.1,
        (s.clause node around scope).1 :: around, (s.clause node around scope).2.2)) ∨
    (node.tag.name = "emu-table" ∧
      s.enter node key around scope =
        ((s.table node ((around.head?.map (·.scope)).getD scope)).1, around,
          (s.table node ((around.head?.map (·.scope)).getD scope)).2)) ∨
    (node.tag.name = "emu-xref" ∧
      s.enter node key around scope = (node, around, s.reference
        ⟨key, (around.head?.map (·.scope)).getD scope, around.head?.map (·.number)⟩)) ∨
    (node.tag.name = "emu-concrete-method-dfns" ∧
      s.enter node key around scope = (node, around, s.listing node.tag key
        ((around.head?.map (·.scope)).getD scope) (around.head?.map (·.number)))) ∨
    (Clause.names.contains node.tag.name = false ∧ node.tag.name ≠ "emu-table" ∧
      node.tag.name ≠ "emu-xref" ∧ node.tag.name ≠ "emu-concrete-method-dfns" ∧
      s.enter node key around scope = (node, around, s)) := by
  unfold enter
  dsimp only
  split
  · next h => exact .inl ⟨h, rfl⟩
  · next hclause =>
    split
    · next h => exact .inr (.inl ⟨h, rfl⟩)
    · next htable =>
      split
      · next h => exact .inr (.inr (.inl ⟨h, rfl⟩))
      · next hxref =>
        split
        · next h => exact .inr (.inr (.inr (.inl ⟨h, rfl⟩)))
        · next hlisting =>
          exact .inr (.inr (.inr (.inr
            ⟨by simpa using hclause, htable, hxref, hlisting, rfl⟩)))

theorem enter_of_clause (h : Clause.names.contains node.tag.name = true) :
    s.enter node key around scope = ((s.clause node around scope).2.1,
      (s.clause node around scope).1 :: around, (s.clause node around scope).2.2) := by
  unfold enter
  exact if_pos h

section Rewrites

variable {R Q : Node → Node → Prop} (hQ : Rewrites R Q)
include hQ

theorem clause_of_rewrites : Q node (s.clause node around scope).2.1 := by
  unfold Survey.clause
  split
  · exact hQ.clauseNode _ _ _ _
  · exact hQ.refl node

/-- What rewriting keeps holds of an element and of what it is when it has been entered. -/
theorem enter_of_rewrites : Q node (s.enter node key around scope).1 := by
  rcases enter_cases s node key around scope with
    ⟨-, h⟩ | ⟨hname, h⟩ | ⟨-, h⟩ | ⟨-, h⟩ | ⟨-, -, -, -, h⟩
  · rw [h]
    exact clause_of_rewrites hQ
  · rw [h]
    exact hQ.classify hname
  · rw [h]
    exact hQ.refl node
  · rw [h]
    exact hQ.refl node
  · rw [h]
    exact hQ.refl node

end Rewrites

end Enter

/-! ## Visits -/

section Visit

variable {scope : String}

theorem visitAll_cons (visit : Survey → Node → Node × Survey) (s : Survey) (n : Node)
    (ns : List Node) : visitAll visit s (n :: ns) =
      ((visit s n).1 :: (visitAll visit (visit s n).2 ns).1,
        (visitAll visit (visit s n).2 ns).2) := rfl

theorem visit_text (levels : Nat) (around : List Clause) (s : Survey) (kind : TextKind)
    (value : String) : visit scope levels around s (.text kind value) = (.text kind value, s) := by
  cases levels <;> rfl

theorem visit_keyless {tag : Tag} (hkey : tag.key = none) (levels : Nat) (around : List Clause)
    (s : Survey) (cs rs : List Node) :
    visit scope levels around s (.element tag cs rs) = (.element tag cs rs, s) := by
  cases levels with
  | zero => rfl
  | succ levels => simp [visit, tag?, hkey]

/-- A visit enters an element and goes on with the removed nodes and then the children that the
element has then. -/
theorem visit_of_enter {tag tag' : Tag} {cs rs cs' rs' : List Node} {key levels : Nat}
    {around around' : List Clause} {s s' : Survey} (hkey : tag.key = some key)
    (h : s.enter (.element tag cs rs) key around scope = (.element tag' cs' rs', around', s')) :
    visit scope (levels + 1) around s (.element tag cs rs) =
      (.element tag'
        (visitAll (visit scope levels around') (visitAll (visit scope levels []) s' rs').2 cs').1
        (visitAll (visit scope levels []) s' rs').1,
        (visitAll (visit scope levels around')
          (visitAll (visit scope levels []) s' rs').2 cs').2) := by
  simp [visit, tag?, hkey, h]

/-- Entering an element gives an element. -/
theorem exists_enter (scope : String) (s : Survey) (tag : Tag) (cs rs : List Node) (key : Nat)
    (around : List Clause) : ∃ tag' cs' rs' around' s',
      s.enter (.element tag cs rs) key around scope = (.element tag' cs' rs', around', s') ∧
      Gentle (.element tag cs rs) (.element tag' cs' rs') := by
  have hgentle : Gentle (.element tag cs rs) (s.enter (.element tag cs rs) key around scope).1 :=
    enter_of_rewrites rewrites_gentle
  obtain ⟨tag', cs', rs', hn, -⟩ := hgentle.exists_element
  rw [hn] at hgentle
  exact ⟨tag', cs', rs', _, _, by rw [← hn], hgentle⟩

theorem forall₂_visitAll {Q : Node → Node → Prop} {visit : Survey → Node → Node × Survey}
    (h : ∀ s n, Q n (visit s n).1) (s : Survey) (ns : List Node) :
    List.Forall₂ Q ns (visitAll visit s ns).1 := by
  induction ns generalizing s with
  | nil => exact .nil
  | cons n ns ih => exact .cons (h s n) (ih _)

section Rewrites

variable {R Q : Node → Node → Prop} (hQ : Rewrites R Q)
include hQ

/-- What rewriting keeps holds of a node and of what it is when it has been visited. -/
theorem visit_of_rewrites (levels : Nat) (around : List Clause) (s : Survey) (n : Node) :
    Q n (visit scope levels around s n).1 := by
  induction levels generalizing around s n with
  | zero => exact hQ.refl n
  | succ levels ih =>
    cases n with
    | text kind value =>
      rw [visit_text]
      exact hQ.refl _
    | element tag cs rs =>
      cases hkey : tag.key with
      | none =>
        rw [visit_keyless hkey]
        exact hQ.refl _
      | some key =>
        obtain ⟨tag', cs', rs', around', s', henter, -⟩ :=
          exists_enter scope s tag cs rs key around
        have hentered : Q (.element tag cs rs)
            (s.enter (.element tag cs rs) key around scope).1 := enter_of_rewrites hQ
        rw [henter] at hentered
        rw [visit_of_enter hkey henter]
        exact hQ.trans hentered (hQ.element tag' (forall₂_visitAll (ih around') _ cs')
          (forall₂_visitAll (ih []) _ rs'))

/-- What rewriting keeps holds of a root and of what it is when it has been surveyed. -/
theorem ofRoot_of_rewrites (root : Node) : Q root (ofRoot scope root).1 :=
  hQ.withChildren (forall₂_visitAll (visit_of_rewrites hQ _ _) _ _)

end Rewrites

/-- What is in an element is marked in the element. -/
theorem mem_marks_element {tag : Tag} {cs rs : List Node} {n : Node} (hn : n ∈ cs ∨ n ∈ rs)
    {m : Option Nat × String} (hm : m ∈ n.keyed.map Tag.mark) :
    m ∈ (element tag cs rs).keyed.map Tag.mark := by
  obtain ⟨t, ht, rfl⟩ := List.mem_map.1 hm
  refine List.mem_map.2 ⟨t, ?_, rfl⟩
  rw [keyed, List.mem_append, List.mem_append, mem_keyedIn_iff, mem_keyedIn_iff]
  exact .inr (hn.imp (fun h => ⟨n, h, ht⟩) fun h => ⟨n, h, ht⟩)

section Induction

variable {I : Survey → Prop} {K : Option Nat × String → Prop}

/-- What visiting each node of some kind keeps, visiting them one after another keeps. -/
theorem visitAll_induction {visit : Survey → Node → Node × Survey}
    (hvisit : ∀ n s, (∀ m ∈ n.keyed.map Tag.mark, K m) → I s → I (visit s n).2) {ns : List Node}
    (hns : ∀ n ∈ ns, ∀ m ∈ n.keyed.map Tag.mark, K m) {s : Survey} (hs : I s) :
    I (visitAll visit s ns).2 := by
  induction ns generalizing s with
  | nil => exact hs
  | cons n ns ih =>
    rw [List.forall_mem_cons] at hns
    exact ih hns.2 (hvisit n s hns.1 hs)

variable (henter : ∀ s node key around, node.tag.key = some key → K node.tag.mark → I s →
      I (s.enter node key around scope).2.2)
include henter

/-- What entering an element of some kind keeps, a visit keeps. -/
theorem visit_induction {levels : Nat} {around : List Clause} {s : Survey} {n : Node}
    (hn : ∀ m ∈ n.keyed.map Tag.mark, K m) (hs : I s) :
    I (visit scope levels around s n).2 := by
  induction levels generalizing around s n with
  | zero => exact hs
  | succ levels ih =>
    cases n with
    | text kind value => rwa [visit_text]
    | element tag cs rs =>
      cases hkey : tag.key with
      | none => rwa [visit_keyless hkey]
      | some key =>
        obtain ⟨tag', cs', rs', around', s', henter', hgentle⟩ :=
          exists_enter scope s tag cs rs key around
        have hmarks : ∀ n, n ∈ cs' ∨ n ∈ rs' → ∀ m ∈ n.keyed.map Tag.mark, K m :=
          fun n hmem m hm => hn m (hgentle.marks.mem_iff.1 (mem_marks_element hmem hm))
        have hs' : I s' := by
          have := henter s (.element tag cs rs) key around hkey
            (hn _ (by simp [keyed, hkey, Node.tag, tag?])) hs
          rwa [henter'] at this
        rw [visit_of_enter hkey henter']
        exact visitAll_induction (fun _ _ => ih) (fun n h => hmarks n (.inl h))
          (visitAll_induction (fun _ _ => ih) (fun n h => hmarks n (.inr h)) hs')

/-- What entering an element of some kind keeps, a survey keeps. -/
theorem ofRoot_induction {root : Node} (hroot : ∀ m ∈ root.keyed.map Tag.mark, K m)
    (hstart : I start) : I (ofRoot scope root).2 := by
  refine visitAll_induction (fun _ _ => visit_induction henter) (fun n hn m hm => hroot m ?_) hstart
  cases root with
  | text kind value => cases hn
  | element tag cs rs => exact mem_marks_element (.inl hn) hm

end Induction

theorem gentle_ofRoot (root : Node) : Gentle root (ofRoot scope root).1 :=
  ofRoot_of_rewrites rewrites_gentle root

end Visit

end Survey

end Concordance
