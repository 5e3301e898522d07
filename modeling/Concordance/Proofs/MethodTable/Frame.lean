import Concordance.Markup.Path
import Concordance.Proofs.MethodTable.Typesetting
import Concordance.Proofs.Survey.Entries

/-!
# What processing a table leaves alone

A table that is no well-formed table of methods stays as it is. In a well-formed one the caption is
set where there was none (`CaptionedAs`), and the rows that declare a method are typeset
(`TypesetAs`). All the rest stays: the change is made at the path that leads to the body of the
table (`exists_path_body`), and every child of the body that declares nothing is what it was
(`rowFrame_readRow`).

The main statement is `ofNode_frame`.
-/

namespace Concordance

open Node

namespace Node

/-! ## Changes at a path -/

theorem modify_congr {ns : List Node} {i : Nat} {m : Node} {f g : Node → Node}
    (hi : ns[i]? = some m) (h : f m = g m) : ns.modify i f = ns.modify i g := by
  refine List.ext_getElem? fun j => ?_
  rw [List.getElem?_modify, List.getElem?_modify]
  split
  · next heq =>
    rw [← heq, hi]
    exact congrArg some h
  · rfl

theorem modifyAt_congr {n b : Node} {path : List Nat} {f g : Node → Node}
    (hpath : n.at? path = some b) (h : f b = g b) : n.modifyAt f path = n.modifyAt g path := by
  induction path generalizing n with
  | nil =>
    obtain rfl := Option.some.inj hpath
    exact h
  | cons i path ih =>
    obtain ⟨c, hi, hc⟩ := Option.bind_eq_some_iff.1 hpath
    exact congrArg (n.withChildren ·) (modify_congr hi (ih hc))

end Node

namespace MethodTable

/-! ## The way to the rows -/

section Way

variable {name : String}

mutual
/-- The first element of a name is at a path, and a change made at the one is made at the other. -/
theorem exists_path_firstNamed? {n b : Node} (h : firstNamed? name n = some b) :
    ∃ path, n.at? path = some b ∧ ∀ f, modifyFirst name f n = n.modifyAt f path := by
  match n with
  | .text kind value => cases h
  | .element tag cs rs =>
    obtain ⟨i, c, path, hi, hc, hmodify⟩ := exists_path_firstNamedIn? h
    refine ⟨i :: path, ?_, fun f => ?_⟩
    · exact Option.bind_eq_some_iff.2 ⟨c, hi, hc⟩
    · rw [modifyFirst, hmodify]
      rfl

theorem exists_path_firstNamedIn? {ns : List Node} {b : Node}
    (h : firstNamedIn? name ns = some b) : ∃ i c path, ns[i]? = some c ∧ c.at? path = some b ∧
      ∀ f, modifyFirstIn name f ns = ns.modify i (modifyAt f path) := by
  match ns with
  | [] => cases h
  | n :: ns =>
    rw [firstNamedIn?] at h
    by_cases hname : n.isNamed name = true
    · rw [if_pos hname] at h
      refine ⟨0, n, [], rfl, h, fun f => ?_⟩
      rw [modifyFirstIn, if_pos hname]
      rfl
    · rw [if_neg hname] at h
      cases hfirst : firstNamed? name n with
      | some b' =>
        rw [hfirst, Option.some_or] at h
        obtain ⟨path, hpath, hmodify⟩ := exists_path_firstNamed? (hfirst.trans h)
        refine ⟨0, n, path, rfl, hpath, fun f => ?_⟩
        rw [modifyFirstIn, if_neg hname, if_pos (by rw [hfirst]; rfl), hmodify]
        rfl
      | none =>
        rw [hfirst, Option.none_or] at h
        obtain ⟨i, c, path, hi, hc, hmodify⟩ := exists_path_firstNamedIn? h
        refine ⟨i + 1, c, path, hi, hc, fun f => ?_⟩
        rw [modifyFirstIn, if_neg hname, if_neg (by rw [hfirst]; simp), hmodify]
        rfl
end

end Way

/-- The body of a table is at a path, and a change made at the one is made at the other. -/
theorem exists_path_body (table : Node) : ∃ path, table.at? path = some (body table) ∧
    ∀ f, modifyBody f table = table.modifyAt f path := by
  cases h : firstNamed? "tbody" table with
  | none =>
    refine ⟨[], ?_, fun f => ?_⟩
    · rw [body, h]
      rfl
    · rw [modifyBody, h]
      rfl
  | some b =>
    obtain ⟨path, hpath, hmodify⟩ := exists_path_firstNamed? h
    refine ⟨path, ?_, fun f => ?_⟩
    · rw [body, h]
      exact hpath
    · rw [modifyBody, h, ← hmodify]
      rfl

/-! ## The caption -/

/-- A table and what it is with its caption: a caption that is there and not empty stays, and else it
says what the methods belong to. All other attributes stay in their order, and so does all else. -/
inductive CaptionedAs (owner : String) : Node → Node → Prop where
  | kept {n : Node} : (n.tag.filled? "caption").isSome = true → CaptionedAs owner n n
  | set {tag tag' : Tag} {cs removed : List Node} : tag.filled? "caption" = none →
      tag'.get? "caption" = some ("Abstract Methods of " ++ owner) →
      tag'.attrs.filter (·.1 ≠ "caption") = tag.attrs.filter (·.1 ≠ "caption") →
      tag'.name = tag.name → tag'.key = tag.key →
      CaptionedAs owner (.element tag cs removed) (.element tag' cs removed)

theorem captionedAs_captioned (owner : String) {n : Node} (hn : n.isElement = true) :
    CaptionedAs owner n (captioned owner n) := by
  have hcaption := get?_caption_captioned owner n hn
  unfold captioned at hcaption ⊢
  cases h : n.tag.filled? "caption" with
  | some caption => exact .kept (by rw [h]; rfl)
  | none =>
    rw [h] at hcaption
    cases n with
    | text kind value => cases hn
    | element tag cs rs => exact .set h hcaption (filter_setIn tag.attrs _ _) rfl rfl

/-! ## Rows -/

/-- The signature that a child of a table's body declares. -/
def declared? (n : Node) : Option Signature := if isRow n then rowSignature? n else none

/-- What becomes of a child of a table's body: a row that declares a method is typeset, and anything
else stays as it is. -/
def RowFrame (n n' : Node) : Prop :=
  match declared? n with
  | some s => TypesetAs s n n'
  | none => n' = n

/-- A child of a body becomes what `RowFrame` says: reading a row changes it only if it declares a
method. -/
theorem rowFrame_readRow (several : Bool) (n : Node) :
    RowFrame n (if isRow n then (readRow several n).node else n) := by
  by_cases hrow : isRow n = true
  · rw [RowFrame, declared?, if_pos hrow, if_pos hrow]
    -- the row that is made tells whether a signature is declared, and which one
    have hmethod := method_readRow several n
    have hread := reading several n
    generalize readRow several n = row at hmethod hread
    cases hread with
    | declared hcells hplace hheader hs =>
      obtain ⟨s', hs', heq⟩ := Option.map_eq_some_iff.1 hmethod.symm
      obtain rfl : s' = _ := (Method.mk.inj heq).2.1
      rw [hs']
      exact typesetAs_typesetRow hcells hplace hheader _
    | _ =>
      rw [Option.map_eq_none_iff.1 hmethod.symm]
      rfl
  · rw [RowFrame, declared?, if_neg hrow, if_neg hrow]

/-! ## Tables -/

/-- The method that a child of a table's body declares. -/
def method? (n : Node) : Option Method :=
  (declared? n).map fun s => ⟨s.name, s, n.tag.filled? "id"⟩

theorem filterMap_readRows (table : Node) :
    (readRows table).filterMap (·.method) = (body table).children.filterMap method? := by
  rw [readRows, List.filterMap_map, rows, List.filterMap_filter]
  refine List.filterMap_congr fun n _ => ?_
  unfold method? declared?
  split
  · exact method_readRow _ n
  · rfl

theorem forall₂_rowFrame_readBody (several : Bool) (b : Node) : ∃ ns,
    readBody several b = b.withChildren ns ∧ List.Forall₂ RowFrame b.children ns := by
  refine ⟨_, rfl, ?_⟩
  rw [List.forall₂_map_right_iff, List.forall₂_same]
  exact fun n _ => rowFrame_readRow several n

/-- The only changes to a table element are made at the path of its body. -/
theorem exists_path_typesetRows (table : Node) : ∃ path ns, table.at? path = some (body table) ∧
    typesetRows table = table.modifyAt (withChildren ns) path ∧
    List.Forall₂ RowFrame (body table).children ns := by
  obtain ⟨path, hpath, hmodify⟩ := exists_path_body table
  obtain ⟨ns, hread, hns⟩ := forall₂_rowFrame_readBody (1 < (rows table).length) (body table)
  refine ⟨path, ns, hpath, ?_, hns⟩
  rw [typesetRows_eq, hmodify]
  exact modifyAt_congr hpath hread

/-- Processing a table leaves it as it is unless it is a well-formed table of methods. Of such a one
it sets the caption, if there is none, and the children of the body in it, at some path; each of
these is typeset if it is a row that declares a method, and else stays as it is. The methods are
those that the rows declare.

All of this is done before the first entry is added to an index, so it is the same for every index
and whether or not adding the entries succeeds. -/
theorem ofNode_frame (n : Node) (scope : String) (number : Int) :
    (ofNode n scope number).1.type.isSome = (wellFormed? n).isSome ∧
    (wellFormed? n = none →
      (ofNode n scope number).2.1 = n ∧ (ofNode n scope number).1.methods = []) ∧
    ∀ owner table, wellFormed? n = some (owner, table) →
      CaptionedAs owner n (captioned owner n) ∧ ∃ i path ns,
        n.children[i]? = some table ∧ table.at? path = some (body table) ∧
        (ofNode n scope number).2.1 =
          (captioned owner n).modifyAt (withChildren ns) (i :: path) ∧
        List.Forall₂ RowFrame (body table).children ns ∧
        (ofNode n scope number).1.methods = (body table).children.filterMap method? := by
  unfold ofNode
  dsimp only
  cases hwell : wellFormed? n with
  | none =>
    obtain ⟨hasTable, ds, h⟩ := classify_of_wellFormed?_eq_none hwell
    rw [h]
    exact ⟨rfl, fun _ => ⟨rfl, rfl⟩, fun _ _ => (nomatch ·)⟩
  | some found =>
    obtain ⟨owner, table⟩ := found
    obtain ⟨rest, hfound, h⟩ := classify_of_wellFormed? hwell
    obtain ⟨-, hi⟩ := getElem?_of_fromTable? hfound
    obtain ⟨path, ns, hpath, htypeset, hns⟩ := exists_path_typesetRows table
    rw [h]
    refine ⟨rfl, (nomatch ·), fun owner' table' hsome => ?_⟩
    obtain ⟨rfl, rfl⟩ := Prod.mk.inj (Option.some.inj hsome)
    have helement : n.isElement = true := by
      cases n with
      | text kind value => simp [children] at hi
      | element tag cs rs => rfl
    refine ⟨captionedAs_captioned owner helement, _, path, ns, hi, hpath, ?_, hns,
      filterMap_readRows table⟩
    rw [modifyAt, children_captioned]
    exact congrArg (withChildren · (captioned owner n)) (modify_congr hi htypeset)

/-- A row that declares a method. -/
def declaringRow : Node :=
  .new "tr" [("id", "r")] [.new "td" [] [.plain "F(a)"], .new "td" [] [.plain "first"]]

/-- A row whose header is malformed. -/
def malformedRow : Node :=
  .new "tr" [] [.new "td" [] [.plain "F(a"], .new "td" [] [.plain "second"]]

/-- A table element with a row that declares a method and one that does not. -/
def mixedRows : Node := .new "table" [] [declaringRow, malformedRow]

/-- A table of methods without a caption. -/
def mixedTable : Node :=
  .new "emu-table" [("id", "t"), ("type", "abstract methods"), ("of", "T")] [mixedRows]

/-- The row of the table that declares a method is typeset, the other one stays, and the caption is
set. -/
theorem ofNode_frame_mixed : ∃ i path row',
    mixedTable.children[i]? = some mixedRows ∧ mixedRows.at? path = some mixedRows ∧
    (ofNode mixedTable "ns" 1).2.1 =
      (captioned "T" mixedTable).modifyAt (withChildren [row', malformedRow]) (i :: path) ∧
    TypesetAs ⟨"F", [⟨"a", none, false⟩], none⟩ declaringRow row' ∧
    (captioned "T" mixedTable).tag.get? "caption" = some "Abstract Methods of T" ∧
    (ofNode mixedTable "ns" 1).1.methods =
      [⟨"F", ⟨"F", [⟨"a", none, false⟩], none⟩, some "r"⟩] := by
  have hwell : wellFormed? mixedTable = some ("T", mixedRows) := rfl
  have hbody : body mixedRows = mixedRows := rfl
  have hdeclared : declared? declaringRow = some ⟨"F", [⟨"a", none, false⟩], none⟩ := by
    decide +kernel
  have hmalformed : declared? malformedRow = none := by decide +kernel
  obtain ⟨-, -, hframe⟩ := ofNode_frame mixedTable "ns" 1
  obtain ⟨-, i, path, ns, hi, hpath, hnode, hrows, hmethods⟩ := hframe "T" mixedRows hwell
  rw [hbody] at hpath hrows hmethods
  have hcaptioned : (captioned "T" mixedTable).tag.get? "caption" =
      some "Abstract Methods of T" := by
    decide +kernel
  cases hrows with
  | @cons _ first _ rest hfirst hrest =>
    obtain ⟨second, hsecond, rfl⟩ : ∃ second, RowFrame malformedRow second ∧ rest = [second] := by
      cases hrest with
      | cons hsecond hnil =>
        cases hnil
        exact ⟨_, hsecond, rfl⟩
    rw [RowFrame, hdeclared] at hfirst
    rw [RowFrame, hmalformed] at hsecond
    subst hsecond
    refine ⟨i, path, first, hi, hpath, hnode, hfirst, hcaptioned, hmethods.trans ?_⟩
    rw [show mixedRows.children = [declaringRow, malformedRow] from rfl]
    simp only [List.filterMap_cons, method?, hdeclared, hmalformed, Option.map_some,
      Option.map_none, List.filterMap_nil]
    rfl

end MethodTable

end Concordance
