import Concordance.Proofs.MethodTable.Typesetting
import Concordance.Proofs.Survey.Rewriting

/-!
# Sites

The sites of a document are the elements that a survey takes down: its clauses, its tables and,
where they are asked for, its listings, in reading order and each with the clauses around it. They
are read off the document as it was before the survey. Listings are lists of what clauses define, so
where they are asked for the methods of tables are left out.

A survey rewrites the document while it visits it, so what it visits is no longer what was written.
It rewrites headings and rows only. In a `Calm` document these have no sites in them, and the rows
of a table stand in nothing that is read later on for its sites. There the rewriting of an element
leaves the sites below it as they were (`Alike`), and that is all a survey needs to come upon every
site unchanged.
-/

namespace Concordance

open Node

namespace Clause

/-- What is read of a clause: its tag, its heading and the description list of its header. -/
structure Front where
  tag : Tag
  heading? : Option Node
  list? : Option Node

/-- What is read of a node that is a clause. -/
def front (n : Node) : Front := ⟨n.tag, heading? n, headerList? n⟩

end Clause

namespace MethodTable

/-- The owner and the table element of a well-formed table of methods. -/
def wellFormed? (n : Node) : Option (String × Node) :=
  if n.tag.filled? "type" = some methodsType then
    (fromTable? n).bind fun found => (n.tag.filled? "of").map fun owner => (owner, found.1)
  else none

/-- The owner and the rows of a well-formed table of methods. -/
def methods? (n : Node) : Option (String × List Node) :=
  (wellFormed? n).map fun found => (found.1, rows found.2)

end MethodTable

/-- An element that a survey takes down, with the tags of the clauses around it, innermost first,
and with what is read of it. -/
inductive Site where
  | clause (around : List Tag) (front : Clause.Front)
  | table (around : List Tag) (tag : Tag) (methods : Option (String × List Node))
  | listing (around : List Tag) (tag : Tag)

/-- The name of a table. -/
def MethodTable.elementName : String := "emu-table"

/-- The name of a listing. -/
def Listing.elementName : String := "emu-concrete-method-dfns"

/-- Whether the elements of a name are clauses or tables. -/
def isRegistered (name : String) : Bool :=
  Clause.names.contains name || name = MethodTable.elementName

/-- Whether the elements of a name are sites; listings are where they are asked for. -/
def isSite (listings : Bool) (name : String) : Bool :=
  isRegistered name || (listings && name = Listing.elementName)

theorem isSite_of_isRegistered {listings : Bool} {name : String} (h : isRegistered name = true) :
    isSite listings name = true := by simp [isSite, h]

namespace Node

variable (listings : Bool)

/-- The site that an element is. -/
def here (around : List Tag) (n : Node) : List Site :=
  if Clause.names.contains n.tag.name then [.clause around (Clause.front n)]
  else if n.tag.name = MethodTable.elementName then
    [.table around n.tag (if listings then none else MethodTable.methods? n)]
  else if listings && n.tag.name = Listing.elementName then [.listing around n.tag]
  else []

/-- The clauses around what is in an element. -/
def aroundInside (around : List Tag) (tag : Tag) : List Tag :=
  if Clause.names.contains tag.name then tag :: around else around

mutual
/-- The sites of a tree. Generated elements, which have no key, are left alone. -/
def sites (around : List Tag) : Node → List Site
  | .text _ _ => []
  | .element tag children removed =>
    if tag.key.isNone then []
    else
      here listings around (.element tag children removed) ++
        sitesIn (aroundInside around tag) children

/-- The sites of trees. -/
def sitesIn (around : List Tag) : List Node → List Site
  | [] => []
  | n :: ns => n.sites around ++ sitesIn around ns
end

/-- A tree without sites in it, also among its removed nodes. -/
def Quiet (n : Node) : Prop := ∀ t ∈ n.keyed, isSite listings t.name = false

/-- Trees without sites in them. -/
def QuietIn (ns : List Node) : Prop := ∀ t ∈ keyedIn ns, isSite listings t.name = false

variable {listings}

theorem quiet_iff_marks {n : Node} :
    Quiet listings n ↔ ∀ m ∈ n.keyed.map Tag.mark, isSite listings m.2 = false := by
  rw [List.forall_mem_map]
  rfl

theorem quiet_element_iff {tag : Tag} {cs rs : List Node} : Quiet listings (.element tag cs rs) ↔
    (tag.key.isSome = true → isSite listings tag.name = false) ∧ QuietIn listings cs ∧
      QuietIn listings rs := by
  simp only [Quiet, QuietIn, keyed, List.forall_mem_append]
  refine and_congr_left fun _ => ?_
  split
  · next h => simp [h]
  · next h => simp [h]

theorem Quiet.of_gentle {n n' : Node} (hq : Quiet listings n) (h : Gentle n n') :
    Quiet listings n' := by
  rw [quiet_iff_marks] at hq ⊢
  exact fun m hm => hq m (h.marks.mem_iff.1 hm)

theorem QuietIn.of_gentleIn {ns ns' : List Node} (hq : QuietIn listings ns) (h : GentleIn ns ns') :
    QuietIn listings ns' := by
  intro t ht
  obtain ⟨t', ht', heq⟩ := List.mem_map.1 (h.marks.mem_iff.1 (List.mem_map_of_mem ht))
  rw [← (Prod.mk.inj heq).2]
  exact hq t' ht'

theorem here_of_not_isSite {around : List Tag} {n : Node}
    (h : isSite listings n.tag.name = false) : here listings around n = [] := by
  simp only [isSite, isRegistered, Bool.or_eq_false_iff] at h
  obtain ⟨⟨hclause, htable⟩, hlisting⟩ := h
  rw [here, hclause, if_neg (by simp), if_neg (by simpa using htable), hlisting, if_neg (by simp)]

section Here

variable {around : List Tag} {n : Node}

theorem here_clause (h : Clause.names.contains n.tag.name = true) :
    here listings around n = [.clause around (Clause.front n)] := if_pos h

theorem here_table (h : n.tag.name = MethodTable.elementName) :
    here listings around n =
      [.table around n.tag (if listings then none else MethodTable.methods? n)] := by
  rw [here, h, if_neg (by decide), if_pos rfl]

theorem here_listing (h : n.tag.name = Listing.elementName) :
    here true around n = [.listing around n.tag] := by
  rw [here, h, if_neg (by decide), if_neg (by decide), if_pos (by decide)]

end Here

theorem aroundInside_of_not_clause {around : List Tag} {tag : Tag}
    (h : Clause.names.contains tag.name = false) : aroundInside around tag = around := by
  rw [aroundInside, h, if_neg (by simp)]

mutual
theorem sites_of_quiet {around : List Tag} {n : Node} (h : Quiet listings n) :
    n.sites listings around = [] := by
  match n with
  | .text kind value => rfl
  | .element tag cs rs =>
    obtain ⟨htag, hcs, -⟩ := quiet_element_iff.1 h
    rw [sites]
    split
    · rfl
    · next hkey =>
      rw [here_of_not_isSite (htag (by simpa [Option.isSome_iff_ne_none] using hkey)),
        sitesIn_of_quietIn hcs, List.append_nil]

theorem sitesIn_of_quietIn {around : List Tag} {ns : List Node} (h : QuietIn listings ns) :
    sitesIn listings around ns = [] := by
  match ns with
  | [] => rfl
  | n :: ns =>
    obtain ⟨hn, hns⟩ := List.forall_mem_append.1 h
    rw [sitesIn, sites_of_quiet hn, sitesIn_of_quietIn hns, List.append_nil]
end

end Node

/-! ## Calm documents -/

namespace Clause

/-- Whether a node is the description list of a header. -/
def isHeaderList (n : Node) : Bool := n.isNamed "dl" && n.tag.hasClass "header"

end Clause

namespace MethodTable

variable (listings : Bool)

/-- A node that stands in its parent so that nothing that is read when the parent is visited is in
it: it is no heading and no header list of a clause, and where methods are read the parent is no
table of methods. -/
def StandsFree (parent : Tag) (n : Node) : Prop :=
  (Clause.names.contains parent.name = true →
    n.isNamed "h1" = false ∧ Clause.isHeaderList n = false) ∧
  (listings = false → parent.name = elementName → parent.filled? "type" ≠ some methodsType)

/-- A table element such that everything on the way from it to its rows stands free. -/
def IsOpen (table : Node) : Prop := Clear (StandsFree listings) "tbody" table

end MethodTable

namespace Node

variable (listings : Bool)

mutual
/-- No sites are in headings, in rows or among removed nodes, and nothing that is read before it is
visited holds the rows of a table of methods that it stands in. -/
def Calm : Node → Prop
  | .text _ _ => True
  | .element tag children removed =>
    tag.key.isSome = true →
      (QuietIn listings removed ∧ (tag.name = "h1" ∨ tag.name = "tr" → QuietIn listings children) ∧
        (tag.name = MethodTable.elementName → ∀ owner table,
          MethodTable.wellFormed? (.element tag children removed) = some (owner, table) →
            MethodTable.IsOpen listings table) ∧
        CalmIn children)

/-- `Calm` of all trees in a list. -/
def CalmIn : List Node → Prop
  | [] => True
  | n :: ns => Calm n ∧ CalmIn ns
end

variable {listings}

theorem calmIn_iff {ns : List Node} : CalmIn listings ns ↔ ∀ n ∈ ns, Calm listings n := by
  induction ns with
  | nil => simp [CalmIn]
  | cons n ns ih => rw [CalmIn, ih, List.forall_mem_cons]

mutual
theorem Calm.of_quiet {n : Node} (h : Quiet listings n) : Calm listings n := by
  match n with
  | .text kind value => trivial
  | .element tag cs rs =>
    obtain ⟨htag, hcs, hrs⟩ := quiet_element_iff.1 h
    refine fun hkey => ⟨hrs, fun _ => hcs, fun hname => ?_, CalmIn.of_quietIn hcs⟩
    have hsite := htag hkey
    rw [isSite_of_isRegistered (by simp [isRegistered, hname])] at hsite
    cases hsite

theorem CalmIn.of_quietIn {ns : List Node} (h : QuietIn listings ns) : CalmIn listings ns := by
  match ns with
  | [] => trivial
  | n :: ns =>
    obtain ⟨hn, hns⟩ := List.forall_mem_append.1 h
    exact ⟨Calm.of_quiet hn, CalmIn.of_quietIn hns⟩
end

/-! ## Rewriting that leaves the sites as they were -/

variable (listings) in
/-- A tree and what rewriting has made of it, with the sites as they were. -/
structure Alike (n n' : Node) : Prop where
  gentle : Gentle n n'
  sites_eq : ∀ around, n'.sites listings around = n.sites listings around
  calm : Calm listings n → Calm listings n'

theorem Alike.refl (n : Node) : Alike listings n n := ⟨.refl n, fun _ => rfl, id⟩

theorem Alike.trans {a b c : Node} (h : Alike listings a b) (h' : Alike listings b c) :
    Alike listings a c where
  gentle := h.gentle.trans h'.gentle
  sites_eq around := (h'.sites_eq around).trans (h.sites_eq around)
  calm hcalm := h'.calm (h.calm hcalm)

theorem Alike.of_quiet {n n' : Node} (hq : Quiet listings n) (h : Gentle n n') :
    Alike listings n n' where
  gentle := h
  sites_eq around := by rw [sites_of_quiet hq, sites_of_quiet (hq.of_gentle h)]
  calm _ := .of_quiet (hq.of_gentle h)

/-- What is in an element without a key does not matter. -/
theorem Alike.of_keyless {tag : Tag} {cs rs : List Node} {n : Node} (hkey : tag.key = none)
    (h : Gentle (.element tag cs rs) n) : Alike listings (.element tag cs rs) n := by
  obtain ⟨tag', cs', rs', rfl, hmark⟩ := h.exists_element
  have hkey' : tag'.key = none := (Prod.mk.inj hmark).1.trans hkey
  exact ⟨h, fun around => by simp [sites, hkey, hkey'], fun _ hk => by simp [hkey'] at hk⟩

section AlikeIn

variable {ns ns' : List Node} (h : List.Forall₂ (Alike listings) ns ns')
include h

theorem alikeIn_trans {ns'' : List Node} (h' : List.Forall₂ (Alike listings) ns' ns'') :
    List.Forall₂ (Alike listings) ns ns'' := by
  induction h generalizing ns'' with
  | nil => exact h'
  | cons h _ ih =>
    cases h' with
    | cons h' hns => exact .cons (h.trans h') (ih hns)

theorem gentleIn_of_alike : GentleIn ns ns' := h.imp fun _ _ => Alike.gentle

theorem sitesIn_of_alike (around : List Tag) :
    sitesIn listings around ns' = sitesIn listings around ns := by
  induction h with
  | nil => rfl
  | cons h _ ih => rw [sitesIn, sitesIn, h.sites_eq, ih]

theorem calmIn_of_alike (hns : CalmIn listings ns) : CalmIn listings ns' := by
  induction h with
  | nil => trivial
  | cons h _ ih => exact ⟨h.calm hns.1, ih hns.2⟩

end AlikeIn

/-- Elements are alike when what is in them is, provided that what is read of a clause and of a
table stays the same. -/
theorem alike_element {tag : Tag} {cs cs' : List Node} (rs : List Node)
    (hclause : Clause.names.contains tag.name = true →
      Clause.front (.element tag cs' rs) = Clause.front (.element tag cs rs))
    (htable : tag.name = MethodTable.elementName →
      (listings = false → tag.filled? "type" ≠ some MethodTable.methodsType) ∧
        ∀ owner table', MethodTable.wellFormed? (.element tag cs' rs) = some (owner, table') →
          ∃ table, MethodTable.wellFormed? (.element tag cs rs) = some (owner, table) ∧
            (MethodTable.IsOpen listings table → MethodTable.IsOpen listings table'))
    (h : List.Forall₂ (Alike listings) cs cs') :
    Alike listings (.element tag cs rs) (.element tag cs' rs) where
  gentle := gentle_of_gentleIn rfl (gentleIn_of_alike h) (.refl rs)
  sites_eq around := by
    have hhere : here listings around (.element tag cs' rs) =
        here listings around (.element tag cs rs) := by
      have hmethods : ∀ cs, tag.name = MethodTable.elementName → listings = false →
          MethodTable.methods? (.element tag cs rs) = none := fun cs hname hlistings => by
        rw [MethodTable.methods?, MethodTable.wellFormed?, Node.tag, tag?, Option.getD_some,
          if_neg ((htable hname).1 hlistings), Option.map_none]
      unfold here
      rw [tag_element, tag_element]
      split
      · next hname => rw [hclause hname]
      · split
        · next hname =>
          cases hlistings : listings with
          | true => rfl
          | false => rw [hmethods cs hname hlistings, hmethods cs' hname hlistings]
        · rfl
    rw [sites, sites, hhere, sitesIn_of_alike h]
  calm hcalm := by
    intro hkey
    obtain ⟨hrs, hquiet, hopen, hin⟩ := hcalm hkey
    refine ⟨hrs, fun hname => (hquiet hname).of_gentleIn (gentleIn_of_alike h),
      fun hname owner table' hwell' => ?_, calmIn_of_alike h hin⟩
    obtain ⟨table, hwell, himp⟩ := (htable hname).2 owner table' hwell'
    exact himp (hopen hname owner table hwell)

end Node

/-! ## Rows and headings -/

section Parts

variable {listings : Bool}

/-- A heading or a row in a calm document may be rewritten. -/
theorem Node.Calm.alike {n n' : Node} (hcalm : Calm listings n)
    (hname : n.isNamed "h1" = true ∨ n.isNamed "tr" = true) (h : Gentle n n') :
    Alike listings n n' := by
  cases n with
  | text kind value => simp [isNamed] at hname
  | element tag cs rs =>
    simp only [isNamed, decide_eq_true_eq] at hname
    cases hkey : tag.key with
    | none => exact .of_keyless hkey h
    | some key =>
      obtain ⟨hrs, hcs, -⟩ := hcalm (by rw [hkey]; rfl)
      refine .of_quiet (quiet_element_iff.2 ⟨fun _ => ?_, hcs hname, hrs⟩) h
      rcases hname with hname | hname
      · rw [hname]
        cases listings <;> decide
      · rw [hname]
        cases listings <;> decide

theorem Clause.alike_modifyHeading {f : Node → Node} (hf : ∀ h, Gentle h (f h)) (tag : Tag)
    (rs : List Node) {cs : List Node} (hcs : CalmIn listings cs) : ∃ cs',
      modifyHeading f (.element tag cs rs) = .element tag cs' rs ∧
      List.Forall₂ (Alike listings) cs cs' := by
  unfold modifyHeading
  split
  · next i hi =>
    refine ⟨cs.modify i f, rfl, forall₂_modify Alike.refl fun h hh => ?_⟩
    obtain ⟨hlt, hheading, -⟩ := List.findIdx?_eq_some_iff_getElem.1 hi
    obtain rfl : cs[i] = h := List.getElem_of_getElem? hh |>.2
    exact (calmIn_iff.1 hcs _ (List.mem_of_getElem? hh)).alike (.inl hheading) (hf _)
  · exact ⟨cs, rfl, List.forall₂_same.2 fun n _ => .refl n⟩

/-- Typesetting and numbering the heading of a clause leaves the sites in it as they were. -/
theorem Clause.alike_ofNode (around : List Clause) (number scope : String) {tag : Tag}
    {cs rs : List Node} (hcs : CalmIn listings cs) : ∃ cs',
      (Clause.ofNode (.element tag cs rs) around number scope).2.1 = .element tag cs' rs ∧
      List.Forall₂ (Alike listings) cs cs' := by
  obtain ⟨cs₁, hdeclare, h₁⟩ : ∃ cs₁, ((undeclared (.element tag cs rs) around number scope).declare
      (.element tag cs rs)).2.1 = .element tag cs₁ rs ∧ List.Forall₂ (Alike listings) cs cs₁ := by
    rcases declare_node_cases (undeclared (.element tag cs rs) around number scope)
      (.element tag cs rs) with h | ⟨s, h⟩
    · exact ⟨cs, h, List.forall₂_same.2 fun n _ => .refl n⟩
    · rw [h]
      exact alike_modifyHeading (typesets_gentle.typeset s) tag rs hcs
  obtain ⟨cs₂, hnumber, h₂⟩ := alike_modifyHeading
    (gentle_prepend (keyless_numberSpan number)) tag rs (calmIn_of_alike h₁ hcs)
  exact ⟨cs₂, by rw [← hnumber, ← hdeclare]; rfl, alikeIn_trans h₁ h₂⟩

namespace MethodTable

theorem alike_readBody {n : Node} (hname : isRegistered n.tag.name = false)
    (hcalm : Calm listings n) (several : Bool) : Alike listings n (readBody several n) := by
  cases n with
  | text kind value => exact .refl _
  | element tag cs rs =>
    cases hkey : tag.key with
    | none => exact .of_keyless hkey (rewrites_gentle.readBody several _)
    | some key =>
      obtain ⟨-, -, -, hcs⟩ := hcalm (by rw [hkey]; rfl)
      rw [tag_element, isRegistered, Bool.or_eq_false_iff, decide_eq_false_iff_not] at hname
      refine alike_element rs (fun h => ?_) (fun h => absurd h hname.2) ?_
      · rw [hname.1] at h
        cases h
      rw [List.forall₂_map_right_iff]
      refine List.forall₂_same.2 fun m hm => ?_
      split
      · next hrow => exact (calmIn_iff.1 hcs m hm).alike (.inr hrow) (typesets_gentle.readRow _ m)
      · exact .refl m

theorem isRegistered_of_isNamed {n : Node} {name : String} (hname : n.isNamed name = true)
    (h : isRegistered name = false) : isRegistered n.tag.name = false := by
  cases n with
  | text kind value => cases hname
  | element tag cs rs =>
    obtain rfl : tag.name = name := of_decide_eq_true hname
    exact h

/-- Reading the rows of a body leaves it as it is or makes a body with text in it. -/
theorem readBody_eq_or_wordy (several : Bool) (body : Node) :
    readBody several body = body ∨ (readBody several body).Wordy := by
  cases body with
  | text kind value => exact .inl rfl
  | element tag cs rs =>
    refine eq_or_wordy_of_forall₂ (List.forall₂_map_right_iff.2 ?_) tag rs
    refine List.forall₂_same.2 fun n _ => ?_
    split
    · exact readRow_eq_or_wordy several n
    · exact .inl rfl

theorem tag?_readBody (several : Bool) (n : Node) : (readBody several n).tag? = n.tag? := by
  cases n <;> rfl

theorem isNamed_of_ne {n : Node} {name other : String} (h : n.isNamed name = true)
    (hne : name ≠ other) : n.isNamed other = false := by
  cases n with
  | text kind value => rfl
  | element tag cs rs =>
    rw [isNamed, decide_eq_true_eq] at h
    rw [isNamed, h, decide_eq_false_iff_not]
    exact hne

theorem isNamed_of_tag? {n n' : Node} (h : n'.tag? = n.tag?) (name : String) :
    n'.isNamed name = n.isNamed name := by
  cases n <;> cases n' <;> simp_all [tag?, isNamed]

theorem isElement_of_tag? {n n' : Node} (h : n'.tag? = n.tag?) : n'.isElement = n.isElement := by
  cases n <;> cases n' <;> simp_all [tag?, isElement]

theorem isHeaderList_of_tag? {n n' : Node} (h : n'.tag? = n.tag?) :
    Clause.isHeaderList n' = Clause.isHeaderList n := by
  rw [Clause.isHeaderList, Clause.isHeaderList, isNamed_of_tag? h, Node.tag, Node.tag, h]

theorem StandsFree.of_tag? {parent : Tag} {n n' : Node} (hfree : StandsFree listings parent n)
    (h : n'.tag? = n.tag?) : StandsFree listings parent n' := by
  rwa [StandsFree, isNamed_of_tag? h, isHeaderList_of_tag? h]

/-- What is made of a node on the way to the rows of a table, when the table is calm. -/
structure Retouched (listings : Bool) (n n' : Node) : Prop where
  tag_eq : n'.tag? = n.tag?
  gentle : Gentle n n'
  /-- Only rows that get text in them are rewritten. -/
  wordy : n' = n ∨ n'.Wordy
  /-- The way to the rows stays where it was, and it stays open. -/
  way : n.isNamed "tbody" = false →
    (firstNamed? "tbody" n').isSome = (firstNamed? "tbody" n).isSome ∧
      (IsOpen listings n → IsOpen listings n')
  alike : Calm listings n → Alike listings n n'

theorem Retouched.refl (n : Node) : Retouched listings n n :=
  ⟨rfl, .refl n, .inl rfl, fun _ => ⟨rfl, id⟩, fun _ => .refl n⟩

/-- A body is retouched when its rows are read. -/
theorem retouched_readBody {n : Node} (hname : n.isNamed "tbody" = true) (several : Bool) :
    Retouched listings n (readBody several n) where
  tag_eq := tag?_readBody several n
  gentle := rewrites_gentle.readBody several n
  wordy := readBody_eq_or_wordy several n
  way h := by
    rw [hname] at h
    cases h
  alike hcalm := alike_readBody (isRegistered_of_isNamed hname (by decide)) hcalm several

/-- What has been generated for a table after the way has been retouched was so before: a span that
had no text may have got some by now. -/
theorem Retouched.isGenerated {n n' : Node} (h : Retouched listings n n')
    (hn' : isGenerated n' = true) : isGenerated n = true := by
  rw [MethodTable.isGenerated, isNamed_of_tag? h.tag_eq, isNamed_of_tag? h.tag_eq,
    Bool.or_eq_true, Bool.and_eq_true, decide_eq_true_eq] at hn'
  rw [MethodTable.isGenerated, Bool.or_eq_true, Bool.and_eq_true, decide_eq_true_eq]
  refine hn'.imp_right fun hspan => ⟨hspan.1, ?_⟩
  rcases h.wordy with rfl | hwordy
  · exact hspan.2
  · exact absurd hspan.2 (hwordy.plainText_ne_nil ((isNamed_of_tag? h.tag_eq _).trans hspan.1))

section Children

variable {tag : Tag} {cs cs' : List Node}
  (h : List.Forall₂ (Rewritten (StandsFree listings) (Retouched listings) tag) cs cs')
include h

/-- What is found among the children of an element is the same when no child that stands free is
looked for. -/
theorem find?_rewritten {p : Node → Bool}
    (hp : ∀ n n' : Node, StandsFree listings tag n → n'.tag? = n.tag? → p n = false ∧ p n' = false) :
    cs'.find? p = cs.find? p := by
  induction h with
  | nil => rfl
  | cons h _ ih =>
    rcases h with rfl | ⟨hfree, hretouched⟩
    · rw [List.find?_cons, List.find?_cons, ih]
    · obtain ⟨hn, hn'⟩ := hp _ _ hfree hretouched.tag_eq
      rw [List.find?_cons, List.find?_cons, hn, hn', ih]

/-- What is read of a clause stays the same when only children that stand free are retouched. -/
theorem front_rewritten (hname : Clause.names.contains tag.name = true) (rs : List Node) :
    Clause.front (.element tag cs' rs) = Clause.front (.element tag cs rs) := by
  have hheading : cs'.find? (·.isNamed "h1") = cs.find? (·.isNamed "h1") :=
    find?_rewritten h fun n n' hfree htag =>
      ⟨(hfree.1 hname).1, (isNamed_of_tag? htag _).trans (hfree.1 hname).1⟩
  have hlist : cs'.find? Clause.isHeaderList = cs.find? Clause.isHeaderList :=
    find?_rewritten h fun n n' hfree htag =>
      ⟨(hfree.1 hname).2, (isHeaderList_of_tag? htag).trans (hfree.1 hname).2⟩
  exact congrArg₂ (Clause.Front.mk tag) hheading hlist

/-- The table element that is found among the children of an element was found there before. -/
theorem exists_fromTable?_rewritten {rs rest' : List Node} {table' : Node}
    (hfound : fromTable? (.element tag cs' rs) = some (table', rest')) :
    ∃ table rest, fromTable? (.element tag cs rs) = some (table, rest) ∧
      Retouched listings table table' := by
  obtain ⟨before', hchildren, hbefore', hname⟩ := fromTable?_eq_some_iff.1 hfound
  obtain rfl : cs' = before' ++ table' :: rest' := hchildren
  have hretouched : List.Forall₂ (Retouched listings) cs (before' ++ table' :: rest') :=
    h.imp fun _ _ => Rewritten.imp Retouched.refl
  have hbefore := List.forall₂_take_append cs before' _ hretouched
  have hrest := List.forall₂_drop_append cs before' _ hretouched
  cases hdrop : cs.drop before'.length with
  | nil => rw [hdrop] at hrest; cases hrest
  | cons table rest =>
    rw [hdrop, List.forall₂_cons] at hrest
    refine ⟨table, rest, fromTable?_eq_some_iff.2 ⟨cs.take before'.length, ?_, ?_, ?_⟩, hrest.1⟩
    · rw [← hdrop, List.take_append_drop]
      rfl
    · intro m hm helement
      have hpairs := (List.forall₂_and_left _ _).2 ⟨hbefore', hbefore.flip⟩
      obtain ⟨m', hgenerated, hm'⟩ := exists_of_forall₂ hpairs.flip hm
      exact hm'.isGenerated (hgenerated ((isElement_of_tag? hm'.tag_eq).trans helement))
    · rwa [← isNamed_of_tag? hrest.1.tag_eq]

/-- A table that is well formed was so before. -/
theorem exists_wellFormed?_rewritten {rs : List Node} {owner : String} {table' : Node}
    (hwell : wellFormed? (.element tag cs' rs) = some (owner, table')) :
    ∃ table, wellFormed? (.element tag cs rs) = some (owner, table) ∧
      (IsOpen listings table → IsOpen listings table') := by
  unfold wellFormed? at hwell ⊢
  rw [tag_element] at hwell ⊢
  split at hwell
  · next htype =>
    obtain ⟨⟨_, rest'⟩, hfound', howner⟩ := Option.bind_eq_some_iff.1 hwell
    obtain ⟨_, hof, heq⟩ := Option.map_eq_some_iff.1 howner
    obtain ⟨rfl, rfl⟩ := Prod.mk.inj heq
    obtain ⟨table, rest, hfound, hretouched⟩ := exists_fromTable?_rewritten h hfound'
    refine ⟨table, ?_, (hretouched.way ?_).2⟩
    · rw [if_pos htype, hfound, hof]
      rfl
    · obtain ⟨-, -, -, hname⟩ := fromTable?_eq_some_iff.1 hfound
      exact isNamed_of_ne hname (by decide)
  · cases hwell

/-- The way to the rows stays where it was, and it stays open. -/
theorem way_rewritten :
    (firstNamedIn? "tbody" cs').isSome = (firstNamedIn? "tbody" cs).isSome ∧
      (ClearIn (StandsFree listings) "tbody" tag cs →
        ClearIn (StandsFree listings) "tbody" tag cs') := by
  induction h with
  | nil => exact ⟨rfl, id⟩
  | @cons n n' ns ns' hn _ ih =>
    have hretouched := hn.imp Retouched.refl
    have hname := isNamed_of_tag? hretouched.tag_eq "tbody"
    rw [firstNamedIn?, firstNamedIn?, ClearIn, ClearIn, hname]
    split
    · exact ⟨rfl, fun hfree => hfree.of_tag? hretouched.tag_eq⟩
    · next hne =>
      obtain ⟨hfirst, hopen⟩ := hretouched.way (by simpa using hne)
      rw [Option.isSome_or, Option.isSome_or, hfirst, ih.1]
      refine ⟨rfl, ?_⟩
      split
      · exact fun hclear => ⟨hclear.1.of_tag? hretouched.tag_eq, hopen hclear.2⟩
      · exact ih.2

end Children

/-- An element on the way to the rows is retouched when its children are. -/
theorem retouched_element (tag : Tag) (cs cs' rs : List Node)
    (h : List.Forall₂ (Rewritten (StandsFree listings) (Retouched listings) tag) cs cs') :
    Retouched listings (.element tag cs rs) (.element tag cs' rs) := by
  have hretouched : List.Forall₂ (Retouched listings) cs cs' :=
    h.imp fun _ _ => Rewritten.imp Retouched.refl
  have hgentle : Gentle (.element tag cs rs) (.element tag cs' rs) :=
    gentle_of_gentleIn rfl (hretouched.imp fun _ _ => Retouched.gentle) (.refl rs)
  have hwordy := eq_or_wordy_of_forall₂ (hretouched.imp fun _ _ => Retouched.wordy) tag rs
  refine ⟨rfl, hgentle, hwordy, fun _ => way_rewritten h, fun hcalm => ?_⟩
  cases hkey : tag.key with
  | none => exact .of_keyless hkey hgentle
  | some key =>
    obtain ⟨-, -, -, hcs⟩ := hcalm (by rw [hkey]; rfl)
    by_cases hmethods : listings = false ∧ tag.name = elementName ∧
        tag.filled? "type" = some methodsType
    · -- nothing stands free in a table of methods, so nothing is rewritten in it
      obtain rfl : cs = cs' := List.forall₂_eq_eq_eq ▸ h.imp fun n n' h =>
        (h.resolve_right fun hfree =>
          hfree.1.2 hmethods.1 hmethods.2.1 hmethods.2.2).symm
      exact .refl _
    · refine alike_element rs (fun hname => front_rewritten h hname rs)
        (fun hname => ⟨fun hl htype => hmethods ⟨hl, hname, htype⟩,
          fun _ _ => exists_wellFormed?_rewritten h⟩) ?_
      exact ((List.forall₂_and_left cs cs').2 ⟨calmIn_iff.1 hcs, hretouched⟩).imp fun _ _ h =>
        h.2.alike h.1

/-- Reading the rows of a table in a calm document leaves its sites as they were. -/
theorem alike_typesetRows {table : Node} (hname : table.isNamed "table" = true)
    (hcalm : Calm listings table) (hopen : IsOpen listings table) :
    Alike listings table (typesetRows table) := by
  rw [typesetRows_eq]
  unfold modifyBody
  split
  · exact (modifyFirst_induction Retouched.refl retouched_element
      (fun n hn => retouched_readBody hn _) hopen).alike hcalm
  · exact alike_readBody (isRegistered_of_isNamed hname (by decide)) hcalm _

end MethodTable

end Parts

end Concordance
