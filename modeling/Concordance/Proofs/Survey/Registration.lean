import Concordance.Proofs.Index.Actions
import Concordance.Proofs.Survey.Documents
import Concordance.Proofs.Survey.Entries

/-!
# What a survey registers

The account of a survey (`tally`) is the state of its numbering, the number of its tables, the
entries that it adds and the listings that it has found; where listings are asked for, only the
entries that listings depend on are in it (`taken`). A site that the survey comes upon moves
this account on (`exists_enter_site`), and nothing else does (`tally_visit_of_quiet`), so a visit
to a calm tree moves it on by the sites of the tree as it was written (`tally_visit`), and so does
a survey of a calm document (`tally_ofRoot`).

The main statement is `entries_of_survey`: what a survey registers, if it ends without a fault, is
what the sites of the document call for, in order, and nothing else.
-/

namespace Concordance

open Node

namespace Entry

/-- Whether a listing depends on an entry: it is a clause or a concrete method. -/
def isListed : Entry → Bool
  | .clause _ => true
  | .table _ => false
  | .operation o => o.kind = concreteMethod

/-- The entries that count: all of them, or those that listings depend on where these are asked
for. -/
def taken (listings : Bool) (es : List Entry) : List Entry :=
  if listings then es.filter isListed else es

@[simp] theorem taken_nil (listings : Bool) : taken listings [] = [] := by cases listings <;> rfl

theorem taken_append (listings : Bool) (es es' : List Entry) :
    taken listings (es ++ es') = taken listings es ++ taken listings es' := by
  cases listings with
  | true => exact List.filter_append es es'
  | false => rfl

end Entry

/-- No listing depends on what a table calls for. -/
theorem MethodTable.taken_entriesOf (scope : String) (number : Nat) (tag : Tag)
    (methods : Option (String × List Node)) :
    Entry.taken true (entriesOf scope number tag methods) = [] := by
  refine List.filter_eq_nil_iff.2 fun e he => ?_
  rcases List.mem_append.1 he with he | he
  · obtain ⟨id, -, rfl⟩ := Option.map_eq_some_iff.1 (Option.mem_toList.1 he)
    simp [Entry.isListed]
  · obtain ⟨tr, -, he⟩ := List.mem_filterMap.1 he
    obtain ⟨s, -, he⟩ := Option.bind_eq_some_iff.1 he
    dsimp only at he
    split at he
    · cases he
    · obtain rfl := Option.some.inj he
      simp [Entry.isListed, abstractMethod, concreteMethod]

/-- What a survey has taken down so far. -/
structure Tally where
  numbering : Numbering
  /-- The number of tables. -/
  tables : Nat
  entries : List Entry
  /-- The keys of listings, the methods that they name and the namespaces where they do. -/
  listings : List (Nat × String × String)

namespace Tally

/-- A listing that a site is, if it names a method. -/
def listingOf? (scope : String) (around : List Tag) (tag : Tag) : Option (Nat × String × String) :=
  tag.key.bind fun key => (tag.filled? "for").map fun aoid => (key, aoid, scopeIn scope around)

/-- The account after one more site. -/
def add (listings : Bool) (scope : String) (t : Tally) : Site → Tally
  | .clause around f =>
    match t.numbering.next around.length (Clause.kindOf f.tag) with
    | .ok (numbering, number) =>
      { t with
        numbering
        entries := t.entries ++ Entry.taken listings (Clause.entriesOf scope around number f) }
    | .error _ => t
  | .table around tag methods =>
    { t with
      tables := t.tables + 1
      entries := t.entries ++ Entry.taken listings
        (MethodTable.entriesOf (scopeIn scope around) (t.tables + 1) tag methods) }
  | .listing around tag =>
    { t with listings := t.listings ++ (listingOf? scope around tag).toList }

/-- The entries after sites are those before and what the sites call for. -/
theorem entries_foldl_add (listings : Bool) (scope : String) (t : Tally) (sites : List Site) :
    (sites.foldl (add listings scope) t).entries = t.entries ++
      Entry.taken listings (registrations scope t.numbering t.tables sites) := by
  induction sites generalizing t with
  | nil => rw [List.foldl_nil, registrations, Entry.taken_nil, List.append_nil]
  | cons site sites ih =>
    rw [List.foldl_cons, ih]
    cases site with
    | clause around f =>
      rw [add, registrations]
      cases t.numbering.next around.length (Clause.kindOf f.tag) with
      | error f => rfl
      | ok r =>
        dsimp only
        rw [Entry.taken_append, List.append_assoc]
    | table around tag methods =>
      rw [registrations, Entry.taken_append, ← List.append_assoc]
      rfl
    | listing around tag => rfl

end Tally

namespace Survey

variable {scope : String} {listings : Bool}

/-- The account of a survey; listings are in it where they are asked for. -/
def tally (listings : Bool) (s : Survey) : Tally where
  numbering := s.numbering
  tables := s.tables.length
  entries := Entry.taken listings (Action.additions s.actions)
  listings := if listings then s.listings.map fun l => (l.key, l.aoid, l.scope) else []

/-! ## Elements that are no sites -/

/-- Entering an element that is no site leaves it as it is and adds nothing to the account. -/
theorem enter_of_not_isSite (scope : String) (s : Survey) (node : Node) (key : Nat)
    (around : List Clause) (hsite : isSite listings node.tag.name = false) :
    ∃ s', s.enter node key around scope = (node, around, s') ∧
      s'.tally listings = s.tally listings := by
  simp only [isSite, isRegistered, Bool.or_eq_false_iff, decide_eq_false_iff_not,
    Bool.and_eq_false_iff] at hsite
  obtain ⟨⟨hclause, htable⟩, hlisting⟩ := hsite
  rcases enter_cases s node key around scope with
    ⟨hname, -⟩ | ⟨hname, -⟩ | ⟨-, h⟩ | ⟨hname, h⟩ | ⟨-, -, -, -, h⟩
  · rw [hname] at hclause
    cases hclause
  · exact absurd hname htable
  · exact ⟨_, h, rfl⟩
  · have hl : listings = false := hlisting.resolve_right (not_not_intro hname)
    refine ⟨_, h, ?_⟩
    unfold Survey.listing
    split
    · simp [tally, hl]
    · simp [tally, Action.additions]
  · exact ⟨s, h, rfl⟩

/-- A tree without sites adds nothing to the account, wherever it stands. -/
theorem tally_visit_of_quiet {levels : Nat} {around : List Clause} {s : Survey} {n : Node}
    (hn : Quiet listings n) :
    (visit scope levels around s n).2.tally listings = s.tally listings :=
  visit_induction (I := fun s' => s'.tally listings = s.tally listings)
    (K := fun m => isSite listings m.2 = false)
    (fun s' node key around _ hK hs => by
      obtain ⟨s'', h, htally⟩ := enter_of_not_isSite scope s' node key around hK
      rw [h]
      exact htally.trans hs)
    (quiet_iff_marks.1 hn) rfl

theorem tally_visitAll_of_quietIn {levels : Nat} {around : List Clause} {s : Survey}
    {ns : List Node} (hns : QuietIn listings ns) :
    (visitAll (visit scope levels around) s ns).2.tally listings = s.tally listings := by
  induction ns generalizing s with
  | nil => rfl
  | cons n ns ih =>
    obtain ⟨hn, hns⟩ := List.forall_mem_append.1 hns
    rw [visitAll_cons]
    exact (ih hns).trans (tally_visit_of_quiet hn)

/-! ## Sites -/

/-- The clauses around an element, as a survey knows them and by their tags. -/
inductive Stands (scope : String) : List Clause → List Tag → Prop
  | nil : Stands scope [] []
  | cons {c : Clause} {tag : Tag} {around : List Clause} {chain : List Tag} (htag : c.tag = tag)
      (hscope : c.scope = scopeIn scope (tag :: chain)) (h : Stands scope around chain) :
      Stands scope (c :: around) (tag :: chain)

namespace Stands

variable {around : List Clause} {chain : List Tag} (h : Stands scope around chain)
include h

theorem length_eq : around.length = chain.length := by
  induction h with
  | nil => rfl
  | cons _ _ _ ih => rw [List.length_cons, List.length_cons, ih]

theorem scope_eq : (around.head?.map (·.scope)).getD scope = scopeIn scope chain := by
  cases h with
  | nil => rfl
  | cons _ hscope _ => exact hscope

theorem id_eq : around.head?.bind (·.id?) = chain.head?.bind (·.filled? "id") := by
  cases h with
  | nil => rfl
  | cons htag _ _ => exact congrArg (Tag.filled? · "id") htag

end Stands

/-- Entering a clause: its site is added, and it stands around what is in it. -/
theorem tally_clause (s : Survey) (n : Node) {around : List Clause} {chain : List Tag}
    (h : Stands scope around chain) :
    (s.clause n around scope).2.2.tally listings =
        (s.tally listings).add listings scope (.clause chain (Clause.front n)) ∧
      Stands scope ((s.clause n around scope).1 :: around) (n.tag :: chain) := by
  unfold Survey.clause
  rw [Tally.add, h.length_eq, show (Clause.front n).tag = n.tag from rfl]
  dsimp only [tally]
  cases s.numbering.next chain.length (Clause.kindOf n.tag) with
  | error f =>
    exact ⟨by simp [Action.additions], .cons rfl (Clause.scopeOf_eq h.scope_eq) h⟩
  | ok r =>
    obtain ⟨hadd, htag, hscope⟩ :=
      Clause.additions_ofNode n r.2 h.scope_eq h.id_eq
    refine ⟨?_, .cons htag hscope h⟩
    dsimp only
    rw [Action.additions_append, hadd, Entry.taken_append]

/-- Entering a table: its site is added. -/
theorem tally_table (s : Survey) (n : Node) {around : List Clause} {chain : List Tag}
    (h : Stands scope around chain) :
    (s.table n ((around.head?.map (·.scope)).getD scope)).2.tally listings =
      (s.tally listings).add listings scope
        (.table chain n.tag (if listings then none else MethodTable.methods? n)) := by
  have hadd := MethodTable.additions_ofNode n (scopeIn scope chain)
    (show 1 ≤ s.tables.length + 1 by omega)
  have htaken : Entry.taken listings (Action.additions
      (MethodTable.ofNode n (scopeIn scope chain) (s.tables.length + 1 : Nat)).2.2) =
      Entry.taken listings (MethodTable.entriesOf (scopeIn scope chain) (s.tables.length + 1) n.tag
        (if listings then none else MethodTable.methods? n)) := by
    rw [hadd]
    cases listings with
    | true => rw [MethodTable.taken_entriesOf, MethodTable.taken_entriesOf]
    | false => rfl
  rw [h.scope_eq, Tally.add]
  dsimp only [Survey.table, tally]
  rw [Action.additions_append, Entry.taken_append, List.length_append, List.length_singleton]
  exact congrArg (fun added => Tally.mk _ _ (_ ++ added) _) htaken

/-- Entering a listing: its site is added. -/
theorem tally_listing (s : Survey) (tag : Tag) {key : Nat} (hkey : tag.key = some key)
    (clause : Option String) {around : List Clause} {chain : List Tag}
    (h : Stands scope around chain) :
    (s.listing tag key ((around.head?.map (·.scope)).getD scope) clause).tally true =
      (s.tally true).add true scope (.listing chain tag) := by
  rw [h.scope_eq, Tally.add, Tally.listingOf?, hkey]
  unfold Survey.listing
  cases tag.filled? "for" with
  | none => simp [tally, Action.additions]
  | some aoid => simp [tally]

/-- A clause in a calm document is rewritten in its heading only. -/
theorem alike_clause (scope : String) (s : Survey) (around : List Clause) (tag : Tag)
    (rs : List Node) {cs : List Node} (hcs : CalmIn listings cs) : ∃ cs',
      (s.clause (.element tag cs rs) around scope).2.1 = .element tag cs' rs ∧
      List.Forall₂ (Alike listings) cs cs' := by
  unfold Survey.clause
  split
  · next numbering number hnext =>
    exact Clause.alike_ofNode around number scope hcs
  · exact ⟨cs, rfl, List.forall₂_same.2 fun n _ => .refl n⟩

/-- A table in a calm document is rewritten in its rows only. -/
theorem alike_table (s : Survey) (scope : String) {tag : Tag} {cs rs : List Node}
    (hcs : CalmIn listings cs)
    (hopen : ∀ owner table, MethodTable.wellFormed? (.element tag cs rs) = some (owner, table) →
      MethodTable.IsOpen listings table) : ∃ tag' cs',
      (s.table (.element tag cs rs) scope).1 = .element tag' cs' rs ∧
      List.Forall₂ (Alike listings) cs cs' := by
  change ∃ tag' cs', (MethodTable.classify _).node = _ ∧ _
  rcases MethodTable.classify_cases (.element tag cs rs) with
    ⟨owner, table, i, hwell, hname, hi, hnode, -⟩ | ⟨-, hnode, -⟩
  · obtain ⟨tag', htag'⟩ : ∃ tag', MethodTable.captioned owner (.element tag cs rs) =
        .element tag' cs rs := by
      unfold MethodTable.captioned
      split
      · exact ⟨tag, rfl⟩
      · exact ⟨_, rfl⟩
    refine ⟨tag', cs.modify i MethodTable.typesetRows, by rw [hnode, htag']; rfl,
      forall₂_modify Alike.refl fun n hn => ?_⟩
    obtain rfl : table = n := Option.some.inj (hi.symm.trans hn)
    exact MethodTable.alike_typesetRows hname (calmIn_iff.1 hcs _ (List.mem_of_getElem? hn))
      (hopen owner table hwell)
  · exact ⟨tag, cs, hnode, List.forall₂_same.2 fun n _ => .refl n⟩

/-- Entering an element of a calm tree moves the account on by the site that the element is, and
leaves the sites in it as they were. -/
theorem exists_enter_site {tag : Tag} {cs rs : List Node} {key : Nat} {around : List Clause}
    {chain : List Tag} (s : Survey) (hkey : tag.key = some key)
    (hcalm : Calm listings (.element tag cs rs)) (h : Stands scope around chain) :
    ∃ tag' cs' around' s',
      s.enter (.element tag cs rs) key around scope = (.element tag' cs' rs, around', s') ∧
      s'.tally listings = (here listings chain (.element tag cs rs)).foldl (Tally.add listings scope)
        (s.tally listings) ∧
      Stands scope around' (aroundInside chain tag) ∧
      List.Forall₂ (Alike listings) cs cs' := by
  obtain ⟨-, -, hopen, hcs⟩ := hcalm (by rw [hkey]; rfl)
  have hsame : List.Forall₂ (Alike listings) cs cs := List.forall₂_same.2 fun n _ => .refl n
  by_cases hsite : isSite listings tag.name = true
  · have hcases := enter_cases s (.element tag cs rs) key around scope
    rw [tag_element] at hcases
    rcases hcases with ⟨hname, henter⟩ | ⟨hname, henter⟩ | ⟨hname, -⟩ | ⟨hname, henter⟩ |
      ⟨hclause, htable, -, hl, -⟩
    · obtain ⟨cs', hnode, halike⟩ := alike_clause scope s around tag rs hcs
      obtain ⟨htally, hstands⟩ := tally_clause s (.element tag cs rs) h
      rw [hnode] at henter
      rw [here_clause (n := .element tag cs rs) hname, aroundInside, if_pos hname]
      exact ⟨tag, cs', _, _, henter, htally, hstands, halike⟩
    · obtain ⟨tag', cs', hnode, halike⟩ :=
        alike_table s ((around.head?.map (·.scope)).getD scope) hcs (hopen hname)
      rw [hnode] at henter
      rw [here_table (n := .element tag cs rs) hname,
        aroundInside_of_not_clause (by rw [hname]; decide)]
      exact ⟨tag', cs', around, _, henter, tally_table s _ h, h, halike⟩
    · rw [hname] at hsite
      cases listings <;> exact absurd hsite (by decide)
    · obtain rfl : listings = true := by
        rw [hname] at hsite
        cases listings
        · exact absurd hsite (by decide)
        · rfl
      rw [here_listing (n := .element tag cs rs) hname,
        aroundInside_of_not_clause (by rw [hname]; decide)]
      exact ⟨tag, cs, around, _, henter, tally_listing s tag hkey _ h, h, hsame⟩
    · simp [isSite, isRegistered, MethodTable.elementName, Listing.elementName, htable, hl,
        show tag.name ∉ Clause.names by simpa using hclause] at hsite
  · rw [Bool.not_eq_true] at hsite
    obtain ⟨s', henter, htally⟩ :=
      enter_of_not_isSite scope s (.element tag cs rs) key around hsite
    have haround : aroundInside chain tag = chain :=
      aroundInside_of_not_clause (Bool.or_eq_false_iff.1 (Bool.or_eq_false_iff.1 hsite).1).1
    rw [here_of_not_isSite hsite, haround]
    exact ⟨tag, cs, around, s', henter, htally, h, hsame⟩

/-! ## Whole documents -/

/-- Visiting calm trees moves the account on by their sites, where visiting each tree does. -/
theorem tally_visitAll {visit : Survey → Node → Node × Survey} {chain : List Tag} (depth : Nat)
    (hvisit : ∀ s n, n.depth ≤ depth → Calm listings n → (visit s n).2.tally listings =
      (n.sites listings chain).foldl (Tally.add listings scope) (s.tally listings)) {ns : List Node}
    (hdepth : depthIn ns ≤ depth) (hcalm : CalmIn listings ns) (s : Survey) :
    (visitAll visit s ns).2.tally listings =
      (sitesIn listings chain ns).foldl (Tally.add listings scope) (s.tally listings) := by
  induction ns generalizing s with
  | nil => rfl
  | cons n ns ih =>
    rw [depthIn] at hdepth
    rw [visitAll_cons, sitesIn, List.foldl_append, ← hvisit s n (by omega) hcalm.1]
    exact ih (by omega) hcalm.2 _

/-- A visit to a calm tree moves the account on by the sites of the tree as it was written. -/
theorem tally_visit {levels : Nat} {around : List Clause} {chain : List Tag} {s : Survey}
    {n : Node} (hlevels : n.depth ≤ levels) (hcalm : Calm listings n)
    (h : Stands scope around chain) : (visit scope levels around s n).2.tally listings =
      (n.sites listings chain).foldl (Tally.add listings scope) (s.tally listings) := by
  induction levels generalizing around chain s n with
  | zero =>
    cases n with
    | text kind value => rfl
    | element tag cs rs =>
      cases hkey : tag.key with
      | none =>
        rw [sites, hkey]
        rfl
      | some key => simp [depth, hkey] at hlevels
  | succ levels ih =>
    cases n with
    | text kind value => rfl
    | element tag cs rs =>
      cases hkey : tag.key with
      | none =>
        rw [visit_keyless hkey, sites, hkey]
        rfl
      | some key =>
        obtain ⟨tag', cs', around', s', henter, htally, hstands, halike⟩ :=
          exists_enter_site s hkey hcalm h
        obtain ⟨hrs, -, -, hcs⟩ := hcalm (by rw [hkey]; rfl)
        have hdepth : depthIn cs' ≤ levels := by
          have hle := (gentleIn_of_alike halike).depth_le
          simp only [depth, hkey, Option.isSome_some, if_true] at hlevels
          omega
        rw [visit_of_enter hkey henter, sites, hkey]
        simp only [Option.isNone_some, Bool.false_eq_true, if_false]
        rw [tally_visitAll levels (fun s n hn hc => ih hn hc hstands) hdepth
            (calmIn_of_alike halike hcs),
          tally_visitAll_of_quietIn hrs, htally, sitesIn_of_alike halike, List.foldl_append]

/-- A survey of a calm document takes down its sites as they were written. -/
theorem tally_ofRoot {root : Node} (hcalm : CalmIn listings root.children) :
    (ofRoot scope root).2.tally listings =
      (sitesIn listings [] root.children).foldl (Tally.add listings scope) (start.tally listings) := by
  refine tally_visitAll root.height (fun s n hn hc => tally_visit hn hc .nil) ?_ hcalm start
  cases root with
  | text kind value => exact Nat.le_refl 0
  | element tag cs rs =>
    have hle := depthIn_le_heightIn cs
    rw [height, children]
    omega

/-- The actions of a survey of a calm document add what its sites call for. -/
theorem additions_ofRoot {root : Node} (hcalm : CalmIn listings root.children) :
    Entry.taken listings (Action.additions (ofRoot scope root).2.actions) =
      Entry.taken listings (registrations scope .start 0 (sitesIn listings [] root.children)) := by
  have h : ((ofRoot scope root).2.tally listings).entries = _ :=
    congrArg Tally.entries (tally_ofRoot hcalm)
  rw [Tally.entries_foldl_add] at h
  exact h.trans (congrArg (· ++ _) (Entry.taken_nil listings))

/-- What a survey registers, when it ends without a fault: what each clause and each table of the
document calls for as it was read, in reading order, and nothing else. -/
theorem entries_of_survey (scope : String) {root : Node} (hread : AsRead root)
    (hsheltered : Sheltered false root) (haccess : Accessible false root)
    (hok : (Action.perform .empty (ofRoot scope root).2.actions).fault = none) :
    (Action.perform .empty (ofRoot scope root).2.actions).index.entries =
      registrations scope .start 0 (sitesIn false [] root.children) := by
  rw [Action.entries_of_perform rfl hok]
  exact additions_ofRoot (calmIn_of_accessible hread hsheltered haccess)

/-- A clause whose heading is the row of the table that the clause stands in. -/
def headedByRow : Node :=
  (document
    [.new "emu-table" [("id", "t"), ("type", "abstract methods"), ("of", "X")]
      [.new "table" []
        [.new "emu-clause" [("id", "c"), ("type", "abstract operation")]
          [.new "h1" []
            [.new "tbody" []
              [.new "tr" [] [.new "td" [] [.plain "Link()"], .new "td" [] []]]]]]]]).withKeys

/-- The rows of a table are typeset before the clauses in it are read, so an operation whose heading
is a row is not registered. -/
theorem entries_headedByRow :
    AsRead headedByRow ∧ Sheltered false headedByRow ∧
      (Action.perform .empty (ofRoot "ns" headedByRow).2.actions).fault = none ∧
      (Action.perform .empty (ofRoot "ns" headedByRow).2.actions).index.entries ≠
        registrations "ns" .start 0 (sitesIn false [] headedByRow.children) := by
  have hok : (Action.perform .empty (ofRoot "ns" headedByRow).2.actions).fault = none := by
    obtain ⟨ix, h, -⟩ := Action.exists_perform (ofRoot "ns" headedByRow).2.actions
      (by decide +kernel) (by decide +kernel) (by decide +kernel)
    rw [h]
  refine ⟨asRead_withKeys ?_, by decide +kernel, hok, fun h => ?_⟩
  · simp [inside, insideIn, removed, document, Node.new, Node.plain]
  · rw [Action.entries_of_perform rfl hok] at h
    exact absurd (congrArg List.length h) (by decide +kernel)

/-- A clause that declares an operation, and a table with a method in it. -/
def clauseAndTable : Node :=
  (document
    [.new "emu-clause" [("id", "c"), ("type", "abstract operation")]
      [.new "h1" [] [.plain "Link()"],
       .new "emu-table" [("id", "t"), ("type", "abstract methods"), ("of", "X")]
        [.new "table" []
          [.new "tr" [("id", "r")]
            [.new "td" [] [.plain "Evaluate()"], .new "td" [] []]]]]]).withKeys

theorem entries_clauseAndTable :
    AsRead clauseAndTable ∧ Sheltered false clauseAndTable ∧ Accessible false clauseAndTable ∧
      (Action.perform .empty (ofRoot "ns" clauseAndTable).2.actions).fault = none ∧
      (Action.perform .empty (ofRoot "ns" clauseAndTable).2.actions).index.entries =
        registrations "ns" .start 0 (sitesIn false [] clauseAndTable.children) ∧
      (registrations "ns" .start 0 (sitesIn false [] clauseAndTable.children)).length = 4 := by
  have hread : AsRead clauseAndTable := asRead_withKeys (by
    simp [inside, insideIn, removed, document, Node.new, Node.plain])
  have hsheltered : Sheltered false clauseAndTable := by decide +kernel
  have haccess : Accessible false clauseAndTable := by decide +kernel
  have hok : (Action.perform .empty (ofRoot "ns" clauseAndTable).2.actions).fault = none := by
    obtain ⟨ix, h, -⟩ := Action.exists_perform (ofRoot "ns" clauseAndTable).2.actions
      (by decide +kernel) (by decide +kernel) (by decide +kernel)
    rw [h]
  exact ⟨hread, hsheltered, haccess, hok, entries_of_survey "ns" hread hsheltered haccess hok,
    by decide +kernel⟩

end Survey

end Concordance
