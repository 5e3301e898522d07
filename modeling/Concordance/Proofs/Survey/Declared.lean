import Concordance.Proofs.Header.Reread
import Concordance.Proofs.Survey.Definitions

/-!
# What a document declares

Every entry of a document comes from a clause, which has a number by then, or from a table. So what
holds of the entries of each holds of all that a survey finds (`forall_additions_ofRoot`), and what
holds of all that each of them calls for holds of all actions of a survey if it holds of reports and
of clauses that are refused a number (`forall_actions_ofRoot`). All entries of a document can be
inserted, and nothing else ends its survey (`insertable_ofRoot`, `eq_noParent_of_halt`).

What is found in a document can be read in it: numbers and the names of operations are not blank,
and neither is a title that is not empty (`legible_ofRoot`). Titles may be empty, and captions may
be all blank.
-/

namespace Concordance

open Node

namespace Survey

/-- What holds of the actions of each clause with a number and of each table, of every report and
of every clause that is refused a number holds of all actions of a document. -/
theorem forall_actions_ofRoot {P : Action → Prop}
    (hclause : ∀ (n : Node) (around : List Clause) (number scope : String),
      Text.Starts number.toList → ∀ a ∈ (Clause.ofNode n around number scope).2.2, P a)
    (htable : ∀ (n : Node) (scope : String) (number : Nat), 1 ≤ number →
      ∀ a ∈ (MethodTable.ofNode n scope number).2.2, P a)
    (hreport : ∀ d, P (.report d))
    (hrefused : ∀ depth deepest, P (.halt (.numbering (.noParent depth deepest))))
    (scope : String) (root : Node) : ∀ a ∈ (ofRoot scope root).2.actions, P a := by
  refine (ofRoot_induction (K := fun _ => True)
    (I := fun s => s.numbering.Positive ∧ ∀ a ∈ s.actions, P a) ?_
    (fun _ _ => trivial) ⟨Numbering.positive_start, fun _ ha => (List.not_mem_nil ha).elim⟩).2
  rintro s node key around - - ⟨hpos, hs⟩
  rcases enter_cases s node key around scope with
    ⟨-, h⟩ | ⟨-, h⟩ | ⟨-, h⟩ | ⟨-, h⟩ | ⟨-, -, -, -, h⟩
  · rw [h]
    unfold Survey.clause
    rcases Numbering.next_cases hpos around.length (Clause.kindOf node.tag) with
      ⟨-, t, number, hnext, ht, -⟩ | ⟨-, hnext⟩
    · rw [hnext]
      obtain ⟨-, hstarts, -⟩ := Numbering.starts_and_ends_of_next hpos hnext
      exact ⟨ht, List.forall_mem_append.2 ⟨hs, hclause _ _ _ _ hstarts⟩⟩
    · rw [hnext]
      exact ⟨hpos, List.forall_mem_append.2 ⟨hs, by simpa using hrefused _ _⟩⟩
  · rw [h]
    exact ⟨hpos, List.forall_mem_append.2 ⟨hs, htable _ _ _ (Nat.le_add_left 1 _)⟩⟩
  · rw [h]
    exact ⟨hpos, hs⟩
  · rw [h]
    unfold Survey.listing
    split
    · exact ⟨hpos, hs⟩
    · exact ⟨hpos, List.forall_mem_append.2 ⟨hs, by simpa using hreport _⟩⟩
  · rw [h]
    exact ⟨hpos, hs⟩

/-- What holds of the entries of each clause with a number and of each table holds of all entries
of a document. -/
theorem forall_additions_ofRoot {P : Entry → Prop}
    (hclause : ∀ (n : Node) (around : List Clause) (number scope : String),
      Text.Starts number.toList →
        ∀ e ∈ Action.additions (Clause.ofNode n around number scope).2.2, P e)
    (htable : ∀ (n : Node) (scope : String) (number : Nat), 1 ≤ number →
      ∀ e ∈ Action.additions (MethodTable.ofNode n scope number).2.2, P e)
    (scope : String) (root : Node) :
    ∀ e ∈ Action.additions (ofRoot scope root).2.actions, P e := by
  have hactions : ∀ a ∈ (ofRoot scope root).2.actions, ∀ e, a = .add e → P e := by
    refine forall_actions_ofRoot (fun n around number scope hnumber a ha e heq => ?_)
      (fun n scope number h a ha e heq => ?_) (fun d e heq => by cases heq)
      (fun depth deepest e heq => by cases heq) scope root
    · exact hclause n around number scope hnumber e (Action.mem_additions_iff.2 (heq ▸ ha))
    · exact htable n scope number h e (Action.mem_additions_iff.2 (heq ▸ ha))
  exact fun e he => hactions _ (Action.mem_additions_iff.1 he) e rfl

end Survey

/-! ## Faults and keys -/

theorem Clause.halt_notMem_ofNode (f : BuildFault) (n : Node) (around : List Clause)
    (number scope : String) : Action.halt f ∉ (ofNode n around number scope).2.2 := by
  have hclause : ∀ c : Clause, .halt f ∉ c.clauseActions around := fun c => by
    unfold clauseActions
    split
    · simp
    · simp
  have hoperation : ∀ (c : Clause) (s : Signature), .halt f ∉ c.operationActions n s :=
    fun c s => by
      unfold operationActions
      rw [List.mem_append, not_or]
      constructor
      · split
        · simp
        · simp
      · split
        · simp
        · simp
  unfold ofNode
  rcases declare_cases (undeclared n around number scope) n rfl with ⟨s, -, h⟩ | ⟨-, ds, h⟩
  · rw [h]
    simp [hclause, hoperation]
  · rw [h]
    simp [hclause]

theorem MethodTable.halt_notMem_ofNode (f : BuildFault) (n : Node) (scope : String) {number : Nat}
    (h : 1 ≤ number) : Action.halt f ∉ (ofNode n scope number).2.2 := by
  have htable : ∀ tag : Tag, .halt f ∉ tableActions tag scope number := fun tag => by
    unfold tableActions
    cases hid : tag.filled? "id" with
    | none => simp
    | some id =>
      dsimp only
      rw [TableEntry.make?, if_neg (Tag.filled?_ne_empty hid), if_neg (by omega)]
      simp
  have hmethod : ∀ (tag : Tag) (m : Method), methodAction tag scope m ≠ .halt f := fun tag m => by
    unfold methodAction
    dsimp only
    split
    · simp
    · simp
  unfold ofNode
  simp [htable, hmethod]

namespace Survey

/-- Nothing in a document ends its survey but a clause that is refused a number. -/
theorem eq_noParent_of_halt {scope : String} {root : Node} {f : BuildFault}
    (h : .halt f ∈ (ofRoot scope root).2.actions) :
    ∃ depth deepest, f = .numbering (.noParent depth deepest) := by
  refine forall_actions_ofRoot (P := fun a => ∀ f, a = .halt f →
    ∃ depth deepest, f = .numbering (.noParent depth deepest)) ?_ ?_ ?_ ?_ scope root _ h f rfl
  · rintro n around number scope - _ ha f rfl
    exact absurd ha (Clause.halt_notMem_ofNode f n around number scope)
  · rintro n scope number h _ ha f rfl
    exact absurd ha (MethodTable.halt_notMem_ofNode f n scope h)
  · rintro d f ⟨⟩
  · rintro depth deepest f ⟨⟩
    exact ⟨depth, deepest, rfl⟩

/-- Every entry of a document can be inserted. -/
theorem insertable_ofRoot (scope : String) (root : Node) :
    ∀ e ∈ Action.additions (ofRoot scope root).2.actions, e.Insertable := by
  refine forall_additions_ofRoot (fun n around number scope _ e he => ?_)
    (fun n scope number h e he => ?_) scope root
  · rcases Clause.mem_additions_ofNode he with ⟨_, id, s, -, hid, rfl⟩ | ⟨c, rfl, hid, -⟩
    · exact Entry.insertable_of_ofOption none rfl (.inr (Json.isSet_string.2 hid))
    · exact Entry.insertable_of_ofOption (some c.id) rfl (.inl (Json.isSet_string.2 hid))
  · rcases MethodTable.mem_additions_ofNode h he with
      ⟨t, rfl, hid, -⟩ | ⟨tr, s, id, refId, -, hset, rfl⟩
    · exact Entry.insertable_of_ofOption (some t.id) rfl (.inl (Json.isSet_string.2 hid))
    · refine Entry.insertable_of_ofOption id rfl (hset.imp ?_ ?_)
      · rintro ⟨v, rfl, hv⟩
        exact Json.isSet_string.2 hv
      · rintro ⟨v, rfl, hv⟩
        exact Json.isSet_string.2 hv

end Survey

/-! ## Entries that can be read -/

/-- What an entry is known by is not blank: the number of a clause, its title if that is not empty,
and the name of an operation. -/
def Entry.Legible : Entry → Prop
  | .clause c => Text.Starts c.number.toList ∧ (c.title ≠ "" → Text.Starts c.title.toList)
  | .table _ => True
  | .operation o => Text.Starts o.aoid.toList

/-- The name that a header declares is not blank. -/
theorem Node.starts_name_of_signature? {n : Node} {s : Signature} (h : n.signature? = some s) :
    Text.Starts s.name.toList := by
  unfold signature? at h
  obtain ⟨header, hparse, hs⟩ := Option.bind_eq_some_iff.1 h
  obtain ⟨hname, -⟩ := Header.signature_ok_iff.1 (toOption_eq_some_iff.1 hs)
  rw [hname, String.toList_ofList]
  exact (Header.sound_of_parse (toOption_eq_some_iff.1 hparse)).name.starts

theorem Clause.Front.starts_name {f : Clause.Front} {s : Signature} (h : f.declared? = some s) :
    Text.Starts s.name.toList := by
  unfold declared? at h
  split at h
  · obtain ⟨heading, -, hs⟩ := Option.bind_eq_some_iff.1 h
    exact Node.starts_name_of_signature? hs
  · cases h

theorem Clause.Front.starts_title {f : Clause.Front} (h : f.title ≠ "") :
    Text.Starts f.title.toList := by
  unfold title at h ⊢
  split at h
  · next s hs => exact starts_name hs
  · cases hheading : f.heading? with
    | none =>
      rw [hheading] at h
      exact absurd rfl h
    | some heading =>
      rw [hheading] at h
      dsimp only [Option.map_some, Option.getD_some] at h ⊢
      rw [String.toList_ofList]
      exact Text.starts_trim fun hnil => h (by rw [Node.headerSource, hnil])

theorem MethodTable.starts_name_of_rowSignature? {tr : Node} {s : Signature}
    (h : rowSignature? tr = some s) : Text.Starts s.name.toList := by
  unfold rowSignature? at h
  split at h
  · obtain ⟨place, -, h⟩ := Option.bind_eq_some_iff.1 h
    dsimp only at h
    split at h
    · exact Node.starts_name_of_signature? h
    · cases h
  · cases h

/-- Every entry of a document can be read. -/
theorem Survey.legible_ofRoot (scope : String) (root : Node) :
    ∀ e ∈ Action.additions (ofRoot scope root).2.actions, e.Legible := by
  refine forall_additions_ofRoot (fun n around number scope hnumber e he => ?_)
    (fun n scope number h e he => ?_) scope root
  · rcases Clause.mem_additions_ofNode he with ⟨_, _, s, hs, -, rfl⟩ | ⟨c, rfl, -, rfl, htitle, -⟩
    · exact Clause.Front.starts_name hs
    · exact ⟨hnumber, fun hne => htitle ▸ Clause.Front.starts_title (htitle ▸ hne)⟩
  · rcases MethodTable.mem_additions_ofNode h he with ⟨t, rfl, -⟩ | ⟨tr, s, _, _, hs, -, rfl⟩
    · trivial
    · exact MethodTable.starts_name_of_rowSignature? hs

end Concordance
