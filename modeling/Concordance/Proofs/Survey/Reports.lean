import Concordance.Proofs.Survey.Rewriting

/-!
# What a survey reports

A survey reports the faults of headers, of clauses and of tables, each under a rule of its own
(`rules`), and of listings only that one names no method. So what is reported later, of references
and of the methods that a listing finds, is never reported by a survey (`isReport_ofRoot`).
-/

namespace Concordance

open Node

namespace Survey

/-- The rules that headers, clauses and tables are reported under. -/
def rules : List String :=
  ["header-format", "type-parsing", "concrete-method-for", "clause-id-required", "missing-header",
   "emu-table-invalid-type", "emu-table-missing", "emu-abstract-methods-invalid",
   "abstract-method-id"]

/-- Reports of headers, clauses and tables. -/
def Faults (ds : List Diagnostic) : Prop := ∀ d ∈ ds, rules.contains d.rule = true

theorem faults_nil : Faults [] := fun _ h => (List.not_mem_nil h).elim

theorem faults_singleton {d : Diagnostic} (h : rules.contains d.rule = true) : Faults [d] := by
  rintro d' hd'
  exact List.mem_singleton.1 hd' ▸ h

theorem Faults.append {ds ds' : List Diagnostic} (h : Faults ds) (h' : Faults ds') :
    Faults (ds ++ ds') := fun d hd => (List.mem_append.1 hd).elim (h d) (h' d)

end Survey

open Survey

namespace Action

theorem reports_append (as bs : List Action) : reports (as ++ bs) = reports as ++ reports bs :=
  List.filterMap_append

theorem reports_map_report (ds : List Diagnostic) : reports (ds.map .report) = ds := by
  induction ds with
  | nil => rfl
  | cons d ds ih => exact congrArg (d :: ·) ih

end Action

theorem Node.faults_of_declaration {n : Node} {ds : List Diagnostic}
    (h : n.declaration = .error ds) : Faults ds := by
  unfold declaration at h
  dsimp only at h
  split at h
  · obtain rfl := Except.error.inj h
    rintro d hd
    obtain ⟨f, -, rfl⟩ := List.mem_map.1 hd
    rfl
  · split at h
    · obtain rfl := Except.error.inj h
      exact faults_singleton rfl
    · cases h

namespace Clause

theorem faults_declare (c : Clause) (n : Node) : Faults (Action.reports (c.declare n).2.2) := by
  unfold declare
  split
  · split
    · exact faults_singleton rfl
    · split
      · next ds h =>
        rw [Action.reports_map_report]
        exact Node.faults_of_declaration h
      · unfold operationActions
        dsimp only
        rw [Action.reports_append]
        refine Faults.append ?_ ?_
        · split
          · exact faults_singleton rfl
          · exact faults_nil
        · split
          · exact faults_singleton rfl
          · exact faults_nil
  · exact faults_nil

theorem faults_ofNode (n : Node) (around : List Clause) (number scope : String) :
    Faults (Action.reports (ofNode n around number scope).2.2) := by
  unfold ofNode
  dsimp only
  rw [Action.reports_append]
  refine (faults_declare _ n).append ?_
  unfold clauseActions
  split
  · exact faults_nil
  · exact faults_nil

end Clause

namespace MethodTable

theorem faults_readRow (several : Bool) (tr : Node) : Faults (readRow several tr).diagnostics := by
  have hread := reading several tr
  generalize readRow several tr = row at hread
  cases hread with
  | tooFew _ => exact faults_singleton rfl
  | struck _ _ => exact faults_nil
  | noHeader _ _ _ => exact faults_singleton rfl
  | malformed _ _ _ hds => exact Node.faults_of_declaration hds
  | declared _ _ _ _ =>
    unfold declaredRow
    dsimp only
    split
    · exact faults_singleton rfl
    · exact faults_nil

theorem faults_classify (n : Node) : Faults (classify n).diagnostics := by
  unfold classify
  dsimp only
  split
  · exact faults_nil
  · split
    · exact faults_singleton rfl
    · split
      · exact faults_singleton rfl
      · split
        · exact faults_singleton rfl
        · intro d hd
          obtain ⟨row, hrow, hd⟩ := List.mem_flatMap.1 hd
          obtain ⟨tr, -, rfl⟩ := List.mem_map.1 hrow
          exact faults_readRow _ tr d hd

theorem faults_tableActions (tag : Tag) (scope : String) (number : Int) :
    Faults (Action.reports (tableActions tag scope number)) := by
  unfold tableActions
  split
  · exact faults_nil
  · split
    · exact faults_nil
    · exact faults_nil

theorem faults_methodActions (tag : Tag) (scope : String) (ms : List Method) :
    Faults (Action.reports (ms.map (methodAction tag scope))) := by
  induction ms with
  | nil => exact faults_nil
  | cons m ms ih =>
    rw [List.map_cons, ← List.singleton_append, Action.reports_append]
    refine Faults.append ?_ ih
    unfold methodAction
    dsimp only
    split
    · exact faults_singleton rfl
    · exact faults_nil

theorem faults_ofNode (n : Node) (scope : String) (number : Int) :
    Faults (Action.reports (ofNode n scope number).2.2) := by
  unfold ofNode
  dsimp only
  rw [Action.reports_append, Action.reports_append, Action.reports_map_report]
  exact ((faults_classify n).append (faults_tableActions _ _ _)).append (faults_methodActions _ _ _)

end MethodTable

namespace Survey

variable {scope : String}

/-- A report of a survey: of a header, a clause or a table, or of a listing that names no method. -/
def IsReport (d : Diagnostic) : Prop :=
  rules.contains d.rule = true ∨ ∃ tag : Tag, tag.filled? "for" = none ∧ d = noMethod tag

theorem isReport_enter {s : Survey} {node : Node} {key : Nat} {around : List Clause}
    (hs : ∀ d ∈ Action.reports s.actions, IsReport d) :
    ∀ d ∈ Action.reports (s.enter node key around scope).2.2.actions, IsReport d := by
  have hmore : ∀ as, (∀ d ∈ Action.reports as, IsReport d) →
      ∀ d ∈ Action.reports (s.actions ++ as), IsReport d := fun as has d hd => by
    rw [Action.reports_append] at hd
    exact (List.mem_append.1 hd).elim (hs d) (has d)
  rcases enter_cases s node key around scope with
    ⟨-, h⟩ | ⟨-, h⟩ | ⟨-, h⟩ | ⟨-, h⟩ | ⟨-, -, -, -, h⟩
  · rw [h]
    unfold Survey.clause
    split
    · exact hmore _ fun d hd => .inl (Clause.faults_ofNode _ _ _ _ d hd)
    · exact hmore _ fun d hd => (List.not_mem_nil hd).elim
  · rw [h]
    exact hmore _ fun d hd => .inl (MethodTable.faults_ofNode _ _ _ d hd)
  · rw [h]
    exact hs
  · rw [h]
    unfold Survey.listing
    split
    · exact hs
    · next hnone =>
      refine hmore _ fun d hd => .inr ⟨node.tag, hnone, ?_⟩
      exact List.mem_singleton.1 hd
  · rw [h]
    exact hs

/-- What a survey reports. -/
theorem isReport_ofRoot {root : Node} :
    ∀ d ∈ Action.reports (ofRoot scope root).2.actions, IsReport d :=
  ofRoot_induction (I := fun s => ∀ d ∈ Action.reports s.actions, IsReport d) (K := fun _ => True)
    (fun _ _ _ _ _ _ => isReport_enter) (fun _ _ => trivial) fun _ h => (List.not_mem_nil h).elim

end Survey

end Concordance
