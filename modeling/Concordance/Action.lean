import Concordance.Diagnostic
import Concordance.Entry.Decode
import Concordance.Index.Merge
import Concordance.Numbering

/-!
# Actions

What the elements of a document call for while it is surveyed: diagnostics to report, entries to
add, and faults that end the survey. The actions of an element depend on the element alone; they are
carried out in order on an index, up to the first that fails, and everything done before it stays
done.
-/

namespace Concordance

/-- Why a document cannot be built. -/
inductive BuildFault where
  | index (f : Index.Fault)
  | numbering (f : Numbering.Fault)
  | entry (m : Malformed)
  /-- A method in a listing has a label that is no text. -/
  | listing

/-- The fault in words. -/
def BuildFault.message : BuildFault → String
  | .index f => f.message
  | .numbering f => f.message
  | .entry m => m.message
  | .listing => "a label is a text"

/-- What an element calls for. -/
inductive Action where
  | report (d : Diagnostic)
  | add (e : Entry)
  | halt (f : BuildFault)

/-- The outcome of actions: the index and the diagnostics so far, and the fault that ended them. -/
structure Outcome where
  index : Index
  diagnostics : List Diagnostic
  fault : Option BuildFault

namespace Action

/-- The diagnostics that actions report. -/
def reports (as : List Action) : List Diagnostic :=
  as.filterMap fun
    | .report d => some d
    | _ => none

/-- The entries that actions add. -/
def additions (as : List Action) : List Entry :=
  as.filterMap fun
    | .add e => some e
    | _ => none

/-- Carries out actions in order up to the first that fails. -/
def perform (ix : Index) : List Action → Outcome
  | [] => ⟨ix, [], none⟩
  | .report d :: as =>
    let out := perform ix as
    { out with diagnostics := d :: out.diagnostics }
  | .add e :: as =>
    match ix.add e with
    | .ok ix => perform ix as
    | .error f => ⟨ix, [], some (.index f)⟩
  | .halt f :: _ => ⟨ix, [], some f⟩

end Action

end Concordance
