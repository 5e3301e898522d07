import Concordance.Build
import Concordance.Index.Snapshot
import Concordance.Markup.Printer

/-!
# The command

The command builds one page with the snapshots it imports, and writes the page after the build and
the snapshot of its index where these are asked for. An index that cannot be made gives the exit
status 1, and nothing is written. Whatever is wrong before the build, with a snapshot, the options
or the markup of the page, is a failure of the command itself.

The reader of markup is an argument of the command (`carryOut`); `run` is the command with the
reader of this library. What the command does is a function of texts. Left out are: the files and
their encodings, so there is no failure to read or to write one, and all texts are sequences of
characters, with no half of a surrogate pair alone; limits on the depth of recursion; the messages
in the log and with them the option `--verbose`; and the directories made for what is written.
-/

namespace Concordance

namespace Command

/-- What the command works on. -/
structure Request where
  /-- The text of the page. -/
  page : String
  /-- The namespace of the page. -/
  scope : String
  /-- The paths and the texts of the snapshots to import. -/
  imports : List (String × String)
  /-- Whether imported entries yield to those of the page. -/
  supplementary : Bool
  /-- Whether the snapshot of the page is asked for. -/
  wantsSnapshot : Bool
  /-- Whether the page after the build is asked for. -/
  wantsPage : Bool

/-- What the command leaves behind. -/
structure Answer where
  status : Nat
  snapshot : Option String
  page : Option String
  deriving DecidableEq, Repr

/-- Why the command fails. -/
inductive Failure where
  | snapshot (f : Snapshot.Fault)
  | options (d : BuildOptions.Defect)
  | markup (e : Markup.Refusal)
  | build (f : BuildFault)
  /-- The index has no stored form. -/
  | unstorable

/-- A text in which every line ends with a line feed. -/
def unixLines : List Char → List Char
  | [] => []
  | '\r' :: '\n' :: cs => '\n' :: unixLines cs
  | '\r' :: cs => '\n' :: unixLines cs
  | c :: cs => c :: unixLines cs

/-- The name of the policy of a request. -/
def policyName (r : Request) : Json :=
  .string (if r.supplementary then "local-wins" else "strict")

/-- The options of a request, its imports read. -/
def options (r : Request) : Except Failure BuildOptions := do
  let external ← r.imports.mapM fun i => (Snapshot.load i.1 i.2).mapError .snapshot
  (BuildOptions.make? r.scope external (policyName r)).mapError .options

/-- The page as a document whose elements have keys. -/
def document (read : Markup.Reader) (r : Request) : Except Failure Node :=
  match read (unixLines r.page.toList) with
  | .ok nodes => .ok (Node.document nodes).withKeys
  | .error e => .error (.markup e)

/-- Whether a fault ends the build with a status instead of failing. -/
def isStatus : BuildFault → Bool
  | .index .unusableId => false
  | .index _ => true
  | _ => false

/-- What a finished build leaves behind. -/
def answer (r : Request) (b : BuildResult) : Except Failure Answer := do
  let snapshot ←
    if r.wantsSnapshot then
      match (Snapshot.ofIndex b.index).store? with
      | some text => pure (some text)
      | none => throw .unstorable
    else pure none
  return ⟨0, snapshot, if r.wantsPage then some (Markup.printDocument b.root) else none⟩

/-- Carries out a request with a reader of markup. -/
def carryOut (read : Markup.Reader) (r : Request) : Except Failure Answer := do
  let o ← options r
  let page ← document read r
  match Build.run o page with
  | .ok b => answer r b
  | .error a => if isStatus a.fault then return ⟨1, none, none⟩ else throw (.build a.fault)

/-- Carries out a request. -/
def run (r : Request) : Except Failure Answer := carryOut Markup.parse? r

/-- The failure in words. -/
def Failure.message : Failure → String
  | .snapshot f => f.message
  | .options d => d.message
  | .markup e => e.message
  | .build f => f.message
  | .unstorable => "the index has no stored form"

/-! ## Arguments -/

/-- The arguments of the command. -/
structure Arguments where
  input : Option String := none
  scope : Option String := none
  imports : List String := []
  supplementary : Bool := false
  snapshot : Option String := none
  output : Option String := none
  deriving DecidableEq, Repr

/-- Reads arguments one after another. -/
def Arguments.read (a : Arguments) : List String → Option Arguments
  | [] => some a
  | "--namespace" :: v :: rest => ({ a with scope := some v } : Arguments).read rest
  | "--import-biblio" :: v :: rest =>
    ({ a with imports := a.imports ++ [v] } : Arguments).read rest
  | "--export" :: v :: rest => ({ a with snapshot := some v } : Arguments).read rest
  | "--output" :: v :: rest => ({ a with output := some v } : Arguments).read rest
  | "--supplementary" :: rest => ({ a with supplementary := true } : Arguments).read rest
  | "--verbose" :: rest => a.read rest
  | "-v" :: rest => a.read rest
  | v :: rest =>
    if v.startsWith "--" || a.input.isSome then none
    else ({ a with input := some v } : Arguments).read rest

end Command

end Concordance
