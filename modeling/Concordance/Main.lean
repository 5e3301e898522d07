import Concordance.Command

/-!
# The program

Reads the files that the command works on, carries it out and writes what it leaves behind.
-/

open Concordance

/-- Reads a file and keeps its path with it. -/
def readNamed (path : String) : IO (String × String) := do
  return (path, ← IO.FS.readFile path)

/-- Reads the files named by the arguments. -/
def readRequest (input scope : String) (a : Command.Arguments) : IO Command.Request := do
  let imports ← a.imports.mapM readNamed
  return { page := ← IO.FS.readFile input, scope, imports, supplementary := a.supplementary
           wantsSnapshot := a.snapshot.isSome, wantsPage := a.output.isSome }

/-- Writes a text where both a place for it and the text are there. -/
def writeWanted (path text : Option String) : IO Unit := do
  match path, text with
  | some path, some text => IO.FS.writeFile path text
  | _, _ => return ()

/-- The command line of the program. -/
def main (args : List String) : IO UInt32 := do
  let usage := "usage: INPUT --namespace NAMESPACE [--import-biblio FILE]... [--supplementary] " ++
    "[--export FILE] [--output FILE] [--verbose]"
  match ({} : Command.Arguments).read args with
  | some a =>
    match a.input, a.scope with
    | some input, some scope =>
      match Command.run (← readRequest input scope a) with
      | .ok answer =>
        writeWanted a.snapshot answer.snapshot
        writeWanted a.output answer.page
        return answer.status.toUInt32
      | .error f => IO.eprintln f.message; return 1
    | _, _ => IO.eprintln usage; return 2
  | none => IO.eprintln usage; return 2
