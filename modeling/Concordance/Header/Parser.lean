import Concordance.Header.Parameter
import Concordance.Signature.Basic
import Concordance.TypePhrase.Parser

/-!
# Reading headers

A header is a name, a list of parameters in parentheses and, after a colon, the type of the result.
`Header.parse` reads everything but the types and reports every fault it can go on from: one for the
name, one for each parameter, one for what follows the list. Only a list that is missing or never
closed ends the reading. `Header.signature` then reads the types, and stops at the first that is no
type, with its place in the header.
-/

namespace Concordance

namespace Header

/-! ## Parts -/

/-- The fault of a name, if it has one; `lead` is the number of blanks before it. -/
def nameFaults (name : List Char) (lead opening : Nat) : List Fault :=
  if name = [] then [⟨.noName, opening⟩]
  else if name.any (fun c => c = ')' || c = ',' || c = '{' || c = '}') then
    [⟨.malformedName name, lead⟩]
  else []

/-- The pieces that are parameters: a single blank piece is no parameter, and a last blank piece is
left out when the one before it is not blank. -/
def parameterChunks (chunks : List Chunk) : List Chunk :=
  let blank (c : Chunk) : Bool := Text.allBlank c.text
  match chunks.reverse with
  | [only] => if blank only then [] else [only]
  | last :: previous :: rest =>
    if blank last && !blank previous then (previous :: rest).reverse else chunks
  | [] => []

/-- The parameters that pieces write and the faults of the others, both in order; `seen` holds the
names before them. -/
def readParameters : (seen : List (List Char)) → List Chunk → List RawParameter × List Fault
  | _, [] => ([], [])
  | seen, chunk :: chunks =>
    match readParameter chunk with
    | .error fault =>
      let (ps, faults) := readParameters seen chunks
      (ps, fault :: faults)
    | .ok p =>
      if p.name ∈ seen then
        let (ps, faults) := readParameters seen chunks
        (ps, ⟨.repeatedParameter p.name, p.offset⟩ :: faults)
      else
        let (ps, faults) := readParameters (p.name :: seen) chunks
        (p :: ps, faults)

/-- The first piece puts its parameter or its fault before those of the other pieces. -/
theorem readParameters_first (seen : List (List Char)) (chunk : Chunk) (chunks : List Chunk) :
    readParameters seen (chunk :: chunks) =
      match readParameter chunk with
      | .error fault =>
        ((readParameters seen chunks).1, fault :: (readParameters seen chunks).2)
      | .ok p =>
        if p.name ∈ seen then
          ((readParameters seen chunks).1,
            ⟨.repeatedParameter p.name, p.offset⟩ :: (readParameters seen chunks).2)
        else
          (p :: (readParameters (p.name :: seen) chunks).1,
            (readParameters (p.name :: seen) chunks).2) := rfl

/-- A piece that is read as a parameter with a new name puts it before the parameters of the other
pieces, and has no fault. -/
theorem readParameters_cons {seen : List (List Char)} {chunk : Chunk} {chunks : List Chunk}
    {raw : RawParameter} {raws : List RawParameter} {faults : List Fault}
    (hraw : readParameter chunk = .ok raw) (hfresh : raw.name ∉ seen)
    (hraws : readParameters (raw.name :: seen) chunks = (raws, faults)) :
    readParameters seen (chunk :: chunks) = (raw :: raws, faults) := by
  rw [readParameters_first, hraw]
  dsimp only
  rw [if_neg hfresh, hraws]

/-- The type of the result in the text after the parameter list, which starts at an offset. -/
def readReturn (rest : List Char) (offset : Nat) :
    Except Fault (Option (List Char) × Nat) :=
  let place := offset + Text.leading rest
  match Text.trimLeft rest with
  | [] => .ok (none, offset)
  | ':' :: after =>
    if Text.allBlank after then .error ⟨.noReturnType, place⟩
    else .ok (some (Text.trim after), place + 1 + Text.leading after)
  | text => .error ⟨.trailingText (text.take 20), place⟩

/-! ## Headers -/

/-- The header that a text writes, or its faults. -/
def parse (source : List Char) : Except (List Fault) Header :=
  let before := source.takeWhile (· ≠ '(')
  let opening := before.length
  match source.drop opening with
  | [] => .error [⟨.noParameterList, (Text.trimRight source).length⟩]
  | _ :: list =>
    let name := Text.trim before
    let faults := nameFaults name (Text.leading source) opening
    match chunks? (opening + 1) list with
    | none => .error (faults ++ [⟨.unclosedList, opening⟩])
    | some (chunks, close) =>
      let (params, paramFaults) := readParameters [] (parameterChunks chunks)
      let faults := faults ++ paramFaults
      match readReturn (source.drop (close + 1)) (close + 1) with
      | .error fault => .error (faults ++ [fault])
      | .ok (returns, returnOffset) =>
        if faults = [] then .ok ⟨name, params, returns, returnOffset⟩ else .error faults

/-! ## Types -/

/-- The type that a piece of a header writes, where there is one. -/
def readType? (text : Option (List Char)) (offset : Nat) :
    Except TypePhrase.Fault (Option TypePhrase) :=
  match text with
  | none => .ok none
  | some text => (TypePhrase.parseAt offset text).map some

/-- A parameter with its type read. -/
def RawParameter.read (p : RawParameter) : Except TypePhrase.Fault Parameter := do
  return ⟨String.ofList p.name, ← readType? p.type p.typeOffset, p.optional⟩

/-- The signature that a header declares. -/
def signature (h : Header) : Except TypePhrase.Fault Signature := do
  let params ← h.params.mapM RawParameter.read
  return ⟨String.ofList h.name, params, ← readType? h.returns h.returnOffset⟩

end Header

end Concordance
