import Concordance.Survey

/-!
# Building a document

A document is built in two passes. The first surveys it and carries out what its elements call for
on an index of its own, which is then frozen and merged with the imported indices. The second
expands the listings and resolves all references, those of the listings last, so a reference may
come before what it leads to. Problems with the contents are diagnostics; an index that cannot be
made or a listing that cannot be written ends the build, with the diagnostics so far.
-/

namespace Concordance

/-- How a document is built. -/
structure BuildOptions where
  /-- The namespace of the document. -/
  scope : String
  /-- The imported indices. -/
  external : List Index
  policy : MergePolicy
  deriving Inhabited

namespace BuildOptions

/-- What keeps a document from being built at all. -/
inductive Defect where
  | emptyScope
  | unknownPolicy (name : Json)

/-- The defect in words. -/
def Defect.message : Defect → String
  | .emptyScope => "namespace cannot be empty"
  | .unknownPolicy name => MergePolicy.unknownMessage name

/-- Options with a namespace that is not empty and a policy that there is. -/
def make? (scope : String) (external : List Index) (policy : Json) :
    Except Defect BuildOptions :=
  if scope = "" then .error .emptyScope
  else
    match MergePolicy.ofName? policy with
    | some p => .ok ⟨scope, external, p⟩
    | none => .error (.unknownPolicy policy)

end BuildOptions

/-- A reference and where it leads, if it leads anywhere. -/
structure Resolved where
  reference : Reference
  target : Option Target
  deriving Inhabited

/-- A document that has been built. -/
structure BuildResult where
  /-- The root of the document after the build. -/
  root : Node
  /-- The index of the document. -/
  index : Index
  /-- The index of the document and the imported ones. -/
  merged : Index
  clauses : List Clause
  tables : List MethodTable
  references : List Resolved
  diagnostics : List Diagnostic

/-- A build that was given up, with the diagnostics so far. -/
structure Aborted where
  fault : BuildFault
  diagnostics : List Diagnostic

namespace Build

/-! ## Second pass -/

/-- A document in its second pass. -/
structure Pass where
  root : Node
  /-- A key that no element has, nor has any greater one. -/
  nextKey : Nat
  diagnostics : List Diagnostic

/-- Expands a listing and gives its references. -/
def expand (ix : Index) (p : Pass) (l : Listing) : Except Aborted (Pass × List Reference) :=
  let tag := ((p.root.find? l.key).bind Node.tag?).getD default
  let diagnostics := p.diagnostics ++ l.reports ix tag
  if l.isWritable ix then
    let refs := l.references ix p.nextKey
    .ok (⟨p.root.modify l.key (l.expanded ix p.nextKey), p.nextKey + refs.length, diagnostics⟩,
      refs)
  else .error ⟨.listing, diagnostics⟩

/-- Expands listings one after another and gives all their references. -/
def expandAll (ix : Index) : Pass → List Listing → Except Aborted (Pass × List Reference)
  | p, [] => .ok (p, [])
  | p, l :: ls => do
    let (p, refs) ← expand ix p l
    let (p, more) ← expandAll ix p ls
    return (p, refs ++ more)

/-- Resolves a reference. -/
def resolve (ix : Index) (scope : String) (p : Pass) (r : Reference) : Pass × Resolved :=
  let tag := ((p.root.find? r.key).bind Node.tag?).getD default
  match Reference.resolve ix tag r.scope scope with
  | .ok (some t) => ({ p with root := p.root.modify r.key (Reference.linked t) }, ⟨r, some t⟩)
  | .ok none => (p, ⟨r, none⟩)
  | .error d => ({ p with diagnostics := p.diagnostics ++ [d] }, ⟨r, none⟩)

/-- Resolves references one after another. -/
def resolveAll (ix : Index) (scope : String) : Pass → List Reference → Pass × List Resolved
  | p, [] => (p, [])
  | p, r :: rs =>
    let (p, t) := resolve ix scope p r
    let (p, more) := resolveAll ix scope p rs
    (p, t :: more)

/-! ## Both passes -/

/-- The index of a document and of what it imports. -/
def mergedIndex (o : BuildOptions) (ix : Index) : Except Index.Fault Index :=
  if o.external.isEmpty then .ok ix
  else do ix.merge (← Index.combine o.external) o.policy

/-- The index that actions make, frozen, and their diagnostics. -/
def firstPass (actions : List Action) : Except Aborted (Index × List Diagnostic) :=
  let out := Action.perform Index.empty actions
  match out.fault with
  | some f => .error ⟨f, out.diagnostics⟩
  | none =>
    match out.index.freeze with
    | .ok ix => .ok (ix, out.diagnostics)
    | .error f => .error ⟨.index f, out.diagnostics⟩

/-- The document with its listings expanded and its references resolved. -/
def secondPass (o : BuildOptions) (root : Node) (s : Survey) (ix merged : Index)
    (ds : List Diagnostic) : Except Aborted BuildResult := do
  let (p, refs) ← expandAll merged ⟨root, root.keyBound, ds⟩ s.listings
  let (p, resolved) := resolveAll merged o.scope p (s.references ++ refs)
  return { root := p.root, index := ix, merged, clauses := s.clauses, tables := s.tables
           references := resolved, diagnostics := p.diagnostics }

/-- Builds the document below a root whose elements have keys. -/
def run (o : BuildOptions) (root : Node) : Except Aborted BuildResult := do
  let (root, s) := Survey.ofRoot o.scope root
  let (ix, ds) ← firstPass s.actions
  match mergedIndex o ix with
  | .ok merged => secondPass o root s ix merged ds
  | .error f => .error ⟨.index f, ds⟩

end Build

end Concordance
