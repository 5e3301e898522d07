import Concordance.Entry.Basic

/-!
# Entries in stored form

Types, signatures and entries as structured values, every field present and null for what is
absent.
-/

namespace Concordance

mutual
/-- A type in stored form. -/
def TypePhrase.toJson : TypePhrase → Json
  | .named name => .object [("kind", .string "named"), ("name", .string name)]
  | .list element => .object [("kind", .string "list"), ("element", element.toJson)]
  | .record fields =>
    .object [("kind", .string "record"), ("fields", .array (TypePhrase.fieldsToJson fields))]
  | .union ts =>
    .object [("kind", .string "union"), ("alternatives", .array (TypePhrase.allToJson ts))]

/-- Fields in stored form, each a pair. -/
def TypePhrase.fieldsToJson : List (String × TypePhrase) → List Json
  | [] => []
  | (name, t) :: fields => .array [.string name, t.toJson] :: TypePhrase.fieldsToJson fields

/-- Types in stored form. -/
def TypePhrase.allToJson : List TypePhrase → List Json
  | [] => []
  | t :: ts => t.toJson :: TypePhrase.allToJson ts
end

/-- A type in stored form, null for none. -/
def optionalType : Option TypePhrase → Json
  | none => .null
  | some t => t.toJson

/-- A parameter in stored form. -/
def Parameter.toJson (p : Parameter) : Json :=
  .object [("name", .string p.name), ("type", optionalType p.type), ("optional", .bool p.optional)]

/-- A signature in stored form. -/
def Signature.toJson (s : Signature) : Json :=
  .object
    [("name", .string s.name), ("params", .array (s.params.map Parameter.toJson)),
     ("return", optionalType s.returns)]

/-- A signature in stored form, null for none. -/
def optionalSignature : Option Signature → Json
  | none => .null
  | some s => s.toJson

/-- An entry in stored form. -/
def Entry.toJson : Entry → Json
  | .clause c =>
    .object
      [("type", .string "clause"), ("id", .string c.id), ("number", .string c.number),
       ("title", .string c.title), ("namespace", .string c.scope), ("parent", c.parent),
       ("refId", c.refId)]
  | .table t =>
    .object
      [("type", .string "table"), ("id", .string t.id), ("number", .int t.number),
       ("caption", .string t.caption), ("namespace", .string t.scope), ("refId", t.refId)]
  | .operation o =>
    .object
      [("type", .string "op"), ("aoid", .string o.aoid), ("kind", .string o.kind),
       ("namespace", .string o.scope), ("signature", optionalSignature o.signature),
       ("effects", .array o.effects), ("id", o.id), ("refId", o.refId), ("for", o.forType)]

end Concordance
