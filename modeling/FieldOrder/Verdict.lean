/-
# Verdicts on schema maps

What is said about one schema map: a field of it is not known, it is exempt, it
is in order, or it is out of order. A map with another way to name the resource
is exempt, since the order means nothing there; nested maps never are.

Key definitions: `Verdict`, `SchemaMap.verdict`, `Finding`,
`SchemaMap.finding?`.
-/
import FieldOrder.Diagnostic
import FieldOrder.Log
import FieldOrder.Order
import FieldOrder.Schema.Map

namespace FieldOrder

/-- A schema map whose fields are not in the expected order. -/
structure Finding where
  file : Path
  pos : Pos
  nested : Bool
  expectedOrder : List String
  actualOrder : List String

/-- Why a schema map is exempt. -/
inductive Exemption where
  /-- The name is optional, and exactly one of several fields has to be set. -/
  | optionalName
  /-- A field named like an identifier can be set or is computed, for good. -/
  | optionalIdentifier
  deriving DecidableEq, Repr

def Exemption.text : Exemption → String
  | .optionalName => "optional name with ExactlyOneOf"
  | .optionalIdentifier => "optional computed identifier field"

/-- Why a field makes its map exempt. -/
def Field.exemption? (f : Field) : Option Exemption :=
  if f.name = "name" && f.flags.optional && !f.flags.exactlyOneOf.isEmpty then
    some .optionalName
  else if (Text.endsWith f.name "_id" || Text.endsWith f.name "_name") && f.flags.optional &&
      f.flags.computed && f.flags.forceNew then
    some .optionalIdentifier
  else none

/-- What is said about a schema map. -/
inductive Verdict where
  /-- Some fields are not known. -/
  | unresolved (names : List String)
  | exempt (reason : Exemption)
  | inOrder
  | outOfOrder (finding : Finding)

namespace SchemaMap

/-- Why a map with these fields is exempt. -/
def exemption? (m : SchemaMap) (fields : List Field) : Option Exemption :=
  if m.nested then none else fields.findSome? Field.exemption?

/-- What is said about a map, given the fields of the identifier. -/
def verdict (m : SchemaMap) (ids : Resolution (List String)) : Verdict :=
  match m.fields? with
  | none => .unresolved m.unresolvedNames
  | some fields =>
    match m.exemption? fields with
    | some reason => .exempt reason
    | none =>
      let actual := m.actualOrder
      let expected := expectedOrder fields ids m.nested
      if expected.length ≠ actual.length ∨ expected = actual then .inOrder
      else .outOfOrder ⟨m.file, m.pos, m.nested, expected, actual⟩

/-- The finding about a map, if it is out of order. -/
def finding? (m : SchemaMap) (ids : Resolution (List String)) : Option Finding :=
  match m.verdict ids with
  | .outOfOrder finding => some finding
  | _ => none

/-- What there is to tell about a map that was passed over. -/
def log (m : SchemaMap) (ids : Resolution (List String)) : List LogRecord :=
  let place := s!"{m.file.text}:{m.pos.line.toNat}"
  match m.verdict ids with
  | .unresolved names =>
    [.debug (place ++ ": skipping schema map with unresolved fields: " ++
      ", ".intercalate names)]
  | .exempt reason => [.debug (place ++ s!": schema map exempt ({reason.text})")]
  | _ => []

end SchemaMap

/-! ### Findings -/

namespace Finding

def toJson (f : Finding) : Json :=
  .obj [("file", f.file.toJson), ("pos", f.pos.toJson), ("nested", .bool f.nested),
    ("expected_order", .ofStrings f.expectedOrder), ("actual_order", .ofStrings f.actualOrder)]

/-- The name of the pass that makes findings. -/
def passName : String := "schema_order"

/-- The diagnostic of a finding in a module. -/
def diagnostic (f : Finding) (module : String) : Diagnostic where
  code := .fieldOrder
  severity := .warning
  message :=
    if f.nested then "nested schema fields are not in the expected order"
    else "schema fields are not in the expected order"
  module := module
  file := f.file
  line := f.pos.line
  column := f.pos.column
  hint := some ("expected order: " ++ ", ".intercalate f.expectedOrder)
  passName := passName
  expectedOrder := f.expectedOrder
  actualOrder := f.actualOrder

end Finding
end FieldOrder
