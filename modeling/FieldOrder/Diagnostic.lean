/-
# Diagnostics

A diagnostic tells of one schema map that is out of order. Diagnostics are
ordered by file (component by component), line, column and code; the order is
kept among those that agree in all of these.

Key definitions: `Diagnostic`, `Diagnostic.sort`, `Diagnostic.toJson`,
`Diagnostic.ofJson?`.
-/
import FieldOrder.Json.Record
import FieldOrder.Syntax.Codec

namespace FieldOrder

inductive Severity where
  | info
  | warning
  | error
  deriving DecidableEq, Repr

/-- The word for a severity. -/
def Severity.text : Severity → String
  | .info => "info"
  | .warning => "warning"
  | .error => "error"

def Severity.ofText? : String → Option Severity
  | "info" => some .info
  | "warning" => some .warning
  | "error" => some .error
  | _ => none

inductive DiagnosticCode where
  /-- The fields of a schema map are out of order. -/
  | fieldOrder
  deriving DecidableEq, Repr

/-- The name of a code. -/
def DiagnosticCode.text : DiagnosticCode → String
  | .fieldOrder => "SL001"

def DiagnosticCode.ofText? : String → Option DiagnosticCode
  | "SL001" => some .fieldOrder
  | _ => none

/-- The place of a code among the codes. -/
def DiagnosticCode.rank : DiagnosticCode → Nat
  | .fieldOrder => 0

/-- What a pass has to tell about a place. -/
structure Diagnostic where
  code : DiagnosticCode
  severity : Severity
  message : String
  /-- The import path of the module. -/
  module : String
  file : Path
  line : UInt32
  column : UInt32
  /-- What could be done about it. -/
  hint : Option String
  /-- The pass that tells it. -/
  passName : String
  expectedOrder : List String
  actualOrder : List String

namespace Diagnostic

/-! ### Order -/

/-- The order by file, line, column and code. -/
def cmp : Diagnostic → Diagnostic → Ordering :=
  compareLex (compareOn (·.file.components)) <|
    compareLex (compareOn (·.line)) <|
      compareLex (compareOn (·.column)) (compareOn (·.code.rank))

/-- Diagnostics in order. -/
def sort (ds : List Diagnostic) : List Diagnostic := ds.mergeSort fun a b => (cmp a b).isLE

/-! ### JSON -/

/-- A list that is left out when it is empty. -/
def orderField (name : String) (names : List String) : List (String × Json) :=
  if names.isEmpty then [] else [(name, .ofStrings names)]

def toJson (d : Diagnostic) : Json :=
  .obj ([("code", .str d.code.text), ("severity", .str d.severity.text),
    ("message", .str d.message), ("module", .str d.module), ("file", d.file.toJson),
    ("line", .ofWord d.line), ("column", .ofWord d.column), ("hint", .ofOption .str d.hint),
    ("pass_name", .str d.passName)] ++
    orderField "expected_order" d.expectedOrder ++ orderField "actual_order" d.actualOrder)

open Json (required optional nullable list? text? word? choice?) in
def ofJson? (v : Json) : Option Diagnostic := do
  let [code, severity, message, module, file, line, column, hint, passName, expectedOrder,
    actualOrder] ← v.record? ["code", "severity", "message", "module", "file", "line", "column",
      "hint", "pass_name", "expected_order", "actual_order"] | none
  let code ← required choice? code
  let severity ← required choice? severity
  return {
    code := ← DiagnosticCode.ofText? code
    severity := ← Severity.ofText? severity
    message := ← required text? message
    module := ← required text? module
    file := ← required Path.ofJson? file
    line := ← required word? line
    column := ← required word? column
    hint := ← nullable text? hint
    passName := ← required text? passName
    expectedOrder := ← optional [] (list? text?) expectedOrder
    actualOrder := ← optional [] (list? text?) actualOrder }

end Diagnostic
end FieldOrder
