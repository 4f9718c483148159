/-
# Facts in JSON

Key definitions: `FactsExport.toJson`, `FactsExport.ofJson?`,
`ModuleFacts.parse?`.
-/
import FieldOrder.Facts
import FieldOrder.Json.Reader
import FieldOrder.Syntax.Codec

namespace FieldOrder

open Json (required optional list? text? bool?)

def Callee.toJson (c : Callee) : Json :=
  .obj [("module", .str c.module), ("name", .str c.name), ("method", .bool c.method)]

def Callee.ofJson? (v : Json) : Option Callee := do
  let [module, name, method] ← v.record? ["module", "name", "method"] | none
  return ⟨← required text? module, ← required text? name, ← optional false bool? method⟩

def TypeFact.toJson (fact : TypeFact) : Json :=
  .obj [("file", fact.file.toJson), ("pos", fact.pos.toJson), ("ty", fact.type.toJson)]

/-- Read a type fact that may nest `levels` deep. -/
def TypeFact.ofJson? (levels : Nat) (v : Json) : Option TypeFact := do
  let [file, pos, type] ← v.record? ["file", "pos", "ty"] | none
  return ⟨← required Path.ofJson? file, ← required Pos.ofJson? pos,
    ← required (TypeExpr.ofJson? (levels - 1)) type⟩

def CalleeFact.toJson (fact : CalleeFact) : Json :=
  .obj [("file", fact.file.toJson), ("pos", fact.pos.toJson), ("callee", fact.callee.toJson)]

def CalleeFact.ofJson? (v : Json) : Option CalleeFact := do
  let [file, pos, callee] ← v.record? ["file", "pos", "callee"] | none
  return ⟨← required Path.ofJson? file, ← required Pos.ofJson? pos,
    ← required Callee.ofJson? callee⟩

def ImportedType.toJson (fact : ImportedType) : Json :=
  .obj [("module", .str fact.module), ("decl", fact.decl.toJson)]

/-- Read a type of another module that may nest `levels` deep. -/
def ImportedType.ofJson? (levels : Nat) (v : Json) : Option ImportedType := do
  let [module, decl] ← v.record? ["module", "decl"] | none
  return ⟨← required text? module, ← required (TypeDecl.ofJson? (levels - 1)) decl⟩

def FactsExport.toJson (e : FactsExport) : Json :=
  .obj [("module", e.module.toJson), ("types", .arr (e.types.map TypeFact.toJson)),
    ("callees", .arr (e.callees.map CalleeFact.toJson)),
    ("imported_types", .arr (e.importedTypes.map ImportedType.toJson))]

/-- Read an export that may nest `levels` deep; its module stands one level down,
and its facts two. -/
def FactsExport.ofJson? (levels : Nat) (v : Json) : Option FactsExport := do
  let [module, types, callees, importedTypes] ←
    v.record? ["module", "types", "callees", "imported_types"] | none
  return ⟨← required (Module.ofJson? (levels - 1)) module,
    ← optional [] (list? (TypeFact.ofJson? (levels - 2))) types,
    ← optional [] (list? CalleeFact.ofJson?) callees,
    ← optional [] (list? (ImportedType.ofJson? (levels - 2))) importedTypes⟩

/-- The facts in the text of an export. -/
def ModuleFacts.parse? (text : String) : Option ModuleFacts := do
  let v ← Json.parse? text
  let e ← FactsExport.ofJson? Json.maxLevels v
  return .ofExport e

end FieldOrder
