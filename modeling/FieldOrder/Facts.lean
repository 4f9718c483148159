/-
# Facts about a module

What a type checker knows about one module: the source tree, the types of some
expressions, the functions that some calls go to, and some types of other
modules. An export lists facts in the order they were found; `ModuleFacts`
answers questions. Facts are kept by file and position, files being compared by
their components, and a later fact takes the place of an earlier one.

Key definitions: `FactsExport`, `ModuleFacts`, `ModuleFacts.ofExport`,
`ModuleFacts.typeOf?`, `ModuleFacts.calleeOf?`, `ModuleFacts.importedType?`.
-/
import FieldOrder.Syntax.Basic
import FieldOrder.Table

namespace FieldOrder

/-- The function that a call goes to. -/
structure Callee where
  /-- The import path of the declaring module. -/
  module : String
  name : String
  method : Bool
  deriving DecidableEq, Repr

/-- The type of the expression at a place. -/
structure TypeFact where
  file : Path
  pos : Pos
  type : TypeExpr

/-- The function that the call at a place goes to. -/
structure CalleeFact where
  file : Path
  pos : Pos
  callee : Callee

/-- A type that another module declares. -/
structure ImportedType where
  /-- The import path of the declaring module. -/
  module : String
  decl : TypeDecl

/-- Everything exported about a module. -/
structure FactsExport where
  module : Module
  types : List TypeFact
  callees : List CalleeFact
  importedTypes : List ImportedType

/-- The facts about a module, ready to be asked. -/
structure ModuleFacts where
  module : Module
  types : Table (Path × Pos) TypeExpr
  callees : Table (Path × Pos) Callee
  importedTypes : Table (String × String) TypeDecl

namespace ModuleFacts

/-- A source tree about which nothing else is known. -/
def syntaxOnly (m : Module) : ModuleFacts := ⟨m, {}, {}, {}⟩

def insertType (facts : ModuleFacts) (fact : TypeFact) : ModuleFacts :=
  { facts with types := facts.types.insert (fact.file, fact.pos) fact.type }

def insertCallee (facts : ModuleFacts) (fact : CalleeFact) : ModuleFacts :=
  { facts with callees := facts.callees.insert (fact.file, fact.pos) fact.callee }

def insertImportedType (facts : ModuleFacts) (fact : ImportedType) : ModuleFacts :=
  { facts with
    importedTypes := facts.importedTypes.insert (fact.module, fact.decl.name) fact.decl }

/-- The facts of an export. -/
def ofExport (e : FactsExport) : ModuleFacts where
  module := e.module
  types := Table.ofList (e.types.map fun fact => ((fact.file, fact.pos), fact.type))
  callees := Table.ofList (e.callees.map fun fact => ((fact.file, fact.pos), fact.callee))
  importedTypes :=
    Table.ofList (e.importedTypes.map fun fact => ((fact.module, fact.decl.name), fact.decl))

/-- The type of the expression at a place; named types carry the full import path. -/
def typeOf? (facts : ModuleFacts) (file : Path) (pos : Pos) : Option TypeExpr :=
  facts.types.get? (file, pos)

/-- The function that the call at a place goes to. -/
def calleeOf? (facts : ModuleFacts) (file : Path) (pos : Pos) : Option Callee :=
  facts.callees.get? (file, pos)

/-- The declaration of a type of another module. -/
def importedType? (facts : ModuleFacts) (module name : String) : Option TypeDecl :=
  facts.importedTypes.get? (module, name)

end ModuleFacts
end FieldOrder
