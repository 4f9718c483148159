/-
# Schema maps

The entries of a schema map with what is known about each field. The value of an
entry is a schema literal, or it leads to a helper: of the module itself, or of
the shared helper module. Only constant keys are followed.

Key definitions: `Route`, `Expr.route`, `SchemaMap`, `SourceFile.needsHelpers`,
`SourceFile.schemaMaps`.
-/
import FieldOrder.Resolution
import FieldOrder.Schema.Helper
import FieldOrder.Schema.Literal

namespace FieldOrder

/-- Where the flags of a field come from. -/
inductive Route where
  /-- They are written in the entry. -/
  | inline (flags : Flags)
  /-- A function of the module itself returns them. -/
  | ownModule (function : String)
  /-- A function of another module returns them. -/
  | shared (qualifiedName : String)
  /-- They cannot be told. -/
  | unknown

/-- Where a call leads. What a type checker knows about it comes before what is
written. -/
def callRoute (facts : ModuleFacts) (file : SourceFile) (callee : Expr) (pos : Pos) : Route :=
  match facts.calleeOf? file.path pos with
  | some target =>
    if target.method then .unknown
    else if facts.module.path.text = target.module then .ownModule target.name
    else .shared (target.module ++ "." ++ target.name)
  | none =>
    match callee.unparen with
    | .ident name _ => .ownModule name
    | .selector x sel _ =>
      match x.ident?.bind file.importPath? with
      | some path => .shared (path ++ "." ++ sel)
      | none => .unknown
    | _ => .unknown

/-- Where the flags of the field with this value come from. -/
def Expr.route (facts : ModuleFacts) (file : SourceFile) (value : Expr) : Route :=
  match value.composite? with
  | some (type, elements, _) =>
    if isSchemaType type then .inline (.ofElements elements) else .unknown
  | none =>
    match value.unparen with
    | .call callee _ pos => callRoute facts file callee pos
    | _ => .unknown

namespace Route

/-- Whether the route leads to another module. -/
def isShared : Route → Bool
  | shared _ => true
  | _ => false

/-- The flags at the end of a route. -/
def flags (facts : ModuleFacts) (helpers : Helpers) : Route → Resolution Flags
  | inline flags => .resolved flags
  | ownModule function => .ofOption ((facts.module.func? function).bind FuncDecl.returnedFlags?)
  | shared name => .ofOption (helpers.get? name)
  | unknown => .unresolvable

end Route

namespace LiteralEntry

/-- Where the flags of an entry come from. -/
def route (facts : ModuleFacts) (file : SourceFile) (e : LiteralEntry) : Route :=
  if e.constant then e.value.route facts file else .unknown

end LiteralEntry

/-! ### Schema maps -/

/-- An entry of a schema map. -/
structure SchemaEntry where
  name : String
  position : Pos
  field : Resolution Field
  deriving DecidableEq, Repr

/-- A schema map with its entries in the order declared. -/
structure SchemaMap where
  file : Path
  pos : Pos
  /-- Whether it is the schema of an element of a list or set. -/
  nested : Bool
  entries : List SchemaEntry

namespace SchemaMap

/-- The names of the fields in the order declared. -/
def actualOrder (m : SchemaMap) : List String := m.entries.map (·.name)

/-- All fields, if every one is known. -/
def fields? (m : SchemaMap) : Option (List Field) := m.entries.mapM (·.field.value?)

/-- The names of the entries whose fields are not known. -/
def unresolvedNames (m : SchemaMap) : List String :=
  (m.entries.filter fun e => !e.field.isResolved).map (·.name)

end SchemaMap

/-- The schema entry that an entry of a literal makes. -/
def LiteralEntry.resolve (facts : ModuleFacts) (file : SourceFile) (helpers : Helpers)
    (e : LiteralEntry) : SchemaEntry where
  name := e.name
  position := e.position
  field := ((e.route facts file).flags facts helpers).map fun flags => ⟨e.name, flags, e.position⟩

/-- The schema map that a literal makes. -/
def MapLiteral.resolve (facts : ModuleFacts) (file : SourceFile) (helpers : Helpers)
    (l : MapLiteral) : SchemaMap where
  file := file.path
  pos := l.pos
  nested := l.nested
  entries := l.entries.map (·.resolve facts file helpers)

namespace SourceFile

/-- Whether some entry of the schema maps of a file leads to another module. -/
def needsHelpers (facts : ModuleFacts) (schemaModules : List String) (f : SourceFile) : Bool :=
  (f.mapLiterals facts schemaModules).any fun l =>
    l.entries.any fun e => (e.route facts f).isShared

/-- The schema maps of a file, given the helpers of other modules. -/
def schemaMaps (facts : ModuleFacts) (schemaModules : List String) (helpers : Helpers)
    (f : SourceFile) : List SchemaMap :=
  (f.mapLiterals facts schemaModules).map (·.resolve facts f helpers)

end SourceFile
end FieldOrder
