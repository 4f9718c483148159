/-
# Schema map literals

A schema map is a composite literal of a map from texts to pointers to a type
`Schema` of another package. When a type checker knows the type of the literal,
the package has to be one of the schema modules; otherwise the type as written
decides, and any package will do. A map is nested when an element with the key
`Elem` lies around it.

Key definitions: `MapLiteral`, `SourceFile.mapLiterals`.
-/
import FieldOrder.Facts
import FieldOrder.Syntax.Visit

namespace FieldOrder

/-- Whether a type is that of schema maps; `isSchemaPackage` says which packages
declare schemas. -/
def TypeExpr.isSchemaMap (isSchemaPackage : String → Bool) : TypeExpr → Bool
  | .map key (.pointer (.named (some package) name)) =>
    key.isString && name == "Schema" && isSchemaPackage package
  | _ => false

/-- An entry of a schema map literal. -/
structure LiteralEntry where
  /-- The text of the key, or what else names it. -/
  name : String
  /-- Whether the key is a text. -/
  constant : Bool
  value : Expr
  position : Pos

/-- The entry that an element with a key makes. -/
def Element.entryOf? (el : Element) : Option LiteralEntry :=
  match el.key with
  | none => none
  | some key =>
    let position := key.pos?.getD {}
    match key.string? with
    | some name => some ⟨name, true, el.value, position⟩
    | none => some ⟨key.calleeName?.getD "<dynamic>", false, el.value, position⟩

/-- A schema map literal, with its entries in the order written. -/
structure MapLiteral where
  pos : Pos
  /-- Whether it lies inside an element `Elem`. -/
  nested : Bool
  entries : List LiteralEntry

/-- Whether a literal of the written type at a place of a file is a schema map. -/
def isSchemaMapAt (facts : ModuleFacts) (schemaModules : List String) (file : Path)
    (written : Option TypeExpr) (pos : Pos) : Bool :=
  match facts.typeOf? file pos with
  | some type => type.isSchemaMap schemaModules.contains
  | none => written.any (·.isSchemaMap fun _ => true)

namespace Visit

/-- Whether an element with the key `Elem` lies around the node. -/
def isNested (v : Visit) : Bool :=
  v.trail.any fun n => n.element?.any fun el => el.keyIdent? == some "Elem"

/-- The schema map literal that the node is. -/
def mapLiteral? (facts : ModuleFacts) (schemaModules : List String) (file : Path) (v : Visit) :
    Option MapLiteral :=
  match v.node with
  | .expr (.composite type elements pos) =>
    if isSchemaMapAt facts schemaModules file type pos then
      some ⟨pos, v.isNested, elements.filterMap Element.entryOf?⟩
    else none
  | _ => none

end Visit

/-- The schema map literals of a file, outer ones before those inside them. -/
def SourceFile.mapLiterals (facts : ModuleFacts) (schemaModules : List String) (f : SourceFile) :
    List MapLiteral :=
  f.visits.filterMap (·.mapLiteral? facts schemaModules f.path)

end FieldOrder
