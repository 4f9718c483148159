/-
# Models

A typed resource keeps its configuration in a struct whose members are tagged
with the schema fields they hold. The model of a file is the struct whose
literal its method `ModelObject` returns; without one, all tagged structs that
the file declares stand in.

Key definitions: `schemaTag?`, `ModelMapping`, `SourceFile.modelMapping`.
-/
import FieldOrder.Facts
import FieldOrder.Syntax.View

namespace FieldOrder

/-! ### Tags -/

/-- What stands before the schema field in a tag. -/
def tagKey : List Char := "tfschema:\"".toList

/-- What stands behind the first `part` in a text. -/
def behind? (part : List Char) : List Char → Option (List Char)
  | [] => if part.isEmpty then some [] else none
  | c :: rest =>
    if part.isPrefixOf (c :: rest) then some ((c :: rest).drop part.length)
    else behind? part rest

/-- The text up to the next double quote, if there is one. -/
def untilQuote? : List Char → Option (List Char)
  | [] => none
  | c :: rest => if c = '"' then some [] else (untilQuote? rest).map (c :: ·)

/-- The schema field that a struct tag names: what stands in quotes behind the
first `tfschema:`, if it is not empty. -/
def schemaTag? (tag : String) : Option String := do
  let value ← (behind? tagKey tag.toList).bind untilQuote?
  if value.isEmpty then none else return String.ofList value

/-! ### The mapping of a file -/

/-- Schema fields by the member that holds them. -/
abbrev ModelMapping := Table String String

/-- The tagged members of a struct with their schema fields. -/
def taggedMembers (fields : List StructField) : List (String × String) :=
  fields.filterMap fun field => (field.tag.bind schemaTag?).map (field.name, ·)

/-- The tagged members of a type that is a struct. -/
def TypeExpr.taggedMembers : TypeExpr → List (String × String)
  | .struct fields => FieldOrder.taggedMembers fields
  | _ => []

/-- The package and the name of the type whose literal an expression is. -/
def Expr.literalType? (e : Expr) : Option (Option String × String) :=
  match e.composite? with
  | some (some (.named package name), _, _) => some (package, name)
  | _ => none

/-- The type of the literal that a statement returns. -/
def Stmt.returnedType? : Stmt → Option (Option String × String)
  | .ret (result :: _) _ => result.literalType?
  | _ => none

namespace SourceFile

/-- The first function or method named `ModelObject`. -/
def modelObject? (f : SourceFile) : Option FuncDecl := f.funcs.find? (·.name == "ModelObject")

/-- The type whose literal `ModelObject` returns. -/
def modelType? (f : SourceFile) : Option (Option String × String) := do
  let body ← (← f.modelObject?).body
  body.findSome? Stmt.returnedType?

/-- The declaration of the model: of the module itself, or with a package of the
module imported under that name. -/
def modelDecl? (facts : ModuleFacts) (f : SourceFile) : Option TypeDecl :=
  match f.modelType? with
  | none => none
  | some (none, name) => facts.module.typeDecl? name
  | some (some package, name) => (f.importPath? package).bind (facts.importedType? · name)

/-- The tagged members of the model. -/
def modelMembers (facts : ModuleFacts) (f : SourceFile) : List (String × String) :=
  match f.modelDecl? facts with
  | some decl => decl.type.taggedMembers
  | none => []

/-- The tagged members of all structs that the file declares. -/
def ownMembers (f : SourceFile) : List (String × String) :=
  f.typeDecls.flatMap (·.type.taggedMembers)

/-- The members that hold schema fields in a file. -/
def modelMapping (facts : ModuleFacts) (f : SourceFile) : ModelMapping :=
  let members := f.modelMembers facts
  Table.ofList (if members.isEmpty then f.ownMembers else members)

end SourceFile
end FieldOrder
