/-
# Views of a source tree

Questions about single nodes (the name of an identifier, the text of a literal,
the composite literal behind an address) and look-ups in files and modules.
Parentheses around an expression never matter.

Key definitions: `Expr.unparen`, `Expr.ident?`, `Expr.string?`,
`Expr.calleeName?`, `Expr.composite?`, `SourceFile.importPath?`, `Module.func?`.
-/
import FieldOrder.Syntax.Basic
import FieldOrder.Text.Uppercase

namespace FieldOrder

/-! ### Types -/

namespace TypeExpr

/-- The type behind one pointer, or the type itself. -/
def pointee : TypeExpr → TypeExpr
  | pointer elem => elem
  | type => type

/-- Whether this is the predeclared type of texts. -/
def isString : TypeExpr → Bool
  | named none name => name == "string"
  | _ => false

end TypeExpr

/-! ### Expressions -/

namespace Expr

/-- The expression without the parentheses around it. -/
def unparen : Expr → Expr
  | paren x => x.unparen
  | e => e

/-- The name of an identifier. -/
def ident? (e : Expr) : Option String :=
  match e.unparen with
  | ident name _ => some name
  | _ => none

/-- The text of a string literal. -/
def string? (e : Expr) : Option String :=
  match e.unparen with
  | lit .string value _ => some value
  | _ => none

/-- Whether this is the predeclared identifier `true`. -/
def isTrue (e : Expr) : Bool := e.ident? == some "true"

/-- The name under which something is called: an identifier or a selected member. -/
def calleeName? (e : Expr) : Option String :=
  match e.unparen with
  | ident name _ => some name
  | selector _ sel _ => some sel
  | _ => none

/-- Where the expression stands, for the kinds that record it. -/
def pos? : Expr → Option Pos
  | ident _ pos => some pos
  | lit _ _ pos => some pos
  | selector _ _ pos => some pos
  | call _ _ pos => some pos
  | composite _ _ pos => some pos
  | funcLit _ pos => some pos
  | paren x => x.pos?
  | _ => none

/-- The composite literal in `{...}` or behind the address in `&T{...}`: its type,
its elements and its place. -/
def composite? (e : Expr) : Option (Option TypeExpr × List Element × Pos) :=
  match e.unparen with
  | composite type elements pos => some (type, elements, pos)
  | unary .addr x =>
    match x.unparen with
    | composite type elements pos => some (type, elements, pos)
    | _ => none
  | _ => none

@[simp] theorem unparen_paren (x : Expr) : (paren x).unparen = x.unparen := by rw [unparen]

theorem unparen_ne_paren : ∀ e x : Expr, e.unparen ≠ paren x
  | paren y, x => by rw [unparen_paren]; exact unparen_ne_paren y x
  | ident .., _ | lit .., _ | selector .., _ | call .., _ | composite .., _ | unary .., _
  | star .., _ | binary .., _ | typeAssert .., _ | index .., _ | funcLit .., _ | other, _ => by
    simp [unparen]

@[simp] theorem unparen_unparen (e : Expr) : e.unparen.unparen = e.unparen := by
  cases h : e.unparen with
  | paren x => exact absurd h (unparen_ne_paren e x)
  | _ => rw [unparen]; simp

theorem ident?_eq_some_iff {e : Expr} {name : String} :
    e.ident? = some name ↔ ∃ pos, e.unparen = ident name pos := by
  unfold ident?
  cases e.unparen with
  | _ => simp

theorem string?_eq_some_iff {e : Expr} {text : String} :
    e.string? = some text ↔ ∃ pos, e.unparen = lit .string text pos := by
  unfold string?
  cases e.unparen with
  | lit kind value pos => cases kind <;> simp
  | _ => simp

end Expr

namespace Element

/-- The name of a key that is an identifier. -/
def keyIdent? (el : Element) : Option String := el.key.bind Expr.ident?

end Element

/-! ### Declarations -/

namespace FuncDecl

/-- A function is exported when its name begins with an upper-case letter. -/
def isExported (f : FuncDecl) : Bool :=
  match f.name.toList with
  | [] => false
  | c :: _ => Text.isUppercase c

end FuncDecl

namespace Import

/-- Whether a path segment is a major version, a `v` and digits. -/
def isVersion : List Char → Bool
  | 'v' :: digits => !digits.isEmpty && digits.all Char.isDigit
  | _ => false

/-- The name that the importing file uses: the alias, or else the last segment of
the path, or the one before it when the last is a major version. -/
def localName (i : Import) : String :=
  match i.name with
  | some name => name
  | none =>
    match (Text.pieces '/' i.path.toList).reverse with
    | [] => ""
    | [last] => String.ofList last
    | last :: before :: _ => String.ofList (if isVersion last then before else last)

end Import

/-! ### Files and modules -/

namespace SourceFile

/-- The last name of the path, or nothing. -/
def fileName (f : SourceFile) : String := f.path.fileName?.getD ""

/-- The import path behind the name that the file uses for it. -/
def importPath? (f : SourceFile) (localName : String) : Option String :=
  (f.imports.find? (·.localName == localName)).map (·.path)

/-- The functions of the file, in source order. -/
def funcs (f : SourceFile) : List FuncDecl :=
  f.decls.filterMap fun
    | .func decl => some decl
    | _ => none

/-- The type declarations of the file, in source order. -/
def typeDecls (f : SourceFile) : List TypeDecl :=
  f.decls.filterMap fun
    | .type decl => some decl
    | _ => none

/-- The first type declaration of a name. -/
def typeDecl? (f : SourceFile) (name : String) : Option TypeDecl :=
  f.typeDecls.find? (·.name == name)

end SourceFile

namespace Module

/-- The functions of all files, in source order. -/
def funcs (m : Module) : List FuncDecl := m.files.flatMap SourceFile.funcs

/-- The first function of a name that is no method. -/
def func? (m : Module) (name : String) : Option FuncDecl :=
  m.funcs.find? fun f => f.receiver.isNone && f.name == name

/-- The first type declaration of a name in any file. -/
def typeDecl? (m : Module) (name : String) : Option TypeDecl :=
  m.files.findSome? (·.typeDecl? name)

/-- The directory of the first file; without it, the directory of the module. -/
def sourceDir (m : Module) : Path :=
  match m.files with
  | [] => m.dir
  | f :: _ => f.path.parent?.getD m.dir

end Module
end FieldOrder
