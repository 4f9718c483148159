/-
# Source trees

The part of a source tree that the checks look at: declarations, the statements
that can bind or commit values, and the expressions that occur in schema
literals. Trees come ready made; nothing here reads program text.

Key definitions: `Expr`, `Element`, `Stmt`, `TypeExpr`, `SourceFile`, `Module`.
-/
import FieldOrder.ModulePath
import FieldOrder.Path

namespace FieldOrder

/-- A place in a source file. Lines and columns count from one; zero stands for
an unknown place. -/
structure Pos where
  line : UInt32 := 0
  column : UInt32 := 0
  deriving DecidableEq, Repr

/-! ### Types -/

mutual

/-- A type as written, or as reported by a type checker; then `package` holds the
full import path. -/
inductive TypeExpr where
  | named (package : Option String) (name : String)
  | pointer (elem : TypeExpr)
  | map (key value : TypeExpr)
  | slice (elem : TypeExpr)
  | struct (fields : List StructField)
  | func
  | interface

/-- A member of a struct type, with the raw text of its tag. -/
structure StructField where
  name : String
  type : TypeExpr
  tag : Option String

end

/-! ### Expressions and statements -/

/-- The kinds of basic literals. -/
inductive LitKind where
  | string
  | int
  | float
  | char
  deriving DecidableEq, Repr

inductive UnaryOp where
  /-- The address of a value, `&x`. -/
  | addr
  /-- The negation of a condition, `!x`. -/
  | not
  /-- The negative of a number, `-x`. -/
  | neg
  /-- The receipt of a value from a channel. -/
  | recv
  deriving DecidableEq, Repr

mutual

inductive Expr where
  | ident (name : String) (pos : Pos)
  /-- A basic literal; texts are kept without their quotes. -/
  | lit (kind : LitKind) (value : String) (pos : Pos)
  /-- A selected member, `x.sel`. -/
  | selector (x : Expr) (sel : String) (pos : Pos)
  | call (callee : Expr) (args : List Expr) (pos : Pos)
  /-- A composite literal; inside another literal the type may be left out. -/
  | composite (type : Option TypeExpr) (elements : List Element) (pos : Pos)
  | unary (op : UnaryOp) (x : Expr)
  /-- A dereference, or a pointer type where an expression stands. -/
  | star (x : Expr)
  | binary (op : String) (x y : Expr)
  | paren (x : Expr)
  | typeAssert (x : Expr) (type : Option TypeExpr)
  | index (x i : Expr)
  | funcLit (body : List Stmt) (pos : Pos)
  /-- An expression of which nothing is kept. -/
  | other

/-- An element of a composite literal, `value` or `key: value`. -/
structure Element where
  key : Option Expr
  value : Expr

inductive Stmt where
  /-- An assignment; `define` when it also declares its targets. -/
  | assign (lhs rhs : List Expr) (define : Bool) (pos : Pos)
  /-- A declaration of variables. -/
  | var (names : List String) (type : Option TypeExpr) (values : List Expr) (pos : Pos)
  | expr (x : Expr)
  | ret (results : List Expr) (pos : Pos)
  | cond (init : Option Stmt) (test : Expr) (yes : List Stmt) (no : Option Stmt)
  | loop (init : Option Stmt) (test : Option Expr) (post : Option Stmt) (body : List Stmt)
  | range (key value : Option Expr) (x : Expr) (body : List Stmt)
  | switch (init : Option Stmt) (subject : Option Expr) (cases : List CaseClause)
  | block (body : List Stmt)
  | defer (call : Expr)
  | go (call : Expr)
  /-- A statement of which nothing is kept. -/
  | other

/-- One case of a switch statement. -/
structure CaseClause where
  exprs : List Expr
  body : List Stmt

end

/-! ### Declarations, files, modules -/

/-- The receiver of a method. -/
structure Receiver where
  name : Option String
  type : TypeExpr

/-- A function, or with a receiver a method. -/
structure FuncDecl where
  name : String
  receiver : Option Receiver
  body : Option (List Stmt)
  pos : Pos

structure TypeDecl where
  name : String
  type : TypeExpr
  pos : Pos

/-- A declaration of variables of the package. -/
structure VarDecl where
  names : List String
  type : Option TypeExpr
  values : List Expr
  pos : Pos

inductive Decl where
  | func (decl : FuncDecl)
  | type (decl : TypeDecl)
  | var (decl : VarDecl)

/-- An import, under another name or under its own. -/
structure Import where
  name : Option String
  path : String
  deriving DecidableEq, Repr

structure SourceFile where
  path : Path
  package : String
  imports : List Import
  decls : List Decl

/-- A module: its import path, its directory and its files. -/
structure Module where
  path : ModulePath
  dir : Path
  files : List SourceFile

end FieldOrder
