/-
# Schema helpers

A helper is a function that returns a schema literal. The first return with a
value decides; when it returns a variable, the last assignment before it that
gives the variable a value of its own has to be a schema literal. Function
literals inside the helper do not count.

Key definitions: `Expr.literalFlags?`, `FuncDecl.returnedFlags?`, `Helpers`,
`Module.helpers`.
-/
import FieldOrder.Schema.Flags
import FieldOrder.Syntax.Visit
import FieldOrder.Table

namespace FieldOrder

/-- Whether a literal of this type is a schema literal. Inside a schema map the
type may be left out. -/
def isSchemaType : Option TypeExpr → Bool
  | none => true
  | some type =>
    match type.pointee with
    | .named _ name => name == "Schema"
    | _ => false

/-- What a schema literal says. -/
def Expr.literalFlags? (e : Expr) : Option Flags :=
  match e.composite? with
  | some (type, elements, _) => if isSchemaType type then some (.ofElements elements) else none
  | none => none

/-- The variables to which a statement gives a value each, with the values. -/
def Stmt.assignments : Stmt → List (String × Expr)
  | .assign lhs rhs _ _ =>
    if lhs.length = rhs.length then
      (lhs.zip rhs).filterMap fun (target, value) => target.ident?.map (·, value)
    else []
  | .var names _ values _ => if names.length = values.length then names.zip values else []
  | _ => []

/-- What the first value returned by statements in a row says, after the given
assignments (the latest first). -/
def returnedFlags? (assigned : List (String × Expr)) : List Stmt → Option Flags
  | [] => none
  | .ret (result :: _) _ :: _ =>
    match result.ident? with
    | some name => (assigned.lookup name).bind Expr.literalFlags?
    | none => result.literalFlags?
  | s :: rest => returnedFlags? (s.assignments.reverse ++ assigned) rest

/-- What the schema literal says that a function returns. -/
def FuncDecl.returnedFlags? (f : FuncDecl) : Option Flags :=
  match f.body with
  | some body => FieldOrder.returnedFlags? [] (bareStmts body)
  | none => none

/-! ### Helpers of a module -/

/-- What helpers return, by qualified name. -/
abbrev Helpers := Table String Flags

/-- Whether other modules can call the function as a helper. -/
def FuncDecl.isHelper (f : FuncDecl) : Bool := f.receiver.isNone && f.isExported

/-- The helpers that a module offers; of two with one name the later counts. -/
def Module.helpers (m : Module) : Helpers :=
  Table.ofList <| (m.funcs.filter FuncDecl.isHelper).filterMap fun f =>
    f.returnedFlags?.map (m.path.qualify f.name, ·)

def Helpers.toJson (helpers : Helpers) : Json :=
  .obj (helpers.entries.map fun (name, flags) => (name, flags.toJson))

end FieldOrder
