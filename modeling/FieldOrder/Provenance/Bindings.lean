/-
# Bindings

Inside one function, which variables hold a configuration field, and which hold
an identifier put together by a constructor `New…ID` or `Parse…ID`. The tables
are filled in source order from all statements of the body, function literals
included. A variable that is bound anew in one of the tables keeps what it has in
the others.

Key definitions: `Tracer`, `Tracer.fieldRead?`, `Bindings`,
`Bindings.resolveArgs`, `Bindings.collect`.
-/
import FieldOrder.Config
import FieldOrder.Provenance.Model
import FieldOrder.Resolution
import FieldOrder.Syntax.Visit

namespace FieldOrder

/-- What is needed to follow fields through a function. -/
structure Tracer where
  mapping : ModelMapping
  accessorReceivers : List String
  commitReceivers : List String

/-- The tracer for a mapping and a configuration. -/
def Tracer.ofConfig (mapping : ModelMapping) (config : Config) : Tracer :=
  ⟨mapping, config.accessorReceivers, config.commitReceivers⟩

/-! ### Reading fields -/

/-- The expression without its parentheses and without one type assertion. -/
def Expr.unassert (e : Expr) : Expr :=
  match e.unparen with
  | .typeAssert x _ => x.unparen
  | x => x

/-- The schema field that an expression reads: `d.Get("x")` or `d.GetOk("x")` on an
accessor receiver, or a member of the model. -/
def Tracer.fieldRead? (tracer : Tracer) (e : Expr) : Option String :=
  match e.unassert with
  | .call callee args _ =>
    match callee.unparen with
    | .selector x sel _ =>
      match x.ident? with
      | some receiver =>
        if (sel == "Get" || sel == "GetOk") && tracer.accessorReceivers.contains receiver then
          args.head?.bind Expr.string?
        else none
      | none => none
    | _ => none
  | .selector _ sel _ => tracer.mapping.get? sel
  | _ => none

/-! ### Constructors -/

/-- The two kinds of identifier constructors. -/
inductive ConstructorKind where
  | new
  | parse
  deriving DecidableEq, Repr

/-- The kind of constructor that a name stands for. -/
def ConstructorKind.ofName? (name : String) : Option ConstructorKind :=
  if !Text.endsWith name "ID" then none
  else if Text.startsWith name "New" then some new
  else if Text.startsWith name "Parse" then some parse
  else none

/-- The kind and the arguments of a call of a constructor. -/
def Expr.constructor? (e : Expr) : Option (ConstructorKind × List Expr) :=
  match e.unparen with
  | .call callee args _ => (callee.calleeName?.bind ConstructorKind.ofName?).map (·, args)
  | _ => none

/-- Pieces of names that stand for a scope (a subscription, a tenant), never for a
schema field. -/
def scopeHints : List String := ["subscription", "tenant", "subid"]

/-- Whether an identifier or a selected member is named for a scope. Case does not
matter; no letter outside ASCII has a letter of a hint for its lower case, except
for one that leaves a combining dot behind its `i`, which no hint has. -/
def Expr.isScope (e : Expr) : Bool :=
  match e.calleeName? with
  | some name => scopeHints.any fun hint => Text.occurs hint.toList (name.toList.map Char.toLower)
  | none => false

/-- A list with a further member, unless it has it already. -/
def pushUnique (fields : List String) (field : String) : List String :=
  if fields.contains field then fields else fields ++ [field]

/-! ### Tables of variables -/

/-- What the variables of a function hold. -/
structure Bindings where
  /-- The schema field that a variable holds. -/
  fields : Table String String := {}
  /-- The schema fields of the constructor call that a variable holds. -/
  ids : Table String (Resolution (List String)) := {}
  /-- The one schema field that a parsed identifier came from. -/
  parents : Table String (Resolution String) := {}

namespace Bindings

/-- What is known of a member of a parsed identifier. -/
def parentMember? (b : Bindings) (e : Expr) : Option (Resolution String) :=
  match e.unparen with
  | .selector x _ _ => x.ident?.bind b.parents.get?
  | _ => none

/-- The schema field that an expression reads or a variable holds. -/
def fieldOf? (b : Bindings) (tracer : Tracer) (e : Expr) : Option String :=
  match tracer.fieldRead? e with
  | some field => some field
  | none => e.ident?.bind b.fields.get?

/-- What a single argument of a constructor contributes; `first` for the first one.
`none` when the call cannot be resolved, `some none` when the argument is left
out. -/
def argField? (b : Bindings) (tracer : Tracer) (first : Bool) (arg : Expr) :
    Option (Option String) :=
  match b.parentMember? arg with
  | some (.resolved field) => some (some field)
  | some _ => none
  | none =>
    match b.fieldOf? tracer arg with
    | some field => some (some field)
    | none => if first && arg.isScope then some none else none

/-- The schema fields of the arguments from one on, after those already found. -/
def resolveFrom (b : Bindings) (tracer : Tracer) (first : Bool) (fields : List String) :
    List Expr → Resolution (List String)
  | [] => .resolved fields
  | arg :: rest =>
    match b.argField? tracer first arg with
    | none => .unresolvable
    | some none => b.resolveFrom tracer false fields rest
    | some (some field) => b.resolveFrom tracer false (pushUnique fields field) rest

/-- The schema fields that the arguments of a constructor stand for, in order, each
once. Members of a parsed identifier stand for the one field it came from. A scope
in first place is left out; any other argument that is no field makes the whole
call unresolvable. -/
def resolveArgs (b : Bindings) (tracer : Tracer) (args : List Expr) :
    Resolution (List String) := b.resolveFrom tracer true [] args

/-- The one field that a parsed identifier came from. -/
def parentOf : Resolution (List String) → Resolution String
  | .resolved [field] => .resolved field
  | _ => .unresolvable

/-- The tables after a variable is given a value. -/
def bind (tracer : Tracer) (b : Bindings) (name : String) (value : Expr) : Bindings :=
  match tracer.fieldRead? value with
  | some field => { b with fields := b.fields.insert name field }
  | none =>
    match value.constructor? with
    | none => b
    | some (kind, args) =>
      let fields := b.resolveArgs tracer args
      let b := match kind with
        | .new => b
        | .parse => { b with parents := b.parents.insert name (parentOf fields) }
      { b with ids := b.ids.insert name fields }

end Bindings

/-! ### Filling the tables -/

/-- The variables that a statement gives values to, with the values. A single value
goes to the first target. -/
def Stmt.bindings : Stmt → List (String × Expr)
  | .assign lhs [value] _ _ => ((lhs.head?.bind Expr.ident?).map (·, value)).toList
  | .assign lhs rhs _ _ =>
    (lhs.zip rhs).filterMap fun (target, value) => target.ident?.map (·, value)
  | .var names _ values _ => names.zip values
  | _ => []

/-- The variables that a block gives values to, in source order. -/
def blockBindings (body : List Stmt) : List (String × Expr) :=
  (blockVisits body).flatMap fun v => (v.node.stmt?.map Stmt.bindings).getD []

/-- The tables of a block. -/
def Bindings.collect (tracer : Tracer) (body : List Stmt) : Bindings :=
  (blockBindings body).foldl (fun b (name, value) => b.bind tracer name value) {}

end FieldOrder
