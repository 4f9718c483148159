/-
# Walking a source tree

A walk meets every statement, expression and composite element inside a node
once, each before what it encloses and neighbours in source order. Every visit
keeps its trail, the nodes that enclose the one visited; the length of the trail
is the depth of the visit. Function literals are walked like any other block.

Key definitions: `Node`, `Visit`, `Stmt.visits`, `Block.visits`,
`SourceFile.visits`.
-/
import FieldOrder.Syntax.View

namespace FieldOrder

/-- What a walk meets. -/
inductive Node where
  | stmt (s : Stmt)
  | expr (e : Expr)
  | element (el : Element)

namespace Node

def stmt? : Node → Option Stmt
  | stmt s => some s
  | _ => none

def expr? : Node → Option Expr
  | expr e => some e
  | _ => none

def element? : Node → Option Element
  | element el => some el
  | _ => none

end Node

/-- A node met on a walk, with the nodes around it, innermost first. -/
structure Visit where
  trail : List Node
  node : Node

namespace Visit

/-- How many nodes enclose the one visited. -/
def depth (v : Visit) : Nat := v.trail.length

/-- Whether only statements enclose the node. -/
def isBare (v : Visit) : Bool := v.trail.all fun n => n.stmt?.isSome

end Visit

/-! ### What lies inside a node -/

mutual

/-- The visits strictly inside an expression; `trail` begins with the expression. -/
def Expr.inner (trail : List Node) : Expr → List Visit
  | .ident .. => []
  | .lit .. => []
  | .other => []
  | .selector x _ _ => ⟨trail, .expr x⟩ :: x.inner (.expr x :: trail)
  | .unary _ x => ⟨trail, .expr x⟩ :: x.inner (.expr x :: trail)
  | .star x => ⟨trail, .expr x⟩ :: x.inner (.expr x :: trail)
  | .paren x => ⟨trail, .expr x⟩ :: x.inner (.expr x :: trail)
  | .typeAssert x _ => ⟨trail, .expr x⟩ :: x.inner (.expr x :: trail)
  | .call callee args _ =>
    ⟨trail, .expr callee⟩ :: callee.inner (.expr callee :: trail) ++ exprVisits trail args
  | .composite _ elements _ => elementVisits trail elements
  | .binary _ x y =>
    ⟨trail, .expr x⟩ :: x.inner (.expr x :: trail) ++
      ⟨trail, .expr y⟩ :: y.inner (.expr y :: trail)
  | .index x i =>
    ⟨trail, .expr x⟩ :: x.inner (.expr x :: trail) ++
      ⟨trail, .expr i⟩ :: i.inner (.expr i :: trail)
  | .funcLit body _ => stmtVisits trail body

/-- The visits strictly inside an element: the key, then the value. -/
def Element.inner (trail : List Node) : Element → List Visit
  | ⟨key, value⟩ =>
    exprVisits? trail key ++ ⟨trail, .expr value⟩ :: value.inner (.expr value :: trail)

/-- The visits strictly inside a statement. -/
def Stmt.inner (trail : List Node) : Stmt → List Visit
  | .assign lhs rhs _ _ => exprVisits trail lhs ++ exprVisits trail rhs
  | .var _ _ values _ => exprVisits trail values
  | .expr x => ⟨trail, .expr x⟩ :: x.inner (.expr x :: trail)
  | .ret results _ => exprVisits trail results
  | .cond init test yes no =>
    stmtVisits? trail init ++ ⟨trail, .expr test⟩ :: test.inner (.expr test :: trail) ++
      stmtVisits trail yes ++ stmtVisits? trail no
  | .loop init test post body =>
    stmtVisits? trail init ++ exprVisits? trail test ++ stmtVisits? trail post ++
      stmtVisits trail body
  | .range key value x body =>
    exprVisits? trail key ++ exprVisits? trail value ++
      ⟨trail, .expr x⟩ :: x.inner (.expr x :: trail) ++ stmtVisits trail body
  | .switch init subject cases =>
    stmtVisits? trail init ++ exprVisits? trail subject ++ caseVisits trail cases
  | .block body => stmtVisits trail body
  | .defer call => ⟨trail, .expr call⟩ :: call.inner (.expr call :: trail)
  | .go call => ⟨trail, .expr call⟩ :: call.inner (.expr call :: trail)
  | .other => []

/-- The visits of expressions in a row. -/
def exprVisits (trail : List Node) : List Expr → List Visit
  | [] => []
  | x :: rest => ⟨trail, .expr x⟩ :: x.inner (.expr x :: trail) ++ exprVisits trail rest

/-- The visits of an expression that may be missing. -/
def exprVisits? (trail : List Node) : Option Expr → List Visit
  | none => []
  | some x => ⟨trail, .expr x⟩ :: x.inner (.expr x :: trail)

/-- The visits of elements in a row. -/
def elementVisits (trail : List Node) : List Element → List Visit
  | [] => []
  | el :: rest =>
    ⟨trail, .element el⟩ :: el.inner (.element el :: trail) ++ elementVisits trail rest

/-- The visits of statements in a row. -/
def stmtVisits (trail : List Node) : List Stmt → List Visit
  | [] => []
  | s :: rest => ⟨trail, .stmt s⟩ :: s.inner (.stmt s :: trail) ++ stmtVisits trail rest

/-- The visits of a statement that may be missing. -/
def stmtVisits? (trail : List Node) : Option Stmt → List Visit
  | none => []
  | some s => ⟨trail, .stmt s⟩ :: s.inner (.stmt s :: trail)

/-- The visits of the cases of a switch, for each its expressions and its body. -/
def caseVisits (trail : List Node) : List CaseClause → List Visit
  | [] => []
  | ⟨exprs, body⟩ :: rest =>
    exprVisits trail exprs ++ stmtVisits trail body ++ caseVisits trail rest

end

/-! ### Walks -/

/-- The walk of a block. -/
def blockVisits (body : List Stmt) : List Visit := stmtVisits [] body

/-- The walk of a declaration: the body of a function, the values of variables. -/
def Decl.visits : Decl → List Visit
  | .func decl => (decl.body.map blockVisits).getD []
  | .type _ => []
  | .var decl => exprVisits [] decl.values

/-- The walk of a file. -/
def SourceFile.visits (f : SourceFile) : List Visit := f.decls.flatMap Decl.visits

/-- The statements of a block that stand outside expressions, at any depth, in
source order. -/
def bareStmts (body : List Stmt) : List Stmt :=
  (blockVisits body).filterMap fun v => if v.isBare then v.node.stmt? else none

end FieldOrder
