/-
# Trees with hollow function literals

A function literal is hollow when its body is empty. Two trees are the same but for the
bodies of function literals when nothing tells them apart once all function literals in
them are made hollow (`Expr.hollow`, and so on up to `FuncDecl.hollow`); this covers any
number of bodies, in other function literals too.

What a function literal has in its body is no answer to any question about an expression
around it, and its statements are not among those outside expressions.

Key definitions: `Expr.hollow`, `Stmt.hollow`, `FuncDecl.hollow`.
Key theorems: `Expr.unparen_hollow`, `Expr.composite?_hollow`, `Stmt.parts_hollow`.
-/
import FieldOrder.Proofs.Syntax.Parts

namespace FieldOrder

/-! ### Emptying function literals -/

mutual

/-- The expression with all function literals hollow. -/
def Expr.hollow : Expr → Expr
  | .ident name pos => .ident name pos
  | .lit kind value pos => .lit kind value pos
  | .selector x sel pos => .selector x.hollow sel pos
  | .call callee args pos => .call callee.hollow (hollowExprs args) pos
  | .composite type elements pos => .composite type (hollowElements elements) pos
  | .unary op x => .unary op x.hollow
  | .star x => .star x.hollow
  | .binary op x y => .binary op x.hollow y.hollow
  | .paren x => .paren x.hollow
  | .typeAssert x type => .typeAssert x.hollow type
  | .index x i => .index x.hollow i.hollow
  | .funcLit _ pos => .funcLit [] pos
  | .other => .other

/-- The element with all function literals hollow. -/
def Element.hollow : Element → Element
  | ⟨key, value⟩ => ⟨hollowExpr? key, value.hollow⟩

def hollowExprs : List Expr → List Expr
  | [] => []
  | x :: rest => x.hollow :: hollowExprs rest

def hollowExpr? : Option Expr → Option Expr
  | none => none
  | some x => some x.hollow

def hollowElements : List Element → List Element
  | [] => []
  | el :: rest => el.hollow :: hollowElements rest

end

mutual

/-- The statement with all function literals hollow. -/
def Stmt.hollow : Stmt → Stmt
  | .assign lhs rhs define pos => .assign (lhs.map Expr.hollow) (rhs.map Expr.hollow) define pos
  | .var names type values pos => .var names type (values.map Expr.hollow) pos
  | .expr x => .expr x.hollow
  | .ret results pos => .ret (results.map Expr.hollow) pos
  | .cond init test yes no =>
    .cond (hollowStmt? init) test.hollow (hollowStmts yes) (hollowStmt? no)
  | .loop init test post body =>
    .loop (hollowStmt? init) (test.map Expr.hollow) (hollowStmt? post) (hollowStmts body)
  | .range key value x body =>
    .range (key.map Expr.hollow) (value.map Expr.hollow) x.hollow (hollowStmts body)
  | .switch init subject cases =>
    .switch (hollowStmt? init) (subject.map Expr.hollow) (hollowCases cases)
  | .block body => .block (hollowStmts body)
  | .defer call => .defer call.hollow
  | .go call => .go call.hollow
  | .other => .other

def hollowStmts : List Stmt → List Stmt
  | [] => []
  | s :: rest => s.hollow :: hollowStmts rest

def hollowStmt? : Option Stmt → Option Stmt
  | none => none
  | some s => some s.hollow

def hollowCases : List CaseClause → List CaseClause
  | [] => []
  | ⟨exprs, body⟩ :: rest => ⟨exprs.map Expr.hollow, hollowStmts body⟩ :: hollowCases rest

end

/-- The function with all function literals in it hollow. -/
def FuncDecl.hollow (f : FuncDecl) : FuncDecl := { f with body := f.body.map (·.map Stmt.hollow) }

theorem hollowExpr?_eq_map (e : Option Expr) : hollowExpr? e = e.map Expr.hollow := by
  cases e with
  | none => rfl
  | some x => rfl

theorem hollowElements_eq_map (els : List Element) : hollowElements els = els.map Element.hollow := by
  induction els with
  | nil => rfl
  | cons el rest ih => rw [hollowElements, ih, List.map_cons]

theorem hollowStmts_eq_map (ss : List Stmt) : hollowStmts ss = ss.map Stmt.hollow := by
  induction ss with
  | nil => rfl
  | cons s rest ih => rw [hollowStmts, ih, List.map_cons]

theorem toList_hollowStmt? (s : Option Stmt) : (hollowStmt? s).toList = s.toList.map Stmt.hollow := by
  cases s with
  | none => rfl
  | some s => rfl

theorem flatMap_body_hollowCases (cs : List CaseClause) :
    (hollowCases cs).flatMap (·.body) = (cs.flatMap (·.body)).map Stmt.hollow := by
  induction cs with
  | nil => rfl
  | cons c rest ih =>
    obtain ⟨exprs, body⟩ := c
    rw [hollowCases, List.flatMap_cons, ih, List.flatMap_cons, List.map_append, hollowStmts_eq_map]

/-! ### Questions about a node -/

namespace Expr

/-- Parentheses stay where they are. -/
theorem unparen_hollow (e : Expr) : e.hollow.unparen = e.unparen.hollow := by
  induction e using unparen.induct with
  | case1 x ih =>
    rw [hollow, unparen_paren, unparen_paren]
    exact ih
  | case2 e he =>
    cases e with
    | paren x => exact absurd rfl (he x)
    | _ => rfl

theorem ident?_hollow (e : Expr) : e.hollow.ident? = e.ident? := by
  unfold ident?
  rw [unparen_hollow]
  cases h : e.unparen with
  | paren x => exact absurd h (unparen_ne_paren e x)
  | _ => rfl

theorem string?_hollow (e : Expr) : e.hollow.string? = e.string? := by
  unfold string?
  rw [unparen_hollow]
  cases h : e.unparen with
  | paren x => exact absurd h (unparen_ne_paren e x)
  | _ => rfl

theorem calleeName?_hollow (e : Expr) : e.hollow.calleeName? = e.calleeName? := by
  unfold calleeName?
  rw [unparen_hollow]
  cases h : e.unparen with
  | paren x => exact absurd h (unparen_ne_paren e x)
  | _ => rfl

/-- The literal behind an expression is the same, but for what its elements hold. -/
theorem composite?_hollow (e : Expr) : e.hollow.composite? =
    e.composite?.map fun (type, elements, pos) => (type, elements.map Element.hollow, pos) := by
  unfold composite?
  rw [unparen_hollow]
  cases h : e.unparen with
  | paren x => exact absurd h (unparen_ne_paren e x)
  | composite type elements pos => simp [hollow, hollowElements_eq_map]
  | unary op x =>
    cases op with
    | addr =>
      simp only [hollow, unparen_hollow]
      cases hx : x.unparen with
      | paren y => exact absurd hx (unparen_ne_paren x y)
      | composite type elements pos => simp [hollow, hollowElements_eq_map]
      | _ => rfl
    | _ => rfl
  | _ => rfl

end Expr

/-- The statements right below a statement are the same, but for function literals. -/
theorem Stmt.parts_hollow (s : Stmt) : s.hollow.parts = s.parts.map Stmt.hollow := by
  cases s with
  | cond init test yes no => simp [hollow, parts, toList_hollowStmt?, hollowStmts_eq_map]
  | loop init test post body => simp [hollow, parts, toList_hollowStmt?, hollowStmts_eq_map]
  | range key value x body => exact hollowStmts_eq_map body
  | switch init subject cases =>
    simp only [hollow, parts, toList_hollowStmt?, flatMap_body_hollowCases, List.map_append]
  | block body => exact hollowStmts_eq_map body
  | _ => rfl

end FieldOrder
