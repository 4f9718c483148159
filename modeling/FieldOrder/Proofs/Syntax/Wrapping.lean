/-
# Wrapping statements

A run of statements in a row can be put inside one statement that does nothing else: a
block, the branch of a condition, the body of a loop or of the only case of a switch, or
a function literal that is deferred or called on the spot (`Stmt.Wraps`). What such a
statement has besides the run, a condition for example, calls nothing and contains no
function literal (`Expr.Inert`).

`Node.Wrapped` says that two trees are the same but for one such run. The run may stand
at any depth, in a function literal somewhere in an expression too: there is one rule
for each place in which a node can have another.

Key definitions: `Expr.Inert`, `Expr.RunsLiteral`, `Stmt.Wraps`, `Node.Wrapped`.
Key theorems: `Expr.Inert.stmtFree`.
-/
import FieldOrder.Proofs.Syntax.Children

namespace FieldOrder

/-! ### Statements around a run -/

/-- Whether a node is a call. -/
def Node.isCall : Node → Bool
  | expr (.call ..) => true
  | _ => false

namespace Expr

/-- A walk of the expression meets no call and no function literal. -/
def Inert (e : Expr) : Prop := ∀ n ∈ e.nodes, n.isCall = false ∧ n.isFuncLit = false

/-- The expression calls a function literal with this body, without arguments. -/
def RunsLiteral (e : Expr) (body : List Stmt) : Prop :=
  ∃ callee pos pos', e.unparen = .call callee [] pos ∧ callee.unparen = .funcLit body pos'

theorem Inert.literalFree {e : Expr} (h : e.Inert) : e.LiteralFree := fun n hn => (h n hn).2

theorem Inert.stmtFree {e : Expr} (h : e.Inert) : e.StmtFree := h.literalFree.stmtFree

end Expr

/-- The statement contains the run and, besides, only inert expressions. -/
inductive Stmt.Wraps (run : List Stmt) : Stmt → Prop where
  | block : Wraps run (.block run)
  | cond {test : Expr} (htest : test.Inert) : Wraps run (.cond none test run none)
  | loop {test : Option Expr} (htest : ∀ e ∈ test, e.Inert) : Wraps run (.loop none test none run)
  | range {key value : Option Expr} {x : Expr} (hkey : ∀ e ∈ key, e.Inert)
    (hvalue : ∀ e ∈ value, e.Inert) (hx : x.Inert) : Wraps run (.range key value x run)
  | switch {subject : Option Expr} {exprs : List Expr} (hsubject : ∀ e ∈ subject, e.Inert)
    (hexprs : ∀ e ∈ exprs, e.Inert) : Wraps run (.switch none subject [⟨exprs, run⟩])
  | defer {call : Expr} (hcall : call.RunsLiteral run) : Wraps run (.defer call)
  | call {call : Expr} (hcall : call.RunsLiteral run) : Wraps run (.expr call)

/-! ### One run at any depth -/

/-- The second tree is the first with one run of statements wrapped. Statements in a row
count as the block of which they are the body. -/
inductive Node.Wrapped : Node → Node → Prop where
  | run {before run after : List Stmt} {w : Stmt} (hw : w.Wraps run) :
    Wrapped (.stmt (.block (before ++ run ++ after))) (.stmt (.block (before ++ w :: after)))
  /-- A statement that does not stand in a row, such as that behind an `else`. -/
  | alone {s w : Stmt} (hw : w.Wraps [s]) : Wrapped (.stmt s) (.stmt w)
  | block {before after : List Stmt} {s s' : Stmt} (h : Wrapped (.stmt s) (.stmt s')) :
    Wrapped (.stmt (.block (before ++ s :: after))) (.stmt (.block (before ++ s' :: after)))
  | selector {x x' : Expr} {sel : String} {pos : Pos} (h : Wrapped (.expr x) (.expr x')) :
    Wrapped (.expr (.selector x sel pos)) (.expr (.selector x' sel pos))
  | callee {x x' : Expr} {args : List Expr} {pos : Pos} (h : Wrapped (.expr x) (.expr x')) :
    Wrapped (.expr (.call x args pos)) (.expr (.call x' args pos))
  | arg {callee x x' : Expr} {before after : List Expr} {pos : Pos}
    (h : Wrapped (.expr x) (.expr x')) :
    Wrapped (.expr (.call callee (before ++ x :: after) pos))
      (.expr (.call callee (before ++ x' :: after) pos))
  | composite {type : Option TypeExpr} {before after : List Element} {el el' : Element} {pos : Pos}
    (h : Wrapped (.element el) (.element el')) :
    Wrapped (.expr (.composite type (before ++ el :: after) pos))
      (.expr (.composite type (before ++ el' :: after) pos))
  | key {x x' value : Expr} (h : Wrapped (.expr x) (.expr x')) :
    Wrapped (.element ⟨some x, value⟩) (.element ⟨some x', value⟩)
  | value {key : Option Expr} {x x' : Expr} (h : Wrapped (.expr x) (.expr x')) :
    Wrapped (.element ⟨key, x⟩) (.element ⟨key, x'⟩)
  | unary {op : UnaryOp} {x x' : Expr} (h : Wrapped (.expr x) (.expr x')) :
    Wrapped (.expr (.unary op x)) (.expr (.unary op x'))
  | star {x x' : Expr} (h : Wrapped (.expr x) (.expr x')) :
    Wrapped (.expr (.star x)) (.expr (.star x'))
  | left {op : String} {x x' y : Expr} (h : Wrapped (.expr x) (.expr x')) :
    Wrapped (.expr (.binary op x y)) (.expr (.binary op x' y))
  | right {op : String} {x y y' : Expr} (h : Wrapped (.expr y) (.expr y')) :
    Wrapped (.expr (.binary op x y)) (.expr (.binary op x y'))
  | paren {x x' : Expr} (h : Wrapped (.expr x) (.expr x')) :
    Wrapped (.expr (.paren x)) (.expr (.paren x'))
  | typeAssert {x x' : Expr} {type : Option TypeExpr} (h : Wrapped (.expr x) (.expr x')) :
    Wrapped (.expr (.typeAssert x type)) (.expr (.typeAssert x' type))
  | indexed {x x' i : Expr} (h : Wrapped (.expr x) (.expr x')) :
    Wrapped (.expr (.index x i)) (.expr (.index x' i))
  | index {x i i' : Expr} (h : Wrapped (.expr i) (.expr i')) :
    Wrapped (.expr (.index x i)) (.expr (.index x i'))
  | funcLit {body body' : List Stmt} {pos : Pos}
    (h : Wrapped (.stmt (.block body)) (.stmt (.block body'))) :
    Wrapped (.expr (.funcLit body pos)) (.expr (.funcLit body' pos))
  | target {before after rhs : List Expr} {x x' : Expr} {define : Bool} {pos : Pos}
    (h : Wrapped (.expr x) (.expr x')) :
    Wrapped (.stmt (.assign (before ++ x :: after) rhs define pos))
      (.stmt (.assign (before ++ x' :: after) rhs define pos))
  | assigned {lhs before after : List Expr} {x x' : Expr} {define : Bool} {pos : Pos}
    (h : Wrapped (.expr x) (.expr x')) :
    Wrapped (.stmt (.assign lhs (before ++ x :: after) define pos))
      (.stmt (.assign lhs (before ++ x' :: after) define pos))
  | var {names : List String} {type : Option TypeExpr} {before after : List Expr} {x x' : Expr}
    {pos : Pos} (h : Wrapped (.expr x) (.expr x')) :
    Wrapped (.stmt (.var names type (before ++ x :: after) pos))
      (.stmt (.var names type (before ++ x' :: after) pos))
  | expr {x x' : Expr} (h : Wrapped (.expr x) (.expr x')) :
    Wrapped (.stmt (.expr x)) (.stmt (.expr x'))
  | ret {before after : List Expr} {x x' : Expr} {pos : Pos} (h : Wrapped (.expr x) (.expr x')) :
    Wrapped (.stmt (.ret (before ++ x :: after) pos)) (.stmt (.ret (before ++ x' :: after) pos))
  | condInit {s s' : Stmt} {test : Expr} {yes : List Stmt} {no : Option Stmt}
    (h : Wrapped (.stmt s) (.stmt s')) :
    Wrapped (.stmt (.cond (some s) test yes no)) (.stmt (.cond (some s') test yes no))
  | condTest {init no : Option Stmt} {test test' : Expr} {yes : List Stmt}
    (h : Wrapped (.expr test) (.expr test')) :
    Wrapped (.stmt (.cond init test yes no)) (.stmt (.cond init test' yes no))
  | condYes {init no : Option Stmt} {test : Expr} {yes yes' : List Stmt}
    (h : Wrapped (.stmt (.block yes)) (.stmt (.block yes'))) :
    Wrapped (.stmt (.cond init test yes no)) (.stmt (.cond init test yes' no))
  | condNo {init : Option Stmt} {test : Expr} {yes : List Stmt} {s s' : Stmt}
    (h : Wrapped (.stmt s) (.stmt s')) :
    Wrapped (.stmt (.cond init test yes (some s))) (.stmt (.cond init test yes (some s')))
  | loopInit {s s' : Stmt} {test : Option Expr} {post : Option Stmt} {body : List Stmt}
    (h : Wrapped (.stmt s) (.stmt s')) :
    Wrapped (.stmt (.loop (some s) test post body)) (.stmt (.loop (some s') test post body))
  | loopTest {init post : Option Stmt} {x x' : Expr} {body : List Stmt}
    (h : Wrapped (.expr x) (.expr x')) :
    Wrapped (.stmt (.loop init (some x) post body)) (.stmt (.loop init (some x') post body))
  | loopPost {init : Option Stmt} {test : Option Expr} {s s' : Stmt} {body : List Stmt}
    (h : Wrapped (.stmt s) (.stmt s')) :
    Wrapped (.stmt (.loop init test (some s) body)) (.stmt (.loop init test (some s') body))
  | loopBody {init post : Option Stmt} {test : Option Expr} {body body' : List Stmt}
    (h : Wrapped (.stmt (.block body)) (.stmt (.block body'))) :
    Wrapped (.stmt (.loop init test post body)) (.stmt (.loop init test post body'))
  | rangeKey {key key' x : Expr} {value : Option Expr} {body : List Stmt}
    (h : Wrapped (.expr key) (.expr key')) :
    Wrapped (.stmt (.range (some key) value x body)) (.stmt (.range (some key') value x body))
  | rangeValue {key : Option Expr} {value value' x : Expr} {body : List Stmt}
    (h : Wrapped (.expr value) (.expr value')) :
    Wrapped (.stmt (.range key (some value) x body)) (.stmt (.range key (some value') x body))
  | rangeOver {key value : Option Expr} {x x' : Expr} {body : List Stmt}
    (h : Wrapped (.expr x) (.expr x')) :
    Wrapped (.stmt (.range key value x body)) (.stmt (.range key value x' body))
  | rangeBody {key value : Option Expr} {x : Expr} {body body' : List Stmt}
    (h : Wrapped (.stmt (.block body)) (.stmt (.block body'))) :
    Wrapped (.stmt (.range key value x body)) (.stmt (.range key value x body'))
  | switchInit {s s' : Stmt} {subject : Option Expr} {cases : List CaseClause}
    (h : Wrapped (.stmt s) (.stmt s')) :
    Wrapped (.stmt (.switch (some s) subject cases)) (.stmt (.switch (some s') subject cases))
  | switchSubject {init : Option Stmt} {x x' : Expr} {cases : List CaseClause}
    (h : Wrapped (.expr x) (.expr x')) :
    Wrapped (.stmt (.switch init (some x) cases)) (.stmt (.switch init (some x') cases))
  | caseExpr {init : Option Stmt} {subject : Option Expr} {earlier later : List CaseClause}
    {before after : List Expr} {x x' : Expr} {body : List Stmt} (h : Wrapped (.expr x) (.expr x')) :
    Wrapped (.stmt (.switch init subject (earlier ++ ⟨before ++ x :: after, body⟩ :: later)))
      (.stmt (.switch init subject (earlier ++ ⟨before ++ x' :: after, body⟩ :: later)))
  | caseBody {init : Option Stmt} {subject : Option Expr} {earlier later : List CaseClause}
    {exprs : List Expr} {body body' : List Stmt}
    (h : Wrapped (.stmt (.block body)) (.stmt (.block body'))) :
    Wrapped (.stmt (.switch init subject (earlier ++ ⟨exprs, body⟩ :: later)))
      (.stmt (.switch init subject (earlier ++ ⟨exprs, body'⟩ :: later)))
  | defer {x x' : Expr} (h : Wrapped (.expr x) (.expr x')) :
    Wrapped (.stmt (.defer x)) (.stmt (.defer x'))
  | go {x x' : Expr} (h : Wrapped (.expr x) (.expr x')) :
    Wrapped (.stmt (.go x)) (.stmt (.go x'))

end FieldOrder
