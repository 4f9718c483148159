/-
# Trees without parentheses

Parentheses group what a source text says and say nothing themselves. Two trees are the
same but for parentheses when nothing tells them apart once all parentheses are taken
away (`Expr.deparen`, and so on up to `ModuleFacts.deparen`).

Every question about one node strips the parentheses it meets, so it has one answer for
both (`Expr.ident?_deparen` and the like). A walk of the tree without parentheses meets
what a walk of the tree meets, but for the parentheses, and what lies around a node looks
the same from there (`blockVisits_alike`, `SourceFile.visits_alike`). A question put to all
visits therefore has the same answers (`SameWalk.filterMap_eq`).

Key definitions: `Expr.deparen`, `ModuleFacts.deparen`, `Visit.Alike`, `SameWalk`.
Key theorems: `Expr.unparen_deparen`, `Expr.composite?_deparen`, `SameWalk.filterMap_eq`,
`SourceFile.visits_alike`, `bareStmts_deparen`.
-/
import FieldOrder.Proofs.Syntax.Walk
import FieldOrder.Schema.Literal

namespace FieldOrder

/-! ### Taking parentheses away -/

mutual

/-- The expression without the parentheses around it and in it. -/
def Expr.deparen : Expr → Expr
  | .ident name pos => .ident name pos
  | .lit kind value pos => .lit kind value pos
  | .selector x sel pos => .selector x.deparen sel pos
  | .call callee args pos => .call callee.deparen (deparenExprs args) pos
  | .composite type elements pos => .composite type (deparenElements elements) pos
  | .unary op x => .unary op x.deparen
  | .star x => .star x.deparen
  | .binary op x y => .binary op x.deparen y.deparen
  | .paren x => x.deparen
  | .typeAssert x type => .typeAssert x.deparen type
  | .index x i => .index x.deparen i.deparen
  | .funcLit body pos => .funcLit (deparenStmts body) pos
  | .other => .other

/-- The element without parentheses in its key and its value. -/
def Element.deparen : Element → Element
  | ⟨key, value⟩ => ⟨deparenExpr? key, value.deparen⟩

/-- The statement without parentheses in it. -/
def Stmt.deparen : Stmt → Stmt
  | .assign lhs rhs define pos => .assign (deparenExprs lhs) (deparenExprs rhs) define pos
  | .var names type values pos => .var names type (deparenExprs values) pos
  | .expr x => .expr x.deparen
  | .ret results pos => .ret (deparenExprs results) pos
  | .cond init test yes no =>
    .cond (deparenStmt? init) test.deparen (deparenStmts yes) (deparenStmt? no)
  | .loop init test post body =>
    .loop (deparenStmt? init) (deparenExpr? test) (deparenStmt? post) (deparenStmts body)
  | .range key value x body =>
    .range (deparenExpr? key) (deparenExpr? value) x.deparen (deparenStmts body)
  | .switch init subject cases =>
    .switch (deparenStmt? init) (deparenExpr? subject) (deparenCases cases)
  | .block body => .block (deparenStmts body)
  | .defer call => .defer call.deparen
  | .go call => .go call.deparen
  | .other => .other

def deparenExprs : List Expr → List Expr
  | [] => []
  | x :: rest => x.deparen :: deparenExprs rest

def deparenExpr? : Option Expr → Option Expr
  | none => none
  | some x => some x.deparen

def deparenElements : List Element → List Element
  | [] => []
  | el :: rest => el.deparen :: deparenElements rest

def deparenStmts : List Stmt → List Stmt
  | [] => []
  | s :: rest => s.deparen :: deparenStmts rest

def deparenStmt? : Option Stmt → Option Stmt
  | none => none
  | some s => some s.deparen

def deparenCases : List CaseClause → List CaseClause
  | [] => []
  | ⟨exprs, body⟩ :: rest => ⟨deparenExprs exprs, deparenStmts body⟩ :: deparenCases rest

end

@[simp] theorem deparenExprs_eq_map (es : List Expr) : deparenExprs es = es.map Expr.deparen := by
  induction es with
  | nil => rfl
  | cons x rest ih => rw [deparenExprs, ih, List.map_cons]

@[simp] theorem deparenExpr?_eq_map (e : Option Expr) : deparenExpr? e = e.map Expr.deparen := by
  cases e with
  | none => rfl
  | some x => rfl

@[simp] theorem deparenElements_eq_map (els : List Element) :
    deparenElements els = els.map Element.deparen := by
  induction els with
  | nil => rfl
  | cons el rest ih => rw [deparenElements, ih, List.map_cons]

@[simp] theorem deparenStmts_eq_map (ss : List Stmt) : deparenStmts ss = ss.map Stmt.deparen := by
  induction ss with
  | nil => rfl
  | cons s rest ih => rw [deparenStmts, ih, List.map_cons]

/-- The function without parentheses in its body. -/
def FuncDecl.deparen (f : FuncDecl) : FuncDecl := { f with body := f.body.map (·.map Stmt.deparen) }

/-- The declaration without parentheses in its values. -/
def VarDecl.deparen (d : VarDecl) : VarDecl := { d with values := d.values.map Expr.deparen }

/-- The declaration without parentheses. -/
def Decl.deparen : Decl → Decl
  | .func decl => .func decl.deparen
  | .type decl => .type decl
  | .var decl => .var decl.deparen

/-- The file without parentheses. -/
def SourceFile.deparen (f : SourceFile) : SourceFile := { f with decls := f.decls.map Decl.deparen }

/-- The module without parentheses. -/
def Module.deparen (m : Module) : Module := { m with files := m.files.map SourceFile.deparen }

/-- The same facts about the module without parentheses. -/
def ModuleFacts.deparen (facts : ModuleFacts) : ModuleFacts :=
  { facts with module := facts.module.deparen }

/-! ### Questions about a node -/

namespace Expr

/-- The parentheses around an expression go first, or last. -/
theorem unparen_deparen (e : Expr) : e.deparen.unparen = e.unparen.deparen := by
  induction e using unparen.induct with
  | case1 x ih => exact ih
  | case2 e he =>
    cases e with
    | paren x => exact absurd rfl (he x)
    | _ => rfl

@[simp] theorem pos?_deparen (e : Expr) : e.deparen.pos? = e.pos? := by
  induction e using unparen.induct with
  | case1 x ih => exact ih
  | case2 e he =>
    cases e with
    | paren x => exact absurd rfl (he x)
    | _ => rfl

@[simp] theorem ident?_deparen (e : Expr) : e.deparen.ident? = e.ident? := by
  unfold ident?
  rw [unparen_deparen]
  cases h : e.unparen with
  | paren x => exact absurd h (unparen_ne_paren e x)
  | _ => rfl

@[simp] theorem string?_deparen (e : Expr) : e.deparen.string? = e.string? := by
  unfold string?
  rw [unparen_deparen]
  cases h : e.unparen with
  | paren x => exact absurd h (unparen_ne_paren e x)
  | _ => rfl

@[simp] theorem calleeName?_deparen (e : Expr) : e.deparen.calleeName? = e.calleeName? := by
  unfold calleeName?
  rw [unparen_deparen]
  cases h : e.unparen with
  | paren x => exact absurd h (unparen_ne_paren e x)
  | _ => rfl

/-- The literal behind an expression is the same, but for parentheses in its elements. -/
@[simp] theorem composite?_deparen (e : Expr) : e.deparen.composite? =
    e.composite?.map fun (type, elements, pos) => (type, elements.map Element.deparen, pos) := by
  unfold composite?
  rw [unparen_deparen]
  cases h : e.unparen with
  | paren x => exact absurd h (unparen_ne_paren e x)
  | composite type elements pos => simp [deparen]
  | unary op x =>
    cases op with
    | addr =>
      simp only [deparen, unparen_deparen]
      cases hx : x.unparen with
      | paren y => exact absurd hx (unparen_ne_paren x y)
      | composite type elements pos => simp [deparen]
      | _ => rfl
    | _ => rfl
  | _ => rfl

end Expr

@[simp] theorem Element.key_deparen (el : Element) : el.deparen.key = el.key.map Expr.deparen := by
  cases el
  simp [deparen]

@[simp] theorem Element.value_deparen (el : Element) : el.deparen.value = el.value.deparen := by
  cases el
  rfl

@[simp] theorem Element.keyIdent?_deparen (el : Element) : el.deparen.keyIdent? = el.keyIdent? := by
  cases h : el.key with
  | none => simp [keyIdent?, h]
  | some key => simp [keyIdent?, h]

/-! ### Walks -/

/-- The node without parentheses. -/
def Node.deparen : Node → Node
  | stmt s => stmt s.deparen
  | expr e => expr e.deparen
  | element el => element el.deparen

theorem Node.stmt?_deparen (n : Node) : n.deparen.stmt? = n.stmt?.map Stmt.deparen := by
  cases n with
  | stmt s => rfl
  | expr e => rfl
  | element el => rfl

/-- Whether an element `Elem` is on a trail. -/
def nestedIn (trail : List Node) : Bool :=
  trail.any fun n => n.element?.any fun el => el.keyIdent? == some "Elem"

/-- Whether a trail has only statements. -/
def bareIn (trail : List Node) : Bool := trail.all fun n => n.stmt?.isSome

/-- The first visit is not to parentheses, the second is to the same node without
parentheses, and what lies around looks the same. Expressions around are of interest to
statements only. -/
structure Visit.Alike (v v' : Visit) : Prop where
  notParen : ∀ x, v.node ≠ .expr (.paren x)
  node : v'.node = v.node.deparen
  nested : v'.isNested = v.isNested
  bare : v.node.stmt?.isSome → v'.isBare = v.isBare

/-- The second walk meets what the first meets, but for parentheses. -/
inductive SameWalk : List Visit → List Visit → Prop where
  | nil : SameWalk [] []
  | paren {trail : List Node} {x : Expr} {vs vs' : List Visit} (h : SameWalk vs vs') :
    SameWalk (⟨trail, .expr (.paren x)⟩ :: vs) vs'
  | cons {v v' : Visit} {vs vs' : List Visit} (hv : v.Alike v') (h : SameWalk vs vs') :
    SameWalk (v :: vs) (v' :: vs')

namespace SameWalk

variable {vs vs' ws ws' : List Visit}

theorem append (h : SameWalk vs vs') (hw : SameWalk ws ws') : SameWalk (vs ++ ws) (vs' ++ ws') := by
  induction h with
  | nil => exact hw
  | paren _ ih => exact .paren ih
  | cons hv _ ih => exact .cons hv ih

/-- A question that no parentheses answer has the same answers on both walks. -/
theorem filterMap_eq {α : Type} {ask ask' : Visit → Option α} (h : SameWalk vs vs')
    (hparen : ∀ trail x, ask ⟨trail, .expr (.paren x)⟩ = none)
    (hask : ∀ v v' : Visit, v.Alike v' → ask' v' = ask v) : vs'.filterMap ask' = vs.filterMap ask := by
  induction h with
  | nil => rfl
  | paren _ ih => rw [List.filterMap_cons, hparen, ih]
  | cons hv _ ih => rw [List.filterMap_cons, List.filterMap_cons, hask _ _ hv, ih]

variable {t t' : List Node}

/-- An expression is met with what is met inside it. -/
theorem expr {e : Expr} (he : ∀ x, e ≠ .paren x) (h : nestedIn t' = nestedIn t)
    (hvs : SameWalk vs vs') : SameWalk (⟨t, .expr e⟩ :: vs) (⟨t', .expr e.deparen⟩ :: vs') :=
  .cons ⟨fun x hx => he x (Node.expr.inj hx), rfl, h, fun hstmt => by cases hstmt⟩ hvs

theorem element (h : nestedIn t' = nestedIn t) (el : Element) (hvs : SameWalk vs vs') :
    SameWalk (⟨t, .element el⟩ :: vs) (⟨t', .element el.deparen⟩ :: vs') :=
  .cons ⟨nofun, rfl, h, fun hstmt => by cases hstmt⟩ hvs

theorem stmt (h : nestedIn t' = nestedIn t) (hb : bareIn t' = bareIn t) (s : Stmt)
    (hvs : SameWalk vs vs') : SameWalk (⟨t, .stmt s⟩ :: vs) (⟨t', .stmt s.deparen⟩ :: vs') :=
  .cons ⟨nofun, rfl, h, fun _ => hb⟩ hvs

end SameWalk

theorem nestedIn_expr {e e' : Expr} {t t' : List Node} (h : nestedIn t' = nestedIn t) :
    nestedIn (.expr e' :: t') = nestedIn (.expr e :: t) := h

theorem nestedIn_stmt {s s' : Stmt} {t t' : List Node} (h : nestedIn t' = nestedIn t) :
    nestedIn (.stmt s' :: t') = nestedIn (.stmt s :: t) := h

theorem bareIn_stmt {s s' : Stmt} {t t' : List Node} (h : bareIn t' = bareIn t) :
    bareIn (.stmt s' :: t') = bareIn (.stmt s :: t) := h

theorem nestedIn_element {el : Element} {t t' : List Node} (h : nestedIn t' = nestedIn t) :
    nestedIn (.element el.deparen :: t') = nestedIn (.element el :: t) := by
  simp only [nestedIn, List.any_cons, Node.element?, Option.any_some, Element.keyIdent?_deparen]
  exact congrArg _ h

-- Whether statements are met outside expressions matters for walks of statements only:
-- inside an expression that is not in parentheses they never are, whatever the trail.
mutual

theorem Expr.walk_alike : ∀ (e : Expr) {t t' : List Node}, nestedIn t' = nestedIn t →
    SameWalk (⟨t, .expr e⟩ :: e.inner (.expr e :: t))
      (⟨t', .expr e.deparen⟩ :: e.deparen.inner (.expr e.deparen :: t'))
  | .ident .., _, _, h | .lit .., _, _, h | .other, _, _, h => .expr nofun h .nil
  | .selector x _ _, _, _, h | .unary _ x, _, _, h | .star x, _, _, h | .typeAssert x _, _, _, h =>
    .expr nofun h (x.walk_alike (nestedIn_expr h))
  | .paren x, _, _, h => .paren (x.walk_alike h)
  | .call callee args _, _, _, h =>
    .expr nofun h ((callee.walk_alike (nestedIn_expr h)).append (exprVisits_alike args (nestedIn_expr h)))
  | .composite _ elements _, _, _, h => .expr nofun h (elementVisits_alike elements (nestedIn_expr h))
  | .binary _ x y, _, _, h =>
    .expr nofun h ((x.walk_alike (nestedIn_expr h)).append (y.walk_alike (nestedIn_expr h)))
  | .index x i, _, _, h =>
    .expr nofun h ((x.walk_alike (nestedIn_expr h)).append (i.walk_alike (nestedIn_expr h)))
  | .funcLit body _, _, _, h => .expr nofun h (stmtVisits_alike body (nestedIn_expr h) rfl)

theorem Element.inner_alike : ∀ (el : Element) {t t' : List Node}, nestedIn t' = nestedIn t →
    SameWalk (el.inner t) (el.deparen.inner t')
  | ⟨key, value⟩, _, _, h => (exprVisits?_alike key h).append (value.walk_alike h)

theorem Stmt.inner_alike : ∀ (s : Stmt) {t t' : List Node}, nestedIn t' = nestedIn t →
    bareIn t' = bareIn t → SameWalk (s.inner t) (s.deparen.inner t')
  | .assign lhs rhs _ _, _, _, h, _ => (exprVisits_alike lhs h).append (exprVisits_alike rhs h)
  | .var _ _ values _, _, _, h, _ => exprVisits_alike values h
  | .expr x, _, _, h, _ | .defer x, _, _, h, _ | .go x, _, _, h, _ => x.walk_alike h
  | .ret results _, _, _, h, _ => exprVisits_alike results h
  | .cond init test yes no, _, _, h, hb =>
    (((stmtVisits?_alike init h hb).append (test.walk_alike h)).append
      (stmtVisits_alike yes h hb)).append (stmtVisits?_alike no h hb)
  | .loop init test post body, _, _, h, hb =>
    (((stmtVisits?_alike init h hb).append (exprVisits?_alike test h)).append
      (stmtVisits?_alike post h hb)).append (stmtVisits_alike body h hb)
  | .range key value x body, _, _, h, hb =>
    (((exprVisits?_alike key h).append (exprVisits?_alike value h)).append
      (x.walk_alike h)).append (stmtVisits_alike body h hb)
  | .switch init subject cases, _, _, h, hb =>
    ((stmtVisits?_alike init h hb).append (exprVisits?_alike subject h)).append
      (caseVisits_alike cases h hb)
  | .block body, _, _, h, hb => stmtVisits_alike body h hb
  | .other, _, _, _, _ => .nil

theorem exprVisits_alike : ∀ (es : List Expr) {t t' : List Node}, nestedIn t' = nestedIn t →
    SameWalk (exprVisits t es) (exprVisits t' (deparenExprs es))
  | [], _, _, _ => .nil
  | x :: rest, _, _, h => (x.walk_alike h).append (exprVisits_alike rest h)

theorem exprVisits?_alike : ∀ (e : Option Expr) {t t' : List Node}, nestedIn t' = nestedIn t →
    SameWalk (exprVisits? t e) (exprVisits? t' (deparenExpr? e))
  | none, _, _, _ => .nil
  | some x, _, _, h => x.walk_alike h

theorem elementVisits_alike : ∀ (els : List Element) {t t' : List Node}, nestedIn t' = nestedIn t →
    SameWalk (elementVisits t els) (elementVisits t' (deparenElements els))
  | [], _, _, _ => .nil
  | el :: rest, _, _, h =>
    (SameWalk.element h el (el.inner_alike (nestedIn_element h))).append
      (elementVisits_alike rest h)

theorem stmtVisits_alike : ∀ (ss : List Stmt) {t t' : List Node}, nestedIn t' = nestedIn t →
    bareIn t' = bareIn t → SameWalk (stmtVisits t ss) (stmtVisits t' (deparenStmts ss))
  | [], _, _, _, _ => .nil
  | s :: rest, _, _, h, hb =>
    (SameWalk.stmt h hb s (s.inner_alike (nestedIn_stmt h) (bareIn_stmt hb))).append (stmtVisits_alike rest h hb)

theorem stmtVisits?_alike : ∀ (s : Option Stmt) {t t' : List Node}, nestedIn t' = nestedIn t →
    bareIn t' = bareIn t → SameWalk (stmtVisits? t s) (stmtVisits? t' (deparenStmt? s))
  | none, _, _, _, _ => .nil
  | some s, _, _, h, hb => .stmt h hb s (s.inner_alike (nestedIn_stmt h) (bareIn_stmt hb))

theorem caseVisits_alike : ∀ (cs : List CaseClause) {t t' : List Node}, nestedIn t' = nestedIn t →
    bareIn t' = bareIn t → SameWalk (caseVisits t cs) (caseVisits t' (deparenCases cs))
  | [], _, _, _, _ => .nil
  | ⟨exprs, body⟩ :: rest, _, _, h, hb =>
    ((exprVisits_alike exprs h).append (stmtVisits_alike body h hb)).append
      (caseVisits_alike rest h hb)

end

theorem blockVisits_alike (body : List Stmt) :
    SameWalk (blockVisits body) (blockVisits (body.map Stmt.deparen)) := by
  rw [← deparenStmts_eq_map]
  exact stmtVisits_alike body rfl rfl

/-- A question that no parentheses answer has the same answers in both blocks. -/
theorem filterMap_blockNodes_deparen {α : Type} {ask ask' : Node → Option α}
    (hparen : ∀ x, ask (.expr (.paren x)) = none)
    (hask : ∀ n : Node, (∀ x, n ≠ .expr (.paren x)) → ask' n.deparen = ask n) (body : List Stmt) :
    (blockNodes (body.map Stmt.deparen)).filterMap ask' = (blockNodes body).filterMap ask := by
  rw [← filterMap_blockVisits, ← filterMap_blockVisits]
  refine (blockVisits_alike body).filterMap_eq (fun _ x => hparen x) fun v v' hv => ?_
  rw [hv.node]
  exact hask v.node hv.notParen

theorem Decl.visits_alike (d : Decl) : SameWalk d.visits d.deparen.visits := by
  cases d with
  | func decl =>
    obtain ⟨name, receiver, body, pos⟩ := decl
    cases body with
    | none => exact .nil
    | some body => exact blockVisits_alike body
  | type decl => exact .nil
  | var decl =>
    show SameWalk (exprVisits [] decl.values) (exprVisits [] (decl.values.map Expr.deparen))
    rw [← deparenExprs_eq_map]
    exact exprVisits_alike decl.values rfl

/-- A walk of a file meets what a walk of the file without parentheses meets. -/
theorem SourceFile.visits_alike (f : SourceFile) : SameWalk f.visits f.deparen.visits := by
  unfold SourceFile.visits SourceFile.deparen
  induction f.decls with
  | nil => exact .nil
  | cons d rest ih =>
    rw [List.map_cons, List.flatMap_cons, List.flatMap_cons]
    exact d.visits_alike.append ih

/-- The statements that stand outside expressions are the same. -/
theorem bareStmts_deparen (body : List Stmt) :
    bareStmts (body.map Stmt.deparen) = (bareStmts body).map Stmt.deparen := by
  unfold bareStmts
  rw [List.map_filterMap]
  refine (blockVisits_alike body).filterMap_eq (fun trail x => ?_) fun v v' hv => ?_
  · simp [Node.stmt?]
  · rw [hv.node, Node.stmt?_deparen]
    cases hstmt : v.node.stmt? with
    | none => simp
    | some s =>
      have hbare : v'.isBare = v.isBare := hv.bare (by rw [hstmt]; rfl)
      rw [hbare]
      split
      · rfl
      · rfl

end FieldOrder
