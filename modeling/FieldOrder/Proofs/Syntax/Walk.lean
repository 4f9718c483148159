/-
# What a walk meets

The nodes that a walk meets do not depend on the trail it starts from, so each
expression and each statement has its list of nodes, its own node first, and
these lists are put together like the tree (`Expr.nodes_call`,
`Stmt.nodes_assign`, `blockNodes_append`). Inside an expression there are statements
only in function literals (`Expr.LiteralFree.stmtFree`).

Key definitions: `Expr.nodes`, `Stmt.nodes`, `blockNodes`, `Expr.LiteralFree`,
`Expr.StmtFree`.
Key theorems: `Expr.node_inner_congr`, `blockNodes_eq_flatMap`,
`Expr.LiteralFree.stmtFree`.
-/
import FieldOrder.Syntax.Visit

namespace FieldOrder

/-! ### The trail does not matter -/

mutual

theorem Expr.node_inner_congr (t t' : List Node) :
    ∀ e : Expr, (e.inner t).map (·.node) = (e.inner t').map (·.node)
  | .ident .. | .lit .. | .other => by simp [Expr.inner]
  | .selector x _ _ | .unary _ x | .star x | .paren x | .typeAssert x _ => by
    simp [Expr.inner, Expr.node_inner_congr (.expr x :: t) (.expr x :: t') x]
  | .call callee args _ => by
    simp [Expr.inner, Expr.node_inner_congr (.expr callee :: t) (.expr callee :: t') callee,
      node_exprVisits_congr t t' args]
  | .composite _ elements _ => by simp [Expr.inner, node_elementVisits_congr t t' elements]
  | .binary _ x y => by
    simp [Expr.inner, Expr.node_inner_congr (.expr x :: t) (.expr x :: t') x,
      Expr.node_inner_congr (.expr y :: t) (.expr y :: t') y]
  | .index x i => by
    simp [Expr.inner, Expr.node_inner_congr (.expr x :: t) (.expr x :: t') x,
      Expr.node_inner_congr (.expr i :: t) (.expr i :: t') i]
  | .funcLit body _ => by simp [Expr.inner, node_stmtVisits_congr t t' body]

theorem Element.node_inner_congr (t t' : List Node) :
    ∀ el : Element, (el.inner t).map (·.node) = (el.inner t').map (·.node)
  | ⟨key, value⟩ => by
    simp [Element.inner, node_exprVisits?_congr t t' key,
      Expr.node_inner_congr (.expr value :: t) (.expr value :: t') value]

theorem Stmt.node_inner_congr (t t' : List Node) :
    ∀ s : Stmt, (s.inner t).map (·.node) = (s.inner t').map (·.node)
  | .assign lhs rhs _ _ => by
    simp [Stmt.inner, node_exprVisits_congr t t' lhs, node_exprVisits_congr t t' rhs]
  | .var _ _ values _ => by simp [Stmt.inner, node_exprVisits_congr t t' values]
  | .expr x | .defer x | .go x => by
    simp [Stmt.inner, Expr.node_inner_congr (.expr x :: t) (.expr x :: t') x]
  | .ret results _ => by simp [Stmt.inner, node_exprVisits_congr t t' results]
  | .cond init test yes no => by
    simp [Stmt.inner, node_stmtVisits?_congr t t' init,
      Expr.node_inner_congr (.expr test :: t) (.expr test :: t') test,
      node_stmtVisits_congr t t' yes, node_stmtVisits?_congr t t' no]
  | .loop init test post body => by
    simp [Stmt.inner, node_stmtVisits?_congr t t' init, node_exprVisits?_congr t t' test,
      node_stmtVisits?_congr t t' post, node_stmtVisits_congr t t' body]
  | .range key value x body => by
    simp [Stmt.inner, node_exprVisits?_congr t t' key, node_exprVisits?_congr t t' value,
      Expr.node_inner_congr (.expr x :: t) (.expr x :: t') x, node_stmtVisits_congr t t' body]
  | .switch init subject cases => by
    simp [Stmt.inner, node_stmtVisits?_congr t t' init, node_exprVisits?_congr t t' subject,
      node_caseVisits_congr t t' cases]
  | .block body => by simp [Stmt.inner, node_stmtVisits_congr t t' body]
  | .other => by simp [Stmt.inner]

theorem node_exprVisits_congr (t t' : List Node) :
    ∀ es : List Expr, (exprVisits t es).map (·.node) = (exprVisits t' es).map (·.node)
  | [] => rfl
  | x :: rest => by
    simp [exprVisits, Expr.node_inner_congr (.expr x :: t) (.expr x :: t') x,
      node_exprVisits_congr t t' rest]

theorem node_exprVisits?_congr (t t' : List Node) :
    ∀ e : Option Expr, (exprVisits? t e).map (·.node) = (exprVisits? t' e).map (·.node)
  | none => rfl
  | some x => by simp [exprVisits?, Expr.node_inner_congr (.expr x :: t) (.expr x :: t') x]

theorem node_elementVisits_congr (t t' : List Node) : ∀ els : List Element,
    (elementVisits t els).map (·.node) = (elementVisits t' els).map (·.node)
  | [] => rfl
  | el :: rest => by
    simp [elementVisits, Element.node_inner_congr (.element el :: t) (.element el :: t') el,
      node_elementVisits_congr t t' rest]

theorem node_stmtVisits_congr (t t' : List Node) :
    ∀ ss : List Stmt, (stmtVisits t ss).map (·.node) = (stmtVisits t' ss).map (·.node)
  | [] => rfl
  | s :: rest => by
    simp [stmtVisits, Stmt.node_inner_congr (.stmt s :: t) (.stmt s :: t') s,
      node_stmtVisits_congr t t' rest]

theorem node_stmtVisits?_congr (t t' : List Node) :
    ∀ s : Option Stmt, (stmtVisits? t s).map (·.node) = (stmtVisits? t' s).map (·.node)
  | none => rfl
  | some s => by simp [stmtVisits?, Stmt.node_inner_congr (.stmt s :: t) (.stmt s :: t') s]

theorem node_caseVisits_congr (t t' : List Node) : ∀ cs : List CaseClause,
    (caseVisits t cs).map (·.node) = (caseVisits t' cs).map (·.node)
  | [] => rfl
  | ⟨exprs, body⟩ :: rest => by
    simp [caseVisits, node_exprVisits_congr t t' exprs, node_stmtVisits_congr t t' body,
      node_caseVisits_congr t t' rest]

end

/-! ### The nodes of a tree -/

/-- The nodes of an expression, its own first. -/
def Expr.nodes (e : Expr) : List Node := .expr e :: (e.inner []).map (·.node)

/-- The nodes of an element, its own first. -/
def Element.nodes (el : Element) : List Node := .element el :: (el.inner []).map (·.node)

/-- The nodes of a statement, its own first. -/
def Stmt.nodes (s : Stmt) : List Node := .stmt s :: (s.inner []).map (·.node)

/-- The nodes that the walk of a block meets. -/
def blockNodes (body : List Stmt) : List Node := (blockVisits body).map (·.node)

/-- What a walk meets from an expression on, whatever the trail. -/
theorem Expr.cons_node_inner (t : List Node) (e : Expr) :
    .expr e :: (e.inner t).map (·.node) = e.nodes := by
  rw [Expr.nodes, Expr.node_inner_congr t []]

theorem Element.cons_node_inner (t : List Node) (el : Element) :
    .element el :: (el.inner t).map (·.node) = el.nodes := by
  rw [Element.nodes, Element.node_inner_congr t []]

theorem Stmt.cons_node_inner (t : List Node) (s : Stmt) :
    .stmt s :: (s.inner t).map (·.node) = s.nodes := by
  rw [Stmt.nodes, Stmt.node_inner_congr t []]

theorem map_node_exprVisits (t : List Node) :
    ∀ es : List Expr, (exprVisits t es).map (·.node) = es.flatMap Expr.nodes
  | [] => rfl
  | x :: rest => by
    rw [exprVisits, List.map_append, List.map_cons, Expr.cons_node_inner,
      map_node_exprVisits t rest, List.flatMap_cons]

theorem map_node_exprVisits? (t : List Node) :
    ∀ e : Option Expr, (exprVisits? t e).map (·.node) = e.toList.flatMap Expr.nodes
  | none => rfl
  | some x => by
    rw [exprVisits?, List.map_cons, Expr.cons_node_inner, Option.toList_some,
      List.flatMap_singleton]

theorem map_node_elementVisits (t : List Node) :
    ∀ els : List Element, (elementVisits t els).map (·.node) = els.flatMap Element.nodes
  | [] => rfl
  | el :: rest => by
    rw [elementVisits, List.map_append, List.map_cons, Element.cons_node_inner,
      map_node_elementVisits t rest, List.flatMap_cons]

theorem map_node_stmtVisits (t : List Node) :
    ∀ ss : List Stmt, (stmtVisits t ss).map (·.node) = ss.flatMap Stmt.nodes
  | [] => rfl
  | s :: rest => by
    rw [stmtVisits, List.map_append, List.map_cons, Stmt.cons_node_inner,
      map_node_stmtVisits t rest, List.flatMap_cons]

/-- A block's nodes are those of its statements. -/
theorem blockNodes_eq_flatMap (body : List Stmt) : blockNodes body = body.flatMap Stmt.nodes :=
  map_node_stmtVisits [] body

theorem blockNodes_append (a b : List Stmt) : blockNodes (a ++ b) = blockNodes a ++ blockNodes b := by
  simp [blockNodes_eq_flatMap]

/-- A question put to each visit of a block is put to its nodes. -/
theorem filterMap_blockVisits {α : Type} (g : Node → Option α) (body : List Stmt) :
    ((blockVisits body).filterMap fun v => g v.node) = (blockNodes body).filterMap g := by
  rw [blockNodes, List.filterMap_map]
  rfl

theorem flatMap_blockVisits {α : Type} (g : Node → List α) (body : List Stmt) :
    ((blockVisits body).flatMap fun v => g v.node) = (blockNodes body).flatMap g := by
  rw [blockNodes, List.flatMap_map]

/-! ### Node by node -/

theorem Expr.nodes_ident (name : String) (pos : Pos) :
    (Expr.ident name pos).nodes = [.expr (.ident name pos)] := rfl

theorem Expr.nodes_paren (x : Expr) : (Expr.paren x).nodes = .expr (.paren x) :: x.nodes := by
  rw [Expr.nodes, Expr.inner, List.map_cons, Expr.cons_node_inner]

theorem Expr.nodes_selector (x : Expr) (sel : String) (pos : Pos) :
    (Expr.selector x sel pos).nodes = .expr (.selector x sel pos) :: x.nodes := by
  rw [Expr.nodes, Expr.inner, List.map_cons, Expr.cons_node_inner]

theorem Expr.nodes_unary (op : UnaryOp) (x : Expr) :
    (Expr.unary op x).nodes = .expr (.unary op x) :: x.nodes := by
  rw [Expr.nodes, Expr.inner, List.map_cons, Expr.cons_node_inner]

theorem Expr.nodes_star (x : Expr) : (Expr.star x).nodes = .expr (.star x) :: x.nodes := by
  rw [Expr.nodes, Expr.inner, List.map_cons, Expr.cons_node_inner]

theorem Expr.nodes_typeAssert (x : Expr) (type : Option TypeExpr) :
    (Expr.typeAssert x type).nodes = .expr (.typeAssert x type) :: x.nodes := by
  rw [Expr.nodes, Expr.inner, List.map_cons, Expr.cons_node_inner]

theorem Expr.nodes_binary (op : String) (x y : Expr) :
    (Expr.binary op x y).nodes = .expr (.binary op x y) :: (x.nodes ++ y.nodes) := by
  rw [Expr.nodes, Expr.inner, List.map_append, List.map_cons, List.map_cons, Expr.cons_node_inner,
    Expr.cons_node_inner]

theorem Expr.nodes_index (x i : Expr) :
    (Expr.index x i).nodes = .expr (.index x i) :: (x.nodes ++ i.nodes) := by
  rw [Expr.nodes, Expr.inner, List.map_append, List.map_cons, List.map_cons, Expr.cons_node_inner,
    Expr.cons_node_inner]

theorem Expr.nodes_call (callee : Expr) (args : List Expr) (pos : Pos) :
    (Expr.call callee args pos).nodes =
      .expr (.call callee args pos) :: (callee.nodes ++ args.flatMap Expr.nodes) := by
  rw [Expr.nodes, Expr.inner, List.map_append, List.map_cons, Expr.cons_node_inner,
    map_node_exprVisits]

theorem Expr.nodes_composite (type : Option TypeExpr) (elements : List Element) (pos : Pos) :
    (Expr.composite type elements pos).nodes =
      .expr (.composite type elements pos) :: elements.flatMap Element.nodes := by
  rw [Expr.nodes, Expr.inner, map_node_elementVisits]

theorem Element.nodes_mk (key : Option Expr) (value : Expr) : (Element.mk key value).nodes =
    .element ⟨key, value⟩ :: (key.toList.flatMap Expr.nodes ++ value.nodes) := by
  rw [Element.nodes, Element.inner, List.map_append, List.map_cons, Expr.cons_node_inner,
    map_node_exprVisits?]

theorem Stmt.nodes_assign (lhs rhs : List Expr) (define : Bool) (pos : Pos) :
    (Stmt.assign lhs rhs define pos).nodes = .stmt (.assign lhs rhs define pos) ::
      (lhs.flatMap Expr.nodes ++ rhs.flatMap Expr.nodes) := by
  rw [Stmt.nodes, Stmt.inner, List.map_append, map_node_exprVisits, map_node_exprVisits]

theorem Stmt.nodes_expr (x : Expr) : (Stmt.expr x).nodes = .stmt (.expr x) :: x.nodes := by
  rw [Stmt.nodes, Stmt.inner, List.map_cons, Expr.cons_node_inner]

/-! ### Expressions without function literals -/

/-- Whether a node is a function literal. -/
def Node.isFuncLit : Node → Bool
  | expr (.funcLit ..) => true
  | _ => false

/-- A walk of the expression meets no function literal. -/
def Expr.LiteralFree (e : Expr) : Prop := ∀ n ∈ e.nodes, n.isFuncLit = false

/-- A walk of the expression meets no statement. -/
def Expr.StmtFree (e : Expr) : Prop := ∀ n ∈ e.nodes, n.stmt? = none

mutual

/-- Statements stand in an expression only inside function literals. -/
theorem Expr.LiteralFree.stmtFree : ∀ {e : Expr}, e.LiteralFree → e.StmtFree
  | .ident .., _ | .lit .., _ | .other, _ => fun n hn => by
    obtain rfl := List.mem_singleton.mp hn
    rfl
  | .selector x sel pos, h => by
    simp only [LiteralFree, StmtFree, nodes_selector, List.forall_mem_cons] at h ⊢
    exact ⟨rfl, LiteralFree.stmtFree h.2⟩
  | .unary op x, h => by
    simp only [LiteralFree, StmtFree, nodes_unary, List.forall_mem_cons] at h ⊢
    exact ⟨rfl, LiteralFree.stmtFree h.2⟩
  | .star x, h => by
    simp only [LiteralFree, StmtFree, nodes_star, List.forall_mem_cons] at h ⊢
    exact ⟨rfl, LiteralFree.stmtFree h.2⟩
  | .paren x, h => by
    simp only [LiteralFree, StmtFree, nodes_paren, List.forall_mem_cons] at h ⊢
    exact ⟨rfl, LiteralFree.stmtFree h.2⟩
  | .typeAssert x type, h => by
    simp only [LiteralFree, StmtFree, nodes_typeAssert, List.forall_mem_cons] at h ⊢
    exact ⟨rfl, LiteralFree.stmtFree h.2⟩
  | .binary op x y, h => by
    simp only [LiteralFree, StmtFree, nodes_binary, List.forall_mem_cons,
      List.forall_mem_append] at h ⊢
    exact ⟨rfl, LiteralFree.stmtFree h.2.1, LiteralFree.stmtFree h.2.2⟩
  | .index x i, h => by
    simp only [LiteralFree, StmtFree, nodes_index, List.forall_mem_cons,
      List.forall_mem_append] at h ⊢
    exact ⟨rfl, LiteralFree.stmtFree h.2.1, LiteralFree.stmtFree h.2.2⟩
  | .call callee args pos, h => by
    simp only [LiteralFree, StmtFree, nodes_call, List.forall_mem_cons,
      List.forall_mem_append] at h ⊢
    exact ⟨rfl, LiteralFree.stmtFree h.2.1, stmtFree_exprs args h.2.2⟩
  | .composite type elements pos, h => by
    simp only [LiteralFree, StmtFree, nodes_composite, List.forall_mem_cons] at h ⊢
    exact ⟨rfl, stmtFree_elements elements h.2⟩
  | .funcLit body pos, h => absurd (h _ List.mem_cons_self) (by simp [Node.isFuncLit])

theorem Expr.stmtFree_exprs : ∀ es : List Expr,
    (∀ n ∈ es.flatMap Expr.nodes, n.isFuncLit = false) → ∀ n ∈ es.flatMap Expr.nodes, n.stmt? = none
  | [], _ => fun _ hn => absurd hn List.not_mem_nil
  | x :: rest, h => by
    simp only [List.flatMap_cons, List.forall_mem_append] at h ⊢
    exact ⟨LiteralFree.stmtFree h.1, stmtFree_exprs rest h.2⟩

theorem Expr.stmtFree_elements : ∀ els : List Element,
    (∀ n ∈ els.flatMap Element.nodes, n.isFuncLit = false) →
      ∀ n ∈ els.flatMap Element.nodes, n.stmt? = none
  | [], _ => fun _ hn => absurd hn List.not_mem_nil
  | ⟨none, value⟩ :: rest, h => by
    simp only [List.flatMap_cons, List.forall_mem_append, Element.nodes_mk, Option.toList_none,
      List.flatMap_nil, List.nil_append, List.forall_mem_cons] at h ⊢
    exact ⟨⟨rfl, LiteralFree.stmtFree h.1.2⟩, stmtFree_elements rest h.2⟩
  | ⟨some key, value⟩ :: rest, h => by
    simp only [List.flatMap_cons, List.forall_mem_append, Element.nodes_mk, Option.toList_some,
      List.flatMap_nil, List.append_nil, List.forall_mem_cons] at h ⊢
    exact ⟨⟨rfl, LiteralFree.stmtFree h.1.2.1, LiteralFree.stmtFree h.1.2.2⟩,
      stmtFree_elements rest h.2⟩

end

/-! ### Parentheses -/

/-- Before the expression that parentheses hold, a walk meets these parentheses. -/
theorem Expr.nodes_eq_parens_append : ∀ e : Expr, ∃ parens, e.nodes = parens ++ e.unparen.nodes ∧
    ∀ n ∈ parens, ∃ x, n = .expr (.paren x)
  | .paren x => by
    obtain ⟨parens, hx, hp⟩ := nodes_eq_parens_append x
    refine ⟨.expr (.paren x) :: parens, ?_, ?_⟩
    · rw [nodes_paren, hx, unparen_paren, List.cons_append]
    · exact List.forall_mem_cons.mpr ⟨⟨x, rfl⟩, hp⟩
  | .ident .. | .lit .. | .selector .. | .call .. | .composite .. | .unary .. | .star ..
  | .binary .. | .typeAssert .. | .index .. | .funcLit .. | .other => ⟨[], rfl, by simp⟩

/-- What parentheses do not answer is answered by what they hold. -/
theorem Expr.filterMap_nodes_unparen {α : Type} {g : Node → Option α}
    (hg : ∀ x, g (.expr (.paren x)) = none) (e : Expr) :
    e.nodes.filterMap g = e.unparen.nodes.filterMap g := by
  obtain ⟨parens, he, hp⟩ := e.nodes_eq_parens_append
  have hnone : parens.filterMap g = [] := by
    rw [List.filterMap_eq_nil_iff]
    intro n hn
    obtain ⟨x, rfl⟩ := hp n hn
    exact hg x
  rw [he, List.filterMap_append, hnone, List.nil_append]

end FieldOrder
