/-
# What a node encloses

A walk from a node meets the node and then, for each of its children in source
order, what a walk from the child meets (`Node.nodes_eq`). So a walk that meets a
node meets everything that a walk from this node meets (`Node.nodes_subset`), and
an expression is met together with what its parentheses hold and with the
arguments of its call.

Key definitions: `Node.nodes`, `Node.children`.
Key theorems: `Node.nodes_eq`, `Node.children_induction`, `Node.nodes_subset`,
`mem_blockNodes_of_mem_nodes`.
-/
import FieldOrder.Proofs.Syntax.Walk

namespace FieldOrder

/-! ### Statements -/

theorem map_node_stmtVisits? (t : List Node) (s : Option Stmt) :
    (stmtVisits? t s).map (·.node) = s.toList.flatMap Stmt.nodes := by
  cases s with
  | none => rfl
  | some s =>
    rw [stmtVisits?, List.map_cons, Stmt.cons_node_inner, Option.toList_some,
      List.flatMap_singleton]

theorem map_node_caseVisits (t : List Node) (cs : List CaseClause) :
    (caseVisits t cs).map (·.node) =
      cs.flatMap fun c => c.exprs.flatMap Expr.nodes ++ c.body.flatMap Stmt.nodes := by
  induction cs with
  | nil => rfl
  | cons c rest ih =>
    obtain ⟨exprs, body⟩ := c
    rw [caseVisits, List.map_append, List.map_append, map_node_exprVisits, map_node_stmtVisits, ih,
      List.flatMap_cons]

theorem Expr.nodes_funcLit (body : List Stmt) (pos : Pos) :
    (Expr.funcLit body pos).nodes = .expr (.funcLit body pos) :: body.flatMap Stmt.nodes := by
  rw [Expr.nodes, Expr.inner, map_node_stmtVisits]

theorem Stmt.nodes_var (names : List String) (type : Option TypeExpr) (values : List Expr)
    (pos : Pos) : (Stmt.var names type values pos).nodes =
      .stmt (.var names type values pos) :: values.flatMap Expr.nodes := by
  rw [Stmt.nodes, Stmt.inner, map_node_exprVisits]

theorem Stmt.nodes_ret (results : List Expr) (pos : Pos) :
    (Stmt.ret results pos).nodes = .stmt (.ret results pos) :: results.flatMap Expr.nodes := by
  rw [Stmt.nodes, Stmt.inner, map_node_exprVisits]

theorem Stmt.nodes_cond (init : Option Stmt) (test : Expr) (yes : List Stmt) (no : Option Stmt) :
    (Stmt.cond init test yes no).nodes = .stmt (.cond init test yes no) ::
      (init.toList.flatMap Stmt.nodes ++ test.nodes ++ yes.flatMap Stmt.nodes ++
        no.toList.flatMap Stmt.nodes) := by
  rw [Stmt.nodes, Stmt.inner, List.map_append, List.map_append, List.map_append, List.map_cons,
    Expr.cons_node_inner, map_node_stmtVisits?, map_node_stmtVisits, map_node_stmtVisits?]

theorem Stmt.nodes_loop (init : Option Stmt) (test : Option Expr) (post : Option Stmt)
    (body : List Stmt) : (Stmt.loop init test post body).nodes =
      .stmt (.loop init test post body) :: (init.toList.flatMap Stmt.nodes ++
        test.toList.flatMap Expr.nodes ++ post.toList.flatMap Stmt.nodes ++
        body.flatMap Stmt.nodes) := by
  rw [Stmt.nodes, Stmt.inner, List.map_append, List.map_append, List.map_append,
    map_node_stmtVisits?, map_node_exprVisits?, map_node_stmtVisits?, map_node_stmtVisits]

theorem Stmt.nodes_range (key value : Option Expr) (x : Expr) (body : List Stmt) :
    (Stmt.range key value x body).nodes = .stmt (.range key value x body) ::
      (key.toList.flatMap Expr.nodes ++ value.toList.flatMap Expr.nodes ++ x.nodes ++
        body.flatMap Stmt.nodes) := by
  rw [Stmt.nodes, Stmt.inner, List.map_append, List.map_append, List.map_append, List.map_cons,
    Expr.cons_node_inner, map_node_exprVisits?, map_node_exprVisits?, map_node_stmtVisits]

theorem Stmt.nodes_switch (init : Option Stmt) (subject : Option Expr) (cases : List CaseClause) :
    (Stmt.switch init subject cases).nodes = .stmt (.switch init subject cases) ::
      (init.toList.flatMap Stmt.nodes ++ subject.toList.flatMap Expr.nodes ++
        cases.flatMap fun c => c.exprs.flatMap Expr.nodes ++ c.body.flatMap Stmt.nodes) := by
  rw [Stmt.nodes, Stmt.inner, List.map_append, List.map_append, map_node_stmtVisits?,
    map_node_exprVisits?, map_node_caseVisits]

theorem Stmt.nodes_block (body : List Stmt) :
    (Stmt.block body).nodes = .stmt (.block body) :: body.flatMap Stmt.nodes := by
  rw [Stmt.nodes, Stmt.inner, map_node_stmtVisits]

theorem Stmt.nodes_defer (call : Expr) :
    (Stmt.defer call).nodes = .stmt (.defer call) :: call.nodes := by
  rw [Stmt.nodes, Stmt.inner, List.map_cons, Expr.cons_node_inner]

theorem Stmt.nodes_go (call : Expr) : (Stmt.go call).nodes = .stmt (.go call) :: call.nodes := by
  rw [Stmt.nodes, Stmt.inner, List.map_cons, Expr.cons_node_inner]

/-! ### Children -/

namespace Node

/-- What a walk from a node meets, the node first. -/
def nodes : Node → List Node
  | stmt s => s.nodes
  | expr e => e.nodes
  | element el => el.nodes

/-- The nodes right below a node, in source order. -/
def children : Node → List Node
  | expr (.ident ..) => []
  | expr (.lit ..) => []
  | expr .other => []
  | expr (.selector x _ _) => [expr x]
  | expr (.unary _ x) => [expr x]
  | expr (.star x) => [expr x]
  | expr (.paren x) => [expr x]
  | expr (.typeAssert x _) => [expr x]
  | expr (.call callee args _) => expr callee :: args.map expr
  | expr (.composite _ elements _) => elements.map element
  | expr (.binary _ x y) => [expr x, expr y]
  | expr (.index x i) => [expr x, expr i]
  | expr (.funcLit body _) => body.map stmt
  | element ⟨key, value⟩ => key.toList.map expr ++ [expr value]
  | stmt (.assign lhs rhs _ _) => lhs.map expr ++ rhs.map expr
  | stmt (.var _ _ values _) => values.map expr
  | stmt (.expr x) => [expr x]
  | stmt (.ret results _) => results.map expr
  | stmt (.cond init test yes no) =>
    init.toList.map stmt ++ [expr test] ++ yes.map stmt ++ no.toList.map stmt
  | stmt (.loop init test post body) =>
    init.toList.map stmt ++ test.toList.map expr ++ post.toList.map stmt ++ body.map stmt
  | stmt (.range key value x body) =>
    key.toList.map expr ++ value.toList.map expr ++ [expr x] ++ body.map stmt
  | stmt (.switch init subject cases) =>
    init.toList.map stmt ++ subject.toList.map expr ++
      cases.flatMap fun c => c.exprs.map expr ++ c.body.map stmt
  | stmt (.block body) => body.map stmt
  | stmt (.defer call) => [expr call]
  | stmt (.go call) => [expr call]
  | stmt .other => []

theorem flatMap_nodes_expr (es : List Expr) : (es.map expr).flatMap nodes = es.flatMap Expr.nodes :=
  List.flatMap_map expr nodes es

theorem flatMap_nodes_stmt (ss : List Stmt) : (ss.map stmt).flatMap nodes = ss.flatMap Stmt.nodes :=
  List.flatMap_map stmt nodes ss

theorem flatMap_nodes_element (els : List Element) :
    (els.map element).flatMap nodes = els.flatMap Element.nodes :=
  List.flatMap_map element nodes els

theorem flatMap_nodes_cases (cs : List CaseClause) :
    (cs.flatMap fun c => c.exprs.map expr ++ c.body.map stmt).flatMap nodes =
      cs.flatMap fun c => c.exprs.flatMap Expr.nodes ++ c.body.flatMap Stmt.nodes := by
  rw [List.flatMap_assoc]
  simp only [List.flatMap_append, flatMap_nodes_expr, flatMap_nodes_stmt]

theorem nodes_expr_eq (e : Expr) : e.nodes = expr e :: (expr e).children.flatMap nodes := by
  cases e with
  | ident name pos => rfl
  | lit kind value pos => rfl
  | other => rfl
  | selector x sel pos => rw [Expr.nodes_selector, children, List.flatMap_singleton]; rfl
  | unary op x => rw [Expr.nodes_unary, children, List.flatMap_singleton]; rfl
  | star x => rw [Expr.nodes_star, children, List.flatMap_singleton]; rfl
  | paren x => rw [Expr.nodes_paren, children, List.flatMap_singleton]; rfl
  | typeAssert x type => rw [Expr.nodes_typeAssert, children, List.flatMap_singleton]; rfl
  | call callee args pos =>
    rw [Expr.nodes_call, children, List.flatMap_cons, flatMap_nodes_expr]
    rfl
  | composite type elements pos => rw [Expr.nodes_composite, children, flatMap_nodes_element]
  | binary op x y =>
    rw [Expr.nodes_binary, children, List.flatMap_cons, List.flatMap_singleton]
    rfl
  | index x i =>
    rw [Expr.nodes_index, children, List.flatMap_cons, List.flatMap_singleton]
    rfl
  | funcLit body pos => rw [Expr.nodes_funcLit, children, flatMap_nodes_stmt]

theorem nodes_stmt_eq (s : Stmt) : s.nodes = stmt s :: (stmt s).children.flatMap nodes := by
  cases s with
  | assign lhs rhs define pos =>
    rw [Stmt.nodes_assign, children, List.flatMap_append, flatMap_nodes_expr, flatMap_nodes_expr]
  | var names type values pos => rw [Stmt.nodes_var, children, flatMap_nodes_expr]
  | expr x => rw [Stmt.nodes_expr, children, List.flatMap_singleton]; rfl
  | ret results pos => rw [Stmt.nodes_ret, children, flatMap_nodes_expr]
  | cond init test yes no =>
    rw [Stmt.nodes_cond, children, List.flatMap_append, List.flatMap_append, List.flatMap_append,
      List.flatMap_singleton, flatMap_nodes_stmt, flatMap_nodes_stmt, flatMap_nodes_stmt]
    rfl
  | loop init test post body =>
    rw [Stmt.nodes_loop, children, List.flatMap_append, List.flatMap_append, List.flatMap_append,
      flatMap_nodes_stmt, flatMap_nodes_expr, flatMap_nodes_stmt, flatMap_nodes_stmt]
  | range key value x body =>
    rw [Stmt.nodes_range, children, List.flatMap_append, List.flatMap_append, List.flatMap_append,
      List.flatMap_singleton, flatMap_nodes_expr, flatMap_nodes_expr, flatMap_nodes_stmt]
    rfl
  | switch init subject cases =>
    rw [Stmt.nodes_switch, children, List.flatMap_append, List.flatMap_append, flatMap_nodes_stmt,
      flatMap_nodes_expr, flatMap_nodes_cases]
  | block body => rw [Stmt.nodes_block, children, flatMap_nodes_stmt]
  | defer call => rw [Stmt.nodes_defer, children, List.flatMap_singleton]; rfl
  | go call => rw [Stmt.nodes_go, children, List.flatMap_singleton]; rfl
  | other => rfl

/-- A walk meets a node, and then what walks from its children meet. -/
theorem nodes_eq (n : Node) : n.nodes = n :: n.children.flatMap nodes := by
  cases n with
  | stmt s => exact nodes_stmt_eq s
  | expr e => exact nodes_expr_eq e
  | element el =>
    obtain ⟨key, value⟩ := el
    rw [nodes, Element.nodes_mk, children, List.flatMap_append, List.flatMap_singleton,
      flatMap_nodes_expr]
    rfl

theorem self_mem_nodes (n : Node) : n ∈ n.nodes := by
  rw [nodes_eq]
  exact List.mem_cons_self

theorem mem_nodes_of_mem_children {c n : Node} (h : c ∈ n.children) : c ∈ n.nodes := by
  rw [nodes_eq]
  exact List.mem_cons_of_mem n (List.mem_flatMap.mpr ⟨c, h, c.self_mem_nodes⟩)

/-- A walk from a child is shorter than the walk from the node. -/
theorem length_nodes_lt {c n : Node} (h : c ∈ n.children) : c.nodes.length < n.nodes.length := by
  have hsub : c.nodes.length ≤ (n.children.flatMap nodes).length :=
    (List.sublist_flatten_of_mem (List.mem_map_of_mem h)).length_le
  rw [n.nodes_eq, List.length_cons]
  omega

/-- What holds of a node whenever it holds of its children, holds of every node. -/
theorem children_induction {P : Node → Prop} (h : ∀ n, (∀ c ∈ n.children, P c) → P n)
    (n : Node) : P n := by
  induction hlen : n.nodes.length using Nat.strongRecOn generalizing n with
  | _ len ih =>
    apply h
    intro c hc
    have hlt : c.nodes.length < len := hlen ▸ length_nodes_lt hc
    exact ih _ hlt c rfl

/-- A walk that meets a node meets all that a walk from this node meets. -/
theorem nodes_subset {m n : Node} (h : m ∈ n.nodes) : m.nodes ⊆ n.nodes := by
  induction n using children_induction with
  | h n ih =>
    rw [nodes_eq] at h
    rcases List.mem_cons.mp h with rfl | h
    · exact List.Subset.refl _
    obtain ⟨c, hc, hm⟩ := List.mem_flatMap.mp h
    have hsub : c.nodes ⊆ n.nodes := by
      rw [n.nodes_eq]
      intro k hk
      exact List.mem_cons_of_mem n (List.mem_flatMap.mpr ⟨c, hc, hk⟩)
    exact List.Subset.trans (ih c hc hm) hsub

end Node

/-- What a walk from a node of a block meets, the walk of the block meets. -/
theorem mem_blockNodes_of_mem_nodes {body : List Stmt} {m n : Node} (hn : n ∈ blockNodes body)
    (hm : m ∈ n.nodes) : m ∈ blockNodes body := by
  rw [blockNodes_eq_flatMap] at hn ⊢
  obtain ⟨s, hs, hn⟩ := List.mem_flatMap.mp hn
  have hsub : n.nodes ⊆ (Node.stmt s).nodes := Node.nodes_subset hn
  exact List.mem_flatMap.mpr ⟨s, hs, hsub hm⟩

theorem mem_blockNodes_of_mem_children {body : List Stmt} {c n : Node} (hn : n ∈ blockNodes body)
    (hc : c ∈ n.children) : c ∈ blockNodes body :=
  mem_blockNodes_of_mem_nodes hn (Node.mem_nodes_of_mem_children hc)

/-- What parentheses hold is met with them. -/
theorem unparen_mem_blockNodes {body : List Stmt} {e : Expr} (h : .expr e ∈ blockNodes body) :
    .expr e.unparen ∈ blockNodes body := by
  refine mem_blockNodes_of_mem_nodes h ?_
  obtain ⟨parens, he, -⟩ := e.nodes_eq_parens_append
  show Node.expr e.unparen ∈ e.nodes
  rw [he]
  exact List.mem_append_right parens (Node.expr e.unparen).self_mem_nodes

end FieldOrder
