/-
# Addresses

A node is found by its address: its place in a row of trees, then the places among
children, in source order, that lead down to it. Addresses compare like words in a
dictionary, so a node comes before all that it encloses, and what an earlier child
encloses before a later child.

A walk of a row of trees meets every address once and in this order, and the trail
of a visit holds the nodes at the addresses above (`inPreorder_visits`,
`mem_trail_iff`). What a walk is asked is therefore answered address by address
(`InPreorder.filterMap`).

Key definitions: `nodeAt?`, `visitAt?`, `Node.visits`, `InPreorder`,
`SourceFile.trees`.
Key theorems: `Node.visits_eq`, `inPreorder_visits`, `InPreorder.filterMap`,
`map_node_visitAt?`, `mem_trail_iff`.
-/
import Mathlib.Data.List.Basic
import FieldOrder.Proofs.Syntax.Children

namespace FieldOrder

/-! ### Finding nodes -/

/-- The node at an address in a row of trees. -/
def nodeAt? (ns : List Node) : List Nat → Option Node
  | [] => none
  | [i] => ns[i]?
  | i :: j :: a => ns[i]?.bind fun n => nodeAt? n.children (j :: a)

/-- The visit that a walk of trees in a row makes at an address. -/
def visitAt? (trail : List Node) (ns : List Node) : List Nat → Option Visit
  | [] => none
  | [i] => ns[i]?.map (⟨trail, ·⟩)
  | i :: j :: a => ns[i]?.bind fun n => visitAt? (n :: trail) n.children (j :: a)

/-! ### Walks by children -/

namespace Node

/-- The walk of a node, the node first. -/
def visits (trail : List Node) : Node → List Visit
  | stmt s => ⟨trail, stmt s⟩ :: s.inner (stmt s :: trail)
  | expr e => ⟨trail, expr e⟩ :: e.inner (expr e :: trail)
  | element el => ⟨trail, element el⟩ :: el.inner (element el :: trail)

end Node

theorem exprVisits_eq (t : List Node) (es : List Expr) :
    exprVisits t es = (es.map Node.expr).flatMap (Node.visits t) := by
  induction es with
  | nil => rfl
  | cons x rest ih => rw [exprVisits, ih, List.map_cons, List.flatMap_cons, Node.visits]

theorem exprVisits?_eq (t : List Node) (e : Option Expr) :
    exprVisits? t e = (e.toList.map Node.expr).flatMap (Node.visits t) := by
  cases e with
  | none => rfl
  | some x =>
    rw [exprVisits?, Option.toList_some, List.map_singleton, List.flatMap_singleton, Node.visits]

theorem elementVisits_eq (t : List Node) (els : List Element) :
    elementVisits t els = (els.map Node.element).flatMap (Node.visits t) := by
  induction els with
  | nil => rfl
  | cons el rest ih => rw [elementVisits, ih, List.map_cons, List.flatMap_cons, Node.visits]

theorem stmtVisits_eq (t : List Node) (ss : List Stmt) :
    stmtVisits t ss = (ss.map Node.stmt).flatMap (Node.visits t) := by
  induction ss with
  | nil => rfl
  | cons s rest ih => rw [stmtVisits, ih, List.map_cons, List.flatMap_cons, Node.visits]

theorem stmtVisits?_eq (t : List Node) (s : Option Stmt) :
    stmtVisits? t s = (s.toList.map Node.stmt).flatMap (Node.visits t) := by
  cases s with
  | none => rfl
  | some s =>
    rw [stmtVisits?, Option.toList_some, List.map_singleton, List.flatMap_singleton, Node.visits]

theorem caseVisits_eq (t : List Node) (cs : List CaseClause) : caseVisits t cs =
    (cs.flatMap fun c => c.exprs.map Node.expr ++ c.body.map Node.stmt).flatMap (Node.visits t) := by
  induction cs with
  | nil => rfl
  | cons c rest ih =>
    obtain ⟨exprs, body⟩ := c
    rw [caseVisits, ih, exprVisits_eq, stmtVisits_eq, List.flatMap_cons, List.flatMap_append,
      List.flatMap_append]

namespace Node

variable (t : List Node)

theorem inner_expr_eq (e : Expr) : e.inner t = (expr e).children.flatMap (visits t) := by
  cases e with
  | ident name pos => rfl
  | lit kind value pos => rfl
  | other => rfl
  | selector x sel pos => simp [Expr.inner, children, visits]
  | unary op x => simp [Expr.inner, children, visits]
  | star x => simp [Expr.inner, children, visits]
  | paren x => simp [Expr.inner, children, visits]
  | typeAssert x type => simp [Expr.inner, children, visits]
  | call callee args pos =>
    rw [Expr.inner, children, List.flatMap_cons, ← exprVisits_eq, visits]
  | composite type elements pos => rw [Expr.inner, children, elementVisits_eq]
  | binary op x y => simp [Expr.inner, children, visits]
  | index x i => simp [Expr.inner, children, visits]
  | funcLit body pos => rw [Expr.inner, children, stmtVisits_eq]

theorem inner_stmt_eq (s : Stmt) : s.inner t = (stmt s).children.flatMap (visits t) := by
  cases s with
  | assign lhs rhs define pos =>
    rw [Stmt.inner, children, List.flatMap_append, exprVisits_eq, exprVisits_eq]
  | var names type values pos => rw [Stmt.inner, children, exprVisits_eq]
  | expr x => simp [Stmt.inner, children, visits]
  | ret results pos => rw [Stmt.inner, children, exprVisits_eq]
  | cond init test yes no =>
    simp only [Stmt.inner, children, List.flatMap_append, List.flatMap_singleton, stmtVisits_eq,
      stmtVisits?_eq, visits]
  | loop init test post body =>
    simp only [Stmt.inner, children, List.flatMap_append, stmtVisits_eq, stmtVisits?_eq,
      exprVisits?_eq]
  | range key value x body =>
    simp only [Stmt.inner, children, List.flatMap_append, List.flatMap_singleton, stmtVisits_eq,
      exprVisits?_eq, visits]
  | switch init subject cases =>
    simp only [Stmt.inner, children, List.flatMap_append, stmtVisits?_eq, exprVisits?_eq,
      caseVisits_eq]
  | block body => rw [Stmt.inner, children, stmtVisits_eq]
  | defer call => simp [Stmt.inner, children, visits]
  | go call => simp [Stmt.inner, children, visits]
  | other => rfl

/-- A walk meets a node, and then walks its children one after the other. -/
theorem visits_eq (n : Node) :
    n.visits t = ⟨t, n⟩ :: n.children.flatMap (visits (n :: t)) := by
  cases n with
  | stmt s => rw [visits, inner_stmt_eq]
  | expr e => rw [visits, inner_expr_eq]
  | element el =>
    obtain ⟨key, value⟩ := el
    rw [visits, Element.inner, exprVisits?_eq, children, List.flatMap_append,
      List.flatMap_singleton, visits]

end Node

/-! ### Lists in the order of addresses -/

/-- The list holds what stands at addresses, each once and in the order of the
addresses. -/
def InPreorder {α : Type} (At : List Nat → α → Prop) (xs : List α) : Prop :=
  ∃ placed : List (List Nat × α), placed.Pairwise (fun p q => p.1 < q.1) ∧
    (∀ a x, (a, x) ∈ placed ↔ At a x) ∧ placed.map Prod.snd = xs

namespace InPreorder

variable {α β : Type} {At : List Nat → α → Prop} {xs : List α}

theorem congr {At' : List Nat → α → Prop} (h : InPreorder At xs)
    (hiff : ∀ a x, At a x ↔ At' a x) : InPreorder At' xs := by
  obtain ⟨placed, hsorted, hmem, hxs⟩ := h
  exact ⟨placed, hsorted, fun a x => (hmem a x).trans (hiff a x), hxs⟩

theorem single (a : List Nat) (x : α) : InPreorder (fun b y => b = a ∧ y = x) [x] :=
  ⟨[(a, x)], List.pairwise_singleton _ _, by simp, rfl⟩

/-- What stands at later addresses comes behind. -/
theorem append {At' : List Nat → α → Prop} {ys : List α} (h : InPreorder At xs)
    (h' : InPreorder At' ys) (hlt : ∀ a x b y, At a x → At' b y → a < b) :
    InPreorder (fun a x => At a x ∨ At' a x) (xs ++ ys) := by
  obtain ⟨placed, hsorted, hmem, rfl⟩ := h
  obtain ⟨placed', hsorted', hmem', rfl⟩ := h'
  refine ⟨placed ++ placed', ?_, fun a x => ?_, List.map_append⟩
  · refine List.pairwise_append.mpr ⟨hsorted, hsorted', fun p hp q hq => ?_⟩
    exact hlt p.1 p.2 q.1 q.2 ((hmem p.1 p.2).mp hp) ((hmem' q.1 q.2).mp hq)
  · rw [List.mem_append, hmem, hmem']

/-- Moving all addresses in the same order moves what stands there. -/
theorem move (h : InPreorder At xs) (f : List Nat → List Nat)
    (hf : ∀ a x b y, At a x → At b y → a < b → f a < f b) :
    InPreorder (fun a x => ∃ b, a = f b ∧ At b x) xs := by
  obtain ⟨placed, hsorted, hmem, rfl⟩ := h
  refine ⟨placed.map fun p => (f p.1, p.2), ?_, fun a x => ?_, by simp⟩
  · refine List.pairwise_map.mpr (hsorted.imp_of_mem fun {p q} hp hq hlt => ?_)
    exact hf p.1 p.2 q.1 q.2 ((hmem p.1 p.2).mp hp) ((hmem q.1 q.2).mp hq) hlt
  · rw [List.mem_map]
    constructor
    · rintro ⟨⟨b, y⟩, hb, heq⟩
      obtain ⟨rfl, rfl⟩ := Prod.mk.inj heq
      exact ⟨b, rfl, (hmem b y).mp hb⟩
    · rintro ⟨b, rfl, hb⟩
      exact ⟨(b, x), (hmem b x).mpr hb, rfl⟩

/-- What the members of the list answer stands where those that answer stand. -/
theorem filterMap (h : InPreorder At xs) (g : α → Option β) :
    InPreorder (fun a b => ∃ x, At a x ∧ g x = some b) (xs.filterMap g) := by
  obtain ⟨placed, hsorted, hmem, rfl⟩ := h
  refine ⟨placed.filterMap fun p => (g p.2).map (p.1, ·), ?_, fun a b => ?_, ?_⟩
  · refine List.pairwise_filterMap.mpr (hsorted.imp ?_)
    rintro p q hlt p' hp q' hq
    obtain ⟨b, -, rfl⟩ := Option.map_eq_some_iff.mp hp
    obtain ⟨c, -, rfl⟩ := Option.map_eq_some_iff.mp hq
    exact hlt
  · constructor
    · intro hab
      obtain ⟨⟨a', x⟩, hx, hg⟩ := List.mem_filterMap.mp hab
      obtain ⟨b', hb, heq⟩ := Option.map_eq_some_iff.mp hg
      obtain ⟨rfl, rfl⟩ := Prod.mk.inj heq
      exact ⟨x, (hmem a' x).mp hx, hb⟩
    · rintro ⟨x, hx, hb⟩
      refine List.mem_filterMap.mpr ⟨(a, x), (hmem a x).mpr hx, ?_⟩
      rw [hb, Option.map_some]
  · rw [List.map_filterMap, List.filterMap_map]
    refine List.filterMap_congr fun p _ => ?_
    cases h : g p.2 with
    | none => simp [h]
    | some b => simp [h]

end InPreorder

/-! ### What a walk meets -/

theorem exists_cons_of_visitAt? {trail ns : List Node} {a : List Nat} {v : Visit}
    (h : visitAt? trail ns a = some v) : ∃ i b, a = i :: b := by
  cases a with
  | nil => cases h
  | cons i b => exact ⟨i, b, rfl⟩

/-- The first tree of a row is visited at the first place, and all that it encloses
below this place; the others are visited one place further than without it. -/
theorem visitAt?_cons {trail ns : List Node} {n : Node} {a : List Nat} {v : Visit} :
    visitAt? trail (n :: ns) a = some v ↔ (a = [0] ∧ v = ⟨trail, n⟩) ∨
      (∃ b, a = 0 :: b ∧ visitAt? (n :: trail) n.children b = some v) ∨
      ∃ b, a = b.modifyHead (· + 1) ∧ visitAt? trail ns b = some v := by
  have hbehind : (∃ b, a = b.modifyHead (· + 1) ∧ visitAt? trail ns b = some v) ↔
      ∃ i b, a = (i + 1) :: b ∧ visitAt? trail ns (i :: b) = some v := by
    constructor
    · rintro ⟨b, rfl, hb⟩
      obtain ⟨i, c, rfl⟩ := exists_cons_of_visitAt? hb
      exact ⟨i, c, rfl, hb⟩
    · rintro ⟨i, b, rfl, hb⟩
      exact ⟨i :: b, rfl, hb⟩
  rw [hbehind]
  match a with
  | [] => simp [visitAt?]
  | [0] => simp [visitAt?, eq_comm]
  | [i + 1] => simp [visitAt?]
  | 0 :: j :: b => simp [visitAt?]
  | (i + 1) :: j :: b => simp [visitAt?]

/-- Walks of trees in a row go through the addresses in order if the walks of their
children do. -/
theorem inPreorder_row {trail : List Node} : ∀ {ns : List Node},
    (∀ n ∈ ns, InPreorder (fun a v => visitAt? (n :: trail) n.children a = some v)
      (n.children.flatMap (Node.visits (n :: trail)))) →
      InPreorder (fun a v => visitAt? trail ns a = some v) (ns.flatMap (Node.visits trail))
  | [], _ => by
    refine ⟨[], .nil, fun a v => ?_, rfl⟩
    match a with
    | [] => simp [visitAt?]
    | [i] => simp [visitAt?]
    | i :: j :: b => simp [visitAt?]
  | n :: rest, h => by
    obtain ⟨hn, hrest⟩ := List.forall_mem_cons.mp h
    -- what the first tree encloses stands below place 0, the others move up by one
    have hbelow := hn.move (0 :: ·) fun a _ b _ _ _ hlt => List.cons_lt_cons_iff.mpr (.inr ⟨rfl, hlt⟩)
    have hbehind := (inPreorder_row hrest).move (List.modifyHead (· + 1)) fun a _ b _ ha hb hlt => by
      obtain ⟨i, a, rfl⟩ := exists_cons_of_visitAt? ha
      obtain ⟨j, b, rfl⟩ := exists_cons_of_visitAt? hb
      refine List.cons_lt_cons_iff.mpr ((List.cons_lt_cons_iff.mp hlt).imp Nat.succ_lt_succ ?_)
      exact fun h => ⟨congrArg Nat.succ h.1, h.2⟩
    have hsucc : ∀ {b c : List Nat} {v : Visit}, visitAt? trail rest c = some v →
        0 :: b < c.modifyHead (· + 1) := by
      intro b c v hc
      obtain ⟨i, c, rfl⟩ := exists_cons_of_visitAt? hc
      exact List.cons_lt_cons_iff.mpr (.inl (Nat.succ_pos i))
    have hlater := hbelow.append hbehind fun a _ c _ ha hc => by
      obtain ⟨b, rfl, -⟩ := ha
      obtain ⟨c, rfl, hc⟩ := hc
      exact hsucc hc
    have hall := (InPreorder.single [0] (⟨trail, n⟩ : Visit)).append hlater fun a _ c _ ha hc => by
      obtain ⟨rfl, -⟩ := ha
      rcases hc with ⟨b, rfl, hb⟩ | ⟨c, rfl, hc⟩
      · obtain ⟨i, b, rfl⟩ := exists_cons_of_visitAt? hb
        exact List.cons_lt_cons_iff.mpr (.inr ⟨rfl, List.nil_lt_cons i b⟩)
      · exact hsucc hc
    rw [List.flatMap_cons, n.visits_eq]
    exact hall.congr fun a v => visitAt?_cons.symm

/-- **A walk goes through the addresses in order.** It makes one visit at every
address at which a node stands, and the visits stand in the order of the addresses. -/
theorem inPreorder_visits (trail ns : List Node) :
    InPreorder (fun a v => visitAt? trail ns a = some v) (ns.flatMap (Node.visits trail)) := by
  have hchildren : ∀ (n : Node) (trail : List Node),
      InPreorder (fun a v => visitAt? (n :: trail) n.children a = some v)
        (n.children.flatMap (Node.visits (n :: trail))) := by
    intro n
    induction n using Node.children_induction with
    | h n ih => exact fun trail => inPreorder_row fun c hc => ih c hc (n :: trail)
  exact inPreorder_row fun n _ => hchildren n trail

/-! ### What a visit knows -/

/-- The visit at an address is to the node there. -/
theorem map_node_visitAt? : ∀ (trail ns : List Node) (a : List Nat),
    (visitAt? trail ns a).map (·.node) = nodeAt? ns a
  | _, _, [] => rfl
  | trail, ns, [i] => by
    rw [visitAt?, nodeAt?, Option.map_map]
    exact Option.map_id'
  | trail, ns, i :: j :: a => by
    rw [visitAt?, nodeAt?]
    cases ns[i]? with
    | none => rfl
    | some n => exact map_node_visitAt? (n :: trail) n.children (j :: a)

theorem nodeAt?_eq_some_iff (trail : List Node) {ns : List Node} {a : List Nat} {n : Node} :
    nodeAt? ns a = some n ↔ ∃ v, visitAt? trail ns a = some v ∧ v.node = n := by
  rw [← map_node_visitAt? trail, Option.map_eq_some_iff]

/-- On the trail of a visit are the nodes at the addresses above. -/
theorem mem_trail_iff {m : Node} : ∀ {a : List Nat} {trail ns : List Node} {v : Visit},
    visitAt? trail ns a = some v →
      (m ∈ v.trail ↔ m ∈ trail ∨ ∃ b i c, a = b ++ i :: c ∧ nodeAt? ns b = some m)
  | [], _, _, _, h => by cases h
  | [i], trail, ns, v, h => by
    obtain ⟨n, -, rfl⟩ := Option.map_eq_some_iff.mp h
    have hnone : ¬∃ b j c, [i] = b ++ j :: c ∧ nodeAt? ns b = some m := by
      rintro ⟨b, j, c, hab, hb⟩
      cases b with
      | nil => cases hb
      | cons k b => simp at hab
    rw [or_iff_left hnone]
  | i :: j :: a, trail, ns, v, h => by
    obtain ⟨n, hn, hv⟩ := Option.bind_eq_some_iff.mp h
    rw [mem_trail_iff hv, List.mem_cons]
    constructor
    · rintro ((rfl | hm) | ⟨b, k, c, hab, hb⟩)
      · exact .inr ⟨[i], j, a, rfl, hn⟩
      · exact .inl hm
      · cases b with
        | nil => cases hb
        | cons l b =>
          refine .inr ⟨i :: l :: b, k, c, congrArg (i :: ·) hab, ?_⟩
          rw [nodeAt?, hn]
          exact hb
    · rintro (hm | ⟨b, k, c, hab, hb⟩)
      · exact .inl (.inr hm)
      · match b with
        | [] => cases hb
        | [l] =>
          obtain ⟨rfl, -⟩ := List.cons.inj hab
          exact .inl (.inl (Option.some.inj (hb.symm.trans hn)))
        | l :: l' :: b =>
          obtain ⟨rfl, htail⟩ := List.cons.inj hab
          rw [nodeAt?, hn] at hb
          exact .inr ⟨l' :: b, k, c, htail, hb⟩

/-! ### Blocks and files -/

theorem blockVisits_eq (body : List Stmt) :
    blockVisits body = (body.map Node.stmt).flatMap (Node.visits []) := stmtVisits_eq [] body

/-- The trees of a declaration: the statements of a function, the values of variables. -/
def Decl.trees : Decl → List Node
  | .func decl => (decl.body.getD []).map .stmt
  | .type _ => []
  | .var decl => decl.values.map .expr

/-- The trees of a file, in source order. -/
def SourceFile.trees (f : SourceFile) : List Node := f.decls.flatMap Decl.trees

theorem SourceFile.visits_eq (f : SourceFile) : f.visits = f.trees.flatMap (Node.visits []) := by
  rw [visits, trees, List.flatMap_assoc]
  refine List.flatMap_congr fun d _ => ?_
  cases d with
  | func decl =>
    obtain ⟨name, receiver, body, pos⟩ := decl
    cases body with
    | none => rfl
    | some body => exact blockVisits_eq body
  | type decl => rfl
  | var decl => exact exprVisits_eq [] decl.values

end FieldOrder
