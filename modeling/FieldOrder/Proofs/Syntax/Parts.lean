/-
# Statements outside expressions

The statements that stand outside expressions can be told without a walk: a statement
comes first, and then come those of its parts, the statements right below it, one part
after the other (`Stmt.bare_eq`). Expressions have none to add, whatever function
literals they hold.

A map of statements that goes on inside the parts of a statement therefore goes through
these statements one by one (`bareStmts_map`).

Key definitions: `Stmt.parts`, `Stmt.bare`.
Key theorems: `Stmt.bare_eq`, `bareStmts_eq`, `Stmt.parts_induction`, `bareStmts_map`.
-/
import Mathlib.Data.List.Basic
import FieldOrder.Proofs.Syntax.Addresses

namespace FieldOrder

/-! ### Parts -/

namespace Stmt

/-- The statements right below a statement, in source order. -/
def parts : Stmt → List Stmt
  | cond init _ yes no => init.toList ++ yes ++ no.toList
  | loop init _ post body => init.toList ++ post.toList ++ body
  | range _ _ _ body => body
  | switch init _ cases => init.toList ++ cases.flatMap (·.body)
  | block body => body
  | _ => []

/-- What expressions do not answer is answered by the parts of a statement. -/
theorem flatMap_children {α : Type} {g : Node → List α} (hg : ∀ e, g (.expr e) = []) (s : Stmt) :
    (Node.stmt s).children.flatMap g = s.parts.flatMap fun p => g (.stmt p) := by
  have hexprs : ∀ es : List Expr, (es.map Node.expr).flatMap g = [] := by
    intro es
    simp [List.flatMap_map, hg]
  cases s with
  | _ => simp [Node.children, parts, List.flatMap_map, List.flatMap_assoc, hg, hexprs]

theorem mem_children_of_mem_parts {s p : Stmt} (h : p ∈ s.parts) : .stmt p ∈ (Node.stmt s).children := by
  have hfilter : (Node.stmt s).children.flatMap (fun n => n.stmt?.toList) = s.parts := by
    rw [flatMap_children (g := fun n => n.stmt?.toList) (fun _ => rfl)]
    exact List.flatMap_singleton' s.parts
  rw [← hfilter] at h
  obtain ⟨n, hn, hp⟩ := List.mem_flatMap.mp h
  cases n with
  | stmt s' =>
    obtain rfl := List.mem_singleton.mp hp
    exact hn
  | expr e => cases hp
  | element el => cases hp

/-- What holds of a statement whenever it holds of its parts, holds of every statement. -/
theorem parts_induction {P : Stmt → Prop} (h : ∀ s, (∀ p ∈ s.parts, P p) → P s) (s : Stmt) : P s := by
  have hnodes : ∀ n : Node, ∀ s, n = .stmt s → P s := by
    intro n
    induction n using Node.children_induction with
    | h n ih =>
      rintro s rfl
      exact h s fun p hp => ih _ (mem_children_of_mem_parts hp) p rfl
  exact hnodes _ s rfl

end Stmt

/-! ### Bare statements -/

/-- The statement visited, if only statements lie around it. -/
def Visit.bareStmt? (v : Visit) : Option Stmt := if v.isBare then v.node.stmt? else none

namespace Node

/-- Inside anything that is no statement no statement is bare. -/
theorem bareStmts_visits_of_not_bare {trail : List Node}
    (h : (trail.all fun n => n.stmt?.isSome) = false) (n : Node) :
    (n.visits trail).filterMap Visit.bareStmt? = [] := by
  induction n using children_induction generalizing trail with
  | h n ih =>
    have hself : Visit.bareStmt? ⟨trail, n⟩ = none := by
      rw [Visit.bareStmt?, Visit.isBare, h]
      rfl
    have hbelow : ((n :: trail).all fun n => n.stmt?.isSome) = false := by
      rw [List.all_cons, h, Bool.and_false]
    rw [visits_eq, List.filterMap_cons_none hself, List.filterMap_flatMap]
    exact List.flatMap_eq_nil_iff.mpr fun c hc => ih c hc hbelow

/-- An expression has no bare statements. -/
theorem bareStmts_visits_expr (trail : List Node) (e : Expr) :
    ((Node.expr e).visits trail).filterMap Visit.bareStmt? = [] := by
  have hself : Visit.bareStmt? ⟨trail, .expr e⟩ = none := by
    rw [Visit.bareStmt?]
    exact ite_self none
  have hbelow : ((Node.expr e :: trail).all fun n => n.stmt?.isSome) = false := rfl
  rw [visits_eq, List.filterMap_cons_none hself, List.filterMap_flatMap]
  exact List.flatMap_eq_nil_iff.mpr fun c _ => c.bareStmts_visits_of_not_bare hbelow

end Node

namespace Stmt

/-- The bare statements of a statement, itself first. -/
def bare (s : Stmt) : List Stmt := ((Node.stmt s).visits []).filterMap Visit.bareStmt?

/-- Behind a trail of statements, a statement comes before what its parts have. -/
theorem bareStmts_visits_cons {trail : List Node}
    (h : (trail.all fun n => n.stmt?.isSome) = true) (s : Stmt) :
    ((Node.stmt s).visits trail).filterMap Visit.bareStmt? =
      s :: s.parts.flatMap fun p =>
        ((Node.stmt p).visits (.stmt s :: trail)).filterMap Visit.bareStmt? := by
  have hself : Visit.bareStmt? ⟨trail, .stmt s⟩ = some s := by
    rw [Visit.bareStmt?, Visit.isBare, h]
    rfl
  rw [Node.visits_eq, List.filterMap_cons_some hself, List.filterMap_flatMap,
    flatMap_children fun e => Node.bareStmts_visits_expr (.stmt s :: trail) e]

theorem bareStmts_visits {trail : List Node} (h : (trail.all fun n => n.stmt?.isSome) = true)
    (s : Stmt) : ((Node.stmt s).visits trail).filterMap Visit.bareStmt? = s.bare := by
  induction s using parts_induction generalizing trail with
  | h s ih =>
    rw [bare, bareStmts_visits_cons h, bareStmts_visits_cons rfl]
    refine congrArg (s :: ·) (List.flatMap_congr fun p hp => ?_)
    have hbelow : ((Node.stmt s :: trail).all fun n => n.stmt?.isSome) = true := h
    rw [ih p hp hbelow, ih p hp rfl]

/-- A statement comes first, and then the bare statements of its parts. -/
theorem bare_eq (s : Stmt) : s.bare = s :: s.parts.flatMap bare := by
  rw [bare, bareStmts_visits_cons rfl]
  exact congrArg (s :: ·) (List.flatMap_congr fun p _ => bareStmts_visits rfl p)

/-- A map that goes on inside the parts goes through the bare statements. -/
theorem bare_map {σ : Stmt → Stmt} (hσ : ∀ s, (σ s).parts = s.parts.map σ) (s : Stmt) :
    (σ s).bare = s.bare.map σ := by
  induction s using parts_induction with
  | h s ih =>
    rw [bare_eq, bare_eq, hσ, List.map_cons, List.flatMap_map, List.map_flatMap]
    exact congrArg (σ s :: ·) (List.flatMap_congr ih)

end Stmt

theorem bareStmts_eq (body : List Stmt) : bareStmts body = body.flatMap Stmt.bare := by
  rw [bareStmts, blockVisits_eq, List.flatMap_map, List.filterMap_flatMap]
  rfl

theorem bareStmts_map {σ : Stmt → Stmt} (hσ : ∀ s, (σ s).parts = s.parts.map σ) (body : List Stmt) :
    bareStmts (body.map σ) = (bareStmts body).map σ := by
  rw [bareStmts_eq, bareStmts_eq, List.flatMap_map, List.map_flatMap]
  exact List.flatMap_congr fun s _ => s.bare_map hσ

end FieldOrder
