/-
# What a helper's flags are read from

Of an expression a schema literal asks little: the name that it is, the text that it is,
the name it is called by, and the composite literal behind it. A map of expressions that
keeps these answers, and goes on inside the elements of literals, keeps the flags of
every schema literal (`Expr.KeepsLiterals.literalFlags?`).

Of the statements of a helper, one after the other, only two things count: the values
they give to variables, until one returns a value (`returnedFlags?_cons`). A map of
statements that keeps both, up to such a map of expressions, keeps what the helper
returns (`Stmt.KeepsReturns.returnedFlags?`).

Key definitions: `Expr.KeepsLiterals`, `Stmt.returned?`, `Stmt.KeepsReturns`.
Key theorems: `Expr.KeepsLiterals.literalFlags?`, `returnedFlags?_cons`,
`Stmt.KeepsReturns.returnedFlags?`.
-/
import Mathlib.Data.List.Basic
import FieldOrder.Schema.Helper

namespace FieldOrder

/-! ### Schema literals -/

/-- The element with its key and its value changed. -/
def Element.mapExprs (φ : Expr → Expr) (el : Element) : Element := ⟨el.key.map φ, φ el.value⟩

namespace Expr

/-- The map keeps all that a schema literal asks of expressions. -/
structure KeepsLiterals (φ : Expr → Expr) : Prop where
  ident? : ∀ e, (φ e).ident? = e.ident?
  string? : ∀ e, (φ e).string? = e.string?
  calleeName? : ∀ e, (φ e).calleeName? = e.calleeName?
  composite? : ∀ e, (φ e).composite? = e.composite?.map fun (type, elements, pos) =>
    (type, elements.map (Element.mapExprs φ), pos)

namespace KeepsLiterals

variable {φ : Expr → Expr} (h : KeepsLiterals φ)

include h

theorem isTrue (e : Expr) : (φ e).isTrue = e.isTrue := by rw [Expr.isTrue, h.ident?, Expr.isTrue]

theorem keyIdent? (el : Element) : (el.mapExprs φ).keyIdent? = el.keyIdent? := by
  rw [Element.keyIdent?, Element.keyIdent?, Element.mapExprs]
  cases el.key with
  | none => rfl
  | some key => exact h.ident? key

theorem texts (value : Expr) : Flags.texts (φ value) = Flags.texts value := by
  unfold Flags.texts
  rw [h.composite?]
  cases value.composite? with
  | none => rfl
  | some literal =>
    obtain ⟨type, elements, pos⟩ := literal
    show (elements.map (Element.mapExprs φ)).filterMap (fun el => el.value.string?) =
      elements.filterMap fun el => el.value.string?
    rw [List.filterMap_map]
    exact List.filterMap_congr fun el _ => h.string? el.value

theorem set (flags : Flags) (key : String) (value : Expr) :
    flags.set key (φ value) = flags.set key value := by
  simp only [Flags.set, h.isTrue, h.calleeName?, h.texts]

theorem add (flags : Flags) (el : Element) : flags.add (el.mapExprs φ) = flags.add el := by
  rw [Flags.add, Flags.add, h.keyIdent?]
  cases el.keyIdent? with
  | none => rfl
  | some key => exact h.set flags key el.value

/-- The elements of a schema literal say the same. -/
theorem ofElements (elements : List Element) :
    Flags.ofElements (elements.map (Element.mapExprs φ)) = Flags.ofElements elements := by
  rw [Flags.ofElements, List.foldl_map]
  simp only [h.add]
  rfl

theorem literalFlags? (e : Expr) : (φ e).literalFlags? = e.literalFlags? := by
  unfold Expr.literalFlags?
  rw [h.composite?]
  cases e.composite? with
  | none => rfl
  | some literal =>
    obtain ⟨type, elements, pos⟩ := literal
    simp only [Option.map_some, h.ofElements]

end KeepsLiterals
end Expr

/-! ### Statements one after the other -/

/-- The first value that a statement returns. -/
def Stmt.returned? : Stmt → Option Expr
  | .ret (result :: _) _ => some result
  | _ => none

/-- What a returned value says, after the given assignments. -/
def saidOf (assigned : List (String × Expr)) (result : Expr) : Option Flags :=
  match result.ident? with
  | some name => (assigned.lookup name).bind Expr.literalFlags?
  | none => result.literalFlags?

/-- The first statement returns a value, or its assignments are made. -/
theorem returnedFlags?_cons (assigned : List (String × Expr)) (s : Stmt) (rest : List Stmt) :
    returnedFlags? assigned (s :: rest) =
      match s.returned? with
      | some result => saidOf assigned result
      | none => returnedFlags? (s.assignments.reverse ++ assigned) rest := by
  cases s with
  | ret results pos =>
    cases results with
    | nil => rfl
    | cons result more => rfl
  | _ => rfl

/-- The values given to variables, changed. -/
def mapValues (φ : Expr → Expr) (assigned : List (String × Expr)) : List (String × Expr) :=
  assigned.map fun p => (p.1, φ p.2)

theorem lookup_mapValues (φ : Expr → Expr) (name : String) : ∀ assigned : List (String × Expr),
    (mapValues φ assigned).lookup name = (assigned.lookup name).map φ
  | [] => rfl
  | (v, value) :: rest => by
    have ih := lookup_mapValues φ name rest
    rw [mapValues, List.map_cons, List.lookup_cons, List.lookup_cons, ← mapValues, ih]
    cases name == v with
    | true => rfl
    | false => rfl

namespace Stmt

/-- The map of statements changes the values they give and return as `φ` does, and a block
has the same statements outside expressions, changed. -/
structure KeepsReturns (φ : Expr → Expr) (σ : Stmt → Stmt) : Prop where
  literals : Expr.KeepsLiterals φ
  assignments : ∀ s, (σ s).assignments = mapValues φ s.assignments
  returned? : ∀ s, (σ s).returned? = s.returned?.map φ
  bareStmts : ∀ body, bareStmts (body.map σ) = (bareStmts body).map σ

theorem assignments_assign (lhs rhs : List Expr) (define : Bool) (pos : Pos) :
    (Stmt.assign lhs rhs define pos).assignments = if lhs.length = rhs.length then
      (lhs.zip rhs).filterMap fun p => p.1.ident?.map (·, p.2) else [] := rfl

/-- What an assignment gives its targets, when the names among them stay. -/
theorem assignments_map_exprs {φ : Expr → Expr} (h : Expr.KeepsLiterals φ) (lhs rhs : List Expr)
    (define define' : Bool) (pos pos' : Pos) :
    (Stmt.assign (lhs.map φ) (rhs.map φ) define' pos').assignments =
      mapValues φ (Stmt.assign lhs rhs define pos).assignments := by
  rw [assignments_assign, assignments_assign, List.length_map, List.length_map]
  split
  · rw [mapValues, List.zip_map, List.filterMap_map, List.map_filterMap]
    refine List.filterMap_congr fun p _ => ?_
    show ((φ p.1).ident?.map fun name => (name, φ p.2)) = _
    rw [h.ident?, Option.map_map]
    rfl
  · rfl

/-- What a declaration gives its names. -/
theorem assignments_map_values (φ : Expr → Expr) (names : List String) (values : List Expr)
    (type type' : Option TypeExpr) (pos pos' : Pos) :
    (Stmt.var names type' (values.map φ) pos').assignments =
      mapValues φ (Stmt.var names type values pos).assignments := by
  simp only [Stmt.assignments, List.length_map, List.zip_map_right, mapValues]
  split
  · rfl
  · rfl

theorem returned?_map_results (φ : Expr → Expr) (results : List Expr) (pos pos' : Pos) :
    (Stmt.ret (results.map φ) pos').returned? = (Stmt.ret results pos).returned?.map φ := by
  cases results with
  | nil => rfl
  | cons result more => rfl

namespace KeepsReturns

variable {φ : Expr → Expr} {σ : Stmt → Stmt} (h : KeepsReturns φ σ)

include h

theorem saidOf (assigned : List (String × Expr)) (result : Expr) :
    FieldOrder.saidOf (mapValues φ assigned) (φ result) = FieldOrder.saidOf assigned result := by
  unfold FieldOrder.saidOf
  rw [h.literals.ident?]
  cases result.ident? with
  | none => exact h.literals.literalFlags? result
  | some name =>
    simp only [lookup_mapValues]
    cases assigned.lookup name with
    | none => rfl
    | some value => exact h.literals.literalFlags? value

/-- Statements one after the other return the same. -/
theorem returnedFlags?_row : ∀ (row : List Stmt) (assigned : List (String × Expr)),
    FieldOrder.returnedFlags? (mapValues φ assigned) (row.map σ) =
      FieldOrder.returnedFlags? assigned row
  | [], _ => rfl
  | s :: rest, assigned => by
    have ih := returnedFlags?_row rest (s.assignments.reverse ++ assigned)
    rw [mapValues, List.map_append, List.map_reverse, ← mapValues, ← mapValues,
      ← h.assignments] at ih
    rw [List.map_cons, returnedFlags?_cons, returnedFlags?_cons, h.returned?]
    cases s.returned? with
    | none => exact ih
    | some result => exact h.saidOf assigned result

/-- The helper returns the same. -/
theorem returnedFlags? (f : FuncDecl) :
    { f with body := f.body.map (·.map σ) : FuncDecl }.returnedFlags? = f.returnedFlags? := by
  obtain ⟨name, receiver, body, pos⟩ := f
  cases body with
  | none => rfl
  | some body =>
    show FieldOrder.returnedFlags? [] (FieldOrder.bareStmts (body.map σ)) =
      FieldOrder.returnedFlags? [] (FieldOrder.bareStmts body)
    rw [h.bareStmts]
    exact h.returnedFlags?_row (FieldOrder.bareStmts body) []

end KeepsReturns
end Stmt
end FieldOrder
