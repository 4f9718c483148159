/-
# What tracing asks of an expression

The trace of a function looks at identifiers, literals, selected members, calls and type
assertions, and through the parentheses around them. Every other expression is sealed:
it is no field, no constructor and no commit, whatever it has inside.

So a map of expressions that keeps these kinds and goes on inside them keeps all answers
(`Expr.KeepsHeads`): the field that is read, the constructor that is called, what a
variable holds after it is given the value, and what a commit of the value resolves to.

Key definitions: `Expr.Sealed`, `Expr.SameHead`, `Expr.KeepsHeads`.
Key theorems: `Expr.KeepsHeads.fieldRead?`, `Expr.KeepsHeads.constructor?`,
`Expr.KeepsHeads.bind`, `Expr.KeepsHeads.resolveCommit`, `Expr.KeepsHeads.commitArgs?`.
-/
import Mathlib.Data.List.Basic
import FieldOrder.Proofs.Provenance.Tables

namespace FieldOrder

/-! ### Heads -/

namespace Expr

/-- An expression of a kind that tracing does not look into. -/
inductive Sealed : Expr → Prop where
  | composite (type : Option TypeExpr) (elements : List Element) (pos : Pos) :
    Sealed (.composite type elements pos)
  | unary (op : UnaryOp) (x : Expr) : Sealed (.unary op x)
  | star (x : Expr) : Sealed (.star x)
  | binary (op : String) (x y : Expr) : Sealed (.binary op x y)
  | index (x i : Expr) : Sealed (.index x i)
  | funcLit (body : List Stmt) (pos : Pos) : Sealed (.funcLit body pos)
  | other : Sealed .other

/-- The second expression is of the kind of the first and has its parts, changed by
`φ`; or both are sealed. -/
inductive SameHead (φ : Expr → Expr) : Expr → Expr → Prop where
  | ident (name : String) (pos : Pos) : SameHead φ (.ident name pos) (.ident name pos)
  | lit (kind : LitKind) (value : String) (pos : Pos) :
    SameHead φ (.lit kind value pos) (.lit kind value pos)
  | selector (x : Expr) (sel : String) (pos : Pos) :
    SameHead φ (.selector x sel pos) (.selector (φ x) sel pos)
  | call (callee : Expr) (args : List Expr) (pos : Pos) :
    SameHead φ (.call callee args pos) (.call (φ callee) (args.map φ) pos)
  | typeAssert (x : Expr) (type : Option TypeExpr) :
    SameHead φ (.typeAssert x type) (.typeAssert (φ x) type)
  | sealed {x y : Expr} (hx : x.Sealed) (hy : y.Sealed) : SameHead φ x y

/-- The map keeps all that tracing looks at. -/
def KeepsHeads (φ : Expr → Expr) : Prop := ∀ e : Expr, SameHead φ e.unparen (φ e).unparen

namespace KeepsHeads

variable {φ : Expr → Expr} (h : KeepsHeads φ)

/-! ### Names, texts and fields -/

include h

theorem ident? (e : Expr) : (φ e).ident? = e.ident? := by
  have head := h e
  unfold Expr.ident?
  generalize e.unparen = x, (φ e).unparen = y at head ⊢
  cases head with
  | sealed hx hy => cases hx with | _ => cases hy with | _ => rfl
  | _ => rfl

theorem string? (e : Expr) : (φ e).string? = e.string? := by
  have head := h e
  unfold Expr.string?
  generalize e.unparen = x, (φ e).unparen = y at head ⊢
  cases head with
  | sealed hx hy => cases hx with | _ => cases hy with | _ => rfl
  | _ => rfl

theorem calleeName? (e : Expr) : (φ e).calleeName? = e.calleeName? := by
  have head := h e
  unfold Expr.calleeName?
  generalize e.unparen = x, (φ e).unparen = y at head ⊢
  cases head with
  | sealed hx hy => cases hx with | _ => cases hy with | _ => rfl
  | _ => rfl

theorem isScope (e : Expr) : (φ e).isScope = e.isScope := by
  rw [Expr.isScope, Expr.isScope, h.calleeName?]

theorem unassert (e : Expr) : SameHead φ e.unassert (φ e).unassert := by
  have head := h e
  unfold Expr.unassert
  generalize e.unparen = x, (φ e).unparen = y at head ⊢
  cases head with
  | typeAssert x type => exact h x
  | ident name pos => exact .ident name pos
  | lit kind value pos => exact .lit kind value pos
  | selector x sel pos => exact .selector x sel pos
  | call callee args pos => exact .call callee args pos
  | sealed hx hy =>
    have hx' := hx
    have hy' := hy
    cases hx with | _ => cases hy with | _ => exact .sealed hx' hy'

theorem head?_bind_string? (args : List Expr) :
    (args.map φ).head?.bind Expr.string? = args.head?.bind Expr.string? := by
  cases args with
  | nil => rfl
  | cons arg rest => exact h.string? arg

variable (tracer : Tracer)

/-- The expression reads the same field. -/
theorem fieldRead? (e : Expr) : tracer.fieldRead? (φ e) = tracer.fieldRead? e := by
  have head := h.unassert e
  unfold Tracer.fieldRead?
  generalize e.unassert = x, (φ e).unassert = y at head ⊢
  cases head with
  | call callee args pos =>
    have hcallee := h callee
    dsimp only
    generalize callee.unparen = x, (φ callee).unparen = y at hcallee ⊢
    cases hcallee with
    | selector x sel pos => simp only [h.ident?, h.head?_bind_string?]
    | sealed hx hy => cases hx with | _ => cases hy with | _ => rfl
    | _ => rfl
  | sealed hx hy => cases hx with | _ => cases hy with | _ => rfl
  | _ => rfl

/-- The expression is the same constructor call, but for its arguments. -/
theorem constructor? (e : Expr) : (φ e).constructor? =
    e.constructor?.map fun (kind, args) => (kind, args.map φ) := by
  have head := h e
  unfold Expr.constructor?
  generalize e.unparen = x, (φ e).unparen = y at head ⊢
  cases head with
  | call callee args pos => simp [h.calleeName?, Function.comp_def]
  | sealed hx hy => cases hx with | _ => cases hy with | _ => rfl
  | _ => rfl

/-! ### Tables -/

variable (b : Bindings)

theorem parentMember? (e : Expr) : b.parentMember? (φ e) = b.parentMember? e := by
  have head := h e
  unfold Bindings.parentMember?
  generalize e.unparen = x, (φ e).unparen = y at head ⊢
  cases head with
  | selector x sel pos => simp only [h.ident?]
  | sealed hx hy => cases hx with | _ => cases hy with | _ => rfl
  | _ => rfl

theorem argField? (first : Bool) (arg : Expr) :
    b.argField? tracer first (φ arg) = b.argField? tracer first arg := by
  simp only [Bindings.argField?, Bindings.fieldOf?, h.parentMember?, h.fieldRead?, h.ident?,
    h.isScope]

theorem resolveFrom : ∀ (args : List Expr) (first : Bool) (fields : List String),
    b.resolveFrom tracer first fields (args.map φ) = b.resolveFrom tracer first fields args
  | [], _, _ => rfl
  | arg :: rest, first, fields => by
    rw [List.map_cons, Bindings.resolveFrom, Bindings.resolveFrom, h.argField?]
    cases b.argField? tracer first arg with
    | none => rfl
    | some found =>
      cases found with
      | none => exact resolveFrom rest false fields
      | some field => exact resolveFrom rest false (pushUnique fields field)

/-- The arguments stand for the same fields. -/
theorem resolveArgs (args : List Expr) :
    b.resolveArgs tracer (args.map φ) = b.resolveArgs tracer args :=
  h.resolveFrom tracer b args true []

/-- The tables are the same after a variable is given the value. -/
theorem bind (name : String) (value : Expr) :
    b.bind tracer name (φ value) = b.bind tracer name value := by
  unfold Bindings.bind
  rw [h.fieldRead?, h.constructor?]
  cases tracer.fieldRead? value with
  | some field => rfl
  | none =>
    cases value.constructor? with
    | none => rfl
    | some c => simp only [Option.map_some, h.resolveArgs]

/-- The tables are the same after variables are given the values one after the other. -/
theorem after (values : List (String × Expr)) :
    Bindings.after tracer (values.map fun p => (p.1, φ p.2)) = Bindings.after tracer values := by
  simp only [Bindings.after, List.foldl_map, h.bind]

/-! ### Commits -/

/-- A commit of the value is resolved to the same fields. -/
theorem resolveCommit (arg : Expr) : b.resolveCommit tracer (φ arg) = b.resolveCommit tracer arg := by
  unfold Bindings.resolveCommit
  rw [h.constructor?]
  cases arg.constructor? with
  | some c => simp only [Option.map_some, h.resolveArgs]
  | none =>
    have head := h arg
    generalize arg.unparen = x, (φ arg).unparen = y at head ⊢
    cases head with
    | call callee args pos =>
      cases args with
      | cons first more => rfl
      | nil =>
        have hcallee := h callee
        simp only [Option.map_none, List.map_nil]
        generalize callee.unparen = x, (φ callee).unparen = y at hcallee ⊢
        cases hcallee with
        | selector x sel pos => simp only [h.ident?]
        | sealed hx hy => cases hx with | _ => cases hy with | _ => rfl
        | _ => rfl
    | sealed hx hy => cases hx with | _ => cases hy with | _ => rfl
    | _ => rfl

/-- The call commits the same arguments, but for the change. -/
theorem commitArgs? (callee : Expr) (args : List Expr) (pos : Pos) :
    tracer.commitArgs? (.expr (.call (φ callee) (args.map φ) pos)) =
      (tracer.commitArgs? (.expr (.call callee args pos))).map (·.map φ) := by
  have hcallee := h callee
  unfold Tracer.commitArgs?
  dsimp only
  generalize callee.unparen = x, (φ callee).unparen = y at hcallee ⊢
  cases hcallee with
  | selector x sel pos =>
    simp only [h.ident?]
    split
    · rfl
    · rfl
  | sealed hx hy => cases hx with | _ => cases hy with | _ => rfl
  | _ => rfl

/-! ### Assignments -/

/-- An assignment gives the same variables the values, changed. -/
theorem bindings_assign (lhs rhs : List Expr) (define : Bool) (pos : Pos) :
    (Stmt.assign (lhs.map φ) (rhs.map φ) define pos).bindings =
      (Stmt.assign lhs rhs define pos).bindings.map fun p => (p.1, φ p.2) := by
  have hzip : ∀ rhs : List Expr,
      (((lhs.map φ).zip (rhs.map φ)).filterMap fun p => p.1.ident?.map (·, p.2)) =
        ((lhs.zip rhs).filterMap fun p => p.1.ident?.map (·, p.2)).map fun p => (p.1, φ p.2) := by
    intro rhs
    rw [List.zip_map, List.filterMap_map, List.map_filterMap]
    refine List.filterMap_congr fun p _ => ?_
    simp [Function.comp_def, h.ident?]
  cases rhs with
  | nil => exact hzip []
  | cons value rest =>
    cases rest with
    | cons second more => exact hzip (value :: second :: more)
    | nil =>
      cases lhs with
      | nil => rfl
      | cons target more =>
        show ((φ target).ident?.map (·, φ value)).toList =
          (target.ident?.map (·, value)).toList.map fun p => (p.1, φ p.2)
        rw [h.ident?]
        cases target.ident? with
        | none => rfl
        | some name => rfl

end KeepsHeads
end Expr
end FieldOrder
