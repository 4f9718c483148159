/-
# Helpers that return a variable

A helper whose first returned value is a variable says what the schema literal
says that the variable was last given, and nothing if it was last given anything
else. Only statements with as many values as targets give values
(`Stmt.IsPaired`): behind the last of those that set the variable, one that takes
it from a call with several results, or that declares it without a value, goes
unnoticed, and the literal before it still counts
(`FuncDecl.returnedFlags?_behind_unpaired`).

Key definitions: `Stmt.targets`, `Stmt.Sets`, `Stmt.IsPaired`, `Stmt.Gives`,
`Expr.IsSchemaLiteral`.
Key theorems: `Stmt.IsNearest.lookup_assignedBy`, `FuncDecl.returnedFlags?_variable`,
`FuncDecl.returnedFlags?_behind_unpaired`.
-/
import FieldOrder.Proofs.Table.Last
import FieldOrder.Schema.Helper

namespace FieldOrder

/-! ### What statements give -/

namespace Stmt

/-- What a statement assigns to or declares, in order: variables, and `none` for
what is no variable. -/
def targets : Stmt → List (Option String)
  | .assign lhs _ _ _ => lhs.map Expr.ident?
  | .var names _ _ _ => names.map some
  | _ => []

/-- The values on the right of a statement that assigns or declares. -/
def values : Stmt → List Expr
  | .assign _ rhs _ _ => rhs
  | .var _ _ values _ => values
  | _ => []

/-- The statement assigns to the variable or declares it. -/
def Sets (s : Stmt) (v : String) : Prop := some v ∈ s.targets

instance (s : Stmt) (v : String) : Decidable (s.Sets v) :=
  inferInstanceAs (Decidable (some v ∈ s.targets))

/-- There are as many values as targets. -/
def IsPaired (s : Stmt) : Prop := s.targets.length = s.values.length

/-- The statement gives the variable the value that stands opposite to it, the last
one if the variable stands more than once. -/
def Gives (s : Stmt) (v : String) (e : Expr) : Prop :=
  s.IsPaired ∧ ∃ front back, s.targets.zip s.values = front ++ (some v, e) :: back ∧
    ∀ p ∈ back, p.1 ≠ some v

/-- The statement returns a value. -/
def ReturnsValue (s : Stmt) : Prop := ∃ result more pos, s = .ret (result :: more) pos

/-- The assignments of a statement are its pairs of a variable and a value. -/
theorem assignments_eq (s : Stmt) : s.assignments =
    if s.targets.length = s.values.length then
      (s.targets.zip s.values).filterMap fun p => p.1.map (·, p.2)
    else [] := by
  cases s with
  | assign lhs rhs define pos =>
    simp only [assignments, targets, values, List.length_map]
    split
    · rw [List.zip_map_left, List.filterMap_map]
      rfl
    · rfl
  | var names type values pos =>
    simp only [assignments, targets, Stmt.values, List.length_map]
    split
    · rw [List.zip_map_left, List.filterMap_map]
      exact (List.filterMap_some).symm
    · rfl
  | _ => rfl

end Stmt

/-! ### The last value given -/

namespace Stmt

/-- What a statement gives a variable. -/
def given? (s : Stmt) (v : String) : Option Expr := s.assignments.reverse.lookup v

theorem lookup_filterMap (v : String) (ps : List (Option String × Expr)) :
    (ps.filterMap fun p => p.1.map (·, p.2)).lookup v =
      ps.findSome? fun p => if p.1 = some v then some p.2 else none := by
  induction ps with
  | nil => rfl
  | cons p ps ih =>
    obtain ⟨target, value⟩ := p
    cases target with
    | none => simpa using ih
    | some w =>
      by_cases hw : w = v
      · simp [hw]
      · have hne : (v == w) = false := beq_eq_false_iff_ne.mpr fun h => hw h.symm
        simp [List.lookup_cons, hne, hw, ih]

theorem given?_eq_some {s : Stmt} {v : String} {e : Expr} : s.given? v = some e ↔ s.Gives v e := by
  unfold given? Gives IsPaired
  rw [assignments_eq]
  by_cases hpaired : s.targets.length = s.values.length
  · rw [if_pos hpaired, ← List.filterMap_reverse, lookup_filterMap, findSome?_reverse_eq_some]
    simp only [hpaired, true_and]
    constructor
    · rintro ⟨front, ⟨target, value⟩, back, hzip, hp, hback⟩
      split at hp
      · next htarget =>
        obtain rfl := Option.some.inj hp
        obtain rfl : target = some v := htarget
        refine ⟨front, back, hzip, fun p hp => ?_⟩
        simpa using hback p hp
      · cases hp
    · rintro ⟨front, back, hzip, hback⟩
      refine ⟨front, (some v, e), back, hzip, by simp, fun p hp => ?_⟩
      simp [hback p hp]
  · rw [if_neg hpaired]
    simp [hpaired]

theorem given?_eq_none {s : Stmt} {v : String} :
    s.given? v = none ↔ (s.IsPaired → ¬s.Sets v) := by
  unfold given? IsPaired Sets
  rw [assignments_eq]
  by_cases hpaired : s.targets.length = s.values.length
  · have htargets : (s.targets.zip s.values).map Prod.fst = s.targets :=
      List.map_fst_zip (Nat.le_of_eq hpaired)
    rw [if_pos hpaired, ← List.filterMap_reverse, lookup_filterMap, List.findSome?_eq_none_iff]
    constructor
    · intro h _ hmem
      rw [← htargets] at hmem
      obtain ⟨p, hp, hv⟩ := List.mem_map.mp hmem
      have := h p (List.mem_reverse.mpr hp)
      simp [hv] at this
    · intro h p hp
      have hp : p.1 ∈ s.targets := by
        rw [← htargets]
        exact List.mem_map_of_mem (List.mem_reverse.mp hp)
      have hne : p.1 ≠ some v := fun heq => h hpaired (heq ▸ hp)
      rw [if_neg hne]
  · rw [if_neg hpaired]
    simp [hpaired]

end Stmt

/-! ### Statements in a row -/

/-- The expression is a schema literal that says `flags`. -/
def Expr.IsSchemaLiteral (e : Expr) (flags : Flags) : Prop :=
  ∃ type elements pos, e.composite? = some (type, elements, pos) ∧ isSchemaType type = true ∧
    flags = .ofElements elements

theorem Expr.literalFlags?_eq_some {e : Expr} {flags : Flags} :
    e.literalFlags? = some flags ↔ e.IsSchemaLiteral flags := by
  unfold literalFlags? IsSchemaLiteral
  constructor
  · intro h
    split at h
    · next type elements pos he =>
      split at h
      · next htype =>
        exact ⟨type, elements, pos, he, htype, (Option.some.inj h).symm⟩
      · cases h
    · cases h
  · rintro ⟨type, elements, pos, he, htype, rfl⟩
    simp [he, htype]

/-- The assignments of statements in a row, the latest first. -/
def assignedBy (before : List Stmt) : List (String × Expr) :=
  before.foldl (fun assigned s => s.assignments.reverse ++ assigned) []

theorem lookup_assignedBy (v : String) (before : List Stmt) :
    (assignedBy before).lookup v = before.reverse.findSome? (·.given? v) := by
  induction before using List.reverseRecOn with
  | nil => rfl
  | append_singleton before s ih =>
    rw [assignedBy, List.foldl_append, List.foldl_cons, List.foldl_nil, ← assignedBy,
      List.lookup_append, ih, List.reverse_append, List.reverse_singleton, List.singleton_append,
      List.findSome?_cons]
    cases hs : s.given? v with
    | none =>
      have hs : s.assignments.reverse.lookup v = none := hs
      rw [hs, Option.none_or]
    | some e =>
      have hs : s.assignments.reverse.lookup v = some e := hs
      rw [hs, Option.some_or]

/-- The value that a variable has after statements is what the last statement that
gives it one gives it. -/
theorem lookup_assignedBy_eq_some {v : String} {e : Expr} {before : List Stmt} :
    (assignedBy before).lookup v = some e ↔ ∃ earlier s between,
      before = earlier ++ s :: between ∧ s.Gives v e ∧
      ∀ s' ∈ between, s'.IsPaired → ¬s'.Sets v := by
  rw [lookup_assignedBy, findSome?_reverse_eq_some]
  simp only [Stmt.given?_eq_some, Stmt.given?_eq_none]

/-- Statements that return no value are passed with their assignments. -/
theorem returnedFlags?_append {before : List Stmt} (hbefore : ∀ s ∈ before, ¬s.ReturnsValue)
    (rest : List Stmt) : returnedFlags? [] (before ++ rest) =
      returnedFlags? (assignedBy before) rest := by
  induction before using List.reverseRecOn generalizing rest with
  | nil => rfl
  | append_singleton before s ih =>
    have hs : ¬s.ReturnsValue := hbefore s (by simp)
    have ih := ih (fun s' hs' => hbefore s' (List.mem_append_left _ hs')) (s :: rest)
    rw [List.append_assoc, List.singleton_append, ih, assignedBy, assignedBy, List.foldl_append]
    have hpass : ∀ assigned, returnedFlags? assigned (s :: rest) =
        returnedFlags? (s.assignments.reverse ++ assigned) rest := by
      intro assigned
      cases s with
      | ret results pos =>
        cases results with
        | nil => rfl
        | cons result more => exact absurd ⟨result, more, pos, rfl⟩ hs
      | _ => rfl
    exact hpass _

/-! ### Helpers -/

/-- The first value that the function returns is `result`, behind the statements
`before`; statements in function literals do not count. -/
def FuncDecl.FirstReturns (f : FuncDecl) (before : List Stmt) (result : Expr) : Prop :=
  ∃ body more pos after, f.body = some body ∧
    bareStmts body = before ++ .ret (result :: more) pos :: after ∧
    ∀ s ∈ before, ¬s.ReturnsValue

/-- Of the statements that set the variable, `s` is the last. -/
def Stmt.IsNearest (before : List Stmt) (v : String) (s : Stmt) : Prop :=
  ∃ earlier between, before = earlier ++ s :: between ∧ s.Sets v ∧ ∀ s' ∈ between, ¬s'.Sets v

theorem FuncDecl.FirstReturns.returnedFlags? {f : FuncDecl} {before : List Stmt} {result : Expr}
    {v : String} (h : f.FirstReturns before result) (hv : result.ident? = some v) :
    f.returnedFlags? = ((assignedBy before).lookup v).bind Expr.literalFlags? := by
  obtain ⟨body, more, pos, after, hbody, hstmts, hbefore⟩ := h
  rw [FuncDecl.returnedFlags?, hbody]
  show FieldOrder.returnedFlags? [] (bareStmts body) = _
  rw [hstmts, returnedFlags?_append hbefore]
  simp [FieldOrder.returnedFlags?, hv]

/-- When the last statement that sets the variable has as many values as targets,
it decides what the variable was last given. -/
theorem Stmt.IsNearest.lookup_assignedBy {before : List Stmt} {v : String} {s : Stmt}
    (h : Stmt.IsNearest before v s) (hpaired : s.IsPaired) :
    (assignedBy before).lookup v = s.given? v := by
  obtain ⟨earlier, between, rfl, hsets, hbetween⟩ := h
  have hnone : between.reverse.findSome? (·.given? v) = none := by
    rw [List.findSome?_eq_none_iff]
    intro s' hs'
    exact given?_eq_none.mpr fun _ => hbetween s' (List.mem_reverse.mp hs')
  have hsome : s.given? v ≠ none := fun hs => given?_eq_none.mp hs hpaired hsets
  rw [FieldOrder.lookup_assignedBy, List.reverse_append, List.reverse_cons, List.append_assoc,
    List.findSome?_append, hnone, Option.none_or, List.singleton_append, List.findSome?_cons]
  cases hs : s.given? v with
  | none => exact absurd hs hsome
  | some e => rfl

/-- What a helper says whose first returned value is a variable: what the schema
literal says that stands opposite to the variable in the last statement before
that sets it and has as many values as targets. When this is the last statement of
all that set it, no other one is looked at; when there is none, nothing is said. -/
theorem FuncDecl.returnedFlags?_variable {f : FuncDecl} {before : List Stmt} {result : Expr}
    {v : String} (hreturn : f.FirstReturns before result) (hv : result.ident? = some v)
    (flags : Flags) :
    (f.returnedFlags? = some flags ↔ ∃ earlier s between e, before = earlier ++ s :: between ∧
      s.Gives v e ∧ e.IsSchemaLiteral flags ∧ ∀ s' ∈ between, s'.IsPaired → ¬s'.Sets v) ∧
    (∀ s, Stmt.IsNearest before v s → s.IsPaired →
      (f.returnedFlags? = some flags ↔ ∃ e, s.Gives v e ∧ e.IsSchemaLiteral flags)) ∧
    ((∀ s ∈ before, ¬s.Sets v) → f.returnedFlags? = none) := by
  rw [hreturn.returnedFlags? hv]
  refine ⟨?_, fun s hnearest hpaired => ?_, fun hnone => ?_⟩
  · rw [Option.bind_eq_some_iff]
    constructor
    · rintro ⟨e, he, hflags⟩
      obtain ⟨earlier, s, between, hsplit, hgives, hbetween⟩ := lookup_assignedBy_eq_some.mp he
      exact ⟨earlier, s, between, e, hsplit, hgives, Expr.literalFlags?_eq_some.mp hflags, hbetween⟩
    · rintro ⟨earlier, s, between, e, hsplit, hgives, hflags, hbetween⟩
      have he := lookup_assignedBy_eq_some.mpr ⟨earlier, s, between, hsplit, hgives, hbetween⟩
      exact ⟨e, he, Expr.literalFlags?_eq_some.mpr hflags⟩
  · rw [hnearest.lookup_assignedBy hpaired, Option.bind_eq_some_iff]
    simp only [Stmt.given?_eq_some, Expr.literalFlags?_eq_some]
  · have hlookup : (assignedBy before).lookup v = none := by
      rw [lookup_assignedBy, List.findSome?_eq_none_iff]
      intro s hs
      exact Stmt.given?_eq_none.mpr fun _ => hnone s (List.mem_reverse.mp hs)
    rw [hlookup]
    rfl

/-! ### Some helpers -/

/-- The literal `&schema.Schema{key: true}`. -/
def Expr.schemaWith (key : String) : Expr :=
  .unary .addr (.composite (some (.named (some "schema") "Schema"))
    [⟨some (.ident key {}), .ident "true" {}⟩] {})

/-- The statement `s := &schema.Schema{key: true}`. -/
def Stmt.defineSchema (key : String) : Stmt :=
  .assign [.ident "s" {}] [.schemaWith key] true {}

/-- The statement `s, err = load()`. -/
def Stmt.reload : Stmt :=
  .assign [.ident "s" {}, .ident "err" {}] [.call (.ident "load" {}) [] {}] false {}

/-- A helper of the given statements that returns `s` behind them. -/
def FuncDecl.returningAfter (before : List Stmt) : FuncDecl :=
  ⟨"skuSchema", none, some (before ++ [.ret [.ident "s" {}] {}]), {}⟩

theorem returnedFlags?_variable_defineSchema :
    (FuncDecl.returningAfter [.defineSchema "Computed"]).returnedFlags? =
      some { computed := true } := by
  have hreturn : (FuncDecl.returningAfter [.defineSchema "Computed"]).FirstReturns
      [.defineSchema "Computed"] (.ident "s" {}) :=
    ⟨_, [], {}, [], rfl, rfl, by
      rintro s hs ⟨result, more, pos, rfl⟩
      simp [Stmt.defineSchema] at hs⟩
  have hnearest : Stmt.IsNearest [.defineSchema "Computed"] "s" (.defineSchema "Computed") :=
    ⟨[], [], rfl, by decide, by simp⟩
  have hgives : (Stmt.defineSchema "Computed").Gives "s" (.schemaWith "Computed") :=
    ⟨rfl, [], [], rfl, by simp⟩
  have hliteral : (Expr.schemaWith "Computed").IsSchemaLiteral { computed := true } :=
    ⟨_, _, _, rfl, by decide, by decide⟩
  obtain ⟨-, hlast, -⟩ := FuncDecl.returnedFlags?_variable hreturn rfl { computed := true }
  exact (hlast _ hnearest rfl).mpr ⟨_, hgives, hliteral⟩

/-- Behind a schema literal the variable is taken from a call with several results,
and still the helper says what the literal says. -/
theorem FuncDecl.returnedFlags?_behind_unpaired :
    (returningAfter [.defineSchema "Required", .reload]).FirstReturns
        [.defineSchema "Required", .reload] (.ident "s" {}) ∧
      Stmt.IsNearest [.defineSchema "Required", .reload] "s" .reload ∧
      (¬∃ e flags, Stmt.reload.Gives "s" e ∧ e.IsSchemaLiteral flags) ∧
      (returningAfter [.defineSchema "Required", .reload]).returnedFlags? =
        some { required := true } := by
  refine ⟨⟨_, [], {}, [], rfl, rfl, ?_⟩,
    ⟨[.defineSchema "Required"], [], rfl, by decide, by simp⟩, ?_, by decide⟩
  · rintro s hs ⟨result, more, pos, rfl⟩
    simp [Stmt.defineSchema, Stmt.reload] at hs
  · rintro ⟨e, flags, ⟨hpaired, -⟩, -⟩
    cases hpaired

end FieldOrder
