/-
# What a helper's flags do not depend on

To say what a helper returns, its statements are followed to the first one that returns
a value, and only those outside function literals. So nothing else has an influence:
neither the body of any function literal, wherever it stands, nor anything behind that
return in source order, at whatever depth.

What stands behind a return is told by a relation with one rule for each place in which
a statement can have another (`Stmt.SameUntilReturn`): before the statement that holds
the return all is the same, and behind it anything may stand.

Key definitions: `FuncDecl.SameButLiterals`, `Stmt.SameUntilReturn`,
`FuncDecl.SameUntilReturn`, `DecideAlike`.
Key theorems: `DecideAlike.inside`, `Stmt.SameUntilReturn.decideAlike`,
`FuncDecl.returnedFlags?_unfollowed`.
-/
import FieldOrder.Proofs.Schema.Answers
import FieldOrder.Proofs.Syntax.Hollow

namespace FieldOrder

/-! ### Bodies of function literals -/

/-- The functions are the same but for the bodies of function literals. -/
def FuncDecl.SameButLiterals (f g : FuncDecl) : Prop := f.hollow = g.hollow

theorem Element.hollow_eq_mapExprs : Element.hollow = Element.mapExprs Expr.hollow := by
  funext el
  obtain ⟨key, value⟩ := el
  rw [hollow, hollowExpr?_eq_map, mapExprs]

theorem Expr.keepsLiterals_hollow : KeepsLiterals hollow where
  ident? := ident?_hollow
  string? := string?_hollow
  calleeName? := calleeName?_hollow
  composite? e := by rw [composite?_hollow, Element.hollow_eq_mapExprs]

/-- Statements give and return the same values, but for function literals in these. -/
theorem Stmt.keepsReturns_hollow : KeepsReturns Expr.hollow Stmt.hollow where
  literals := Expr.keepsLiterals_hollow
  assignments s := by
    cases s with
    | assign lhs rhs define pos =>
      exact assignments_map_exprs Expr.keepsLiterals_hollow lhs rhs define define pos pos
    | var names type values pos =>
      exact assignments_map_values Expr.hollow names values type type pos pos
    | _ => rfl
  returned? s := by
    cases s with
    | ret results pos => exact returned?_map_results Expr.hollow results pos pos
    | _ => rfl
  bareStmts := bareStmts_map parts_hollow

theorem FuncDecl.returnedFlags?_hollow (f : FuncDecl) : f.hollow.returnedFlags? = f.returnedFlags? :=
  Stmt.keepsReturns_hollow.returnedFlags? f

/-! ### Statements behind a return -/

/-- Both statements hold the same return of a value, outside function literals, and are
the same up to there. Statements in a row count as the block of which they are the body. -/
inductive Stmt.SameUntilReturn : Stmt → Stmt → Prop where
  | ret (result : Expr) (more : List Expr) (pos : Pos) :
    SameUntilReturn (.ret (result :: more) pos) (.ret (result :: more) pos)
  | block (before : List Stmt) {after after' : List Stmt} {s s' : Stmt} (h : SameUntilReturn s s') :
    SameUntilReturn (.block (before ++ s :: after)) (.block (before ++ s' :: after'))
  | condInit {s s' : Stmt} {test : Expr} {yes yes' : List Stmt} {no no' : Option Stmt}
    (h : SameUntilReturn s s') :
    SameUntilReturn (.cond (some s) test yes no) (.cond (some s') test yes' no')
  | condYes {init no no' : Option Stmt} {test : Expr} {yes yes' : List Stmt}
    (h : SameUntilReturn (.block yes) (.block yes')) :
    SameUntilReturn (.cond init test yes no) (.cond init test yes' no')
  | condNo {init : Option Stmt} {test : Expr} {yes : List Stmt} {s s' : Stmt}
    (h : SameUntilReturn s s') :
    SameUntilReturn (.cond init test yes (some s)) (.cond init test yes (some s'))
  | loopInit {s s' : Stmt} {test : Option Expr} {post post' : Option Stmt} {body body' : List Stmt}
    (h : SameUntilReturn s s') :
    SameUntilReturn (.loop (some s) test post body) (.loop (some s') test post' body')
  | loopPost {init : Option Stmt} {test : Option Expr} {s s' : Stmt} {body body' : List Stmt}
    (h : SameUntilReturn s s') :
    SameUntilReturn (.loop init test (some s) body) (.loop init test (some s') body')
  | loopBody {init post : Option Stmt} {test : Option Expr} {body body' : List Stmt}
    (h : SameUntilReturn (.block body) (.block body')) :
    SameUntilReturn (.loop init test post body) (.loop init test post body')
  | rangeBody {key value : Option Expr} {x : Expr} {body body' : List Stmt}
    (h : SameUntilReturn (.block body) (.block body')) :
    SameUntilReturn (.range key value x body) (.range key value x body')
  | switchInit {s s' : Stmt} {subject : Option Expr} {cases cases' : List CaseClause}
    (h : SameUntilReturn s s') :
    SameUntilReturn (.switch (some s) subject cases) (.switch (some s') subject cases')
  | caseBody {init : Option Stmt} {subject : Option Expr} {earlier later later' : List CaseClause}
    {exprs : List Expr} {body body' : List Stmt}
    (h : SameUntilReturn (.block body) (.block body')) :
    SameUntilReturn (.switch init subject (earlier ++ ⟨exprs, body⟩ :: later))
      (.switch init subject (earlier ++ ⟨exprs, body'⟩ :: later'))

/-- The functions are the same up to a return of a value. -/
def FuncDecl.SameUntilReturn (f g : FuncDecl) : Prop :=
  ∃ body body', f.body = some body ∧ g.body = some body' ∧
    Stmt.SameUntilReturn (.block body) (.block body')

/-- With either row in front, the first value returned says the same, whatever stands
behind the rows. -/
def DecideAlike (row row' : List Stmt) : Prop :=
  ∀ assigned rest rest', returnedFlags? assigned (row.flatMap Stmt.bare ++ rest) =
    returnedFlags? assigned (row'.flatMap Stmt.bare ++ rest')

/-- The statement itself gives no value to a variable and returns none. -/
structure Stmt.IsIdle (s : Stmt) : Prop where
  assignments : s.assignments = []
  returned? : s.returned? = none

/-- An idle statement says what its parts say. -/
theorem Stmt.IsIdle.returnedFlags?_bare {s : Stmt} (h : s.IsIdle) (assigned : List (String × Expr))
    (rest : List Stmt) : returnedFlags? assigned (s.bare ++ rest) =
      returnedFlags? assigned (s.parts.flatMap bare ++ rest) := by
  rw [bare_eq, List.cons_append, returnedFlags?_cons, h.returned?, h.assignments]
  rfl

/-- What stands in front of two rows is passed alike. -/
theorem returnedFlags?_append_congr {rest rest' : List Stmt}
    (h : ∀ assigned, returnedFlags? assigned rest = returnedFlags? assigned rest') :
    ∀ (before : List Stmt) (assigned : List (String × Expr)),
      returnedFlags? assigned (before ++ rest) = returnedFlags? assigned (before ++ rest')
  | [], assigned => h assigned
  | s :: before, assigned => by
    rw [List.cons_append, List.cons_append, returnedFlags?_cons, returnedFlags?_cons,
      returnedFlags?_append_congr h before]

namespace DecideAlike

variable {row row' : List Stmt} {s s' : Stmt}

/-- Two idle statements decide alike when their parts begin alike, with rows that do. -/
theorem inside (h : DecideAlike row row') (before after after' : List Stmt) (hs : s.IsIdle)
    (hs' : s'.IsIdle) (hparts : s.parts = before ++ row ++ after)
    (hparts' : s'.parts = before ++ row' ++ after') : DecideAlike [s] [s'] := by
  intro assigned rest rest'
  rw [List.flatMap_singleton, List.flatMap_singleton, hs.returnedFlags?_bare,
    hs'.returnedFlags?_bare, hparts, hparts']
  simp only [List.flatMap_append, List.append_assoc]
  exact returnedFlags?_append_congr (fun assigned => h assigned _ _) _ assigned

theorem of_block (h : DecideAlike [.block row] [.block row']) : DecideAlike row row' := by
  intro assigned rest rest'
  have hidle : ∀ row, (Stmt.block row).IsIdle := fun _ => ⟨rfl, rfl⟩
  have h := h assigned rest rest'
  rw [List.flatMap_singleton, List.flatMap_singleton, (hidle row).returnedFlags?_bare,
    (hidle row').returnedFlags?_bare] at h
  exact h

end DecideAlike

/-- Statements that are the same up to a return decide alike. -/
theorem Stmt.SameUntilReturn.decideAlike {s s' : Stmt} (h : s.SameUntilReturn s') :
    DecideAlike [s] [s'] := by
  induction h with
  | ret result more pos =>
    intro assigned rest rest'
    rw [List.flatMap_singleton, bare_eq, List.cons_append, List.cons_append, returnedFlags?_cons,
      returnedFlags?_cons]
    rfl
  | @block before after after' s s' h ih =>
    exact ih.inside before after after' ⟨rfl, rfl⟩ ⟨rfl, rfl⟩ (by simp [parts]) (by simp [parts])
  | @condInit s s' test yes yes' no no' h ih =>
    exact ih.inside [] (yes ++ no.toList) (yes' ++ no'.toList)
      ⟨rfl, rfl⟩ ⟨rfl, rfl⟩ (by simp [parts]) (by simp [parts])
  | @condYes init no no' test yes yes' h ih =>
    exact ih.of_block.inside init.toList no.toList no'.toList ⟨rfl, rfl⟩ ⟨rfl, rfl⟩ rfl rfl
  | @condNo init test yes s s' h ih =>
    exact ih.inside (init.toList ++ yes) [] [] ⟨rfl, rfl⟩ ⟨rfl, rfl⟩ (by simp [parts])
      (by simp [parts])
  | @loopInit s s' test post post' body body' h ih =>
    exact ih.inside [] (post.toList ++ body) (post'.toList ++ body')
      ⟨rfl, rfl⟩ ⟨rfl, rfl⟩ (by simp [parts]) (by simp [parts])
  | @loopPost init test s s' body body' h ih =>
    exact ih.inside init.toList body body' ⟨rfl, rfl⟩ ⟨rfl, rfl⟩ rfl rfl
  | @loopBody init post test body body' h ih =>
    exact ih.of_block.inside (init.toList ++ post.toList) [] [] ⟨rfl, rfl⟩ ⟨rfl, rfl⟩
      (by simp [parts]) (by simp [parts])
  | @rangeBody key value x body body' h ih =>
    exact ih.of_block.inside [] [] [] ⟨rfl, rfl⟩ ⟨rfl, rfl⟩ (by simp [parts]) (by simp [parts])
  | @switchInit s s' subject cases cases' h ih =>
    exact ih.inside [] (cases.flatMap (·.body)) (cases'.flatMap (·.body)) ⟨rfl, rfl⟩ ⟨rfl, rfl⟩
      (by simp [parts]) (by simp [parts])
  | @caseBody init subject earlier later later' exprs body body' h ih =>
    exact ih.of_block.inside (init.toList ++ earlier.flatMap (·.body)) (later.flatMap (·.body))
      (later'.flatMap (·.body)) ⟨rfl, rfl⟩ ⟨rfl, rfl⟩ (by simp [parts]) (by simp [parts])

theorem FuncDecl.SameUntilReturn.returnedFlags? {f g : FuncDecl} (h : f.SameUntilReturn g) :
    f.returnedFlags? = g.returnedFlags? := by
  obtain ⟨body, body', hf, hg, h⟩ := h
  rw [FuncDecl.returnedFlags?, FuncDecl.returnedFlags?, hf, hg]
  show FieldOrder.returnedFlags? [] (bareStmts body) = FieldOrder.returnedFlags? [] (bareStmts body')
  have hrows := h.decideAlike.of_block [] [] []
  rwa [List.append_nil, List.append_nil, ← bareStmts_eq, ← bareStmts_eq] at hrows

/-- **Only what is followed counts.** What a helper returns stays the same when the bodies
of function literals in it are replaced by any others, and when anything behind its first
return of a value is replaced, taken away or added. A change behind a later return of a
value is one behind the first. -/
theorem FuncDecl.returnedFlags?_unfollowed (f : FuncDecl) :
    (∀ g, f.SameButLiterals g → g.returnedFlags? = f.returnedFlags?) ∧
    ∀ g, f.SameUntilReturn g → g.returnedFlags? = f.returnedFlags? := by
  constructor
  · intro g h
    rw [← g.returnedFlags?_hollow, ← h, f.returnedFlags?_hollow]
  · intro g h
    exact h.returnedFlags?.symm

/-! ### A helper with much besides -/

/-- The literal `&schema.Schema{key: true, ValidateFunc: func() { check }}`. -/
def Expr.checkedSchema (key : String) (check : List Stmt) : Expr :=
  .unary .addr (.composite (some (.named (some "schema") "Schema"))
    [⟨some (.ident key {}), .ident "true" {}⟩,
      ⟨some (.ident "ValidateFunc" {}), .funcLit check {}⟩] {})

/-- A helper that returns `s` from a branch in a loop. The function literals in it have the
body `check`; `behind` and `otherwise` stand behind the return. -/
def FuncDecl.checkedHelper (check behind : List Stmt) (otherwise : Option Stmt) : FuncDecl :=
  let test : Expr := .call (.ident "any" {}) [.funcLit check {}] {}
  let give (key : String) : Stmt := .assign [.ident "s" {}] [.checkedSchema key check] false {}
  ⟨"skuSchema", none, some
    [.var ["s"] none [.checkedSchema "Computed" check] {},
      .loop none (some test) (some (give "Required"))
        [.cond (some .other) test (.ret [.ident "s" {}] {} :: behind) otherwise],
      .ret [.checkedSchema "Optional" check] {}], {}⟩

/-- Function literals that return schemas, and returns of other schemas behind the first,
make no difference. -/
theorem FuncDecl.returnedFlags?_unfollowed_checkedHelper :
    let schema (key : String) : Stmt := .ret [.checkedSchema key []] {}
    let plain := checkedHelper [] [] none
    let checked := checkedHelper [schema "Optional"] [] none
    let longer := checkedHelper [schema "Optional"] [schema "Computed"] (some (schema "Computed"))
    plain.SameButLiterals checked ∧ checked.SameUntilReturn longer ∧
      plain.returnedFlags? = some { required := true, declaresValidation := true } ∧
      checked.returnedFlags? = plain.returnedFlags? ∧
      longer.returnedFlags? = plain.returnedFlags? := by
  intro schema plain checked longer
  have hliterals : plain.SameButLiterals checked := rfl
  have hbehind : checked.SameUntilReturn longer := by
    refine ⟨_, _, rfl, rfl, ?_⟩
    exact .block [_] (.loopBody (.block [] (.condYes (.block [] (.ret (.ident "s" {}) [] {})))))
  have hchecked := (plain.returnedFlags?_unfollowed).1 checked hliterals
  have hlonger := (checked.returnedFlags?_unfollowed).2 longer hbehind
  exact ⟨hliterals, hbehind, by decide, hchecked, hlonger.trans hchecked⟩

end FieldOrder
