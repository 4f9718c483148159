/-
# Schema maps and parentheses

What the schema maps of a file say is the same when all parentheses are taken away: a
schema literal has the same flags (`Flags.ofElements_deparen`), a helper returns the same
(`FuncDecl.returnedFlags?_deparen`), and an entry leads to the same place
(`Expr.route_deparen`). So the file has the same schema map literals, up to parentheses in
the values of entries (`SourceFile.mapLiterals_deparen`), and the same schema maps, names
and positions included (`SourceFile.schemaMaps_deparen`).

Key theorems: `FuncDecl.returnedFlags?_deparen`, `SourceFile.mapLiterals_deparen`,
`SourceFile.needsHelpers_deparen`, `SourceFile.schemaMaps_deparen`.
-/
import Mathlib.Data.List.Basic
import FieldOrder.Proofs.Schema.Answers
import FieldOrder.Proofs.Syntax.Parens
import FieldOrder.Schema.Map

namespace FieldOrder

/-! ### Flags -/

theorem Element.deparen_eq_mapExprs : Element.deparen = Element.mapExprs Expr.deparen := by
  funext el
  obtain ⟨key, value⟩ := el
  rw [deparen, deparenExpr?_eq_map, mapExprs]

theorem Expr.keepsLiterals_deparen : KeepsLiterals deparen where
  ident? := ident?_deparen
  string? := string?_deparen
  calleeName? := calleeName?_deparen
  composite? e := by rw [composite?_deparen, Element.deparen_eq_mapExprs]

/-- The elements of a schema literal say the same. -/
@[simp] theorem Flags.ofElements_deparen (elements : List Element) :
    ofElements (elements.map Element.deparen) = ofElements elements := by
  rw [Element.deparen_eq_mapExprs, Expr.keepsLiterals_deparen.ofElements]

/-! ### Helpers -/

/-- The value given to a variable, without parentheses. -/
def deparenValue (p : String × Expr) : String × Expr := (p.1, p.2.deparen)

theorem zip_deparen (names : List String) (values : List Expr) :
    names.zip (values.map Expr.deparen) = (names.zip values).map deparenValue := by
  rw [List.zip_map_right]
  rfl

/-- Statements give and return the same values, but for parentheses in these. -/
theorem Stmt.keepsReturns_deparen : KeepsReturns Expr.deparen Stmt.deparen where
  literals := Expr.keepsLiterals_deparen
  assignments s := by
    cases s with
    | assign lhs rhs define pos =>
      rw [deparen, deparenExprs_eq_map, deparenExprs_eq_map]
      exact assignments_map_exprs Expr.keepsLiterals_deparen lhs rhs define define pos pos
    | var names type values pos =>
      rw [deparen, deparenExprs_eq_map]
      exact assignments_map_values Expr.deparen names values type type pos pos
    | _ => rfl
  returned? s := by
    cases s with
    | ret results pos =>
      rw [deparen, deparenExprs_eq_map]
      exact returned?_map_results Expr.deparen results pos pos
    | _ => rfl
  bareStmts := bareStmts_deparen

@[simp] theorem FuncDecl.returnedFlags?_deparen (f : FuncDecl) :
    f.deparen.returnedFlags? = f.returnedFlags? := Stmt.keepsReturns_deparen.returnedFlags? f

/-! ### Functions and types of a module -/

namespace SourceFile

@[simp] theorem funcs_deparen (f : SourceFile) : f.deparen.funcs = f.funcs.map FuncDecl.deparen := by
  rw [funcs, deparen, List.filterMap_map, funcs, List.map_filterMap]
  refine List.filterMap_congr fun d _ => ?_
  cases d with
  | _ => rfl

@[simp] theorem typeDecls_deparen (f : SourceFile) : f.deparen.typeDecls = f.typeDecls := by
  rw [typeDecls, deparen, List.filterMap_map, typeDecls]
  refine List.filterMap_congr fun d _ => ?_
  cases d with
  | _ => rfl

@[simp] theorem typeDecl?_deparen (f : SourceFile) (name : String) :
    f.deparen.typeDecl? name = f.typeDecl? name := by
  rw [typeDecl?, typeDecl?, typeDecls_deparen]

end SourceFile

namespace Module

@[simp] theorem funcs_deparen (m : Module) : m.deparen.funcs = m.funcs.map FuncDecl.deparen := by
  rw [funcs, deparen, List.flatMap_map, funcs, List.map_flatMap]
  exact List.flatMap_congr fun f _ => f.funcs_deparen

@[simp] theorem func?_deparen (m : Module) (name : String) :
    m.deparen.func? name = (m.func? name).map FuncDecl.deparen := by
  rw [func?, funcs_deparen, List.find?_map]
  rfl

@[simp] theorem typeDecl?_deparen (m : Module) (name : String) :
    m.deparen.typeDecl? name = m.typeDecl? name := by
  rw [typeDecl?, deparen, List.findSome?_map, typeDecl?]
  exact congrArg (m.files.findSome? ·) (funext fun f => f.typeDecl?_deparen name)

/-- The module lies in the same place. -/
@[simp] theorem sourceDir_deparen (m : Module) : m.deparen.sourceDir = m.sourceDir := by
  obtain ⟨path, dir, files⟩ := m
  cases files with
  | nil => rfl
  | cons f rest => rfl

end Module

/-! ### Routes -/

section

variable (facts : ModuleFacts) (f : SourceFile)

theorem callRoute_deparen (callee : Expr) (pos : Pos) :
    callRoute facts.deparen f.deparen callee.deparen pos = callRoute facts f callee pos := by
  unfold callRoute
  rw [Expr.unparen_deparen]
  cases hcallee : callee.unparen with
  | paren x => exact absurd hcallee (Expr.unparen_ne_paren callee x)
  | selector x sel selPos =>
    simp only [Expr.deparen, Expr.ident?_deparen]
    rfl
  | _ => rfl

/-- The value of an entry leads to the same place. -/
@[simp] theorem Expr.route_deparen (value : Expr) :
    value.deparen.route facts.deparen f.deparen = value.route facts f := by
  unfold Expr.route
  rw [composite?_deparen, unparen_deparen]
  cases value.composite? with
  | some literal => simp
  | none =>
    cases hvalue : value.unparen with
    | paren x => exact absurd hvalue (unparen_ne_paren value x)
    | call callee args pos => exact callRoute_deparen facts f callee pos
    | _ => rfl

@[simp] theorem Route.flags_deparen (helpers : Helpers) (r : Route) :
    r.flags facts.deparen helpers = r.flags facts helpers := by
  cases r with
  | ownModule function =>
    show Resolution.ofOption ((facts.module.deparen.func? function).bind FuncDecl.returnedFlags?) =
      .ofOption ((facts.module.func? function).bind FuncDecl.returnedFlags?)
    rw [Module.func?_deparen]
    cases facts.module.func? function with
    | none => rfl
    | some g => exact congrArg Resolution.ofOption g.returnedFlags?_deparen
  | _ => rfl

/-! ### Literals -/

/-- The entry of a literal without parentheses in its value. -/
def LiteralEntry.deparen (e : LiteralEntry) : LiteralEntry := { e with value := e.value.deparen }

/-- The literal without parentheses in the values of its entries. -/
def MapLiteral.deparen (l : MapLiteral) : MapLiteral :=
  { l with entries := l.entries.map LiteralEntry.deparen }

/-- An element without parentheses makes the same entry, without parentheses. -/
theorem Element.entryOf?_deparen (el : Element) :
    el.deparen.entryOf? = el.entryOf?.map LiteralEntry.deparen := by
  unfold Element.entryOf?
  rw [key_deparen]
  cases el.key with
  | none => rfl
  | some key =>
    simp only [Option.map_some, Expr.string?_deparen, Expr.pos?_deparen, Expr.calleeName?_deparen,
      value_deparen]
    cases key.string? with
    | none => rfl
    | some name => rfl

theorem filterMap_entryOf?_deparen (elements : List Element) :
    (elements.map Element.deparen).filterMap Element.entryOf? =
      (elements.filterMap Element.entryOf?).map LiteralEntry.deparen := by
  rw [List.filterMap_map, List.map_filterMap]
  exact List.filterMap_congr fun el _ => el.entryOf?_deparen

/-- Visits that look alike come to the same literal, but for parentheses in it. -/
theorem Visit.Alike.mapLiteral? {schemaModules : List String} {v v' : Visit} (h : v.Alike v') :
    v'.mapLiteral? facts.deparen schemaModules f.path =
      (v.mapLiteral? facts schemaModules f.path).map MapLiteral.deparen := by
  have hnode := h.node
  unfold Visit.mapLiteral?
  rw [h.nested]
  cases hv : v.node with
  | stmt s => rw [hnode, hv]; rfl
  | element el => rw [hnode, hv]; rfl
  | expr e =>
    rw [hnode, hv]
    cases e with
    | paren x => exact absurd hv (h.notParen x)
    | composite type elements pos =>
      have hat : isSchemaMapAt facts.deparen schemaModules f.path type pos =
        isSchemaMapAt facts schemaModules f.path type pos := rfl
      simp only [Node.deparen, Expr.deparen, deparenElements_eq_map, hat,
        filterMap_entryOf?_deparen]
      split
      · rfl
      · rfl
    | _ => rfl

/-- The entry leads to the same place. -/
theorem LiteralEntry.route_deparen (e : LiteralEntry) :
    e.deparen.route facts.deparen f.deparen = e.route facts f := by
  simp only [LiteralEntry.route, LiteralEntry.deparen, Expr.route_deparen]

/-- The literal makes the same schema map. -/
theorem MapLiteral.resolve_deparen (helpers : Helpers) (l : MapLiteral) :
    l.deparen.resolve facts.deparen f.deparen helpers = l.resolve facts f helpers := by
  have hentry : ∀ e : LiteralEntry,
      e.deparen.resolve facts.deparen f.deparen helpers = e.resolve facts f helpers := by
    intro e
    unfold LiteralEntry.resolve
    rw [e.route_deparen facts f, Route.flags_deparen]
    rfl
  simp only [MapLiteral.resolve, MapLiteral.deparen, List.map_map, Function.comp_def, hentry]
  rfl

namespace SourceFile

/-- The file has the same schema map literals, but for parentheses in them. -/
theorem mapLiterals_deparen (schemaModules : List String) :
    f.deparen.mapLiterals facts.deparen schemaModules =
      (f.mapLiterals facts schemaModules).map MapLiteral.deparen := by
  rw [mapLiterals, mapLiterals, List.map_filterMap]
  exact f.visits_alike.filterMap_eq (fun _ _ => rfl) fun v v' hv => hv.mapLiteral? facts f

/-- The file needs helpers of other modules just the same. -/
theorem needsHelpers_deparen (schemaModules : List String) :
    f.deparen.needsHelpers facts.deparen schemaModules = f.needsHelpers facts schemaModules := by
  rw [needsHelpers, mapLiterals_deparen, List.any_map, needsHelpers]
  refine congrArg (List.any _) (funext fun l => ?_)
  show (l.entries.map LiteralEntry.deparen).any _ = l.entries.any _
  rw [List.any_map]
  exact congrArg (List.any _) (funext fun e => congrArg Route.isShared (e.route_deparen facts f))

/-- The file has the same schema maps. -/
theorem schemaMaps_deparen (schemaModules : List String) (helpers : Helpers) :
    f.deparen.schemaMaps facts.deparen schemaModules helpers =
      f.schemaMaps facts schemaModules helpers := by
  rw [schemaMaps, mapLiterals_deparen, List.map_map, schemaMaps]
  exact List.map_congr_left fun l _ => l.resolve_deparen facts f helpers

end SourceFile

end

end FieldOrder
