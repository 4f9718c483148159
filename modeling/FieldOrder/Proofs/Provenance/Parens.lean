/-
# Tracing and parentheses

Which fields a function commits does not change when all parentheses are taken away. The
model of a file is the same (`SourceFile.modelMapping_deparen`); tracing sees the same of
a value (`Expr.keepsHeads_deparen`), so the variables of a function hold the same
(`Bindings.collect_deparen`); and the function commits the same values
(`Tracer.commitCalls_deparen`).

Key theorems: `SourceFile.modelMapping_deparen`, `Expr.keepsHeads_deparen`,
`Bindings.collect_deparen`, `Tracer.traceFunction_deparen`, `Tracer.traceFile_deparen`.
-/
import FieldOrder.Proofs.Provenance.Answers
import FieldOrder.Proofs.Schema.Parens

namespace FieldOrder

/-! ### Models -/

@[simp] theorem Expr.literalType?_deparen (e : Expr) : e.deparen.literalType? = e.literalType? := by
  unfold Expr.literalType?
  rw [composite?_deparen]
  cases e.composite? with
  | none => rfl
  | some literal =>
    obtain ⟨type, elements, pos⟩ := literal
    cases type with
    | none => rfl
    | some type =>
      cases type with
      | _ => rfl

@[simp] theorem Stmt.returnedType?_deparen (s : Stmt) : s.deparen.returnedType? = s.returnedType? := by
  cases s with
  | ret results pos =>
    cases results with
    | nil => rfl
    | cons result more => exact result.literalType?_deparen
  | _ => rfl

namespace SourceFile

variable (facts : ModuleFacts) (f : SourceFile)

@[simp] theorem modelType?_deparen : f.deparen.modelType? = f.modelType? := by
  have hobject : f.deparen.modelObject? = f.modelObject?.map FuncDecl.deparen := by
    rw [modelObject?, funcs_deparen, List.find?_map]
    rfl
  unfold modelType?
  rw [hobject]
  cases f.modelObject? with
  | none => rfl
  | some g =>
    obtain ⟨name, receiver, body, pos⟩ := g
    cases body with
    | none => rfl
    | some body =>
      show (body.map Stmt.deparen).findSome? Stmt.returnedType? = body.findSome? Stmt.returnedType?
      rw [List.findSome?_map]
      exact congrArg (body.findSome? ·) (funext fun s => s.returnedType?_deparen)

/-- The file has the same model. -/
@[simp] theorem modelMapping_deparen :
    f.deparen.modelMapping facts.deparen = f.modelMapping facts := by
  have hdecl : f.deparen.modelDecl? facts.deparen = f.modelDecl? facts := by
    unfold modelDecl?
    rw [modelType?_deparen]
    cases f.modelType? with
    | none => rfl
    | some type =>
      obtain ⟨package, name⟩ := type
      cases package with
      | none => exact facts.module.typeDecl?_deparen name
      | some package => rfl
  have hmembers : f.deparen.modelMembers facts.deparen = f.modelMembers facts := by
    rw [modelMembers, hdecl, modelMembers]
  have hown : f.deparen.ownMembers = f.ownMembers := by
    rw [ownMembers, typeDecls_deparen, ownMembers]
  rw [modelMapping, hmembers, hown, modelMapping]

end SourceFile

/-! ### Values and tables -/

/-- Without parentheses tracing sees the same. -/
theorem Expr.keepsHeads_deparen : KeepsHeads Expr.deparen := by
  intro e
  rw [unparen_deparen]
  cases h : e.unparen with
  | paren x => exact absurd h (unparen_ne_paren e x)
  | ident name pos => exact .ident name pos
  | lit kind value pos => exact .lit kind value pos
  | selector x sel pos => exact .selector x sel pos
  | call callee args pos =>
    rw [deparen, deparenExprs_eq_map]
    exact .call callee args pos
  | typeAssert x type => exact .typeAssert x type
  | composite type elements pos => exact .sealed (.composite ..) (.composite ..)
  | unary op x => exact .sealed (.unary ..) (.unary ..)
  | star x => exact .sealed (.star ..) (.star ..)
  | binary op x y => exact .sealed (.binary ..) (.binary ..)
  | index x i => exact .sealed (.index ..) (.index ..)
  | funcLit body pos => exact .sealed (.funcLit ..) (.funcLit ..)
  | other => exact .sealed .other .other

namespace Bindings

variable (tracer : Tracer)

/-- A statement gives values to the same variables. -/
theorem bindings_deparen (s : Stmt) : s.deparen.bindings = s.bindings.map deparenValue := by
  cases s with
  | assign lhs rhs define pos =>
    rw [Stmt.deparen, deparenExprs_eq_map, deparenExprs_eq_map]
    exact Expr.keepsHeads_deparen.bindings_assign lhs rhs define pos
  | var names type values pos =>
    simp only [Stmt.deparen, Stmt.bindings, deparenExprs_eq_map, zip_deparen]
  | _ => rfl

theorem blockBindings_deparen (body : List Stmt) :
    blockBindings (body.map Stmt.deparen) = (blockBindings body).map deparenValue := by
  have hstmts : (blockNodes (body.map Stmt.deparen)).filterMap Node.stmt? =
      ((blockNodes body).filterMap Node.stmt?).map Stmt.deparen := by
    rw [List.map_filterMap]
    exact filterMap_blockNodes_deparen (fun _ => rfl) (fun n _ => n.stmt?_deparen) body
  rw [blockBindings_eq, hstmts, List.flatMap_map, blockBindings_eq, List.map_flatMap]
  exact List.flatMap_congr fun s _ => bindings_deparen s

/-- The variables of a function hold the same. -/
@[simp] theorem collect_deparen (body : List Stmt) :
    collect tracer (body.map Stmt.deparen) = collect tracer body := by
  rw [collect_eq_after, blockBindings_deparen, collect_eq_after]
  exact Expr.keepsHeads_deparen.after tracer (blockBindings body)

end Bindings

/-! ### Commits -/

namespace Tracer

variable (tracer : Tracer)

/-- The node commits the same values, but for parentheses in them. -/
theorem commitArgs?_deparen {n : Node} (hn : ∀ x, n ≠ .expr (.paren x)) :
    tracer.commitArgs? n.deparen = (tracer.commitArgs? n).map (·.map Expr.deparen) := by
  cases n with
  | stmt s => rfl
  | element el => rfl
  | expr e =>
    cases e with
    | paren x => exact absurd rfl (hn x)
    | call callee args pos =>
      rw [Node.deparen, Expr.deparen, deparenExprs_eq_map]
      exact Expr.keepsHeads_deparen.commitArgs? tracer callee args pos
    | _ => rfl

/-- A block commits the same values, but for parentheses in them. -/
theorem commitCalls_deparen (body : List Stmt) : tracer.commitCalls (body.map Stmt.deparen) =
    (tracer.commitCalls body).map (·.map Expr.deparen) := by
  rw [commitCalls_eq, commitCalls_eq, List.map_filterMap]
  exact filterMap_blockNodes_deparen (fun _ => rfl) (fun _ hn => tracer.commitArgs?_deparen hn) body

theorem traceBlock_deparen (body : List Stmt) :
    tracer.traceBlock (body.map Stmt.deparen) = tracer.traceBlock body := by
  rw [traceBlock, commitCalls_deparen, Bindings.collect_deparen, List.map_map, traceBlock]
  refine List.map_congr_left fun args _ => ?_
  match args with
  | [] => rfl
  | [arg] => exact Expr.keepsHeads_deparen.resolveCommit tracer (Bindings.collect tracer body) arg
  | _ :: _ :: _ => rfl

/-- The commits of a function are resolved to the same fields. -/
theorem traceFunction_deparen (g : FuncDecl) :
    tracer.traceFunction g.deparen = tracer.traceFunction g := by
  obtain ⟨name, receiver, body, pos⟩ := g
  cases body with
  | none => rfl
  | some body => exact tracer.traceBlock_deparen body

/-- The identifier of a definition is made of the same fields. -/
theorem traceFile_deparen (kind : DefinitionKind) (f : SourceFile) :
    tracer.traceFile kind f.deparen = tracer.traceFile kind f := by
  have hcommits : tracer.fileCommits kind f.deparen = tracer.fileCommits kind f := by
    rw [fileCommits, SourceFile.funcs_deparen, List.filter_map, List.flatMap_map, fileCommits]
    exact List.flatMap_congr fun g _ => tracer.traceFunction_deparen g
  rw [traceFile, hcommits, traceFile]

end Tracer
end FieldOrder
