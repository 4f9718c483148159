/-
# Parentheses never matter

Two modules that are the same but for parentheses, with the same facts about places, look
the same at every stage of a check (`checkModule_sameButParens`): each file has the same
schema maps, gets the same helpers and leaves the same cache; it has the same model, each
of its functions commits the same fields, and so does its definition; and the module gets
the same report.

Every stage is compared with the same stage of the module without parentheses.

Key definitions: `ModuleFacts.SameButParens`, `SameStages`.
Key theorems: `collectMaps_deparen`, `checkModule_deparen`, `checkModule_sameButParens`.
-/
import Mathlib.Data.List.Forall2
import FieldOrder.Proofs.Check.Soundness
import FieldOrder.Proofs.Provenance.Parens

namespace FieldOrder

/-- The modules are the same but for parentheses, and all else that is known is the same. -/
def ModuleFacts.SameButParens (facts facts' : ModuleFacts) : Prop := facts.deparen = facts'.deparen

/-- A file of a module and one of another look the same at every stage of a check. -/
structure SameStages (facts facts' : ModuleFacts) (f f' : SourceFile) : Prop where
  maps : ∀ s cache, collectMaps s facts f cache = collectMaps s facts' f' cache
  model : f.modelMapping facts = f'.modelMapping facts'
  functions : ∀ tracer : Tracer, (f.funcs.map fun g => (g.name, tracer.traceFunction g)) =
    f'.funcs.map fun g => (g.name, tracer.traceFunction g)
  identifier : ∀ (tracer : Tracer) kind, tracer.traceFile kind f = tracer.traceFile kind f'

/-! ### Stages without parentheses -/

section

variable (s : Setting) (facts : ModuleFacts) (f : SourceFile) (cache : HelperCache)

theorem helpersFor_deparen :
    helpersFor s facts.deparen f.deparen cache = helpersFor s facts f cache := by
  unfold helpersFor
  rw [SourceFile.needsHelpers_deparen]
  split
  · -- a search begins in the directory of the module and asks for nothing else
    show cache.fetch _ (fun _ => .run _ _ facts.module.deparen.sourceDir) = _
    rw [Module.sourceDir_deparen]
    rfl
  · rfl

/-- The schema maps of a file, the cache left behind and the log are the same. -/
theorem collectMaps_deparen :
    collectMaps s facts.deparen f.deparen cache = collectMaps s facts f cache := by
  unfold collectMaps
  simp only [helpersFor_deparen, SourceFile.schemaMaps_deparen]

theorem identifierFields_deparen (kind : DefinitionKind) :
    identifierFields s facts.deparen f.deparen kind = identifierFields s facts f kind := by
  rw [identifierFields, SourceFile.modelMapping_deparen, Tracer.traceFile_deparen, identifierFields]

theorem checkFile_deparen :
    checkFile s facts.deparen f.deparen cache = checkFile s facts f cache := by
  have hkind : analysedKind? s f.deparen = analysedKind? s f := rfl
  unfold checkFile
  rw [hkind]
  cases analysedKind? s f with
  | none => rfl
  | some kind =>
    show checkDefinition s facts.deparen f.deparen kind cache = checkDefinition s facts f kind cache
    unfold checkDefinition
    rw [collectMaps_deparen, identifierFields_deparen]
    rfl

theorem checkFiles_deparen : ∀ (files : List SourceFile) (cache : HelperCache),
    checkFiles s facts.deparen (files.map SourceFile.deparen) cache = checkFiles s facts files cache
  | [], _ => rfl
  | f :: rest, cache => by
    rw [List.map_cons, checkFiles, checkFile_deparen, checkFiles_deparen rest, checkFiles]

/-- The report of a module is the same. -/
theorem checkModule_deparen : checkModule s facts.deparen cache = checkModule s facts cache := by
  unfold checkModule
  show (if s.config.skipsPackage facts.module.path.text then _ else
    checkFiles s facts.deparen (facts.module.files.map SourceFile.deparen) cache) = _
  rw [checkFiles_deparen]
  rfl

theorem traces_deparen (tracer : Tracer) :
    (f.deparen.funcs.map fun g => (g.name, tracer.traceFunction g)) =
      f.funcs.map fun g => (g.name, tracer.traceFunction g) := by
  rw [SourceFile.funcs_deparen, List.map_map]
  exact List.map_congr_left fun g _ => congrArg (g.name, ·) (tracer.traceFunction_deparen g)

end

/-! ### Modules that differ in parentheses -/

/-- Files that are the same but for parentheses look the same at every stage. -/
theorem SameStages.of_deparen_eq {facts facts' : ModuleFacts} (h : facts.SameButParens facts')
    {f f' : SourceFile} (hf : f.deparen = f'.deparen) : SameStages facts facts' f f' where
  maps s cache := by
    rw [← collectMaps_deparen, h, hf, collectMaps_deparen]
  model := by
    rw [← SourceFile.modelMapping_deparen, h, hf, SourceFile.modelMapping_deparen]
  functions tracer := by
    rw [← traces_deparen, hf, traces_deparen]
  identifier tracer kind := by
    rw [← Tracer.traceFile_deparen, hf, Tracer.traceFile_deparen]

/-- **Parentheses never matter.** When two modules are the same but for parentheses around
expressions, wherever in their files and however many, their files look the same at every
stage of a check, and the modules get the same report. -/
theorem checkModule_sameButParens {facts facts' : ModuleFacts} (h : facts.SameButParens facts') :
    List.Forall₂ (SameStages facts facts') facts.module.files facts'.module.files ∧
    ∀ s cache, checkModule s facts cache = checkModule s facts' cache := by
  constructor
  · have hfiles : facts.module.files.map SourceFile.deparen =
        facts'.module.files.map SourceFile.deparen :=
      congrArg (fun facts : ModuleFacts => facts.module.files) h
    have hpairs : List.Forall₂ (· = ·) (facts.module.files.map SourceFile.deparen)
        (facts'.module.files.map SourceFile.deparen) := by
      rw [hfiles]
      exact List.forall₂_refl _
    rw [List.forall₂_map_left_iff, List.forall₂_map_right_iff] at hpairs
    exact hpairs.imp fun f f' hf => .of_deparen_eq h hf
  · intro s cache
    rw [← checkModule_deparen, h, checkModule_deparen]

section

variable (wrap : Expr → Expr)

/-- A schema literal of a required field, where every expression is wrapped. -/
def wrappedField : Expr :=
  wrap (.unary .addr (wrap (.composite none
    [⟨some (wrap (.ident "Required" {})), wrap (.ident "true" {})⟩] {})))

/-- A map of a label and a name, where every expression is wrapped. -/
def wrappedMap : Expr :=
  wrap (.composite
    (some (.map (.named none "string") (.pointer (.named (some "pluginsdk") "Schema"))))
    [⟨some (wrap (.lit .string "label" {})), wrappedField wrap⟩,
      ⟨some (wrap (.lit .string "name" {})), wrappedField wrap⟩] ⟨3, 2⟩)

/-- A call of a member of something, where every expression is wrapped. -/
def wrappedCall (receiver member : String) (args : List Expr) : Expr :=
  wrap (.call (wrap (.selector (wrap (.ident receiver {})) member {})) args {})

/-- The name is read, put into an identifier and committed; every expression is wrapped. -/
def wrappedBody : List Stmt :=
  [.assign [wrap (.ident "id" {})]
      [wrap (.call (wrap (.ident "NewThingID" {}))
        [wrap (.typeAssert (wrappedCall wrap "d" "Get" [wrap (.lit .string "name" {})])
          (some (.named none "string")))] {})] true {},
    .expr (wrappedCall wrap "d" "SetId" [wrappedCall wrap "id" "ID" []])]

/-- A module that defines a thing, where every expression is wrapped. -/
def wrappedModule : ModuleFacts :=
  .syntaxOnly
    { tagsFirstModule with
      files := [⟨⟨"example/thing_resource.go"⟩, "example", [],
        [.var ⟨["fields"], none, [wrappedMap wrap], {}⟩,
          .func ⟨"resourceThingCreate", none, some (wrappedBody wrap), {}⟩]⟩] }

end

/-- The module with every expression in parentheses is checked like the one with none. -/
theorem checkModule_sameButParens_wrapped :
    (wrappedModule id).SameButParens (wrappedModule .paren) ∧
    List.Forall₂ (SameStages (wrappedModule id) (wrappedModule .paren))
      (wrappedModule id).module.files (wrappedModule .paren).module.files ∧
    ∀ s cache, checkModule s (wrappedModule id) cache = checkModule s (wrappedModule .paren) cache := by
  have hsame : (wrappedModule id).SameButParens (wrappedModule .paren) := rfl
  exact ⟨hsame, checkModule_sameButParens hsame⟩

example : (checkModule { disk := ({} : FileTree).disk } (wrappedModule .paren)
    {}).diagnostics.map (·.expectedOrder) = [["name", "label"]] := by decide +kernel

end FieldOrder
