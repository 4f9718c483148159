/-
# What a change scope does

A scope decides which findings are told, and nothing else: what is told under a scope
is what is told when everything counts as changed, less what the scope does not let
through (`checkModule_eq_filter_unscoped`). Files out of scope are not looked at, so
under different scopes different requests reach the cache of helpers; but the cache
gives the same to every file of a module, whichever files were checked before.

Key definitions: `Setting.unscoped`, `Setting.reports`, `Config.definitionKind?`.
Key theorems: `Site.diagnostic?_eq_filter_unscoped`, `checkFile_eq_filter_unscoped`,
`checkModule_eq_filter_unscoped`.
-/
import FieldOrder.Proofs.Check.Sequence

namespace FieldOrder

namespace Setting

/-- The setting in which everything counts as changed. -/
def unscoped (s : Setting) : Setting := { s with scope := .everything }

/-- Whether the scope lets a diagnostic through that tells of a line of a file. -/
def reports (s : Setting) (file : Path) (line : UInt32) : Bool :=
  s.scope.isFileChanged file && s.scope.shouldReport file line &&
    (!s.config.newFilesOnly || s.scope.isNewFile file)

/-- Whether the scope takes a file in. -/
def takesIn (s : Setting) (file : Path) : Bool :=
  s.scope.isFileChanged file && (!s.config.newFilesOnly || s.scope.isNewFile file)

end Setting

/-- What a file defines, if it is named for a definition and not passed over. -/
def Config.definitionKind? (c : Config) (f : SourceFile) : Option DefinitionKind :=
  if c.skipsFile f.fileName then none else DefinitionKind.ofFile? f.fileName c.fileSuffixes

variable (s : Setting) (facts : ModuleFacts)

theorem analysedKind?_eq (f : SourceFile) :
    analysedKind? s f = if s.takesIn f.path then s.config.definitionKind? f else none := by
  unfold analysedKind? Config.definitionKind?
  by_cases hskip : s.config.skipsFile f.fileName = true
  · rw [if_pos hskip, if_pos hskip, ite_self]
  · rw [if_neg hskip, if_neg hskip]
    cases DefinitionKind.ofFile? f.fileName s.config.fileSuffixes with
    | none => exact (ite_self none).symm
    | some kind => rfl

theorem analysedKind?_unscoped (f : SourceFile) :
    analysedKind? s.unscoped f = s.config.definitionKind? f := by
  have hall : s.unscoped.takesIn f.path = true := by
    simp [Setting.takesIn, Setting.unscoped, ChangeScope.everything]
  rw [analysedKind?_eq, if_pos hall]
  rfl

/-- A finding of a site tells of its file. -/
theorem Site.file_finding? {site : Site} {ids : Resolution (List String)} {finding : Finding}
    (h : (site.map facts).finding? ids = some finding) : finding.file = site.file.path := by
  obtain ⟨-, -, -, rfl⟩ := (SchemaMap.finding?_eq_some_iff (named_map facts site)).mp h
  rfl

/-- What is told of a site is what would be told of it if everything had changed, if
the scope lets it through. -/
theorem Site.diagnostic?_eq_filter_unscoped (site : Site) : site.diagnostic? s facts =
    (site.diagnostic? s.unscoped facts).filter fun d => s.reports d.file d.line := by
  have hids : ∀ kind, identifierFields s.unscoped facts site.file kind =
      identifierFields s facts site.file kind := fun _ => rfl
  unfold diagnostic?
  rw [analysedKind?_eq, analysedKind?_unscoped]
  cases s.config.definitionKind? site.file with
  | none => simp
  | some kind =>
    cases hfinding : (site.map facts).finding? (identifierFields s facts site.file kind) with
    | none =>
      split
      · simp [hids, hfinding]
      · simp [hids, hfinding]
    | some finding =>
      have hfile := file_finding? facts hfinding
      have htold : s.unscoped.scope.shouldReport finding.file finding.pos.line = true := rfl
      have hreports : s.reports finding.file finding.pos.line =
          (s.takesIn site.file.path && s.scope.shouldReport finding.file finding.pos.line) := by
        rw [Setting.reports, Setting.takesIn, hfile, Bool.and_right_comm]
      cases hin : s.takesIn site.file.path with
      | false => simp [hin, hids, hfinding, htold, Finding.diagnostic, Option.filter, hreports]
      | true => simp [hin, hids, hfinding, htold, Finding.diagnostic, Option.filter, hreports]

/-- What is told of a file is what would be told of it if everything had changed, as
far as the scope lets it through. -/
theorem checkFile_eq_filter_unscoped (f : SourceFile) (cache : HelperCache) :
    (checkFile s facts f cache).diagnostics =
      (checkFile s.unscoped facts f cache).diagnostics.filter fun d => s.reports d.file d.line := by
  rw [checkFile_diagnostics, checkFile_diagnostics, List.filter_filterMap]
  exact List.filterMap_congr fun site _ => site.diagnostic?_eq_filter_unscoped s facts

/-- **A change scope only filters.** The diagnostics of a module under a scope are those
it has when everything counts as changed, in their order, less those that the scope
does not let through: whatever the cache holds at the start, and although files out of
scope are passed over before anything is looked for. Of every file is told what would
be told of it if no file were checked before. -/
theorem checkModule_eq_filter_unscoped (cache : HelperCache) :
    (checkModule s facts cache).diagnostics =
      (checkModule s.unscoped facts cache).diagnostics.filter (fun d => s.reports d.file d.line) ∧
    (checkModule s facts cache).diagnostics =
      if s.config.skipsPackage facts.module.path.text then []
      else facts.module.files.flatMap fun f => (checkFile s facts f cache).diagnostics := by
  refine ⟨?_, checkModule_diagnostics_eq_flatMap s facts cache⟩
  have hconfig : s.unscoped.config = s.config := rfl
  rw [checkModule_diagnostics_eq_flatMap, checkModule_diagnostics_eq_flatMap, hconfig]
  split
  · rfl
  · rw [List.filter_flatMap]
    exact List.flatMap_congr fun f _ => checkFile_eq_filter_unscoped s facts f cache

end FieldOrder
