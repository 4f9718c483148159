/-
# Soundness of reports

Every diagnostic of a check of a module tells of one schema map literal of it, and
no two of the same. The literal lies in a file that holds a definition and is not
passed over; all its keys are texts and all its values could be followed; its keys
are told in source order, next to a rearrangement of them that differs
(`checkModule_sound`). So nothing is told of a literal with a field that is not
known, and nothing of a top-level literal with a field that makes it exempt.

The reports of a file are those of its sites (`checkFile_diagnostics`), and the
reports of files in sequence are those of all their sites (`checkFiles_diagnostics`).

Key definitions: `Site.Exempt`, `Site.report?`, `Site.Told`.
Key theorems: `Site.told_of_diagnostic?`, `checkFile_diagnostics`,
`checkFiles_diagnostics`, `checkModule_sound`.
-/
import FieldOrder.Proofs.Check.Sites

namespace FieldOrder

namespace Site

variable {s : Setting} {facts : ModuleFacts} {site : Site}

/-! ### What is told of a site -/

/-- The literal is no schema of an element, and a field of it makes it exempt. -/
def Exempt (facts : ModuleFacts) (site : Site) : Prop :=
  site.nested = false ∧
    ∃ el ∈ site.elements, ∃ field, site.field? facts el = some field ∧ field.exemption?.isSome

/-- The diagnostic of a site in a module that is checked. -/
def diagnostic? (s : Setting) (facts : ModuleFacts) (site : Site) : Option Diagnostic := do
  let kind ← analysedKind? s site.file
  let finding ← (site.map facts).finding? (identifierFields s facts site.file kind)
  if s.scope.shouldReport finding.file finding.pos.line then
    some (finding.diagnostic facts.module.path.text)
  else none

/-- The diagnostic of a site. Nothing is told of modules that are passed over. -/
def report? (s : Setting) (facts : ModuleFacts) (site : Site) : Option Diagnostic :=
  if s.config.skipsPackage facts.module.path.text then none else site.diagnostic? s facts

/-- A diagnostic tells of a site what is so. -/
structure Told (s : Setting) (facts : ModuleFacts) (site : Site) (d : Diagnostic) : Prop where
  notSkipped : s.config.skipsFile site.file.fileName = false
  isDefinition : (DefinitionKind.ofFile? site.file.fileName s.config.fileSuffixes).isSome
  /-- Every key is a text, and every value could be followed. -/
  known : site.Known facts
  notExempt : ¬site.Exempt facts
  actualOrder : d.actualOrder = site.keys
  perm : d.expectedOrder.Perm d.actualOrder
  differs : d.expectedOrder ≠ d.actualOrder
  file : d.file = site.file.path
  line : d.line = site.pos.line
  column : d.column = site.pos.column

/-! ### Findings -/

/-- A known field that makes a top-level map exempt is found. -/
theorem not_exempt_of_exemption? (h : (site.map facts).exemption? (site.map facts).knownFields = none) :
    ¬site.Exempt facts := by
  rintro ⟨hnested, el, hel, field, hfield, hexempt⟩
  have hmap : (site.map facts).nested = false := hnested
  rw [SchemaMap.exemption?, hmap, knownFields_map] at h
  have hnone := List.findSome?_eq_none_iff.mp h field (List.mem_filterMap.mpr ⟨el, hel, hfield⟩)
  rw [hnone] at hexempt
  cases hexempt

end Site

theorem analysedKind?_eq_some {s : Setting} {f : SourceFile} {kind : DefinitionKind}
    (h : analysedKind? s f = some kind) : s.config.skipsFile f.fileName = false ∧
      DefinitionKind.ofFile? f.fileName s.config.fileSuffixes = some kind := by
  unfold analysedKind? at h
  split at h
  · cases h
  · next hskip =>
    split at h
    · cases h
    · next kind' hkind =>
      split at h
      · exact ⟨Bool.eq_false_iff.mpr hskip, hkind.trans h⟩
      · cases h

/-- What is told of a site is so. -/
theorem Site.told_of_diagnostic? {s : Setting} {facts : ModuleFacts} {site : Site} {d : Diagnostic}
    (h : site.diagnostic? s facts = some d) : site.Told s facts d := by
  unfold diagnostic? at h
  obtain ⟨kind, hkind, h⟩ := Option.bind_eq_some_iff.mp h
  obtain ⟨finding, hfinding, h⟩ := Option.bind_eq_some_iff.mp h
  obtain ⟨hskip, hdefinition⟩ := analysedKind?_eq_some hkind
  have hnamed := named_map facts site
  obtain ⟨hknown, hexempt, hne, rfl⟩ := (SchemaMap.finding?_eq_some_iff hnamed).mp hfinding
  have hperm := SchemaMap.expectedOrder_perm_actualOrder hknown hnamed
    (identifierFields s facts site.file kind)
  split at h
  · obtain rfl := Option.some.inj h
    exact {
      notSkipped := hskip
      isDefinition := by rw [hdefinition]; rfl
      known := known_map_iff.mp hknown
      notExempt := not_exempt_of_exemption? hexempt
      actualOrder := actualOrder_map (known_map_iff.mp hknown)
      perm := hperm
      differs := hne
      file := rfl
      line := rfl
      column := rfl }
  · cases h

/-! ### Files and modules -/

/-- The diagnostics of a file are those of its sites. -/
theorem checkFile_diagnostics (s : Setting) (facts : ModuleFacts) (f : SourceFile)
    (cache : HelperCache) : (checkFile s facts f cache).diagnostics =
      (f.sites facts s.config.schemaModules (helpersFor s facts f cache).helpers).filterMap
        (Site.diagnostic? s facts) := by
  have hfile : ∀ site ∈ f.sites facts s.config.schemaModules (helpersFor s facts f cache).helpers,
      site.file = f := by
    intro site hsite
    obtain ⟨v, -, hv⟩ := List.mem_filterMap.mp hsite
    exact (Visit.site?_eq_some hv).1
  unfold checkFile
  cases hkind : analysedKind? s f with
  | none =>
    refine (List.filterMap_eq_nil_iff.mpr fun site hsite => ?_).symm
    rw [Site.diagnostic?, hfile site hsite, hkind]
    rfl
  | some kind =>
    simp only [checkDefinition, collectMaps, mapDiagnostics]
    rw [SourceFile.schemaMaps_eq, List.filterMap_map, List.filterMap_filterMap]
    refine List.filterMap_congr fun site hsite => ?_
    rw [Site.diagnostic?, hfile site hsite, hkind]
    rfl

/-- The diagnostics of files in sequence are those of their sites. -/
theorem checkFiles_diagnostics (s : Setting) (facts : ModuleFacts) :
    ∀ (files : List SourceFile) (cache : HelperCache), (checkFiles s facts files cache).diagnostics =
      (sites s facts files cache).filterMap (Site.diagnostic? s facts)
  | [], _ => rfl
  | f :: rest, cache => by
    have ih := checkFiles_diagnostics s facts rest (checkFile s facts f cache).cache
    rw [sites, List.filterMap_append, ← checkFile_diagnostics, ← ih]
    rfl

/-- The diagnostics of a module are those of the sites of its files. -/
theorem checkModule_diagnostics (s : Setting) (facts : ModuleFacts) (cache : HelperCache) :
    (checkModule s facts cache).diagnostics =
      (sites s facts facts.module.files cache).filterMap (Site.report? s facts) := by
  unfold checkModule Site.report?
  split
  · exact (List.filterMap_eq_nil_iff.mpr fun _ _ => rfl).symm
  · exact checkFiles_diagnostics s facts facts.module.files cache

/-- **Soundness of reports.** The diagnostics of a module are those of its schema map
literals, at most one for each and in their order. Each tells what is so of a literal
of the module, and nothing is told of a literal with a field that is not known, or of
an exempt one. -/
theorem checkModule_sound (s : Setting) (facts : ModuleFacts) (cache : HelperCache) :
    (checkModule s facts cache).diagnostics =
      (sites s facts facts.module.files cache).filterMap (Site.report? s facts) ∧
    (∀ d ∈ (checkModule s facts cache).diagnostics,
      ∃ site ∈ sites s facts facts.module.files cache, site.report? s facts = some d ∧
        site.Occurs s facts facts.module.files cache ∧ site.Told s facts d) ∧
    ∀ site : Site, ¬site.Known facts ∨ site.Exempt facts → site.report? s facts = none := by
  have htold : ∀ {site : Site} {d : Diagnostic}, site.report? s facts = some d →
      site.Told s facts d := by
    intro site d h
    unfold Site.report? at h
    split at h
    · cases h
    · exact Site.told_of_diagnostic? h
  refine ⟨checkModule_diagnostics s facts cache, fun d hd => ?_, fun site hsite => ?_⟩
  · rw [checkModule_diagnostics] at hd
    obtain ⟨site, hsite, hd⟩ := List.mem_filterMap.mp hd
    exact ⟨site, hsite, hd, sites_occur hsite, htold hd⟩
  · rw [Option.eq_none_iff_forall_ne_some]
    intro d hd
    rcases hsite with h | h
    · exact h (htold hd).known
    · exact (htold hd).notExempt h

/-- A schema literal that sets one flag. -/
def flagLiteral (flag : String) : Expr :=
  .composite none [⟨some (.ident flag {}), .ident "true" {}⟩] {}

/-- A map of a name behind the tags. -/
def tagsFirst : Expr :=
  .composite (some (.map (.named none "string") (.pointer (.named (some "pluginsdk") "Schema"))))
    [⟨some (.lit .string "tags" {}), flagLiteral "Optional"⟩,
      ⟨some (.lit .string "name" {}), flagLiteral "Required"⟩] ⟨3, 2⟩

def tagsFirstModule : Module where
  path := { text := "example" }
  dir := ⟨"example"⟩
  files := [⟨⟨"example/tags_resource.go"⟩, "example", [], [.var ⟨["fields"], none, [tagsFirst], {}⟩]⟩]

example : (checkModule { disk := ({} : FileTree).disk } (.syntaxOnly tagsFirstModule)
    {}).diagnostics.map (fun d => (d.line, d.expectedOrder)) = [(3, ["name", "tags"])] := by
  decide +kernel

end FieldOrder
