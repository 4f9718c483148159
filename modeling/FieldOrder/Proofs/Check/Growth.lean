/-
# Growing a module

When files are added behind those of a module, its schema maps keep what is known. The
functions of the module are looked up in the order of its files, so a function that was
found before is found again, whatever the new files declare; what leads to other modules
is looked for from the same directory, that of the first file; and no other question
about an entry is put to the module. So a file of the module has the same schema maps in
the same places, and an entry whose field was known has the same field
(`collectMaps_grown`). An entry whose field was not known may get one, from a function
that the module did not have.

Key definitions: `ModuleFacts.grown`, `SchemaEntry.Keeps`, `SchemaMap.Keeps`.
Key theorems: `Module.func?_grown`, `Route.flags_grown`, `collectMaps_grown`.
-/
import Mathlib.Data.List.Forall2
import FieldOrder.Proofs.Check.Callees
import FieldOrder.Proofs.Schema.NearestAssignment

namespace FieldOrder

/-! ### More files -/

/-- The module with files added behind its own. -/
def Module.grown (m : Module) (more : List SourceFile) : Module := { m with files := m.files ++ more }

/-- The same facts about the module with files added. -/
def ModuleFacts.grown (facts : ModuleFacts) (more : List SourceFile) : ModuleFacts :=
  { facts with module := facts.module.grown more }

/-- The entry says all that `e` says. -/
structure SchemaEntry.Keeps (e e' : SchemaEntry) : Prop where
  name : e'.name = e.name
  position : e'.position = e.position
  field : ∀ field, e.field = .resolved field → e'.field = .resolved field

/-- The map stands in the same place and its entries, one by one, say all that those of
`m` say. -/
structure SchemaMap.Keeps (m m' : SchemaMap) : Prop where
  file : m'.file = m.file
  pos : m'.pos = m.pos
  nested : m'.nested = m.nested
  entries : List.Forall₂ SchemaEntry.Keeps m.entries m'.entries

namespace Module

variable {m : Module} (more : List SourceFile)

/-- A function that is found is found among more files too. -/
theorem func?_grown {name : String} {f : FuncDecl} (h : m.func? name = some f) :
    (m.grown more).func? name = some f := by
  rw [func?] at h
  rw [func?, funcs, grown, List.flatMap_append, List.find?_append, ← funcs, h, Option.some_or]

/-- More files leave the first one where it is. -/
theorem sourceDir_grown (h : m.files ≠ []) : (m.grown more).sourceDir = m.sourceDir := by
  obtain ⟨path, dir, files⟩ := m
  cases files with
  | nil => exact absurd rfl h
  | cons f rest => rfl

end Module

/-! ### Entries -/

section

variable (facts : ModuleFacts) (more : List SourceFile)

/-- A call leads to the same place: of the module only its import path is looked at. -/
theorem callRoute_grown (f : SourceFile) (callee : Expr) (pos : Pos) :
    callRoute (facts.grown more) f callee pos = callRoute facts f callee pos := rfl

/-- Flags at the end of a route stay. -/
theorem Route.flags_grown {helpers : Helpers} {r : Route} {flags : Flags}
    (h : r.flags facts helpers = .resolved flags) :
    r.flags (facts.grown more) helpers = .resolved flags := by
  cases r with
  | ownModule function =>
    have hvalue := congrArg Resolution.value? h
    rw [Route.flags, Resolution.value?_ofOption, Resolution.value?_resolved] at hvalue
    obtain ⟨f, hf, hflags⟩ := Option.bind_eq_some_iff.mp hvalue
    have hgrown : (facts.grown more).module.func? function = some f :=
      Module.func?_grown more hf
    rw [Route.flags, hgrown, Option.bind_some, hflags, Resolution.ofOption]
  | _ => exact h

theorem LiteralEntry.keeps_resolve (f : SourceFile) (helpers : Helpers) (e : LiteralEntry) :
    (e.resolve facts f helpers).Keeps (e.resolve (facts.grown more) f helpers) where
  name := rfl
  position := rfl
  field field h := by
    have hroute : e.route (facts.grown more) f = e.route facts f := by
      rw [route, route, Expr.route_congr fun callee args pos _ => callRoute_grown facts more f callee pos]
    rw [resolve, hroute]
    cases hflags : (e.route facts f).flags facts helpers with
    | resolved flags =>
      rw [resolve, hflags] at h
      rw [Route.flags_grown facts more hflags]
      exact h
    | unresolvable => rw [resolve, hflags] at h; cases h
    | notApplicable => rw [resolve, hflags] at h; cases h

theorem MapLiteral.keeps_resolve (f : SourceFile) (helpers : Helpers) (l : MapLiteral) :
    (l.resolve facts f helpers).Keeps (l.resolve (facts.grown more) f helpers) where
  file := rfl
  pos := rfl
  nested := rfl
  entries := by
    rw [resolve, resolve, List.forall₂_map_left_iff, List.forall₂_map_right_iff]
    exact List.forall₂_same.mpr fun e _ => e.keeps_resolve facts more f helpers

/-! ### Files -/

/-- The file has the same literals, whose maps keep what is known. -/
theorem SourceFile.keeps_schemaMaps (f : SourceFile) (schemaModules : List String)
    (helpers : Helpers) : List.Forall₂ SchemaMap.Keeps (f.schemaMaps facts schemaModules helpers)
      (f.schemaMaps (facts.grown more) schemaModules helpers) := by
  have hliterals : f.mapLiterals (facts.grown more) schemaModules =
      f.mapLiterals facts schemaModules := mapLiterals_congr rfl schemaModules
  rw [schemaMaps, schemaMaps, hliterals, List.forall₂_map_left_iff, List.forall₂_map_right_iff]
  exact List.forall₂_same.mpr fun l _ => l.keeps_resolve facts more f helpers

/-- The same helpers are asked for, and given. -/
theorem helpersFor_grown (h : facts.module.files ≠ []) (s : Setting) (f : SourceFile)
    (cache : HelperCache) : helpersFor s (facts.grown more) f cache = helpersFor s facts f cache := by
  have hneeds : f.needsHelpers (facts.grown more) s.config.schemaModules =
      f.needsHelpers facts s.config.schemaModules :=
    needsHelpers_congr (fun callee _ pos _ => callRoute_grown facts more f callee pos) rfl _
  unfold helpersFor
  rw [hneeds]
  split
  · -- a search begins in the directory of the module and asks for nothing else
    show cache.fetch _ (fun _ => .run _ _ (facts.module.grown more).sourceDir) = _
    rw [Module.sourceDir_grown more h]
    rfl
  · rfl

/-- **What is known stays known.** When files are added to a module, a file of it has the
same schema maps with the same entries, and every field that was known is known to be the
same; and the cache of helpers is used and left as before. -/
theorem collectMaps_grown {f : SourceFile} (h : f ∈ facts.module.files) (s : Setting)
    (cache : HelperCache) :
    List.Forall₂ SchemaMap.Keeps (collectMaps s facts f cache).1
      (collectMaps s (facts.grown more) f cache).1 ∧
    (collectMaps s (facts.grown more) f cache).2 = (collectMaps s facts f cache).2 := by
  have hhelpers := helpersFor_grown facts more (List.ne_nil_of_mem h) s f cache
  unfold collectMaps
  dsimp only
  rw [hhelpers]
  exact ⟨f.keeps_schemaMaps facts more s.config.schemaModules _, rfl⟩

end

/-- A file that declares the helper of a sku, but not that of a zone. -/
def skuFile : SourceFile :=
  let entry (key function : String) : Element :=
    ⟨some (.lit .string key {}), .call (.ident function {}) [] {}⟩
  ⟨⟨"repo/internal/sku/sku_resource.go"⟩, "sku", [],
    [.var ⟨["fields"], none,
        [.composite (some (.schemaMapOf "pluginsdk"))
          [entry "sku" "skuSchema", entry "zone" "zoneSchema"] {}], {}⟩,
      .func (.returningAfter [.defineSchema "Required"])]⟩

def skuModule : Module where
  path := { text := "example.com/sku" }
  dir := ⟨"repo/internal/sku"⟩
  files := [skuFile]

/-- A file that declares both helpers. -/
def helpersFile : SourceFile :=
  let helper : FuncDecl := .returningAfter [.defineSchema "Computed"]
  ⟨⟨"other/helpers.go"⟩, "sku", [], [.func helper, .func { helper with name := "zoneSchema" }]⟩

/-- With another file the field of the zone is known; that of the sku stays as it was. -/
theorem collectMaps_grown_skuModule :
    let s : Setting := { disk := ({} : FileTree).disk }
    let facts := ModuleFacts.syntaxOnly skuModule
    let maps := (collectMaps s facts skuFile {}).1
    let mapsLater := (collectMaps s (facts.grown [helpersFile]) skuFile {}).1
    let flags (m : SchemaMap) := m.entries.map fun e => e.field.value?.map (·.flags)
    skuFile ∈ facts.module.files ∧ List.Forall₂ SchemaMap.Keeps maps mapsLater ∧
      maps.map flags = [[some { required := true }, none]] ∧
      mapsLater.map flags = [[some { required := true }, some { computed := true }]] := by
  intro s facts maps mapsLater flags
  have hfile : skuFile ∈ facts.module.files := List.mem_singleton_self skuFile
  exact ⟨hfile, (collectMaps_grown facts [helpersFile] hfile s {}).1, by decide +kernel,
    by decide +kernel⟩

end FieldOrder
