/-
# What is known of calls, and what is written

Where a call goes can be known from a type checker, or be told from the way the call is
written: a bare name is a function of the module itself, a name behind that of an import
is a function of the imported module. When what is known of the calls of a file is true
(`SourceFile.Truthful`), it makes no difference: the routes of all entries are the same
with it as without it, and so are the schema maps of the file and the requests that are
made for it (`collectMaps_truthful`).

Key definitions: `CalledAsWritten`, `SourceFile.Truthful`.
Key theorems: `callRoute_of_calledAsWritten`, `schemaMaps_congr`, `collectMaps_truthful`.
-/
import Mathlib.Data.List.Induction
import FieldOrder.Check
import FieldOrder.Proofs.Schema.Routes

namespace FieldOrder

/-! ### True facts about calls -/

/-- The call of `callee` in a file goes to the function `target`, and can be seen to: it
calls a function of the module by its name, or a function of another module by its name
behind that of the import. -/
def CalledAsWritten (m : Module) (f : SourceFile) (callee : Expr) (target : Callee) : Prop :=
  (∃ function pos, callee.unparen = .ident function pos ∧
    target = ⟨m.path.text, function, false⟩) ∨
  (∃ x function selPos package packagePos path, callee.unparen = .selector x function selPos ∧
    x.unparen = .ident package packagePos ∧ f.importPath? package = some path ∧
    path ≠ m.path.text ∧ target = ⟨path, function, false⟩)

/-- Whatever is known at the place of a call of the file is where this call goes. Several
calls may have one place. -/
def SourceFile.Truthful (facts : ModuleFacts) (f : SourceFile) : Prop :=
  ∀ callee args pos target, .expr (.call callee args pos) ∈ f.nodes →
    facts.calleeOf? f.path pos = some target → CalledAsWritten facts.module f callee target

/-- The route of a call told from the way it is written. -/
theorem callRoute_of_calledAsWritten {facts bare : ModuleFacts} {f : SourceFile} {callee : Expr}
    {pos : Pos} {target : Callee} (hknown : facts.calleeOf? f.path pos = some target)
    (hbare : bare.calleeOf? f.path pos = none) (h : CalledAsWritten facts.module f callee target) :
    callRoute facts f callee pos = callRoute bare f callee pos := by
  rw [callRoute_of_known hknown, callRoute, hbare]
  rcases h with ⟨function, identPos, hcallee, rfl⟩ |
    ⟨x, function, selPos, package, packagePos, path, hcallee, hx, hpath, hother, rfl⟩
  · simp [hcallee]
  · have himport : x.ident?.bind f.importPath? = some path := by
      rw [Expr.ident?_eq_some_iff.mpr ⟨packagePos, hx⟩, Option.bind_some, hpath]
    simp [hcallee, himport, Ne.symm hother]

/-! ### Maps of a file -/

section

variable {facts facts' : ModuleFacts} {f : SourceFile}

theorem mapLiterals_congr (htypes : facts'.types = facts.types) (schemaModules : List String) :
    f.mapLiterals facts' schemaModules = f.mapLiterals facts schemaModules := by
  have hat : ∀ (written : Option TypeExpr) (pos : Pos),
      isSchemaMapAt facts' schemaModules f.path written pos =
        isSchemaMapAt facts schemaModules f.path written pos := by
    intro written pos
    rw [isSchemaMapAt, isSchemaMapAt, ModuleFacts.typeOf?, ModuleFacts.typeOf?, htypes]
  rw [SourceFile.mapLiterals, SourceFile.mapLiterals]
  refine List.filterMap_congr fun v _ => ?_
  simp only [Visit.mapLiteral?, hat]

/-- The values of entries are met by the walk of the file. -/
theorem value_mem_nodes_of_mem_entries {schemaModules : List String} {l : MapLiteral}
    (hl : l ∈ f.mapLiterals facts schemaModules) {e : LiteralEntry} (he : e ∈ l.entries) :
    .expr e.value ∈ f.nodes := by
  obtain ⟨v, hv, type, elements, hnode, -, -, hentries⟩ := SourceFile.mem_mapLiterals_iff.mp hl
  rw [← hentries] at he
  obtain ⟨el, hel, he⟩ := List.mem_filterMap.mp he
  obtain ⟨key, -, htells⟩ := Element.entryOf?_eq_some_iff.mp he
  rw [htells.value]
  exact SourceFile.value_mem_nodes (List.mem_map.mpr ⟨v, hv, hnode⟩) hel

variable (hcalls : ∀ callee args pos, .expr (.call callee args pos) ∈ f.nodes →
    callRoute facts' f callee pos = callRoute facts f callee pos)

include hcalls

/-- Entries have the same routes when all calls of the file have. -/
theorem route_congr_of_mem_entries {schemaModules : List String} {l : MapLiteral}
    (hl : l ∈ f.mapLiterals facts schemaModules) {e : LiteralEntry} (he : e ∈ l.entries) :
    e.route facts' f = e.route facts f := by
  have hvalue := SourceFile.unparen_mem_nodes (value_mem_nodes_of_mem_entries hl he)
  have hroute : e.value.route facts' f = e.value.route facts f := by
    refine Expr.route_congr fun callee args pos hcall => ?_
    rw [hcall] at hvalue
    exact hcalls callee args pos hvalue
  rw [LiteralEntry.route, LiteralEntry.route, hroute]

variable (htypes : facts'.types = facts.types)

include htypes

theorem needsHelpers_congr (schemaModules : List String) :
    f.needsHelpers facts' schemaModules = f.needsHelpers facts schemaModules := by
  rw [SourceFile.needsHelpers, SourceFile.needsHelpers, mapLiterals_congr htypes, Bool.eq_iff_iff]
  simp only [List.any_eq_true]
  refine exists_congr fun l => and_congr_right fun hl => exists_congr fun e =>
    and_congr_right fun he => ?_
  rw [route_congr_of_mem_entries hcalls hl he]

/-- A file has the same schema maps when all its calls have the same routes. -/
theorem schemaMaps_congr (hmodule : facts'.module = facts.module) (schemaModules : List String)
    (helpers : Helpers) :
    f.schemaMaps facts' schemaModules helpers = f.schemaMaps facts schemaModules helpers := by
  have hflags : ∀ r : Route, r.flags facts' helpers = r.flags facts helpers := by
    intro r
    cases r with
    | ownModule function => rw [Route.flags, Route.flags, hmodule]
    | _ => rfl
  rw [SourceFile.schemaMaps, SourceFile.schemaMaps, mapLiterals_congr htypes]
  refine List.map_congr_left fun l hl => ?_
  rw [MapLiteral.resolve, MapLiteral.resolve]
  congr 1
  refine List.map_congr_left fun e he => ?_
  rw [LiteralEntry.resolve, LiteralEntry.resolve, route_congr_of_mem_entries hcalls hl he,
    hflags]

end

/-! ### Facts added to a source tree -/

section

variable (m : Module) (added : List CalleeFact)

/-- A source tree with facts about calls only. -/
def ModuleFacts.withCallees : ModuleFacts := added.foldl ModuleFacts.insertCallee (.syntaxOnly m)

theorem withCallees_eq : (ModuleFacts.withCallees m added).module = m ∧
    (ModuleFacts.withCallees m added).types = {} := by
  unfold ModuleFacts.withCallees
  induction added using List.reverseRecOn with
  | nil => exact ⟨rfl, rfl⟩
  | append_singleton added fact ih =>
    rw [List.foldl_append]
    exact ih

/-- **What is known of calls agrees with what is written.** Facts about calls that are true
of a file change nothing about its schema maps, nor about the use that is made of the cache
of helpers: whether helpers are asked for, what is answered, and what is left and logged. -/
theorem collectMaps_truthful (f : SourceFile) (h : f.Truthful (.withCallees m added))
    (s : Setting) (cache : HelperCache) :
    f.needsHelpers (.withCallees m added) s.config.schemaModules =
      f.needsHelpers (.syntaxOnly m) s.config.schemaModules ∧
    helpersFor s (.withCallees m added) f cache = helpersFor s (.syntaxOnly m) f cache ∧
    collectMaps s (.withCallees m added) f cache = collectMaps s (.syntaxOnly m) f cache := by
  obtain ⟨hmodule, htypes⟩ := withCallees_eq m added
  have hcalls : ∀ callee args pos, .expr (.call callee args pos) ∈ f.nodes →
      callRoute (.withCallees m added) f callee pos = callRoute (.syntaxOnly m) f callee pos := by
    intro callee args pos hcall
    cases hknown : (ModuleFacts.withCallees m added).calleeOf? f.path pos with
    | none => rw [callRoute, callRoute, hknown]; rfl
    | some target =>
      exact callRoute_of_calledAsWritten hknown rfl (h callee args pos target hcall hknown)
  have hneeds := needsHelpers_congr hcalls htypes s.config.schemaModules
  have hhelpers : helpersFor s (.withCallees m added) f cache =
      helpersFor s (.syntaxOnly m) f cache := by
    unfold helpersFor
    rw [hneeds, hmodule]
    rfl
  refine ⟨hneeds, hhelpers, ?_⟩
  unfold collectMaps
  dsimp only
  rw [hhelpers, schemaMaps_congr hcalls htypes hmodule]

end

/-- A file with two calls of an imported function at unknown places, and one of a function
of the module. -/
def zonesFile : SourceFile :=
  let zone : Expr := .selector (.ident "schema" {}) "Zone" {}
  let entry (key : String) (callee : Expr) (pos : Pos) : Element :=
    ⟨some (.lit .string key {}), .call callee [] pos⟩
  ⟨⟨"repo/internal/zones/zones_resource.go"⟩, "zones", [⟨none, "example.com/helpers/schema/v2"⟩],
    [.var ⟨["fields"], none,
      [.composite (some (.schemaMapOf "pluginsdk"))
        [entry "zone" zone {}, entry "other_zone" (.paren zone) {},
          entry "sku" (.ident "skuSchema" {}) ⟨7, 3⟩] {}], {}⟩]⟩

def zonesModule : Module where
  path := { text := "example.com/zones" }
  dir := ⟨"repo/internal/zones"⟩
  files := [zonesFile]

/-- What a type checker knows of the calls; the last fact is of another file. -/
def zonesCallees : List CalleeFact :=
  [⟨zonesFile.path, {}, ⟨"example.com/helpers/schema/v2", "Zone", false⟩⟩,
    ⟨⟨"repo/./internal/zones/zones_resource.go"⟩, ⟨7, 3⟩, ⟨"example.com/zones", "skuSchema", false⟩⟩,
    ⟨⟨"zones_resource.go"⟩, ⟨7, 3⟩, ⟨"example.com/other", "read", true⟩⟩]

/-- The call that a node is, with its place. -/
def Node.call? : Node → Option (Expr × Pos)
  | .expr (.call callee _ pos) => some (callee, pos)
  | _ => none

theorem truthful_zonesFile : zonesFile.Truthful (.withCallees zonesModule zonesCallees) := by
  have hcalls : zonesFile.nodes.filterMap Node.call? =
      [(.selector (.ident "schema" {}) "Zone" {}, {}),
        (.paren (.selector (.ident "schema" {}) "Zone" {}), {}),
        (.ident "skuSchema" {}, ⟨7, 3⟩)] := rfl
  have hzone : (ModuleFacts.withCallees zonesModule zonesCallees).calleeOf? zonesFile.path {} =
      some ⟨"example.com/helpers/schema/v2", "Zone", false⟩ := by decide +kernel
  have hsku : (ModuleFacts.withCallees zonesModule zonesCallees).calleeOf? zonesFile.path ⟨7, 3⟩ =
      some ⟨"example.com/zones", "skuSchema", false⟩ := by decide +kernel
  have himport : zonesFile.importPath? "schema" = some "example.com/helpers/schema/v2" := by
    decide +kernel
  intro callee args pos target hmem hknown
  have hcall : (callee, pos) ∈ zonesFile.nodes.filterMap Node.call? :=
    List.mem_filterMap.mpr ⟨_, hmem, rfl⟩
  rw [hcalls] at hcall
  simp only [List.mem_cons, List.not_mem_nil, or_false, Prod.mk.injEq] at hcall
  rcases hcall with ⟨rfl, rfl⟩ | ⟨rfl, rfl⟩ | ⟨rfl, rfl⟩
  · obtain rfl := Option.some.inj (hzone.symm.trans hknown)
    exact .inr ⟨_, _, _, _, _, _, rfl, rfl, himport, by decide, rfl⟩
  · obtain rfl := Option.some.inj (hzone.symm.trans hknown)
    exact .inr ⟨_, _, _, _, _, _, rfl, rfl, himport, by decide, rfl⟩
  · obtain rfl := Option.some.inj (hsku.symm.trans hknown)
    exact .inl ⟨_, _, rfl, rfl⟩

/-- In the file of zones helpers are asked for, with what is known as without it. -/
theorem collectMaps_truthful_zones :
    zonesFile.Truthful (.withCallees zonesModule zonesCallees) ∧
    (∀ s : Setting, zonesFile.needsHelpers (.withCallees zonesModule zonesCallees)
      s.config.schemaModules = true) ∧
    ∀ s cache, collectMaps s (.withCallees zonesModule zonesCallees) zonesFile cache =
      collectMaps s (.syntaxOnly zonesModule) zonesFile cache := by
  refine ⟨truthful_zonesFile, fun s => ?_, fun s cache => ?_⟩
  · obtain ⟨hneeds, -⟩ := collectMaps_truthful zonesModule zonesCallees zonesFile
      truthful_zonesFile s {}
    rw [hneeds]
    rfl
  · obtain ⟨-, -, hmaps⟩ := collectMaps_truthful zonesModule zonesCallees zonesFile
      truthful_zonesFile s cache
    exact hmaps

end FieldOrder
