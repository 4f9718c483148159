/-
# The literals that a check meets

A check of a module meets the schema map literals of its files one after the
other. Which fields a literal has depends on the file and on the helpers that the
file gets, and these on the cache that the files before it left; a site is a
literal with both. An element without a key makes no entry. An element with one
makes a field of its own name, if its key is a text and its value can be followed
(`Site.field?`).

So all that is known of a map can be told of its literal: its fields are those of
the elements (`Site.knownFields_map`), and when all are known, its names are their
keys (`Site.actualOrder_map`).

Key definitions: `Site`, `Site.map`, `Site.field?`, `Site.Known`, `SourceFile.sites`,
`sites`.
Key theorems: `SourceFile.schemaMaps_eq`, `sites_occur`, `Site.knownFields_map`,
`Site.known_map_iff`, `Site.actualOrder_map`.
-/
import FieldOrder.Check
import FieldOrder.Proofs.Order.Finding

namespace FieldOrder

/-! ### Sites -/

/-- A schema map literal of a file, with the helpers that the file gets. -/
structure Site where
  file : SourceFile
  helpers : Helpers
  type : Option TypeExpr
  elements : List Element
  pos : Pos
  /-- Whether it lies inside an element `Elem`. -/
  nested : Bool

namespace Site

/-- The keys that are texts, in source order. -/
def keys (site : Site) : List String := site.elements.filterMap fun el => el.key.bind Expr.string?

/-- The field of an element whose key is a text and whose value can be followed. -/
def field? (facts : ModuleFacts) (site : Site) (el : Element) : Option Field := do
  let key ← el.key
  let name ← key.string?
  let flags ← ((el.value.route facts site.file).flags facts site.helpers).value?
  return ⟨name, flags, key.pos?.getD {}⟩

/-- Every element with a key is known. -/
def Known (facts : ModuleFacts) (site : Site) : Prop :=
  ∀ el ∈ site.elements, el.key.isSome → (site.field? facts el).isSome

/-- The schema map of the literal. -/
def map (facts : ModuleFacts) (site : Site) : SchemaMap :=
  MapLiteral.resolve facts site.file site.helpers
    ⟨site.pos, site.nested, site.elements.filterMap Element.entryOf?⟩

end Site

/-- The site that a visit of a file comes to. -/
def Visit.site? (facts : ModuleFacts) (schemaModules : List String) (f : SourceFile)
    (helpers : Helpers) (v : Visit) : Option Site :=
  match v.node with
  | .expr (.composite type elements pos) =>
    if isSchemaMapAt facts schemaModules f.path type pos then
      some ⟨f, helpers, type, elements, pos, v.isNested⟩
    else none
  | _ => none

/-- The sites of a file, outer ones before those inside them. -/
def SourceFile.sites (facts : ModuleFacts) (schemaModules : List String) (helpers : Helpers)
    (f : SourceFile) : List Site :=
  f.visits.filterMap (·.site? facts schemaModules f helpers)

/-- The sites of files that are checked one after the other. -/
def sites (s : Setting) (facts : ModuleFacts) : List SourceFile → HelperCache → List Site
  | [], _ => []
  | f :: rest, cache =>
    f.sites facts s.config.schemaModules (helpersFor s facts f cache).helpers ++
      sites s facts rest (checkFile s facts f cache).cache

/-! ### Where sites are -/

/-- A site is a visited literal, and has the helpers that its file gets from what the
files before it left in the cache. -/
structure Site.Occurs (s : Setting) (facts : ModuleFacts) (files : List SourceFile)
    (cache : HelperCache) (site : Site) : Prop where
  literal : ∃ v ∈ site.file.visits, v.node = .expr (.composite site.type site.elements site.pos) ∧
    v.isNested = site.nested
  isSchemaMap : isSchemaMapAt facts s.config.schemaModules site.file.path site.type site.pos = true
  helpers : ∃ before after, files = before ++ site.file :: after ∧
    site.helpers = (helpersFor s facts site.file (checkFiles s facts before cache).cache).helpers

section

variable {facts : ModuleFacts} {schemaModules : List String} {f : SourceFile} {helpers : Helpers}

theorem Visit.site?_eq_some {v : Visit} {site : Site}
    (h : v.site? facts schemaModules f helpers = some site) :
    site.file = f ∧ site.helpers = helpers ∧
      v.node = .expr (.composite site.type site.elements site.pos) ∧ v.isNested = site.nested ∧
      isSchemaMapAt facts schemaModules f.path site.type site.pos = true := by
  unfold site? at h
  split at h
  · next type elements pos hn =>
    split at h
    · next hmap =>
      obtain rfl := Option.some.inj h
      exact ⟨rfl, rfl, hn, rfl, hmap⟩
    · cases h
  · cases h

/-- The literal of a visit is that of its site. -/
theorem Visit.map_mapLiteral? (v : Visit) :
    (v.mapLiteral? facts schemaModules f.path).map (·.resolve facts f helpers) =
      (v.site? facts schemaModules f helpers).map (Site.map facts) := by
  obtain ⟨trail, node⟩ := v
  cases node with
  | stmt s => rfl
  | element el => rfl
  | expr e =>
    cases e with
    | composite type elements pos =>
      cases hmap : isSchemaMapAt facts schemaModules f.path type pos with
      | true => simp [mapLiteral?, site?, Site.map, hmap]
      | false => simp [mapLiteral?, site?, hmap]
    | _ => rfl

/-- The schema maps of a file are those of its sites. -/
theorem SourceFile.schemaMaps_eq : f.schemaMaps facts schemaModules helpers =
    (f.sites facts schemaModules helpers).map (Site.map facts) := by
  rw [schemaMaps, mapLiterals, sites, List.map_filterMap, List.map_filterMap]
  exact List.filterMap_congr fun v _ => v.map_mapLiteral?

end

theorem sites_occur {s : Setting} {facts : ModuleFacts} {site : Site} :
    ∀ {files : List SourceFile} {cache : HelperCache}, site ∈ sites s facts files cache →
      site.Occurs s facts files cache
  | f :: rest, cache, h => by
    rcases List.mem_append.mp h with h | h
    · obtain ⟨v, hv, hsite⟩ := List.mem_filterMap.mp h
      obtain ⟨rfl, hhelpers, hnode, hnested, hmap⟩ := Visit.site?_eq_some hsite
      exact ⟨⟨v, hv, hnode, hnested⟩, hmap, [], rest, rfl, hhelpers⟩
    · obtain ⟨hliteral, hmap, before, after, rfl, hhelpers⟩ := sites_occur h
      exact ⟨hliteral, hmap, f :: before, after, rfl, hhelpers⟩

/-! ### The fields of a site -/

namespace Site

variable {facts : ModuleFacts} {site : Site}

/-- The entry that an element makes in the map of the literal. -/
def entryAt? (facts : ModuleFacts) (site : Site) (el : Element) : Option SchemaEntry :=
  el.entryOf?.map (·.resolve facts site.file site.helpers)

theorem entries_map (facts : ModuleFacts) (site : Site) :
    (site.map facts).entries = site.elements.filterMap (site.entryAt? facts) :=
  List.map_filterMap

theorem entryAt?_of_not_keyed {el : Element} (h : el.key = none) :
    site.entryAt? facts el = none := by
  rw [entryAt?, Element.entryOf?, h]
  rfl

theorem field?_of_not_keyed {el : Element} (h : el.key = none) : site.field? facts el = none := by
  rw [field?, h]
  rfl

/-- The field of a known element has the text of its key for a name. -/
theorem string?_of_field? {el : Element} {field : Field} (h : site.field? facts el = some field) :
    el.key.bind Expr.string? = some field.name := by
  unfold field? at h
  obtain ⟨key, hkey, h⟩ := Option.bind_eq_some_iff.mp h
  obtain ⟨name, hname, h⟩ := Option.bind_eq_some_iff.mp h
  obtain ⟨flags, -, h⟩ := Option.bind_eq_some_iff.mp h
  obtain rfl := Option.some.inj h
  rw [hkey]
  exact hname

/-- An element with a key makes an entry, which holds the field of the element. -/
theorem entryAt?_of_keyed (facts : ModuleFacts) (site : Site) {el : Element} {key : Expr}
    (h : el.key = some key) : ∃ e, site.entryAt? facts el = some e ∧
      e.field.value? = site.field? facts el ∧ ∀ name, key.string? = some name → e.name = name := by
  cases hname : key.string? with
  | none =>
    have hentry : el.entryOf? =
        some ⟨key.calleeName?.getD "<dynamic>", false, el.value, key.pos?.getD {}⟩ := by
      simp [Element.entryOf?, h, hname]
    refine ⟨_, by rw [entryAt?, hentry]; rfl, ?_, fun name hn => by cases hn⟩
    simp [field?, h, hname, LiteralEntry.resolve, LiteralEntry.route, Route.flags]
  | some name =>
    have hentry : el.entryOf? = some ⟨name, true, el.value, key.pos?.getD {}⟩ := by
      simp [Element.entryOf?, h, hname]
    refine ⟨_, by rw [entryAt?, hentry]; rfl, ?_, fun name hn => Option.some.inj hn⟩
    cases hflags : ((el.value.route facts site.file).flags facts site.helpers).value? with
    | none => simp [field?, h, LiteralEntry.resolve, LiteralEntry.route, hflags]
    | some flags => simp [field?, h, hname, LiteralEntry.resolve, LiteralEntry.route, hflags]

/-- The known fields of the map are those of the elements. -/
theorem knownFields_map (facts : ModuleFacts) (site : Site) :
    (site.map facts).knownFields = site.elements.filterMap (site.field? facts) := by
  rw [SchemaMap.knownFields, entries_map, List.filterMap_filterMap]
  refine List.filterMap_congr fun el _ => ?_
  cases hkey : el.key with
  | none => rw [entryAt?_of_not_keyed hkey, field?_of_not_keyed hkey]; rfl
  | some key =>
    obtain ⟨e, he, hfield, -⟩ := entryAt?_of_keyed facts site hkey
    rw [he]
    exact hfield

/-- The map is known just when the elements with a key are. -/
theorem known_map_iff : (site.map facts).Known ↔ site.Known facts := by
  rw [SchemaMap.Known, entries_map]
  constructor
  · intro hknown el hel hkeyed
    obtain ⟨key, hkey⟩ := Option.isSome_iff_exists.mp hkeyed
    obtain ⟨e, he, hfield, -⟩ := entryAt?_of_keyed facts site hkey
    rw [← hfield]
    exact hknown e (List.mem_filterMap.mpr ⟨el, hel, he⟩)
  · intro hknown e he
    obtain ⟨el, hel, he⟩ := List.mem_filterMap.mp he
    cases hkey : el.key with
    | none =>
      rw [entryAt?_of_not_keyed hkey] at he
      cases he
    | some key =>
      obtain ⟨e', he', hfield, -⟩ := entryAt?_of_keyed facts site hkey
      obtain rfl : e' = e := Option.some.inj (he'.symm.trans he)
      rw [hfield]
      exact hknown el hel (by rw [hkey]; rfl)

/-- In the map every known field has the name of its entry. -/
theorem named_map (facts : ModuleFacts) (site : Site) : (site.map facts).Named := by
  rw [SchemaMap.Named, entries_map]
  intro e he f hf
  obtain ⟨el, -, he⟩ := List.mem_filterMap.mp he
  cases hkey : el.key with
  | none =>
    rw [entryAt?_of_not_keyed hkey] at he
    cases he
  | some key =>
    obtain ⟨e', he', hfield, hname⟩ := entryAt?_of_keyed facts site hkey
    obtain rfl : e' = e := Option.some.inj (he'.symm.trans he)
    have hstring := string?_of_field? (hfield.symm.trans (by rw [hf]; rfl))
    rw [hkey] at hstring
    exact (hname _ hstring).symm

/-- The names of a known map are the keys of the literal. -/
theorem actualOrder_map (hknown : site.Known facts) : (site.map facts).actualOrder = site.keys := by
  rw [SchemaMap.actualOrder, entries_map, List.map_filterMap, keys]
  refine List.filterMap_congr fun el hel => ?_
  cases hkey : el.key with
  | none =>
    rw [entryAt?_of_not_keyed hkey]
    rfl
  | some key =>
    obtain ⟨e, he, -, hname⟩ := entryAt?_of_keyed facts site hkey
    obtain ⟨field, hfield⟩ := Option.isSome_iff_exists.mp (hknown el hel (by rw [hkey]; rfl))
    have hstring := string?_of_field? hfield
    rw [hkey] at hstring
    rw [he, Option.map_some, hname _ hstring]
    exact hstring.symm

end Site
end FieldOrder
