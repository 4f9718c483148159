/-
# Where a mapping comes from

The mapping of a file has one of two sources. If the type that the file's `ModelObject` names
is found, and is a struct with a tagged member, the mapping holds the tagged members of that
struct and nothing else: whatever the members of other structs are, wherever these are
declared, it stays the same. In every other case it holds the tagged members of the structs of
the file, and nothing of other files counts (`SourceFile.modelMapping_unmixed`). Of members
with the same name the last tagged one counts.

Declarations are told apart by their places, as two may have the same name: then the first in
the module is the one that is found (`Module.typeDecl?_eq_some_iff`), and a change of members
leaves it where it is (`SourceFile.ModelAt.edited`).

Key definitions: `TypePlace`, `Module.FirstNamed`, `SourceFile.ModelAt`,
`SourceFile.UsableModel`, `ModelMapping.IsOf`, `ModuleFacts.editMembers`.
Key theorems: `Module.typeDecl?_eq_some_iff`, `SourceFile.modelDecl?_eq_some_iff`,
`SourceFile.ModelAt.edited`, `ModelMapping.isOf_ofList`, `SourceFile.modelMapping_unmixed`.
-/
import Mathlib.Data.List.Basic
import FieldOrder.Proofs.Table.Last
import FieldOrder.Provenance.Model

namespace FieldOrder

/-! ### Members -/

/-- The schema field that the tag of a member names. -/
def StructField.schemaField? (m : StructField) : Option String := m.tag.bind schemaTag?

/-- The members of a type that is a struct. -/
def TypeExpr.members : TypeExpr → List StructField
  | .struct fields => fields
  | _ => []

theorem TypeExpr.taggedMembers_eq (type : TypeExpr) :
    type.taggedMembers = FieldOrder.taggedMembers type.members := by
  cases type with
  | _ => rfl

theorem taggedMembers_eq_filterMap (members : List StructField) : taggedMembers members =
    members.filterMap fun m => m.schemaField?.map (m.name, ·) := rfl

theorem taggedMembers_eq_nil_iff {members : List StructField} :
    taggedMembers members = [] ↔ ¬ ∃ m ∈ members, m.schemaField?.isSome = true := by
  simp [taggedMembers, StructField.schemaField?]

/-- The mapping holds the tagged members, of those with the same name the last, and nothing
else. -/
def ModelMapping.IsOf (mapping : ModelMapping) (members : List StructField) : Prop :=
  ∀ name field, mapping.get? name = some field ↔
    ∃ m, IsLast (fun m : StructField => m.name = name ∧ m.schemaField?.isSome = true) members m ∧
      m.schemaField? = some field

theorem ModelMapping.isOf_ofList (members : List StructField) :
    ModelMapping.IsOf (Table.ofList (taggedMembers members)) members := by
  intro name field
  rw [Table.get?_ofList_eq_some_iff, taggedMembers_eq_filterMap]
  simp only [isLast_filterMap, Option.map_eq_some_iff, beq_iff_eq]
  have hcounts : (fun m : StructField => ∃ pair : String × String,
      (∃ field, m.schemaField? = some field ∧ (m.name, field) = pair) ∧ pair.1 = name) =
      fun m => m.name = name ∧ m.schemaField?.isSome = true := by
    funext m
    refine propext ⟨?_, ?_⟩
    · rintro ⟨_, ⟨field, hfield, rfl⟩, hname⟩
      exact ⟨hname, Option.isSome_iff_exists.mpr ⟨field, hfield⟩⟩
    · rintro ⟨hname, hfield⟩
      obtain ⟨field, hfield⟩ := Option.isSome_iff_exists.mp hfield
      exact ⟨(m.name, field), ⟨field, hfield, rfl⟩, hname⟩
  rw [hcounts]
  constructor
  · rintro ⟨_, ⟨m, hlast, field, hfield, rfl⟩, rfl⟩
    exact ⟨m, hlast, hfield⟩
  · rintro ⟨m, hlast, hfield⟩
    exact ⟨(m.name, field), ⟨m, hlast, field, hfield, rfl⟩, rfl⟩

/-! ### Places of declarations -/

/-- Where a type is declared: in the module, by the number of the file and the number of the
declaration in it, or in another module, by import path and name. -/
inductive TypePlace where
  | own (file decl : Nat)
  | imported (module name : String)
  deriving DecidableEq

/-- The type that is declared, if it is one. -/
def Decl.typeDecl? : Decl → Option TypeDecl
  | .type decl => some decl
  | _ => none

/-- The type declared at a place in the module. -/
def Module.typeDeclAt? (m : Module) (i j : Nat) : Option TypeDecl :=
  m.files[i]?.bind fun f => f.decls[j]?.bind Decl.typeDecl?

/-- At the place stands the first declaration of a type of this name in the module. -/
structure Module.FirstNamed (m : Module) (name : String) (i j : Nat) (decl : TypeDecl) : Prop where
  stands : m.typeDeclAt? i j = some decl
  named : decl.name = name
  first : ∀ i' j' decl', m.typeDeclAt? i' j' = some decl' → decl'.name = name →
    i < i' ∨ i = i' ∧ j ≤ j'

/-- The first answer is that of the least number that has one. -/
theorem findSome?_eq_some_iff_getElem? {α β : Type} {g : α → Option β} {l : List α} {b : β} :
    l.findSome? g = some b ↔
      ∃ i : Nat, l[i]?.bind g = some b ∧ ∀ (j : Nat) b', l[j]?.bind g = some b' → i ≤ j := by
  induction l with
  | nil => simp
  | cons a l ih =>
    rw [List.findSome?_cons]
    cases ha : g a with
    | some b' =>
      constructor
      · rintro ⟨⟩
        exact ⟨0, ha, fun j _ _ => Nat.zero_le j⟩
      · rintro ⟨i, hi, hfirst⟩
        obtain rfl := Nat.le_zero.mp (hfirst 0 b' ha)
        exact ha.symm.trans hi
    | none =>
      rw [ih]
      constructor
      · rintro ⟨i, hi, hfirst⟩
        refine ⟨i + 1, hi, fun j b' hj => ?_⟩
        cases j with
        | zero => rw [List.getElem?_cons_zero, Option.bind_some, ha] at hj; cases hj
        | succ j => exact Nat.succ_le_succ (hfirst j b' hj)
      · rintro ⟨i, hi, hfirst⟩
        cases i with
        | zero => rw [List.getElem?_cons_zero, Option.bind_some, ha] at hi; cases hi
        | succ i => exact ⟨i, hi, fun j b' hj => Nat.le_of_succ_le_succ (hfirst (j + 1) b' hj)⟩

/-- The declared type, if it has the name. -/
def Decl.typeNamed? (name : String) (d : Decl) : Option TypeDecl :=
  d.typeDecl?.filter (·.name == name)

theorem SourceFile.typeDecl?_eq (f : SourceFile) (name : String) :
    f.typeDecl? name = f.decls.findSome? (Decl.typeNamed? name) := by
  have htypeDecls : f.typeDecls = f.decls.filterMap Decl.typeDecl? :=
    List.filterMap_congr fun d _ => by cases d <;> rfl
  rw [typeDecl?, htypeDecls]
  induction f.decls with
  | nil => rfl
  | cons d decls ih =>
    rw [List.findSome?_cons, ← ih, Decl.typeNamed?]
    cases hd : d.typeDecl? with
    | none => rw [List.filterMap_cons_none hd]; rfl
    | some decl =>
      rw [List.filterMap_cons_some hd, List.find?_cons, Option.filter]
      cases decl.name == name with
      | true => rfl
      | false => rfl

namespace Module

variable {m : Module} {name : String} {decl : TypeDecl}

theorem typeDeclAt?_named_iff {i j : Nat} : m.typeDeclAt? i j = some decl ∧ decl.name = name ↔
    ∃ f, m.files[i]? = some f ∧ f.decls[j]?.bind (Decl.typeNamed? name) = some decl := by
  simp only [typeDeclAt?, Decl.typeNamed?, Option.bind_eq_some_iff, Option.filter_eq_some_iff,
    beq_iff_eq]
  constructor
  · rintro ⟨⟨f, hf, d, hd, hdecl⟩, hname⟩
    exact ⟨f, hf, d, hd, hdecl, hname⟩
  · rintro ⟨f, hf, d, hd, hdecl, hname⟩
    exact ⟨⟨f, hf, d, hd, hdecl⟩, hname⟩

/-- The declaration that a module has of a name is the first one. -/
theorem typeDecl?_eq_some_iff :
    m.typeDecl? name = some decl ↔ ∃ i j, m.FirstNamed name i j decl := by
  have hfile : ∀ (i : Nat) d, m.files[i]?.bind (·.typeDecl? name) = some d ↔
      ∃ f, m.files[i]? = some f ∧ ∃ j : Nat, f.decls[j]?.bind (Decl.typeNamed? name) = some d ∧
        ∀ (j' : Nat) d', f.decls[j']?.bind (Decl.typeNamed? name) = some d' → j ≤ j' := by
    intro i d
    rw [Option.bind_eq_some_iff]
    simp only [SourceFile.typeDecl?_eq, findSome?_eq_some_iff_getElem?]
  rw [typeDecl?, findSome?_eq_some_iff_getElem?]
  constructor
  · rintro ⟨i, hi, hfirst⟩
    obtain ⟨f, hf, j, hj, hleast⟩ := (hfile i decl).mp hi
    obtain ⟨hstands, hnamed⟩ := typeDeclAt?_named_iff.mpr ⟨f, hf, hj⟩
    refine ⟨i, j, hstands, hnamed, fun i' j' decl' hstands' hnamed' => ?_⟩
    obtain ⟨f', hf', hj'⟩ := typeDeclAt?_named_iff.mp ⟨hstands', hnamed'⟩
    have hsome : (f'.typeDecl? name).isSome = true := by
      obtain ⟨d, hd, hd'⟩ := Option.bind_eq_some_iff.mp hj'
      rw [f'.typeDecl?_eq, List.findSome?_isSome_iff]
      exact ⟨d, List.mem_of_getElem? hd, hd' ▸ rfl⟩
    obtain ⟨d, hd⟩ := Option.isSome_iff_exists.mp hsome
    rcases Nat.lt_or_eq_of_le (hfirst i' d (by rw [hf']; exact hd)) with hlt | rfl
    · exact .inl hlt
    · obtain rfl := Option.some.inj (hf.symm.trans hf')
      exact .inr ⟨rfl, hleast j' decl' hj'⟩
  · rintro ⟨i, j, hstands, hnamed, hfirst⟩
    obtain ⟨f, hf, hj⟩ := typeDeclAt?_named_iff.mp ⟨hstands, hnamed⟩
    refine ⟨i, (hfile i decl).mpr ⟨f, hf, j, hj, fun j' d' hj' => ?_⟩, fun i' d' hi' => ?_⟩
    · obtain ⟨hstands', hnamed'⟩ := typeDeclAt?_named_iff.mpr ⟨f, hf, hj'⟩
      rcases hfirst i j' d' hstands' hnamed' with hlt | ⟨-, hle⟩
      · exact absurd hlt (Nat.lt_irrefl i)
      · exact hle
    · obtain ⟨f', hf', j', hj', -⟩ := (hfile i' d').mp hi'
      obtain ⟨hstands', hnamed'⟩ := typeDeclAt?_named_iff.mpr ⟨f', hf', hj'⟩
      rcases hfirst i' j' d' hstands' hnamed' with hlt | ⟨rfl, -⟩
      · exact Nat.le_of_lt hlt
      · exact Nat.le_refl i

end Module

/-! ### The model of a file -/

namespace SourceFile

/-- At the place stands the type that the file's `ModelObject` names: the first of its name in
the module, or with a package the one of the module imported under that name. -/
inductive ModelAt (facts : ModuleFacts) (f : SourceFile) : TypePlace → TypeDecl → Prop where
  | own {name : String} {i j : Nat} {decl : TypeDecl} (names : f.modelType? = some (none, name))
      (first : facts.module.FirstNamed name i j decl) : ModelAt facts f (.own i j) decl
  | imported {package name path : String} {decl : TypeDecl}
      (names : f.modelType? = some (some package, name))
      (imports : f.importPath? package = some path)
      (declares : facts.importedType? path name = some decl) :
      ModelAt facts f (.imported path name) decl

/-- The file's model is found at the place, and is a struct with a tagged member. -/
structure UsableModel (facts : ModuleFacts) (f : SourceFile) (p : TypePlace)
    (members : List StructField) : Prop where
  found : ∃ decl, f.ModelAt facts p decl ∧ decl.type = .struct members
  tagged : ∃ m ∈ members, m.schemaField?.isSome = true

variable {facts : ModuleFacts} {f : SourceFile}

theorem modelDecl?_eq_some_iff {decl : TypeDecl} :
    f.modelDecl? facts = some decl ↔ ∃ p, f.ModelAt facts p decl := by
  unfold modelDecl?
  constructor
  · intro h
    split at h
    · cases h
    · next name hnames =>
      obtain ⟨i, j, hfirst⟩ := Module.typeDecl?_eq_some_iff.mp h
      exact ⟨.own i j, .own hnames hfirst⟩
    · next package name hnames =>
      obtain ⟨path, himports, hdeclares⟩ := Option.bind_eq_some_iff.mp h
      exact ⟨.imported path name, .imported hnames himports hdeclares⟩
  · rintro ⟨p, hp⟩
    cases hp with
    | own hnames hfirst =>
      rw [hnames]
      exact Module.typeDecl?_eq_some_iff.mpr ⟨_, _, hfirst⟩
    | imported hnames himports hdeclares =>
      rw [hnames]
      exact Option.bind_eq_some_iff.mpr ⟨_, himports, hdeclares⟩

theorem UsableModel.modelMembers {p : TypePlace} {members : List StructField}
    (h : f.UsableModel facts p members) : f.modelMembers facts = taggedMembers members := by
  obtain ⟨decl, hdecl, htype⟩ := h.found
  rw [SourceFile.modelMembers, modelDecl?_eq_some_iff.mpr ⟨p, hdecl⟩]
  show decl.type.taggedMembers = _
  rw [htype]
  rfl

theorem exists_usableModel_iff :
    (∃ p members, f.UsableModel facts p members) ↔ f.modelMembers facts ≠ [] := by
  constructor
  · rintro ⟨p, members, h⟩
    rw [h.modelMembers, Ne, taggedMembers_eq_nil_iff, not_not]
    exact h.tagged
  · intro hne
    cases hdecl : f.modelDecl? facts with
    | none => exact absurd (by rw [modelMembers, hdecl]) hne
    | some decl =>
      obtain ⟨p, hp⟩ := modelDecl?_eq_some_iff.mp hdecl
      rw [modelMembers, hdecl] at hne
      dsimp only at hne
      obtain ⟨name, type, pos⟩ := decl
      cases type with
      | struct members =>
        rw [TypeExpr.taggedMembers, Ne, taggedMembers_eq_nil_iff, not_not] at hne
        exact ⟨p, members, ⟨_, hp, rfl⟩, hne⟩
      | _ => exact absurd rfl hne

/-- The mapping of a file with a usable model is that of the model. -/
theorem UsableModel.modelMapping {p : TypePlace} {members : List StructField}
    (h : f.UsableModel facts p members) :
    f.modelMapping facts = Table.ofList (taggedMembers members) := by
  have hne : (taggedMembers members).isEmpty = false := by
    rw [← h.modelMembers, List.isEmpty_eq_false_iff]
    exact exists_usableModel_iff.mp ⟨p, members, h⟩
  rw [SourceFile.modelMapping, h.modelMembers, hne]
  rfl

/-- The mapping of any other file is that of its own structs. -/
theorem modelMapping_of_not_usable (h : ¬ ∃ p members, f.UsableModel facts p members) :
    f.modelMapping facts =
      Table.ofList (taggedMembers (f.typeDecls.flatMap fun d => d.type.members)) := by
  rw [exists_usableModel_iff, not_not] at h
  have hown : f.ownMembers = taggedMembers (f.typeDecls.flatMap fun d => d.type.members) := by
    rw [ownMembers, taggedMembers_eq_filterMap, List.filterMap_flatMap]
    exact List.flatMap_congr fun d _ => d.type.taggedMembers_eq
  rw [modelMapping, h, ← hown]
  rfl

end SourceFile

/-! ### Other members -/

/-- The type with other members, if it is a struct. -/
def TypeExpr.editMembers (σ : List StructField → List StructField) : TypeExpr → TypeExpr
  | .struct fields => .struct (σ fields)
  | type => type

/-- The declaration with other members, if it is one of a struct. -/
def TypeDecl.editMembers (σ : List StructField → List StructField) (d : TypeDecl) : TypeDecl :=
  { d with type := d.type.editMembers σ }

def Decl.editMembers (σ : List StructField → List StructField) : Decl → Decl
  | .type decl => .type (decl.editMembers σ)
  | d => d

/-- The file with other members in its structs, by the number of the declaration. -/
def SourceFile.editMembers (σ : Nat → List StructField → List StructField) (f : SourceFile) :
    SourceFile :=
  { f with decls := f.decls.mapIdx fun j d => d.editMembers (σ j) }

/-- The facts with other members in structs, of the module and of other modules, by the place
of the declaration. -/
def ModuleFacts.editMembers (σ : TypePlace → List StructField → List StructField)
    (facts : ModuleFacts) : ModuleFacts :=
  { facts with
    module := { facts.module with
      files := facts.module.files.mapIdx fun i f => f.editMembers fun j => σ (.own i j) }
    importedTypes := facts.importedTypes.mapValues fun key decl =>
      decl.editMembers (σ (.imported key.1 key.2)) }

theorem TypeDecl.editMembers_eq_self {σ : List StructField → List StructField} {d : TypeDecl}
    {members : List StructField} (htype : d.type = .struct members)
    (hσ : σ members = members) : d.editMembers σ = d := by
  obtain ⟨name, type, pos⟩ := d
  obtain rfl : type = .struct members := htype
  rw [editMembers, TypeExpr.editMembers, hσ]

theorem Decl.typeDecl?_editMembers (σ : List StructField → List StructField) (d : Decl) :
    (d.editMembers σ).typeDecl? = d.typeDecl?.map (TypeDecl.editMembers σ) := by
  cases d with
  | _ => rfl

/-- Functions have no members. -/
theorem SourceFile.funcs_editMembers (σ : Nat → List StructField → List StructField)
    (f : SourceFile) : (f.editMembers σ).funcs = f.funcs := by
  rw [funcs, editMembers, funcs]
  dsimp only
  induction f.decls generalizing σ with
  | nil => rfl
  | cons d decls ih =>
    rw [List.mapIdx_cons, List.filterMap_cons, List.filterMap_cons, ih fun j => σ (j + 1)]
    cases d with
    | _ => rfl

theorem SourceFile.modelType?_editMembers (σ : Nat → List StructField → List StructField)
    (f : SourceFile) : (f.editMembers σ).modelType? = f.modelType? := by
  rw [modelType?, modelObject?, funcs_editMembers, modelType?, modelObject?]

section

variable (σ : TypePlace → List StructField → List StructField) {facts : ModuleFacts}

theorem ModuleFacts.typeDeclAt?_editMembers (i j : Nat) :
    (facts.editMembers σ).module.typeDeclAt? i j =
      (facts.module.typeDeclAt? i j).map (TypeDecl.editMembers (σ (.own i j))) := by
  rw [Module.typeDeclAt?, Module.typeDeclAt?, editMembers]
  dsimp only
  rw [List.getElem?_mapIdx]
  cases facts.module.files[i]? with
  | none => rfl
  | some f =>
    show ((f.editMembers fun j => σ (.own i j)).decls[j]?).bind Decl.typeDecl? = _
    rw [SourceFile.editMembers, List.getElem?_mapIdx]
    cases hd : f.decls[j]? with
    | none => simp [hd]
    | some d => simp [hd, Decl.typeDecl?_editMembers]

/-- The first declaration of a name stays the first. -/
theorem Module.FirstNamed.edited {name : String} {i j : Nat} {decl : TypeDecl}
    (h : facts.module.FirstNamed name i j decl) :
    (facts.editMembers σ).module.FirstNamed name i j (decl.editMembers (σ (.own i j))) where
  stands := by rw [ModuleFacts.typeDeclAt?_editMembers, h.stands, Option.map_some]
  named := h.named
  first i' j' decl' hstands hnamed := by
    rw [ModuleFacts.typeDeclAt?_editMembers, Option.map_eq_some_iff] at hstands
    obtain ⟨d, hd, rfl⟩ := hstands
    exact h.first i' j' d hd hnamed

theorem ModuleFacts.importedType?_editMembers (module name : String) :
    (facts.editMembers σ).importedType? module name =
      (facts.importedType? module name).map (TypeDecl.editMembers (σ (.imported module name))) :=
  facts.importedTypes.get?_mapValues _ (module, name)

/-- The model of a file stays at its place. -/
theorem SourceFile.ModelAt.edited {f : SourceFile} {p : TypePlace} {decl : TypeDecl}
    (h : f.ModelAt facts p decl) (ρ : Nat → List StructField → List StructField) :
    (f.editMembers ρ).ModelAt (facts.editMembers σ) p (decl.editMembers (σ p)) := by
  cases h with
  | own hnames hfirst =>
    exact .own ((f.modelType?_editMembers ρ).trans hnames) (hfirst.edited σ)
  | imported hnames himports hdeclares =>
    refine .imported ((f.modelType?_editMembers ρ).trans hnames) himports ?_
    rw [ModuleFacts.importedType?_editMembers, hdeclares, Option.map_some]

/-- A usable model is left as it is by other members elsewhere. -/
theorem SourceFile.UsableModel.edited {f : SourceFile} {p : TypePlace}
    {members : List StructField} (h : f.UsableModel facts p members)
    (hσ : σ p members = members) (ρ : Nat → List StructField → List StructField) :
    (f.editMembers ρ).UsableModel (facts.editMembers σ) p members := by
  obtain ⟨decl, hdecl, htype⟩ := h.found
  have hedited := hdecl.edited σ ρ
  rw [TypeDecl.editMembers_eq_self htype hσ] at hedited
  exact ⟨⟨decl, hedited, htype⟩, h.tagged⟩

end

/-- **A mapping has one source.** If the model that a file names is found, and is a struct with
a tagged member, the mapping of the file holds the tagged members of that struct, and other
members in any other struct, of the module or of other modules, change nothing. Otherwise it
holds the tagged members of the structs of the file, and does not change as long as no usable
model is found, whatever else the facts are. -/
theorem SourceFile.modelMapping_unmixed (facts : ModuleFacts) (f : SourceFile) :
    (∀ p members, f.UsableModel facts p members →
      (f.modelMapping facts).IsOf members ∧
      ∀ σ : TypePlace → List StructField → List StructField, σ p members = members →
        ∀ ρ, (f.editMembers ρ).modelMapping (facts.editMembers σ) = f.modelMapping facts) ∧
    ((¬ ∃ p members, f.UsableModel facts p members) →
      (f.modelMapping facts).IsOf (f.typeDecls.flatMap fun d => d.type.members) ∧
      ∀ facts', (¬ ∃ p members, f.UsableModel facts' p members) →
        f.modelMapping facts' = f.modelMapping facts) := by
  constructor
  · intro p members h
    refine ⟨h.modelMapping ▸ ModelMapping.isOf_ofList members, fun σ hσ ρ => ?_⟩
    rw [(h.edited σ hσ ρ).modelMapping, h.modelMapping]
  · intro h
    refine ⟨modelMapping_of_not_usable h ▸ ModelMapping.isOf_ofList _, fun facts' h' => ?_⟩
    rw [modelMapping_of_not_usable h, modelMapping_of_not_usable h']

/-- A member that holds a schema field. -/
def StructField.tagged (name field : String) : StructField :=
  ⟨name, .named none "string", some ("tfschema:\"" ++ field ++ "\"")⟩

/-- A file with a struct of its own, the model of which another file has to declare. -/
def gatewayFile : SourceFile where
  path := ⟨"gateway/gateway_resource.go"⟩
  package := "gateway"
  imports := []
  decls :=
    [.type ⟨"Settings", .struct [.tagged "Name" "settings_name"], {}⟩,
      .func ⟨"ModelObject", some ⟨none, .named none "GatewayResource"⟩,
        some [.ret [.unary .addr (.composite (some (.named none "GatewayModel")) [] {})] {}], {}⟩]

def gatewayModels : SourceFile where
  path := ⟨"gateway/models.go"⟩
  package := "gateway"
  imports := []
  decls := [.type ⟨"GatewayModel", .struct [.tagged "Name" "name"], {}⟩]

/-- What is known about a module of the given files. -/
def gatewayFacts (files : List SourceFile) : ModuleFacts :=
  .syntaxOnly ⟨{ text := "example.com/gateway" }, ⟨"gateway"⟩, files⟩

/-- With the file of the models the mapping is that of the model, and stays when all other
structs lose their members; without it the mapping is that of the file, whatever else there is. -/
theorem modelMapping_unmixed_gateway :
    let facts := gatewayFacts [gatewayFile, gatewayModels]
    let others : TypePlace → List StructField → List StructField := fun p members =>
      if p = .own 1 0 then members else []
    gatewayFile.UsableModel facts (.own 1 0) [.tagged "Name" "name"] ∧
      (gatewayFile.editMembers fun _ _ => []).modelMapping (facts.editMembers others) =
        gatewayFile.modelMapping facts ∧
      (gatewayFile.modelMapping facts).get? "Name" = some "name" ∧
      (¬ ∃ p members, gatewayFile.UsableModel (gatewayFacts [gatewayFile]) p members) ∧
      gatewayFile.modelMapping (gatewayFacts []) =
        gatewayFile.modelMapping (gatewayFacts [gatewayFile]) ∧
      (gatewayFile.modelMapping (gatewayFacts [gatewayFile])).get? "Name" =
        some "settings_name" := by
  intro facts others
  have hfirst : facts.module.FirstNamed "GatewayModel" 1 0
      ⟨"GatewayModel", .struct [.tagged "Name" "name"], {}⟩ := by
    refine ⟨rfl, rfl, fun i j decl hstands hnamed => ?_⟩
    match i, j with
    | 0, 0 =>
      obtain rfl := Option.some.inj hstands
      exact absurd hnamed (by decide)
    | 0, 1 => cases hstands
    | 0, j + 2 => cases hstands
    | 1, j => exact .inr ⟨rfl, Nat.zero_le j⟩
    | i + 2, j => cases hstands
  have husable : gatewayFile.UsableModel facts (.own 1 0) [.tagged "Name" "name"] :=
    ⟨⟨_, .own rfl hfirst, rfl⟩, _, List.mem_singleton_self _, by decide +kernel⟩
  have hnone (files : List SourceFile)
      (hfiles : gatewayFile.modelMembers (gatewayFacts files) = []) :
      ¬ ∃ p members, gatewayFile.UsableModel (gatewayFacts files) p members := by
    rw [SourceFile.exists_usableModel_iff, not_not]
    exact hfiles
  have hown := hnone [gatewayFile] (by decide +kernel)
  refine ⟨husable, ?_, by decide +kernel, hown, ?_, by decide +kernel⟩
  · exact ((SourceFile.modelMapping_unmixed facts gatewayFile).1 _ _ husable).2 others rfl _
  · exact ((SourceFile.modelMapping_unmixed _ gatewayFile).2 hown).2 _
      (hnone [] (by decide +kernel))

end FieldOrder
