/-
# Which literals are schema maps

The schema map literals of a file are exactly its composite literals of the right
type, wherever they stand: in the body of a function, in a function literal inside
it, in the value of a variable of the package. They come in the order of their
addresses, so a literal comes before those inside it (`mapLiterals_inPreorder`).

Each is told by itself (`SourceFile.MapLiteralAt`). It is nested when one of the
nodes that enclose it is an element with the key `Elem`; how far away this element
is, and what lies between, does not matter. Its entries are those of the elements
that have a key, one for each (`LiteralEntry.Tells`).

Key definitions: `IsSchemaMapLiteral`, `LiteralEntry.Tells`,
`SourceFile.MapLiteralAt`.
Key theorems: `isSchemaMapAt_iff`, `Element.entryOf?_eq_some_iff`,
`SourceFile.mapLiteralAt_iff`, `mapLiterals_inPreorder`.
-/
import Mathlib.Data.List.Forall2
import FieldOrder.Proofs.Syntax.Addresses
import FieldOrder.Schema.Literal

namespace FieldOrder

/-! ### Types of schema maps -/

namespace TypeExpr

/-- The type `map[string]*package.Schema`. -/
def schemaMapOf (package : String) : TypeExpr :=
  .map (.named none "string") (.pointer (.named (some package) "Schema"))

theorem isString_iff {type : TypeExpr} : type.isString = true ↔ type = .named none "string" := by
  unfold isString
  split
  · simp
  · next h => simpa using fun heq => h "string" heq

theorem isSchemaMap_iff {isSchemaPackage : String → Bool} {type : TypeExpr} :
    type.isSchemaMap isSchemaPackage = true ↔
      ∃ package, type = schemaMapOf package ∧ isSchemaPackage package = true := by
  unfold isSchemaMap
  split
  · next key package name =>
    rw [Bool.and_eq_true_iff, Bool.and_eq_true_iff, isString_iff, beq_iff_eq]
    constructor
    · rintro ⟨⟨rfl, rfl⟩, hpackage⟩
      exact ⟨package, rfl, hpackage⟩
    · rintro ⟨package', heq, hpackage⟩
      unfold schemaMapOf at heq
      cases heq
      exact ⟨⟨rfl, rfl⟩, hpackage⟩
  · next h =>
    have hnone : ∀ package, type ≠ schemaMapOf package := fun package heq => h _ _ _ heq
    constructor
    · intro hfalse
      cases hfalse
    · rintro ⟨package, heq, -⟩
      exact absurd heq (hnone package)

end TypeExpr

/-- A literal at a place of a file is a schema map: its type is known to be that of
maps to the `Schema` of a schema module, or no type is known there and the type as
written is that of maps to the `Schema` of some package. -/
def IsSchemaMapLiteral (facts : ModuleFacts) (schemaModules : List String) (file : Path)
    (written : Option TypeExpr) (pos : Pos) : Prop :=
  (∃ package ∈ schemaModules, facts.typeOf? file pos = some (.schemaMapOf package)) ∨
    (facts.typeOf? file pos = none ∧ ∃ package, written = some (.schemaMapOf package))

theorem isSchemaMapAt_iff {facts : ModuleFacts} {schemaModules : List String} {file : Path}
    {written : Option TypeExpr} {pos : Pos} :
    isSchemaMapAt facts schemaModules file written pos = true ↔
      IsSchemaMapLiteral facts schemaModules file written pos := by
  unfold isSchemaMapAt IsSchemaMapLiteral
  cases facts.typeOf? file pos with
  | some type =>
    simp only [TypeExpr.isSchemaMap_iff, List.contains_iff_mem, Option.some.injEq, reduceCtorEq,
      false_and, or_false]
    constructor
    · rintro ⟨package, rfl, hmem⟩
      exact ⟨package, hmem, rfl⟩
    · rintro ⟨package, hmem, rfl⟩
      exact ⟨package, rfl, hmem⟩
  | none =>
    simp only [Option.any_eq_true, TypeExpr.isSchemaMap_iff, reduceCtorEq, and_false, exists_false,
      false_or, true_and, and_true]
    constructor
    · rintro ⟨type, rfl, package, rfl⟩
      exact ⟨package, rfl⟩
    · rintro ⟨package, rfl⟩
      exact ⟨_, rfl, package, rfl⟩

/-! ### Entries -/

/-- What an entry tells of a keyed element: the value of the element, the place of
the key, and whether the key is a text. It is named by this text; by the identifier
or the selected member that stands there instead; or else by a word for keys that
are neither. -/
structure LiteralEntry.Tells (e : LiteralEntry) (key value : Expr) : Prop where
  value : e.value = value
  position : e.position = key.pos?.getD {}
  constant : e.constant = true ↔ ∃ text pos, key.unparen = .lit .string text pos
  text : ∀ text pos, key.unparen = .lit .string text pos → e.name = text
  otherwise : e.constant = false → e.name = key.calleeName?.getD "<dynamic>"

/-- Of a keyed element there is one thing to tell. -/
theorem LiteralEntry.Tells.unique {e e' : LiteralEntry} {key value : Expr}
    (h : e.Tells key value) (h' : e'.Tells key value) : e = e' := by
  have hconstant : e.constant = e'.constant :=
    Bool.eq_iff_iff.mpr (h.constant.trans h'.constant.symm)
  have hname : e.name = e'.name := by
    cases hc : e.constant with
    | true =>
      obtain ⟨text, pos, htext⟩ := h.constant.mp hc
      rw [h.text text pos htext, h'.text text pos htext]
    | false => rw [h.otherwise hc, h'.otherwise (hconstant ▸ hc)]
  obtain ⟨name, constant, value', position⟩ := e
  obtain ⟨name', constant', value'', position'⟩ := e'
  obtain rfl : name = name' := hname
  obtain rfl : constant = constant' := hconstant
  obtain rfl : value' = value := h.value
  obtain rfl : value'' = value' := h'.value
  obtain rfl : position = _ := h.position
  obtain rfl : position' = _ := h'.position
  rfl

/-- The elements that make an entry are those with a key. -/
theorem Element.isSome_entryOf? (el : Element) : el.entryOf?.isSome = el.key.isSome := by
  unfold entryOf?
  cases el.key with
  | none => rfl
  | some key =>
    simp only
    cases key.string? with
    | none => rfl
    | some text => rfl

/-- An element with a key makes the entry that tells of it. -/
theorem Element.entryOf?_eq_some_iff {el : Element} {e : LiteralEntry} :
    el.entryOf? = some e ↔ ∃ key, el.key = some key ∧ e.Tells key el.value := by
  have htells : ∀ {key e'}, el.key = some key → el.entryOf? = some e' → e'.Tells key el.value := by
    intro key e' hkey he
    unfold entryOf? at he
    rw [hkey] at he
    simp only at he
    split at he
    · next text htext =>
      obtain rfl := Option.some.inj he
      obtain ⟨pos, hlit⟩ := Expr.string?_eq_some_iff.mp htext
      refine ⟨rfl, rfl, iff_of_true rfl ⟨text, pos, hlit⟩, ?_, nofun⟩
      intro text' pos' hlit'
      cases hlit.symm.trans hlit'
      rfl
    · next htext =>
      obtain rfl := Option.some.inj he
      have hnone : ∀ text pos, key.unparen ≠ .lit .string text pos := by
        intro text pos hlit
        rw [Expr.string?_eq_some_iff.mpr ⟨pos, hlit⟩] at htext
        cases htext
      refine ⟨rfl, rfl, iff_of_false nofun ?_, ?_, fun _ => rfl⟩
      · rintro ⟨text, pos, hlit⟩
        exact hnone text pos hlit
      · exact fun text pos hlit => absurd hlit (hnone text pos)
  cases hkey : el.key with
  | none => simp [entryOf?, hkey]
  | some key =>
    have hsome : el.entryOf?.isSome = true := by rw [isSome_entryOf?, hkey, Option.isSome_some]
    obtain ⟨e', he'⟩ := Option.isSome_iff_exists.mp hsome
    constructor
    · intro he
      exact ⟨key, rfl, htells hkey he⟩
    · rintro ⟨key', hkey', htold⟩
      obtain rfl := Option.some.inj hkey'
      rw [he', (htells hkey he').unique htold]

/-- There is one entry for each element that has a key, in the same order. -/
theorem filterMap_entryOf?_eq_iff {els : List Element} {entries : List LiteralEntry} :
    els.filterMap Element.entryOf? = entries ↔
      List.Forall₂ (fun el e => ∃ key, el.key = some key ∧ e.Tells key el.value)
        (els.filter fun el => el.key.isSome) entries := by
  simp only [← Element.entryOf?_eq_some_iff, ← Element.isSome_entryOf?]
  induction els generalizing entries with
  | nil => simp [eq_comm]
  | cons el els ih =>
    cases he : el.entryOf? with
    | none => rw [List.filterMap_cons_none he, List.filter_cons_of_neg (by simp [he]), ih]
    | some e =>
      rw [List.filterMap_cons_some he, List.filter_cons_of_pos (by simp [he]),
        List.forall₂_cons_left_iff]
      constructor
      · rintro rfl
        exact ⟨e, _, he, ih.mp rfl, rfl⟩
      · rintro ⟨e', rest, he', hrest, rfl⟩
        rw [ih.mpr hrest, Option.some.inj (he.symm.trans he')]

/-! ### Literals -/

/-- The element has the identifier `name` for its key. -/
def Element.HasKey (el : Element) (name : String) : Prop :=
  ∃ key pos, el.key = some key ∧ key.unparen = .ident name pos

theorem Element.keyIdent?_eq_some_iff {el : Element} {name : String} :
    el.keyIdent? = some name ↔ el.HasKey name := by
  rw [keyIdent?, Option.bind_eq_some_iff, HasKey]
  simp only [Expr.ident?_eq_some_iff, exists_and_left]

namespace SourceFile

variable (facts : ModuleFacts) (schemaModules : List String) (f : SourceFile)

/-- At the address stands a composite literal that is a schema map; `l` tells its
place, whether an element with the key `Elem` encloses it, and its elements with a
key. -/
structure MapLiteralAt (a : List Nat) (l : MapLiteral) : Prop where
  literal : ∃ type elements, nodeAt? f.trees a = some (.expr (.composite type elements l.pos)) ∧
    IsSchemaMapLiteral facts schemaModules f.path type l.pos ∧
    List.Forall₂ (fun el e => ∃ key, el.key = some key ∧ e.Tells key el.value)
      (elements.filter fun el => el.key.isSome) l.entries
  nested : l.nested = true ↔ ∃ b i c el, a = b ++ i :: c ∧
    nodeAt? f.trees b = some (.element el) ∧ el.HasKey "Elem"

end SourceFile

/-- A visit is nested when an element with the key `Elem` stands at an address above. -/
theorem Visit.isNested_iff {ns : List Node} {a : List Nat} {v : Visit}
    (h : visitAt? [] ns a = some v) : v.isNested = true ↔
      ∃ b i c el, a = b ++ i :: c ∧ nodeAt? ns b = some (.element el) ∧ el.HasKey "Elem" := by
  unfold isNested
  simp only [List.any_eq_true, mem_trail_iff h, List.not_mem_nil, false_or, Option.any_eq_true,
    beq_iff_eq, Element.keyIdent?_eq_some_iff]
  constructor
  · rintro ⟨m, ⟨b, i, c, hab, hm⟩, el, hel, hkey⟩
    cases m with
    | element el' =>
      obtain rfl := Option.some.inj hel
      exact ⟨b, i, c, _, hab, hm, hkey⟩
    | stmt s => cases hel
    | expr e => cases hel
  · rintro ⟨b, i, c, el, hab, hm, hkey⟩
    exact ⟨.element el, ⟨b, i, c, hab, hm⟩, el, rfl, hkey⟩

theorem Visit.mapLiteral?_eq_some_iff {facts : ModuleFacts} {schemaModules : List String}
    {file : Path} {v : Visit} {l : MapLiteral} :
    v.mapLiteral? facts schemaModules file = some l ↔ ∃ type elements,
      v.node = .expr (.composite type elements l.pos) ∧
      isSchemaMapAt facts schemaModules file type l.pos = true ∧ l.nested = v.isNested ∧
      elements.filterMap Element.entryOf? = l.entries := by
  obtain ⟨pos, nested, entries⟩ := l
  unfold mapLiteral?
  constructor
  · intro h
    split at h
    · next type elements pos' hnode =>
      split at h
      · next hmap =>
        cases h
        exact ⟨type, elements, hnode, hmap, rfl, rfl⟩
      · cases h
    · cases h
  · rintro ⟨type, elements, hnode, hmap, rfl, rfl⟩
    simp [hnode, hmap]

/-- What a walk makes of the visit at an address is what stands there. -/
theorem SourceFile.mapLiteralAt_iff {facts : ModuleFacts} {schemaModules : List String}
    {f : SourceFile} {a : List Nat} {l : MapLiteral} :
    (∃ v, visitAt? [] f.trees a = some v ∧ v.mapLiteral? facts schemaModules f.path = some l) ↔
      f.MapLiteralAt facts schemaModules a l := by
  constructor
  · rintro ⟨v, hv, hl⟩
    obtain ⟨type, elements, hnode, hmap, hnested, hentries⟩ := Visit.mapLiteral?_eq_some_iff.mp hl
    have hat := (nodeAt?_eq_some_iff []).mpr ⟨v, hv, hnode⟩
    refine ⟨⟨type, elements, hat, isSchemaMapAt_iff.mp hmap, ?_⟩, ?_⟩
    · exact filterMap_entryOf?_eq_iff.mp hentries
    · rw [hnested]
      exact Visit.isNested_iff hv
  · rintro ⟨⟨type, elements, hat, hmap, hentries⟩, hnested⟩
    obtain ⟨v, hv, hnode⟩ := (nodeAt?_eq_some_iff []).mp hat
    refine ⟨v, hv, Visit.mapLiteral?_eq_some_iff.mpr ⟨type, elements, hnode, ?_, ?_, ?_⟩⟩
    · exact isSchemaMapAt_iff.mpr hmap
    · exact Bool.eq_iff_iff.mpr (hnested.trans (Visit.isNested_iff hv).symm)
    · exact filterMap_entryOf?_eq_iff.mpr hentries

/-- **Extraction is complete.** The schema map literals of a file are those that stand
at its addresses, one for each, in the order of the addresses. -/
theorem mapLiterals_inPreorder (facts : ModuleFacts) (schemaModules : List String)
    (f : SourceFile) :
    InPreorder (f.MapLiteralAt facts schemaModules) (f.mapLiterals facts schemaModules) := by
  have hvisits := inPreorder_visits [] f.trees
  rw [← f.visits_eq] at hvisits
  exact (hvisits.filterMap _).congr fun a l => SourceFile.mapLiteralAt_iff

end FieldOrder
