/-
# What facts answer

The facts of an export can be taken all at once, or inserted one by one into a source tree
about which nothing is known; both give the same facts (`inserted_eq_ofExport`). A question is
answered by the last of the facts about what is asked for, and not at all if there is none
(`ModuleFacts.AnswersLast`). Files are compared by their components, so a fact is found under
every spelling of its file, and a later fact takes the place of one whose file is spelled
otherwise.

Key definitions: `TypeFact.IsAt`, `CalleeFact.IsAt`, `ImportedType.IsOf`,
`ModuleFacts.inserted`, `ModuleFacts.AnswersLast`.
Key theorems: `inserted_eq_ofExport`, `answersLast_ofExport`, `inserted_answers`.
-/
import FieldOrder.Facts
import FieldOrder.Proofs.Table.Last

namespace FieldOrder

/-! ### What facts are about -/

/-- The fact is about the expression at a place; files are the same by their components. -/
def TypeFact.IsAt (fact : TypeFact) (file : Path) (pos : Pos) : Prop :=
  fact.file.components = file.components ∧ fact.pos = pos

/-- The fact is about the call at a place. -/
def CalleeFact.IsAt (fact : CalleeFact) (file : Path) (pos : Pos) : Prop :=
  fact.file.components = file.components ∧ fact.pos = pos

/-- The module declares the type under the name. -/
def ImportedType.IsOf (fact : ImportedType) (module name : String) : Prop :=
  fact.module = module ∧ fact.decl.name = name

/-- Places are equal when the files have the same components and the positions are equal. -/
theorem place_beq_iff {p q : Path × Pos} :
    (p == q) = true ↔ p.1.components = q.1.components ∧ p.2 = q.2 := by
  show (p.1 == q.1 && p.2 == q.2) = true ↔ _
  rw [Bool.and_eq_true_iff, Path.beq_iff, beq_iff_eq]

instance : EquivBEq (Path × Pos) where
  rfl := place_beq_iff.mpr ⟨rfl, rfl⟩
  symm h := by
    rw [place_beq_iff] at *
    exact ⟨h.1.symm, h.2.symm⟩
  trans h k := by
    rw [place_beq_iff] at *
    exact ⟨h.1.trans k.1, h.2.trans k.2⟩

namespace ModuleFacts

/-! ### One by one -/

/-- The facts of an export inserted one by one, in the order of the export. -/
def inserted (e : FactsExport) : ModuleFacts :=
  e.importedTypes.foldl insertImportedType
    (e.callees.foldl insertCallee (e.types.foldl insertType (syntaxOnly e.module)))

/-- Steps that each set one value in a table set all of them. -/
theorem foldl_eq_insertAll {α β γ σ : Type} [BEq α] {step : σ → γ → σ} {pair : γ → α × β}
    (into : Table α β → σ)
    (hstep : ∀ t c, step (into t) c = into (t.insert (pair c).1 (pair c).2)) (t : Table α β)
    (cs : List γ) : cs.foldl step (into t) = into (t.insertAll (cs.map pair)) := by
  induction cs generalizing t with
  | nil => rfl
  | cons c rest ih => rw [List.foldl_cons, hstep, ih]; rfl

theorem foldl_insertType (facts : ModuleFacts) (types : List TypeFact) :
    types.foldl insertType facts = { facts with
      types := facts.types.insertAll (types.map fun fact => ((fact.file, fact.pos), fact.type)) } :=
  foldl_eq_insertAll ({ facts with types := · }) (fun _ _ => rfl) facts.types types

theorem foldl_insertCallee (facts : ModuleFacts) (callees : List CalleeFact) :
    callees.foldl insertCallee facts = { facts with
      callees := facts.callees.insertAll
        (callees.map fun fact => ((fact.file, fact.pos), fact.callee)) } :=
  foldl_eq_insertAll ({ facts with callees := · }) (fun _ _ => rfl) facts.callees callees

theorem foldl_insertImportedType (facts : ModuleFacts) (importedTypes : List ImportedType) :
    importedTypes.foldl insertImportedType facts = { facts with
      importedTypes := facts.importedTypes.insertAll
        (importedTypes.map fun fact => ((fact.module, fact.decl.name), fact.decl)) } :=
  foldl_eq_insertAll ({ facts with importedTypes := · }) (fun _ _ => rfl) facts.importedTypes
    importedTypes

/-- One by one or all at once, the facts are the same. -/
theorem inserted_eq_ofExport (e : FactsExport) : inserted e = ofExport e := by
  rw [inserted, foldl_insertType, foldl_insertCallee, foldl_insertImportedType]
  rfl

/-! ### Questions -/

/-- Every question is answered by the last fact of the export about what is asked for, and
finds nothing only if there is none. -/
structure AnswersLast (facts : ModuleFacts) (e : FactsExport) : Prop where
  typeOf? : ∀ file pos type, facts.typeOf? file pos = some type ↔
    ∃ fact, IsLast (TypeFact.IsAt · file pos) e.types fact ∧ fact.type = type
  typeOf?_none : ∀ file pos, facts.typeOf? file pos = none ↔ ∀ fact ∈ e.types, ¬ fact.IsAt file pos
  calleeOf? : ∀ file pos callee, facts.calleeOf? file pos = some callee ↔
    ∃ fact, IsLast (CalleeFact.IsAt · file pos) e.callees fact ∧ fact.callee = callee
  calleeOf?_none : ∀ file pos,
    facts.calleeOf? file pos = none ↔ ∀ fact ∈ e.callees, ¬ fact.IsAt file pos
  importedType? : ∀ module name decl, facts.importedType? module name = some decl ↔
    ∃ fact, IsLast (ImportedType.IsOf · module name) e.importedTypes fact ∧ fact.decl = decl
  importedType?_none : ∀ module name,
    facts.importedType? module name = none ↔ ∀ fact ∈ e.importedTypes, ¬ fact.IsOf module name

theorem answersLast_ofExport (e : FactsExport) : (ofExport e).AnswersLast e where
  typeOf? file pos type := by
    rw [ModuleFacts.typeOf?, ofExport, Table.get?_ofList_map_eq_some_iff]
    simp only [place_beq_iff, TypeFact.IsAt]
  typeOf?_none file pos := by
    rw [ModuleFacts.typeOf?, ofExport, Table.get?_ofList_eq_none_iff]
    simp only [List.forall_mem_map, place_beq_iff, TypeFact.IsAt]
  calleeOf? file pos callee := by
    rw [ModuleFacts.calleeOf?, ofExport, Table.get?_ofList_map_eq_some_iff]
    simp only [place_beq_iff, CalleeFact.IsAt]
  calleeOf?_none file pos := by
    rw [ModuleFacts.calleeOf?, ofExport, Table.get?_ofList_eq_none_iff]
    simp only [List.forall_mem_map, place_beq_iff, CalleeFact.IsAt]
  importedType? module name decl := by
    rw [ModuleFacts.importedType?, ofExport, Table.get?_ofList_map_eq_some_iff]
    simp only [beq_iff_eq, Prod.mk.injEq, ImportedType.IsOf]
  importedType?_none module name := by
    rw [ModuleFacts.importedType?, ofExport, Table.get?_ofList_eq_none_iff]
    simp only [List.forall_mem_map, beq_iff_eq, Prod.mk.injEq, ImportedType.IsOf]

/-- **All at once or one by one.** The facts of an export answer every question alike, whether
they are taken all at once or inserted one by one, and the answer is that of the last fact
about what is asked for. -/
theorem inserted_answers (e : FactsExport) :
    (∀ file pos, (ofExport e).typeOf? file pos = (inserted e).typeOf? file pos) ∧
    (∀ file pos, (ofExport e).calleeOf? file pos = (inserted e).calleeOf? file pos) ∧
    (∀ module name,
      (ofExport e).importedType? module name = (inserted e).importedType? module name) ∧
    (ofExport e).AnswersLast e ∧ (inserted e).AnswersLast e := by
  have hlast := answersLast_ofExport e
  rw [inserted_eq_ofExport]
  exact ⟨fun _ _ => rfl, fun _ _ => rfl, fun _ _ => rfl, hlast, hlast⟩

-- the later fact answers, however its file is spelled
example :
    let first : CalleeFact := ⟨⟨"dns/zone.go"⟩, {}, ⟨"example.com/dns", "Parse", false⟩⟩
    let later : CalleeFact := ⟨⟨"dns//./zone.go"⟩, {}, ⟨"example.com/dns", "ParseID", false⟩⟩
    let e : FactsExport := ⟨⟨{ text := "example.com/dns" }, ⟨"dns"⟩, []⟩, [], [first, later], []⟩
    (inserted e).calleeOf? ⟨"dns/zone.go"⟩ {} = some later.callee := by
  decide

end ModuleFacts
end FieldOrder
