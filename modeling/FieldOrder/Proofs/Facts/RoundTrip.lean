/-
# Exports, written and read

An export of facts is read back from the text that it is written as, on one line
or over several, when its JSON is nested no deeper than a document may be.

Key theorems: `FactsExport.readsUpTo`, `FactsExport.round_trip`.
-/
import FieldOrder.Facts.Codec
import FieldOrder.Proofs.Syntax.RoundTrip

namespace FieldOrder

open Json

@[simp] theorem Callee.isPlain_toJson (c : Callee) : c.toJson.isPlain = true := by
  simp [Callee.toJson]

@[simp] theorem Callee.ofJson?_toJson (c : Callee) : Callee.ofJson? c.toJson = some c := by
  simp [Callee.ofJson?, Callee.toJson]

theorem CalleeFact.readsUpTo (n : Nat) : ReadsUpTo n CalleeFact.toJson CalleeFact.ofJson? := by
  rintro ⟨file, pos, callee⟩ -
  simp [CalleeFact.ofJson?, CalleeFact.toJson]

theorem TypeFact.readsUpTo (n : Nat) : ReadsUpTo n TypeFact.toJson (TypeFact.ofJson? n) := by
  rintro ⟨file, pos, type⟩ h
  cases n with
  | zero => simp [TypeFact.toJson] at h
  | succ n =>
    obtain ⟨-, htype⟩ : _ ∧ type.toJson.depth ≤ n := by simpa [TypeFact.toJson] using h
    obtain ⟨hplain, hread⟩ := TypeExpr.readsUpTo n type htype
    simp [TypeFact.ofJson?, TypeFact.toJson, hplain, hread]

theorem ImportedType.readsUpTo (n : Nat) :
    ReadsUpTo n ImportedType.toJson (ImportedType.ofJson? n) := by
  rintro ⟨module, decl⟩ h
  cases n with
  | zero => simp [ImportedType.toJson] at h
  | succ n =>
    have hdecl : decl.toJson.depth ≤ n := by simpa [ImportedType.toJson] using h
    obtain ⟨hplain, hread⟩ := TypeDecl.ofJson?_readsUpTo n decl hdecl
    simp [ImportedType.ofJson?, ImportedType.toJson, hplain, hread]

theorem FactsExport.readsUpTo (n : Nat) :
    ReadsUpTo n FactsExport.toJson (FactsExport.ofJson? n) := by
  rintro ⟨module, types, callees, importedTypes⟩ h
  cases n with
  | zero => simp [FactsExport.toJson] at h
  | succ n =>
    obtain ⟨hmodule, htypes, hcallees, himported⟩ : module.toJson.depth ≤ n ∧
        (arr (types.map TypeFact.toJson)).depth ≤ n ∧
        (arr (callees.map CalleeFact.toJson)).depth ≤ n ∧
        (arr (importedTypes.map ImportedType.toJson)).depth ≤ n := by
      simpa [FactsExport.toJson] using h
    obtain ⟨hmodule, hmoduleRead⟩ := Module.readsUpTo n module hmodule
    obtain ⟨htypes, htypesRead⟩ := (TypeFact.readsUpTo (n - 1)).list types htypes
    obtain ⟨hcallees, hcalleesRead⟩ := (CalleeFact.readsUpTo n).items callees hcallees
    obtain ⟨himported, himportedRead⟩ :=
      (ImportedType.readsUpTo (n - 1)).list importedTypes himported
    simp [FactsExport.ofJson?, FactsExport.toJson, hmodule, hmoduleRead, htypes, htypesRead,
      hcallees, hcalleesRead, himported, himportedRead]

theorem ModuleFacts.parse?_compact {e : FactsExport} (h : e.toJson.depth ≤ maxLevels) :
    ModuleFacts.parse? e.toJson.compact = some (.ofExport e) := by
  obtain ⟨hplain, hread⟩ := FactsExport.readsUpTo maxLevels e h
  simp [ModuleFacts.parse?, Json.parse?_compact hplain, hread]

/-- The text of an export is read as the export, path texts included, however it
is laid out. -/
theorem FactsExport.round_trip {e : FactsExport} (h : e.toJson.depth ≤ maxLevels) :
    (parse? e.toJson.compact).bind (FactsExport.ofJson? maxLevels) = some e ∧
      (parse? e.toJson.pretty).bind (FactsExport.ofJson? maxLevels) = some e := by
  obtain ⟨hplain, hread⟩ := FactsExport.readsUpTo maxLevels e h
  constructor
  · rw [parse?_compact hplain, Option.bind_some, hread]
  · rw [parse?_pretty hplain, Option.bind_some, hread]

/-- The export of a module with one resource, whose helper has a switch and whose
schema is a type of another module. -/
def zoneExport : FactsExport where
  module :=
    { path := ⟨"example.com/provider/internal/services/dns", by decide⟩
      dir := ⟨"internal/services/dns"⟩
      files :=
        [{ path := ⟨"internal/services/dns/zone_resource.go"⟩
           package := "dns"
           imports := [⟨none, "example.com/sdk/schema"⟩]
           decls :=
            [.func
              { name := "resourceZone"
                receiver := some ⟨some "r", .pointer (.named none "Zone")⟩
                body := some
                  [.switch none (some (.ident "kind" ⟨3, 9⟩))
                    [⟨[.lit .string "a \"quoted\" word" {}], [.ret [.other] ⟨4, 5⟩]⟩]]
                pos := ⟨2, 1⟩ }] }] }
  types := [⟨⟨"internal/services/dns/zone_resource.go"⟩, ⟨3, 9⟩, .slice .interface⟩]
  callees :=
    [⟨⟨"internal/services/dns/zone_resource.go"⟩, ⟨5, 2⟩, ⟨"example.com/sdk", "Helper", true⟩⟩]
  importedTypes :=
    [⟨"example.com/sdk/schema",
      ⟨"Schema", .struct [⟨"Required", .named none "bool", some "json:\"required\""⟩], ⟨7, 1⟩⟩⟩]

theorem round_trip_zoneExport : zoneExport.toJson.depth ≤ maxLevels ∧
    (parse? zoneExport.toJson.compact).bind (FactsExport.ofJson? maxLevels) = some zoneExport :=
  ⟨by decide, (FactsExport.round_trip (by decide)).1⟩

end FieldOrder
