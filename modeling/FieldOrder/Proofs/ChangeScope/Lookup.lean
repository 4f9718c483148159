/-
# Which change a path is under

A file is looked up under the key with its own components, or else under one whose
components its own end with. If there is one such key at most, the answers of the scope are
those of its change (`ChangeList.scope_of_unambiguous`). Only components count, so the
answers are the same for every spelling of a path, and an absolute key is that of one file.

Key definitions: `ChangeList.Governs`, `ChangeList.Unambiguous`, `ChangeScope.SameAnswers`.
Key theorems: `ChangeList.lookup?_eq_some_iff`, `ChangeList.lookup?_congr`,
`ChangeList.scope_of_unambiguous`.
-/
import FieldOrder.ChangeScope
import FieldOrder.Proofs.Path.Components
import FieldOrder.Proofs.Table.Keys

namespace FieldOrder

/-! ### Ends of paths -/

namespace Path

variable {p q : Path}

theorem endsWith_iff : p.endsWith q = true ↔ q.components <:+ p.components :=
  List.isSuffixOf_iff_suffix

/-- A path ends with no absolute path but itself. -/
theorem components_eq_of_isAbsolute (habsolute : q.isAbsolute = true)
    (h : q.components <:+ p.components) : q.components = p.components := by
  obtain ⟨text, htext⟩ := isAbsolute_iff.mp habsolute
  have hq : q.components = .root :: named q.text.toList := by
    rw [components_eq, htext]
    rfl
  obtain ⟨front, hfront⟩ := h
  cases front with
  | nil => exact hfront
  | cons c front =>
    have hmem : .root ∈ p.components.tail := by
      rw [← hfront, hq]
      exact List.mem_append_right front List.mem_cons_self
    exact absurd hmem (root_not_mem_tail_components p)

end Path

/-- Two paths about which a scope says the same. -/
structure ChangeScope.SameAnswers (scope : ChangeScope) (p q : Path) : Prop where
  isFileChanged : scope.isFileChanged p = scope.isFileChanged q
  isNewFile : scope.isNewFile p = scope.isNewFile q
  shouldReport : scope.shouldReport p = scope.shouldReport q

namespace ChangeList

variable {l : ChangeList} {path path' : Path}

/-! ### The change of a file -/

/-- The entry of a key is the one that a path is under: the key is the path's own, or the
path has none and ends with the key. -/
def Governs (l : ChangeList) (path key : Path) (change : FileChange) : Prop :=
  (key, change) ∈ l.files.entries ∧
    (key.components = path.components ∨
      (∀ e ∈ l.files.entries, e.1.components ≠ path.components) ∧
        key.components <:+ path.components)

/-- A path has a key of its own or ends with one key at most. -/
def Unambiguous (l : ChangeList) (path : Path) : Prop :=
  (∃ e ∈ l.files.entries, e.1.components = path.components) ∨
    ∀ e ∈ l.files.entries, ∀ f ∈ l.files.entries,
      e.1.components <:+ path.components → f.1.components <:+ path.components → e = f

/-- Paths with the same components are under the same change. -/
theorem lookup?_congr (l : ChangeList) (h : path'.components = path.components) :
    l.lookup? path' = l.lookup? path := by
  have hends : path'.endsWith = path.endsWith := by
    funext key
    rw [Path.endsWith, Path.endsWith, h]
  rw [lookup?, lookup?, Table.get?_congr l.files ((Path.beq_iff path' path).mpr h), hends]

/-- A path with a key of its own is under the change of that key. -/
theorem lookup?_eq_some_iff_of_own
    (hown : ∃ e ∈ l.files.entries, e.1.components = path.components) {change : FileChange} :
    l.lookup? path = some change ↔
      ∃ key, (key, change) ∈ l.files.entries ∧ key.components = path.components := by
  have hlookup : l.lookup? path = l.files.get? path := by
    unfold lookup?
    cases h : l.files.get? path with
    | some own => rfl
    | none =>
      obtain ⟨e, he, heq⟩ := hown
      exact absurd ((Path.beq_iff e.1 path).mpr heq) (Table.get?_eq_none_iff.mp h e he)
  simp only [hlookup, Table.get?_eq_some_iff, Path.beq_iff]

/-- Any other path is under the change of the one key that it ends with. -/
theorem lookup?_eq_some_iff_of_end
    (hother : ∀ e ∈ l.files.entries, e.1.components ≠ path.components)
    (hone : ∀ e ∈ l.files.entries, ∀ f ∈ l.files.entries,
      e.1.components <:+ path.components → f.1.components <:+ path.components → e = f)
    {change : FileChange} : l.lookup? path = some change ↔
      ∃ key, (key, change) ∈ l.files.entries ∧ key.components <:+ path.components := by
  have hown : l.files.get? path = none :=
    Table.get?_eq_none_iff.mpr fun e he hbeq => hother e he ((Path.beq_iff e.1 path).mp hbeq)
  simp only [← Path.endsWith_iff] at hone ⊢
  simp only [lookup?, hown, Option.map_eq_some_iff]
  constructor
  · rintro ⟨⟨key, change⟩, hfind, rfl⟩
    exact ⟨key, (find?_eq_some_iff_of_unique hone _).mp hfind⟩
  · rintro ⟨key, hkey⟩
    exact ⟨(key, change), (find?_eq_some_iff_of_unique hone _).mpr hkey, rfl⟩

/-- The change looked up is that of the entry which the path is under. -/
theorem lookup?_eq_some_iff (h : l.Unambiguous path) {change : FileChange} :
    l.lookup? path = some change ↔ ∃ key, l.Governs path key change := by
  by_cases hown : ∃ e ∈ l.files.entries, e.1.components = path.components
  · rw [lookup?_eq_some_iff_of_own hown]
    obtain ⟨e, he, heq⟩ := hown
    refine exists_congr fun key => and_congr_right fun _ => ⟨.inl, fun hkey => ?_⟩
    exact hkey.resolve_right fun hend => hend.1 e he heq
  · have hother : ∀ e ∈ l.files.entries, e.1.components ≠ path.components := fun e he heq =>
      hown ⟨e, he, heq⟩
    rw [lookup?_eq_some_iff_of_end hother (h.resolve_left hown)]
    refine exists_congr fun key => and_congr_right fun hmem => ⟨fun hend => .inr ⟨hother, hend⟩, ?_⟩
    exact fun hkey => (hkey.resolve_left (hother (key, change) hmem)).2

/-! ### The answers -/

theorem isFileChanged_scope_iff :
    l.scope.isFileChanged path = true ↔ ∃ change, l.lookup? path = some change :=
  Option.isSome_iff_exists

theorem isNewFile_scope_iff : l.scope.isNewFile path = true ↔
    ∃ change, l.lookup? path = some change ∧ change.isNew = true := by
  cases h : l.lookup? path with
  | none => simp [scope, h]
  | some change => simp [scope, h]

theorem shouldReport_scope_iff {line : UInt32} : l.scope.shouldReport path line = true ↔
    ∃ change, l.lookup? path = some change ∧
      (change.isNew = true ∨ ∃ r ∈ change.lines, r.first ≤ line ∧ line ≤ r.last) := by
  cases h : l.lookup? path with
  | none => simp [scope, h]
  | some change => simp [scope, h, LineRange.contains]

theorem sameAnswers_scope (l : ChangeList) (h : path'.components = path.components) :
    l.scope.SameAnswers path' path where
  isFileChanged := congrArg Option.isSome (l.lookup?_congr h)
  isNewFile := by simp only [scope, l.lookup?_congr h]
  shouldReport := by simp only [scope, l.lookup?_congr h]

/-- The answers about a file are those of the entry that its path is under, for every spelling
of the path, and an absolute key is that of one file. -/
theorem scope_of_unambiguous (h : l.Unambiguous path) :
    (∀ change, l.lookup? path = some change ↔ ∃ key, l.Governs path key change) ∧
    (l.scope.isFileChanged path = true ↔ ∃ change key, l.Governs path key change) ∧
    (l.scope.isNewFile path = true ↔
      ∃ change, (∃ key, l.Governs path key change) ∧ change.isNew = true) ∧
    (∀ line, l.scope.shouldReport path line = true ↔
      ∃ change, (∃ key, l.Governs path key change) ∧
        (change.isNew = true ∨ ∃ r ∈ change.lines, r.first ≤ line ∧ line ≤ r.last)) ∧
    (∀ path', path'.components = path.components ∨ path.Respelled path' →
      l.scope.SameAnswers path' path) ∧
    ∀ key change, l.Governs path key change → key.isAbsolute = true →
      key.components = path.components := by
  refine ⟨fun _ => lookup?_eq_some_iff h, ?_, ?_, fun line => ?_, ?_, ?_⟩
  · simp only [isFileChanged_scope_iff, lookup?_eq_some_iff h]
  · simp only [isNewFile_scope_iff, lookup?_eq_some_iff h]
  · simp only [shouldReport_scope_iff, lookup?_eq_some_iff h]
  · rintro path' (heq | hspelled)
    · exact l.sameAnswers_scope heq
    · exact l.sameAnswers_scope hspelled.components_eq
  · rintro key change ⟨-, heq | ⟨-, hends⟩⟩ habsolute
    · exact heq
    · exact Path.components_eq_of_isAbsolute habsolute hends

/-- Two keys that a path ends with as a text, only one of which it ends with as a path. -/
def fooChanges : ChangeList :=
  ⟨.ofList [(⟨"services//foo.go"⟩, { lines := [⟨10, 20⟩] }), (⟨"oo.go"⟩, { isNew := true })]⟩

/-- Lines of a file that is listed under the end of its path. -/
theorem scope_of_unambiguous_foo :
    fooChanges.Unambiguous ⟨"/repo/services/foo.go"⟩ ∧
      fooChanges.scope.shouldReport ⟨"/repo/services/foo.go"⟩ 20 = true ∧
      fooChanges.scope.SameAnswers ⟨"//repo/services/./foo.go/"⟩ ⟨"/repo/services/foo.go"⟩ := by
  have hcut : ¬ (Path.mk "oo.go").components <:+ (Path.mk "/repo/services/foo.go").components := by
    decide
  have hone : fooChanges.Unambiguous ⟨"/repo/services/foo.go"⟩ := by
    refine .inr fun e he f hf hpe hpf => ?_
    have hfirst : ∀ e ∈ fooChanges.files.entries,
        e.1.components <:+ (Path.mk "/repo/services/foo.go").components →
          e = (⟨"services//foo.go"⟩, { lines := [⟨10, 20⟩] }) := by
      rintro e (_ | ⟨_, _ | ⟨_, ⟨⟩⟩⟩) hends
      · rfl
      · exact absurd hends hcut
    rw [hfirst e he hpe, hfirst f hf hpf]
  obtain ⟨hlookup, -, -, hreport, hsame, -⟩ := scope_of_unambiguous hone
  have hgoverned := (hlookup { lines := [⟨10, 20⟩] }).mp rfl
  refine ⟨hone, (hreport 20).mpr ⟨_, hgoverned, .inr ?_⟩, hsame _ (.inl (by decide))⟩
  exact ⟨⟨10, 20⟩, List.mem_cons_self, by decide, by decide⟩

end ChangeList
end FieldOrder
