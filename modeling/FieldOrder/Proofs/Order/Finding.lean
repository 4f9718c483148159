/-
# What a finding says

A map has a finding just when every entry of it is known, no known field makes it
exempt, and the expected order is not the order declared
(`SchemaMap.finding?_eq_some_iff`). The two orders come from different names, one
from the fields and one from the entries; where every known field has the name of
its entry, each is a rearrangement of the other (`SchemaMap.Named`).

Key definitions: `SchemaMap.knownFields`, `SchemaMap.Known`, `SchemaMap.Named`.
Key theorems: `SchemaMap.fields?_eq_some_iff`, `SchemaMap.map_name_knownFields`,
`SchemaMap.expectedOrder_perm_actualOrder`, `SchemaMap.finding?_eq_some_iff`.
-/
import FieldOrder.Proofs.Order.Groups
import FieldOrder.Verdict

namespace FieldOrder

theorem mapM_eq_some_filterMap {α β : Type} (g : α → Option β) : ∀ l : List α,
    (∀ a ∈ l, (g a).isSome) → l.mapM g = some (l.filterMap g)
  | [], _ => rfl
  | a :: l, h => by
    obtain ⟨b, hb⟩ := Option.isSome_iff_exists.mp (h a List.mem_cons_self)
    have ih := mapM_eq_some_filterMap g l fun x hx => h x (List.mem_cons_of_mem _ hx)
    simp [List.mapM_cons, hb, ih]

theorem isSome_of_mapM_eq_some {α β : Type} (g : α → Option β) : ∀ {l : List α} {values : List β},
    l.mapM g = some values → ∀ a ∈ l, (g a).isSome
  | [], _, _ => by simp
  | a :: l, values, h => by
    rw [List.mapM_cons] at h
    obtain ⟨b, hb, h⟩ := Option.bind_eq_some_iff.mp h
    obtain ⟨rest, hrest, -⟩ := Option.bind_eq_some_iff.mp h
    exact List.forall_mem_cons.mpr ⟨by rw [hb]; rfl, isSome_of_mapM_eq_some g hrest⟩

namespace SchemaMap

/-- The fields of the entries that are known. -/
def knownFields (m : SchemaMap) : List Field := m.entries.filterMap (·.field.value?)

/-- Every entry is known. -/
def Known (m : SchemaMap) : Prop := ∀ e ∈ m.entries, e.field.value?.isSome

/-- Every known field has the name of its entry. -/
def Named (m : SchemaMap) : Prop := ∀ e ∈ m.entries, ∀ f, e.field = .resolved f → f.name = e.name

variable {m : SchemaMap} {ids : Resolution (List String)}

theorem fields?_eq_some_iff {fields : List Field} :
    m.fields? = some fields ↔ m.Known ∧ m.knownFields = fields := by
  constructor
  · intro h
    have hk : m.Known := isSome_of_mapM_eq_some _ h
    exact ⟨hk, Option.some.inj ((mapM_eq_some_filterMap _ _ hk).symm.trans h)⟩
  · rintro ⟨hk, rfl⟩
    exact mapM_eq_some_filterMap _ _ hk

theorem Known.fields? (hk : m.Known) : m.fields? = some m.knownFields :=
  fields?_eq_some_iff.mpr ⟨hk, rfl⟩

/-- The known fields have the names of the entries, in the order declared. -/
theorem map_name_knownFields (hk : m.Known) (hn : m.Named) :
    m.knownFields.map (·.name) = m.actualOrder := by
  unfold Known at hk
  unfold Named at hn
  unfold knownFields actualOrder
  generalize m.entries = entries at hk hn
  induction entries with
  | nil => rfl
  | cons e entries ih =>
    obtain ⟨hke, hk⟩ := List.forall_mem_cons.mp hk
    obtain ⟨hne, hn⟩ := List.forall_mem_cons.mp hn
    cases hf : e.field with
    | resolved f =>
      have hname : f.name = e.name := hne f hf
      have ih := ih hk hn
      simp [hf, hname, ih]
    | unresolvable => rw [hf] at hke; cases hke
    | notApplicable => rw [hf] at hke; cases hke

theorem expectedOrder_perm_actualOrder (hk : m.Known) (hn : m.Named)
    (ids : Resolution (List String)) :
    (expectedOrder m.knownFields ids m.nested).Perm m.actualOrder :=
  map_name_knownFields hk hn ▸ expectedOrder_perm m.knownFields ids m.nested

/-- Where fields have the names of their entries, a finding tells that all are
known, none is exempt, and the order is not the expected one. -/
theorem finding?_eq_some_iff (hn : m.Named) {finding : Finding} :
    m.finding? ids = some finding ↔ m.Known ∧ m.exemption? m.knownFields = none ∧
      expectedOrder m.knownFields ids m.nested ≠ m.actualOrder ∧
      finding = ⟨m.file, m.pos, m.nested, expectedOrder m.knownFields ids m.nested,
        m.actualOrder⟩ := by
  by_cases hk : m.Known
  · have hlen : (expectedOrder m.knownFields ids m.nested).length = m.actualOrder.length :=
      (expectedOrder_perm_actualOrder hk hn ids).length_eq
    cases hex : m.exemption? m.knownFields with
    | some reason => simp [finding?, verdict, hk.fields?, hex]
    | none =>
      by_cases h : expectedOrder m.knownFields ids m.nested = m.actualOrder
      · simp [finding?, verdict, hk.fields?, hex, h]
      · simp [finding?, verdict, hk.fields?, hex, h, hlen, hk, eq_comm]
  · have hnone : m.fields? = none := by
      rw [Option.eq_none_iff_forall_ne_some]
      exact fun fields hf => hk (fields?_eq_some_iff.mp hf).1
    simp [finding?, verdict, hnone, hk]

end SchemaMap
end FieldOrder
