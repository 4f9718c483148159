/-
# Keys of tables

The keys of a table are distinct, so a key leads to one entry at most, and a look-up finds
that entry (`Table.get?_eq_some_iff`). Keys may be equal without being the same text. The
values may be changed key by key without any key being lost (`Table.get?_mapValues`).

Key definitions: `Table.mapValues`.
Key theorems: `Table.get?_eq_some_iff`, `Table.get?_congr`, `Table.get?_mapValues`.
-/
import Mathlib.Data.List.Pairwise
import FieldOrder.Table

namespace FieldOrder

/-- Of members that satisfy a condition there is one at most; so it is the one found. -/
theorem find?_eq_some_iff_of_unique {α : Type} {p : α → Bool} {l : List α}
    (hunique : ∀ a ∈ l, ∀ b ∈ l, p a = true → p b = true → a = b) (a : α) :
    l.find? p = some a ↔ a ∈ l ∧ p a = true := by
  constructor
  · exact fun h => ⟨List.mem_of_find?_eq_some h, List.find?_some h⟩
  · rintro ⟨ha, hpa⟩
    cases h : l.find? p with
    | none => exact absurd hpa (List.find?_eq_none.mp h a ha)
    | some b =>
      rw [hunique b (List.mem_of_find?_eq_some h) a ha (List.find?_some h) hpa]

namespace Table

variable {α β : Type} [BEq α]

/-! ### Looking up -/

theorem find?_eq (k : α) : ∀ es : List (α × β),
    find? k es = (es.find? (·.1 == k)).map (·.2)
  | [] => rfl
  | (j, w) :: rest => by
    rw [find?, List.find?_cons, find?_eq k rest]
    cases j == k with
    | true => rfl
    | false => rfl

theorem get?_eq_none_iff {t : Table α β} {k : α} :
    t.get? k = none ↔ ∀ e ∈ t.entries, ¬ (e.1 == k) = true := by
  rw [get?, find?_eq, Option.map_eq_none_iff, List.find?_eq_none]

/-! ### Other values -/

/-- The table with other values, each made from the key and the value it had. -/
def mapValues {γ : Type} (f : α → β → γ) (t : Table α β) : Table α γ where
  entries := t.entries.map fun e => (e.1, f e.1 e.2)
  keysDistinct := by
    rw [KeysDistinct, List.map_map]
    exact t.keysDistinct

theorem find?_map [LawfulBEq α] {γ : Type} (f : α → β → γ) (k : α) : ∀ es : List (α × β),
    find? k (es.map fun e => (e.1, f e.1 e.2)) = (find? k es).map (f k)
  | [] => rfl
  | (j, v) :: rest => by
    rw [List.map_cons, find?, find?_map f k rest, find?]
    split
    · next h =>
      obtain rfl : j = k := eq_of_beq h
      rfl
    · rfl

/-- The value of a key is made from the value it had. -/
theorem get?_mapValues [LawfulBEq α] {γ : Type} (f : α → β → γ) (t : Table α β) (k : α) :
    (t.mapValues f).get? k = (t.get? k).map (f k) := find?_map f k t.entries

/-! ### Distinct keys -/

variable [EquivBEq α]

/-- Equal keys have the same value. -/
theorem get?_congr (t : Table α β) {j k : α} (h : (j == k) = true) : t.get? j = t.get? k := by
  have hkeys : (fun e : α × β => e.1 == j) = fun e => e.1 == k := by
    funext e
    exact BEq.congr_right h
  rw [get?, get?, find?_eq, find?_eq, hkeys]

/-- Of a key there is one entry at most. -/
theorem entry_unique (t : Table α β) {k : α} :
    ∀ e ∈ t.entries, ∀ f ∈ t.entries, (e.1 == k) = true → (f.1 == k) = true → e = f := by
  intro e he f hf hek hfk
  by_contra hne
  have hsymm : Std.Symm fun e f : α × β => (e.1 == f.1) = false :=
    ⟨fun _ _ hef => BEq.symm_false hef⟩
  have hdistinct := (List.pairwise_map.mp t.keysDistinct).forall he hf hne
  rw [BEq.trans hek (BEq.symm hfk)] at hdistinct
  cases hdistinct

/-- The value of a key is that of the one entry with an equal key. -/
theorem get?_eq_some_iff {t : Table α β} {k : α} {v : β} :
    t.get? k = some v ↔ ∃ j, (j, v) ∈ t.entries ∧ (j == k) = true := by
  rw [get?, find?_eq, Option.map_eq_some_iff]
  constructor
  · rintro ⟨⟨j, w⟩, hfind, rfl⟩
    exact ⟨j, (find?_eq_some_iff_of_unique t.entry_unique _).mp hfind⟩
  · rintro ⟨j, hmem, hbeq⟩
    exact ⟨(j, v), (find?_eq_some_iff_of_unique t.entry_unique _).mpr ⟨hmem, hbeq⟩, rfl⟩

end Table
end FieldOrder
