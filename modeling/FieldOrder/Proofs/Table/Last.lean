/-
# The last of many

A table made of pairs keeps, of those with equal keys, the last: one pair more sets one key
and leaves the others (`Table.get?_ofList_concat`), and so a look-up finds what the last of
the pairs with the key says, and nothing if there is none (`Table.get?_ofList_eq_some_iff`,
`Table.get?_ofList_eq_none_iff`).

Key definitions: `IsLast`.
Key theorems: `isLast_concat`, `isLast_filterMap`, `isLast_iff_mem`,
`findSome?_reverse_eq_some`, `Table.get?_ofList_eq_some_iff`,
`Table.get?_ofList_eq_none_iff`.
-/
import Mathlib.Data.List.Induction
import FieldOrder.Proofs.Table.Keys

namespace FieldOrder

variable {α β : Type}

/-- Of the members of a list that satisfy `p`, `a` is the last. -/
def IsLast (p : α → Prop) (l : List α) (a : α) : Prop :=
  ∃ before behind, l = before ++ a :: behind ∧ p a ∧ ∀ b ∈ behind, ¬ p b

section

variable {p : α → Prop} {l : List α} {a : α}

theorem IsLast.mem (h : IsLast p l a) : a ∈ l := by
  obtain ⟨before, behind, rfl, -⟩ := h
  exact List.mem_append_right before List.mem_cons_self

theorem IsLast.holds (h : IsLast p l a) : p a := by
  obtain ⟨before, behind, -, ha, -⟩ := h
  exact ha

theorem IsLast.congr {q : α → Prop} (ha : IsLast p l a) (h : ∀ b ∈ l, p b ↔ q b) : IsLast q l a := by
  obtain ⟨before, behind, rfl, hpa, hbehind⟩ := ha
  refine ⟨before, behind, rfl, (h a (by simp)).mp hpa, fun b hb hqb => ?_⟩
  exact hbehind b hb ((h b (by simp [hb])).mpr hqb)

/-- Only what members say matters. -/
theorem isLast_congr {q : α → Prop} (h : ∀ b ∈ l, p b ↔ q b) : IsLast p l a ↔ IsLast q l a :=
  ⟨fun ha => ha.congr h, fun ha => ha.congr fun b hb => (h b hb).symm⟩

theorem not_isLast_nil : ¬ IsLast p [] a := fun h => List.not_mem_nil h.mem

/-- One member more is the last, or it does not count. -/
theorem isLast_concat {b : α} : IsLast p (l ++ [b]) a ↔ (p b ∧ a = b) ∨ (¬ p b ∧ IsLast p l a) := by
  constructor
  · rintro ⟨before, behind, hl, ha, hbehind⟩
    induction behind using List.reverseRecOn with
    | nil =>
      obtain ⟨-, hab⟩ := List.append_inj' hl rfl
      obtain rfl := (List.cons.inj hab).1
      exact .inl ⟨ha, rfl⟩
    | append_singleton behind c _ =>
      rw [← List.cons_append, ← List.append_assoc] at hl
      obtain ⟨rfl, hbc⟩ := List.append_inj' hl rfl
      obtain rfl := (List.cons.inj hbc).1
      exact .inr ⟨hbehind b (by simp), before, behind, rfl, ha,
        fun c hc => hbehind c (List.mem_append_left _ hc)⟩
  · rintro (⟨hb, rfl⟩ | ⟨hb, before, behind, rfl, ha, hbehind⟩)
    · exact ⟨l, [], rfl, hb, fun _ hc => absurd hc List.not_mem_nil⟩
    · refine ⟨before, behind ++ [b], by simp, ha, fun c hc => ?_⟩
      rcases List.mem_append.mp hc with hc | hc
      · exact hbehind c hc
      · obtain rfl := List.mem_singleton.mp hc
        exact hb

/-- There is a last one when there is one. -/
theorem exists_isLast_iff : (∃ a, IsLast p l a) ↔ ∃ a ∈ l, p a := by
  constructor
  · rintro ⟨a, ha⟩
    exact ⟨a, ha.mem, ha.holds⟩
  · rintro ⟨a, hmem, ha⟩
    induction l using List.reverseRecOn with
    | nil => cases hmem
    | append_singleton l b ih =>
      simp only [isLast_concat]
      by_cases hb : p b
      · exact ⟨b, .inl ⟨hb, rfl⟩⟩
      · rcases List.mem_append.mp hmem with hmem | hmem
        · obtain ⟨c, hc⟩ := ih hmem
          exact ⟨c, .inr ⟨hb, hc⟩⟩
        · obtain rfl := List.mem_singleton.mp hmem
          exact absurd ha hb

/-- Where no two members satisfy `p`, the last is the one that does. -/
theorem isLast_iff_mem (h : l.Pairwise fun a b => p a → ¬ p b) : IsLast p l a ↔ a ∈ l ∧ p a := by
  refine ⟨fun ha => ⟨ha.mem, ha.holds⟩, ?_⟩
  rintro ⟨hmem, ha⟩
  obtain ⟨before, behind, rfl⟩ := List.append_of_mem hmem
  have hbehind := (List.pairwise_cons.mp (List.pairwise_append.mp h).2.1).1
  exact ⟨before, behind, rfl, ha, fun b hb => hbehind b hb ha⟩

/-- The last answer that satisfies `p` is that of the last member with such an answer. -/
theorem isLast_filterMap {g : β → Option α} {bs : List β} :
    IsLast p (bs.filterMap g) a ↔
      ∃ b, IsLast (fun b => ∃ a, g b = some a ∧ p a) bs b ∧ g b = some a := by
  induction bs using List.reverseRecOn with
  | nil => simp [not_isLast_nil]
  | append_singleton bs b ih =>
    rw [List.filterMap_append]
    cases hb : g b with
    | none =>
      rw [List.filterMap_cons_none hb, List.filterMap_nil, List.append_nil, ih]
      simp [isLast_concat, hb]
    | some a' =>
      rw [List.filterMap_cons_some hb, List.filterMap_nil]
      simp only [isLast_concat, hb, ih, Option.some.injEq, exists_eq_left']
      by_cases ha' : p a'
      · simp [ha', hb, eq_comm]
      · simp [ha']

theorem isLast_map {f : β → α} {bs : List β} :
    IsLast p (bs.map f) a ↔ ∃ b, IsLast (fun b => p (f b)) bs b ∧ f b = a := by
  rw [← List.filterMap_eq_map, isLast_filterMap]
  simp

end

/-- Searching from the end finds what the last answer is. -/
theorem findSome?_reverse_eq_some {f : α → Option β} {xs : List α} {b : β} :
    xs.reverse.findSome? f = some b ↔
      ∃ front x back, xs = front ++ x :: back ∧ f x = some b ∧ ∀ y ∈ back, f y = none := by
  rw [List.findSome?_eq_some_iff]
  constructor
  · rintro ⟨back, x, front, hxs, hx, hback⟩
    refine ⟨front.reverse, x, back.reverse, ?_, hx, fun y hy => hback y (List.mem_reverse.mp hy)⟩
    rw [← List.reverse_reverse xs, hxs]
    simp
  · rintro ⟨front, x, back, rfl, hx, hback⟩
    refine ⟨back.reverse, x, front.reverse, by simp, hx, fun y hy => ?_⟩
    exact hback y (List.mem_reverse.mp hy)

/-! ### Tables -/

namespace Table

variable [BEq α] [EquivBEq α]

theorem get?_insert_of_beq (t : Table α β) {j k : α} (v : β) (h : (j == k) = true) :
    (t.insert j v).get? k = some v := by
  rw [← get?_congr _ h, get?_insert_self]

/-- One pair more sets its key and leaves the others. -/
theorem get?_ofList_concat (pairs : List (α × β)) (pair : α × β) (k : α) :
    (ofList (pairs ++ [pair])).get? k =
      if pair.1 == k then some pair.2 else (ofList pairs).get? k := by
  have hinsert : ofList (pairs ++ [pair]) = (ofList pairs).insert pair.1 pair.2 := by
    rw [ofList, insertAll, List.foldl_append]
    rfl
  rw [hinsert]
  split
  · next h => exact get?_insert_of_beq _ _ h
  · next h => exact get?_insert_of_ne _ _ (Bool.eq_false_iff.mpr h)

/-- A look-up finds what the last pair with the key says. -/
theorem get?_ofList_eq_some_iff {pairs : List (α × β)} {k : α} {v : β} :
    (ofList pairs).get? k = some v ↔
      ∃ pair, IsLast (fun pair => (pair.1 == k) = true) pairs pair ∧ pair.2 = v := by
  induction pairs using List.reverseRecOn with
  | nil => simp [not_isLast_nil, ofList, insertAll]
  | append_singleton pairs pair ih =>
    rw [get?_ofList_concat]
    simp only [isLast_concat]
    split
    · next h => simp [h]
    · next h => simp [h, ih]

/-- A look-up finds nothing when no pair has the key. -/
theorem get?_ofList_eq_none_iff {pairs : List (α × β)} {k : α} :
    (ofList pairs).get? k = none ↔ ∀ pair ∈ pairs, ¬ (pair.1 == k) = true := by
  have hsome : (∃ v, (ofList pairs).get? k = some v) ↔ ∃ pair ∈ pairs, (pair.1 == k) = true := by
    rw [← exists_isLast_iff]
    simp only [get?_ofList_eq_some_iff]
    constructor
    · rintro ⟨v, pair, hpair, -⟩
      exact ⟨pair, hpair⟩
    · rintro ⟨pair, hpair⟩
      exact ⟨pair.2, pair, hpair, rfl⟩
  rw [← Option.not_isSome_iff_eq_none, Option.isSome_iff_exists, hsome]
  simp

/-- In a table made of members with a key and a value each, a look-up finds the value of the
last member with the key. -/
theorem get?_ofList_map_eq_some_iff {γ : Type} {key : γ → α} {value : γ → β} {cs : List γ} {k : α}
    {v : β} : (ofList (cs.map fun c => (key c, value c))).get? k = some v ↔
      ∃ c, IsLast (fun c => (key c == k) = true) cs c ∧ value c = v := by
  simp only [get?_ofList_eq_some_iff, isLast_map]
  constructor
  · rintro ⟨_, ⟨c, hc, rfl⟩, hv⟩
    exact ⟨c, hc, hv⟩
  · rintro ⟨c, hc, hv⟩
    exact ⟨_, ⟨c, hc, rfl⟩, hv⟩

end Table
end FieldOrder
