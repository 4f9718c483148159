/-
# Tables

A table holds one value for each key, in the order in which the keys first
came. A later value for an equal key takes the place of the earlier one, while
the key stays as it was first written (keys may be equal without being the same
text). So no two keys are equal, which a table carries with it.

Key definitions: `Table.KeysDistinct`, `Table`, `Table.insert`, `Table.get?`,
`Table.ofList`.
Key theorems: `Table.keysDistinct_put`, `Table.get?_insert_self`,
`Table.get?_insert_of_ne`, `Table.get?_insert`.
-/

namespace FieldOrder

namespace Table

variable {α β : Type} [BEq α]

/-- No two keys are equal. -/
def KeysDistinct (entries : List (α × β)) : Prop :=
  (entries.map (·.1)).Pairwise fun j k => (j == k) = false

/-- The entries after `v` is set for the key `k`. -/
def put (k : α) (v : β) : List (α × β) → List (α × β)
  | [] => [(k, v)]
  | (k', v') :: rest => if k' == k then (k', v) :: rest else (k', v') :: put k v rest

/-- The value that stands for the key `k`. -/
def find? (k : α) : List (α × β) → Option β
  | [] => none
  | (k', v) :: rest => if k' == k then some v else find? k rest

/-- The keys stay when a value is set, and a new key comes last. -/
theorem keys_put (k : α) (v : β) : ∀ es : List (α × β), (put k v es).map (·.1) =
    if es.any (·.1 == k) then es.map (·.1) else es.map (·.1) ++ [k]
  | [] => rfl
  | (j, w) :: rest => by
    rw [put, List.any_cons]
    cases hj : j == k with
    | true => rfl
    | false =>
      rw [if_neg Bool.false_ne_true, Bool.false_or, List.map_cons, List.map_cons,
        keys_put k v rest]
      split <;> rfl

theorem keysDistinct_put {es : List (α × β)} (h : KeysDistinct es) (k : α) (v : β) :
    KeysDistinct (put k v es) := by
  rw [KeysDistinct, keys_put]
  split
  · exact h
  · next hnew =>
    rw [List.pairwise_append]
    refine ⟨h, List.pairwise_singleton _ k, fun j hj k' hk' => ?_⟩
    obtain rfl := List.mem_singleton.mp hk'
    obtain ⟨e, he, rfl⟩ := List.mem_map.mp hj
    exact Bool.eq_false_iff.mpr (List.any_eq_false.mp (Bool.eq_false_iff.mpr hnew) e he)

end Table

/-- Values by key, in order of first arrival. -/
structure Table (α : Type) (β : Type) [BEq α] where
  entries : List (α × β)
  keysDistinct : Table.KeysDistinct entries

namespace Table

variable {α β : Type} [BEq α]

instance : EmptyCollection (Table α β) := ⟨⟨[], List.Pairwise.nil⟩⟩

/-- Set the value of a key. -/
def insert (t : Table α β) (k : α) (v : β) : Table α β :=
  ⟨put k v t.entries, keysDistinct_put t.keysDistinct k v⟩

/-- The value of a key, if the table has one. -/
def get? (t : Table α β) (k : α) : Option β := find? k t.entries

/-- Set the values of many keys, one after the other. -/
def insertAll (t : Table α β) (pairs : List (α × β)) : Table α β :=
  pairs.foldl (fun t p => t.insert p.1 p.2) t

/-- The table of a list of pairs; of two pairs with equal keys the later counts. -/
def ofList (pairs : List (α × β)) : Table α β := insertAll {} pairs

/-- How many keys have a value. -/
def size (t : Table α β) : Nat := t.entries.length

/-- Whether no key has a value. -/
def isEmpty (t : Table α β) : Bool := t.entries.isEmpty

theorem eq_empty_of_isEmpty {t : Table α β} (h : t.isEmpty = true) : t = {} := by
  obtain ⟨entries, _⟩ := t
  obtain rfl := List.isEmpty_iff.mp h
  rfl

/-- In a table without keys nothing is found. -/
@[simp] theorem get?_empty (k : α) : ({} : Table α β).get? k = none := rfl

theorem find?_put_self [ReflBEq α] (k : α) (v : β) :
    ∀ es : List (α × β), find? k (put k v es) = some v
  | [] => by simp [put, find?]
  | (k', v') :: rest => by
    by_cases h : k' == k
    · simp [put, find?, h]
    · simp [put, find?, h, find?_put_self k v rest]

/-- The value just set is the one found. -/
@[simp] theorem get?_insert_self [ReflBEq α] (t : Table α β) (k : α) (v : β) :
    (t.insert k v).get? k = some v := find?_put_self k v t.entries

theorem find?_put_of_ne [PartialEquivBEq α] {k j : α} (v : β) (h : (j == k) = false) :
    ∀ es : List (α × β), find? k (put j v es) = find? k es
  | [] => by simp [put, find?, h]
  | (k', v') :: rest => by
    by_cases hj : k' == j
    · have hk : (k' == k) = false := by
        cases hk : k' == k with
        | false => rfl
        | true =>
          have := PartialEquivBEq.trans (PartialEquivBEq.symm hj) hk
          rw [h] at this
          cases this
      simp [put, find?, hj, hk]
    · by_cases hk : k' == k
      · simp [put, find?, hj, hk]
      · simp [put, find?, hj, hk, find?_put_of_ne v h rest]

/-- Setting one key leaves the others alone. -/
theorem get?_insert_of_ne [PartialEquivBEq α] (t : Table α β) {k j : α} (v : β)
    (h : (j == k) = false) : (t.insert j v).get? k = t.get? k :=
  find?_put_of_ne v h t.entries

/-- A look-up after a key is set. -/
theorem get?_insert [LawfulBEq α] [DecidableEq α] (t : Table α β) (j k : α) (v : β) :
    (t.insert j v).get? k = if j = k then some v else t.get? k := by
  split
  · next h => rw [h, get?_insert_self]
  · next h => exact get?_insert_of_ne t v (beq_eq_false_iff_ne.mpr h)

end Table
end FieldOrder
