/-
# The canonical order of a top-level map

The order of a top-level map, told by names. It consists of seven blocks: the
fields of the identifier with the most specific first, the location, the
required fields as declared, the optional fields, a computed location, the other
computed fields by name, and the tags. Which field stands in which block, and in
what order, is said here without the groups of the algorithm; the main statement
(`expectedOrder_canonical`) is that the expected order is made of these blocks.

Two things are subtle. A required location that stands before the resource group
changes places with it, and nobody else moves (`resourceGroupAhead`). And the
optional fields are sorted unless one of them is declared before the first
required field (`OptionalLeads`).

Key definitions: `IsPlaced`, `OptionalLeads`, `Blocks`, `Blocks.Canonical`.
Key theorems: `keepsOptionalOrder_iff`, `map_name_resourceGroupFirst`,
`expectedOrder_canonical`.
-/
import Mathlib.Logic.Equiv.Basic
import FieldOrder.Proofs.Order.Groups

namespace FieldOrder

/-! ### Which field stands where -/

/-- A field with a place of its own, whatever else its flags say: the tags, and
unless it is computed only, a field of the identifier or the location of a
resource with an identifier. -/
def IsPlaced (ids : Option (List String)) (f : Field) : Prop :=
  f.name = "tags" ∨
    (¬f.isComputedOnly ∧ (f.name ∈ ids.getD [] ∨ (ids.isSome ∧ f.name = "location")))

instance (ids : Option (List String)) (f : Field) : Decidable (IsPlaced ids f) :=
  inferInstanceAs (Decidable (_ ∨ _))

/-- The required fields without a place of their own, as declared. -/
def requiredFields (ids : Option (List String)) (fields : List Field) : List Field :=
  fields.filter fun f => f.flags.required ∧ ¬IsPlaced ids f

/-- The fields that can be set but need not be, without a place of their own, as
declared. A field of which nothing is said is one of them. -/
def optionalFields (ids : Option (List String)) (fields : List Field) : List Field :=
  fields.filter fun f => ¬f.isComputedOnly ∧ ¬f.flags.required ∧ ¬IsPlaced ids f

/-- The fields that are computed only, the location and the tags left out. -/
def computedFields (fields : List Field) : List Field :=
  fields.filter fun f => f.isComputedOnly ∧ f.name ≠ "location" ∧ f.name ≠ "tags"

/-- Some optional field is declared before the first required field. -/
def OptionalLeads (ids : Option (List String)) (fields : List Field) : Prop :=
  ∃ first, (requiredFields ids fields).head? = some first ∧
    ∃ f ∈ optionalFields ids fields, [f, first].Sublist fields

/-- Names in which the location and the resource group trade places, if the
location comes first. -/
def resourceGroupAhead (names : List String) : List String :=
  if ["location", "resource_group_name"].Sublist names then
    names.map (Equiv.swap "location" "resource_group_name")
  else names

/-- The names of a top-level map, block by block. -/
structure Blocks where
  identifier : List String
  location : List String
  required : List String
  optional : List String
  computedLocation : List String
  computed : List String
  tags : List String

/-- The blocks one after the other. -/
def Blocks.names (b : Blocks) : List String :=
  b.identifier ++ b.location ++ b.required ++ b.optional ++ b.computedLocation ++ b.computed ++
    b.tags

/-- What stands in each block of the canonical order. -/
structure Blocks.Canonical (ids : Option (List String)) (fields : List Field) (b : Blocks) :
    Prop where
  /-- The names of the identifier without repeats, backwards; only those of fields
  that can be set, and never the tags. -/
  identifier : b.identifier = (ids.getD []).eraseDups.reverse.filter fun id =>
    id ≠ "tags" ∧ ∃ f ∈ fields, f.name = id ∧ ¬f.isComputedOnly
  location : b.location =
    if ids.isSome ∧ "location" ∉ ids.getD [] ∧ ∃ f ∈ fields, f.name = "location" ∧ ¬f.isComputedOnly
    then ["location"] else []
  required : b.required = resourceGroupAhead ((requiredFields ids fields).map (·.name))
  optional_perm : b.optional.Perm ((optionalFields ids fields).map (·.name))
  optional_kept : OptionalLeads ids fields → b.optional = (optionalFields ids fields).map (·.name)
  optional_sorted : ¬OptionalLeads ids fields → b.optional.Pairwise (· < ·)
  computedLocation : b.computedLocation =
    if ∃ f ∈ fields, f.name = "location" ∧ f.isComputedOnly then ["location"] else []
  computed_perm : b.computed.Perm ((computedFields fields).map (·.name))
  computed_sorted : b.computed.Pairwise (· < ·)
  tags : b.tags = if ∃ f ∈ fields, f.name = "tags" then ["tags"] else []

/-! ### The groups are the blocks -/

variable {ids : Option (List String)} {fields : List Field}

theorem not_isComputedOnly_of_required {f : Field} (h : f.flags.required = true) :
    f.isComputedOnly = false := by
  simp [Field.isComputedOnly, Flags.isComputedOnly, h]

theorem groupOf_eq_identifier_iff {f : Field} : groupOf ids f = .identifier ↔
    f.name ∈ ids.getD [] ∧ f.name ≠ "tags" ∧ ¬f.isComputedOnly := by
  unfold groupOf flagGroup
  split_ifs <;> simp_all

theorem groupOf_eq_location_iff {f : Field} : groupOf ids f = .location ↔
    (ids.isSome ∧ "location" ∉ ids.getD []) ∧ f.name = "location" ∧ ¬f.isComputedOnly := by
  unfold groupOf flagGroup
  split_ifs <;> grind

theorem groupOf_eq_required_iff {f : Field} : groupOf ids f = .required ↔
    f.flags.required ∧ ¬IsPlaced ids f := by
  have := @not_isComputedOnly_of_required f
  unfold groupOf flagGroup IsPlaced
  split_ifs <;> grind

theorem groupOf_eq_optional_iff {f : Field} : groupOf ids f = .optional ↔
    ¬f.isComputedOnly ∧ ¬f.flags.required ∧ ¬IsPlaced ids f := by
  unfold groupOf flagGroup IsPlaced
  split_ifs <;> grind

theorem groupOf_eq_computedLocation_iff {f : Field} : groupOf ids f = .computedLocation ↔
    f.name = "location" ∧ f.isComputedOnly := by
  unfold groupOf flagGroup
  split_ifs <;> grind

theorem groupOf_eq_computed_iff {f : Field} : groupOf ids f = .computed ↔
    f.isComputedOnly ∧ f.name ≠ "location" ∧ f.name ≠ "tags" := by
  unfold groupOf flagGroup
  split_ifs <;> grind

theorem groupOf_eq_tags_iff {f : Field} : groupOf ids f = .tags ↔ f.name = "tags" := by
  unfold groupOf flagGroup
  split_ifs <;> simp_all

theorem groupMembers_required :
    groupMembers (groupOf ids) .required fields = requiredFields ids fields :=
  List.filter_congr fun _ _ => decide_eq_decide.mpr groupOf_eq_required_iff

theorem groupMembers_optional :
    groupMembers (groupOf ids) .optional fields = optionalFields ids fields :=
  List.filter_congr fun _ _ => decide_eq_decide.mpr groupOf_eq_optional_iff

theorem groupMembers_computed :
    groupMembers (groupOf ids) .computed fields = computedFields fields :=
  List.filter_congr fun _ _ => decide_eq_decide.mpr groupOf_eq_computed_iff

/-! ### Blocks of one name -/

/-- Of fields with different names, those that all have one name are one or none. -/
theorem map_name_filter_of_name (hd : (fields.map (·.name)).Nodup) {p : Field → Prop}
    [DecidablePred p] {n : String} (hp : ∀ f, p f → f.name = n) :
    (fields.filter p).map (·.name) = if ∃ f ∈ fields, p f then [n] else [] := by
  set names := (fields.filter p).map (·.name) with hnames
  have hrep : names = List.replicate names.length n := by
    refine List.eq_replicate_of_mem fun x hx => ?_
    obtain ⟨f, hf, rfl⟩ := List.mem_map.mp hx
    exact hp f (by simpa using (List.mem_filter.mp hf).2)
  split
  · next h =>
    obtain ⟨f, hf, hpf⟩ := h
    have hmem : f.name ∈ names :=
      List.mem_map.mpr ⟨f, List.mem_filter.mpr ⟨hf, by simpa using hpf⟩, rfl⟩
    have hpos : 0 < names.length := List.length_pos_of_mem hmem
    have hn : names.Nodup := hd.sublist (List.filter_sublist.map _)
    rw [hrep] at hn
    have hle : names.length ≤ 1 := List.nodup_replicate.mp hn
    rw [hrep, show names.length = 1 by omega]
    rfl
  · next h =>
    rw [hnames, List.map_eq_nil_iff, List.filter_eq_nil_iff]
    exact fun f hf hpf => h ⟨f, hf, by simpa using hpf⟩

/-- The members of the identifier group by name. -/
theorem map_name_sortByIdentifier (hd : (fields.map (·.name)).Nodup) (ids : List String) :
    (sortByIdentifier ids fields).map (·.name) =
      (identifierOrder ids).filter fun id => ∃ f ∈ fields, f.name = id := by
  unfold sortByIdentifier
  generalize identifierOrder ids = order
  induction order with
  | nil => rfl
  | cons id order ih =>
    have hid := map_name_filter_of_name hd (p := fun f => f.name = id) fun _ h => h
    rw [List.flatMap_cons, List.map_append, hid, ih, List.filter_cons]
    split
    · next h => simp [h]
    · next h => simp [h]

/-! ### The location and the resource group -/

/-- In a list without repeats, who stands in front of another comes first. -/
theorem idxOf_lt_of_pair_sublist {α : Type} [DecidableEq α] {l : List α} (hd : l.Nodup) {a b : α}
    (h : [a, b].Sublist l) : l.idxOf a < l.idxOf b := by
  have hp : l.Pairwise fun a b => l.idxOf a < l.idxOf b := by
    rw [List.pairwise_iff_getElem]
    intro i j hi hj hij
    rwa [hd.idxOf_getElem i hi, hd.idxOf_getElem j hj]
  exact List.pairwise_iff_forall_sublist.mp hp h

/-- In a list without repeats, a pair stands in order if its places do. -/
theorem pair_sublist_iff {α : Type} [DecidableEq α] {l : List α} (hd : l.Nodup) {i j : Nat}
    (hi : i < l.length) (hj : j < l.length) : [l[i], l[j]].Sublist l ↔ i < j := by
  constructor
  · intro h
    have := idxOf_lt_of_pair_sublist hd h
    rwa [hd.idxOf_getElem i hi, hd.idxOf_getElem j hj] at this
  · intro h
    have hp : l.Pairwise fun a b => [a, b].Sublist l :=
      List.pairwise_iff_forall_sublist.mpr fun h => h
    exact List.pairwise_iff_getElem.mp hp i j hi hj h

theorem placeOf?_eq_none_iff {n : String} : placeOf? n fields = none ↔ n ∉ fields.map (·.name) := by
  simp [placeOf?, List.findIdx?_eq_none_iff]

theorem placeOf?_eq_some {n : String} {i : Nat} (h : placeOf? n fields = some i) :
    ∃ hi : i < fields.length, fields[i].name = n := by
  obtain ⟨hi, hn, -⟩ := List.findIdx?_eq_some_iff_getElem.mp h
  exact ⟨hi, by simpa using hn⟩

/-- Two members with different names trade places when their names do. -/
theorem map_name_exchange (hd : (fields.map (·.name)).Nodup) {i j : Nat} (hi : i < fields.length)
    (hj : j < fields.length) : (exchange i j fields).map (·.name) =
      (fields.map (·.name)).map (Equiv.swap fields[i].name fields[j].name) := by
  have hinj : ∀ {k l : Nat} (hk : k < fields.length) (hl : l < fields.length),
      fields[k].name = fields[l].name → k = l := by
    intro k l hk hl h
    have hk' : k < (fields.map (·.name)).length := by simpa
    have hl' : l < (fields.map (·.name)).length := by simpa
    have hname : (fields.map (·.name))[k] = (fields.map (·.name))[l] := by simpa
    exact hd.getElem_inj_iff.mp hname
  simp only [exchange, List.getElem?_eq_getElem hi, List.getElem?_eq_getElem hj]
  refine List.ext_getElem (by simp) fun k hk _ => ?_
  have hk' : k < fields.length := by simpa using hk
  simp only [List.getElem_map, List.getElem_set, Equiv.swap_apply_def]
  by_cases hkj : j = k
  · subst hkj
    by_cases hij : fields[j].name = fields[i].name
    · simp [hij]
    · simp [hij]
  · have hj' : fields[k].name ≠ fields[j].name := fun h => hkj (hinj hk' hj h).symm
    by_cases hki : i = k
    · subst hki
      simp [hkj]
    · have hi' : fields[k].name ≠ fields[i].name := fun h => hki (hinj hk' hi h).symm
      simp [hkj, hki, hi', hj']

/-- The required fields by name: the location gives way to the resource group. -/
theorem map_name_resourceGroupFirst (hd : (fields.map (·.name)).Nodup) :
    (resourceGroupFirst fields).map (·.name) = resourceGroupAhead (fields.map (·.name)) := by
  unfold resourceGroupFirst resourceGroupAhead
  split
  · next i j hl hr =>
    obtain ⟨hi, hin⟩ := placeOf?_eq_some hl
    obtain ⟨hj, hjn⟩ := placeOf?_eq_some hr
    have hpair := pair_sublist_iff hd (i := i) (j := j) (by simpa) (by simpa)
    simp only [List.getElem_map, hin, hjn] at hpair
    by_cases hij : i < j
    · rw [if_pos hij, if_pos (hpair.mpr hij), map_name_exchange hd hi hj, hin, hjn]
    · rw [if_neg hij, if_neg fun h => hij (hpair.mp h)]
  · next hnone =>
    rw [if_neg]
    intro h
    have hl : placeOf? "location" fields ≠ none := fun hn =>
      placeOf?_eq_none_iff.mp hn (h.subset (by simp))
    have hr : placeOf? "resource_group_name" fields ≠ none := fun hn =>
      placeOf?_eq_none_iff.mp hn (h.subset (by simp))
    obtain ⟨i, hi⟩ := Option.ne_none_iff_exists'.mp hl
    obtain ⟨j, hj⟩ := Option.ne_none_iff_exists'.mp hr
    exact hnone i j hi hj

/-! ### When the optional fields stay as declared -/

/-- In a list without repeats, the first member of two kinds is of the second
kind just when one of these stands before the first member of the first kind. -/
theorem any_find?_iff {α : Type} {p q : α → Bool} (hpq : ∀ a, p a → q a = false) :
    ∀ l : List α, l.Nodup → ((l.any p && (l.find? fun a => p a || q a).any q) = true ↔
      ∃ first, (l.filter p).head? = some first ∧ ∃ a ∈ l.filter q, [a, first].Sublist l)
  | [], _ => by simp
  | b :: l, hd => by
    obtain ⟨hb, hd⟩ := List.nodup_cons.mp hd
    have ih := any_find?_iff hpq l hd
    cases hp : p b with
    | true =>
      have hq : q b = false := hpq b hp
      simp only [List.any_cons, hp, Bool.true_or, List.find?_cons_of_pos, Bool.true_and,
        Option.any_some, hq, Bool.false_eq_true, false_iff, not_exists, not_and]
      rintro first hfirst a ha hs
      simp only [List.filter_cons, hp, if_true, List.head?_cons, Option.some.injEq] at hfirst
      subst hfirst
      have hab : a ≠ b := by
        rintro rfl
        simp [hq] at ha
      cases hs with
      | cons _ hs => exact hb (hs.subset (by simp))
      | cons_cons _ _ => exact hab rfl
    | false =>
      cases hq : q b with
      | true =>
        simp only [List.any_cons, hp, Bool.false_or, List.find?_cons, hq, Bool.or_true,
          Option.any_some, Bool.and_true, List.filter_cons, if_true, Bool.false_eq_true, if_false]
        constructor
        · intro hany
          obtain ⟨c, hc, hpc⟩ := List.any_eq_true.mp hany
          have hne : (l.filter p) ≠ [] := List.ne_nil_of_mem (List.mem_filter.mpr ⟨hc, hpc⟩)
          obtain ⟨first, rest, hfr⟩ := List.exists_cons_of_ne_nil hne
          have hfirst : first ∈ l := (List.mem_filter.mp (hfr ▸ List.mem_cons_self)).1
          exact ⟨first, by rw [hfr]; rfl, b, List.mem_cons_self,
            (List.singleton_sublist.mpr hfirst).cons_cons b⟩
        · rintro ⟨first, hfirst, -⟩
          obtain ⟨hl, hpf⟩ := List.mem_filter.mp (List.mem_of_head? hfirst)
          exact List.any_eq_true.mpr ⟨first, hl, hpf⟩
      | false =>
        simp only [List.any_cons, hp, hq, Bool.false_or, List.find?_cons, Bool.or_self, ih,
          List.filter_cons, Bool.false_eq_true, if_false]
        refine exists_congr fun first => and_congr_right fun _ => exists_congr fun a =>
          and_congr_right fun ha => ⟨fun h => h.cons b, fun h => ?_⟩
        cases h with
        | cons _ h => exact h
        | cons_cons _ _ => simp [hq] at ha

/-- The optional fields stay as declared just when one of them leads. -/
theorem keepsOptionalOrder_iff (hd : fields.Nodup) :
    keepsOptionalOrder (groupOf ids) fields = true ↔ OptionalLeads ids fields := by
  rw [OptionalLeads, ← groupMembers_required, ← groupMembers_optional]
  exact any_find?_iff (p := fun f => decide (groupOf ids f = .required))
    (q := fun f => decide (groupOf ids f = .optional))
    (fun f h => by simp [of_decide_eq_true h]) fields hd

/-! ### The canonical order -/

/-- Fields with different names that stand by name have their names in order. -/
theorem names_lt_of_pairwise (hd : (fields.map (·.name)).Nodup)
    (h : fields.Pairwise fun f g => f.name ≤ g.name) : (fields.map (·.name)).Pairwise (· < ·) := by
  refine (List.pairwise_map.mpr h).imp₂ (fun a b hle hne => ?_) hd
  exact Std.lt_of_le_of_ne hle hne

/-- Fields sorted by name have their names in order. -/
theorem names_lt_sortByName (hd : (fields.map (·.name)).Nodup) :
    ((sortByName fields).map (·.name)).Pairwise (· < ·) :=
  names_lt_of_pairwise (((sortByName_perm fields).map _).nodup_iff.mpr hd)
    (sortByName_pairwise fields)

/-- Fields of one group have different names, if all fields have. -/
theorem nodup_names_groupMembers (hd : (fields.map (·.name)).Nodup) (group : Field → FieldGroup)
    (g : FieldGroup) : ((groupMembers group g fields).map (·.name)).Nodup :=
  hd.sublist (List.filter_sublist.map _)

/-- The identifier group is the identifier backwards. -/
theorem names_identifier (hd : (fields.map (·.name)).Nodup) (ids : Option (List String)) :
    (sortByIdentifier (ids.getD []) (groupMembers (groupOf ids) .identifier fields)).map (·.name) =
      (ids.getD []).eraseDups.reverse.filter fun id =>
        id ≠ "tags" ∧ ∃ f ∈ fields, f.name = id ∧ ¬f.isComputedOnly := by
  rw [map_name_sortByIdentifier (nodup_names_groupMembers hd _ _)]
  refine List.filter_congr fun id hid => decide_eq_decide.mpr ?_
  have hid : id ∈ ids.getD [] := mem_identifierOrder.mp hid
  simp only [mem_groupMembers, groupOf_eq_identifier_iff]
  constructor
  · rintro ⟨f, ⟨hf, -, ht, hc⟩, rfl⟩
    exact ⟨ht, f, hf, rfl, hc⟩
  · rintro ⟨ht, f, hf, rfl, hc⟩
    exact ⟨f, ⟨hf, hid, ht, hc⟩, rfl⟩

/-- The location group holds the location, if it is there at all. -/
theorem names_location (hd : (fields.map (·.name)).Nodup) (ids : Option (List String)) :
    (groupMembers (groupOf ids) .location fields).map (·.name) =
      if ids.isSome ∧ "location" ∉ ids.getD [] ∧
        ∃ f ∈ fields, f.name = "location" ∧ ¬f.isComputedOnly
      then ["location"] else [] := by
  rw [groupMembers, map_name_filter_of_name hd fun f h => (groupOf_eq_location_iff.mp h).2.1]
  simp only [groupOf_eq_location_iff]
  refine if_congr ?_ rfl rfl
  constructor
  · rintro ⟨f, hf, ⟨hs, hl⟩, h⟩
    exact ⟨hs, hl, f, hf, h⟩
  · rintro ⟨hs, hl, f, hf, h⟩
    exact ⟨f, hf, ⟨hs, hl⟩, h⟩

theorem names_computedLocation (hd : (fields.map (·.name)).Nodup) (ids : Option (List String)) :
    (groupMembers (groupOf ids) .computedLocation fields).map (·.name) =
      if ∃ f ∈ fields, f.name = "location" ∧ f.isComputedOnly then ["location"] else [] := by
  rw [groupMembers, map_name_filter_of_name hd fun f h => (groupOf_eq_computedLocation_iff.mp h).1]
  simp only [groupOf_eq_computedLocation_iff]

theorem names_tags (hd : (fields.map (·.name)).Nodup) (ids : Option (List String)) :
    (groupMembers (groupOf ids) .tags fields).map (·.name) =
      if ∃ f ∈ fields, f.name = "tags" then ["tags"] else [] := by
  rw [groupMembers, map_name_filter_of_name hd fun f h => groupOf_eq_tags_iff.mp h]
  simp only [groupOf_eq_tags_iff]

/-- The names of the segments, as blocks. -/
def topLevelBlocks (ids : Option (List String)) (fields : List Field) : Blocks :=
  let names g := (topLevelSegment ids (keepsOptionalOrder (groupOf ids) fields)
    (groupMembers (groupOf ids) g fields) g).map (·.name)
  ⟨names .identifier, names .location, names .required, names .optional, names .computedLocation,
    names .computed, names .tags⟩

theorem map_name_topLevelOrder (ids : Option (List String)) (fields : List Field) :
    (topLevelOrder ids fields).map (·.name) = (topLevelBlocks ids fields).names := by
  simp only [topLevelOrder, List.map_append]
  rfl

/-- The segments of a map with different names are the blocks of the canonical order. -/
theorem canonical_topLevelBlocks (hd : (fields.map (·.name)).Nodup) (ids : Option (List String)) :
    (topLevelBlocks ids fields).Canonical ids fields where
  identifier := names_identifier hd ids
  location := names_location hd ids
  required := by
    show (resourceGroupFirst _).map _ = _
    rw [map_name_resourceGroupFirst (nodup_names_groupMembers hd _ _), groupMembers_required]
  optional_perm := by
    rw [← groupMembers_optional]
    exact (topLevelSegment_perm ids _ fields .optional).map _
  optional_kept h := by
    have hkeep := (keepsOptionalOrder_iff hd.of_map).mpr h
    simp only [topLevelBlocks, topLevelSegment, hkeep, if_true, groupMembers_optional]
  optional_sorted h := by
    have hkeep := mt (keepsOptionalOrder_iff hd.of_map).mp h
    simp only [topLevelBlocks, topLevelSegment, hkeep]
    exact names_lt_sortByName (nodup_names_groupMembers hd _ _)
  computedLocation := names_computedLocation hd ids
  computed_perm := by
    rw [← groupMembers_computed]
    exact (topLevelSegment_perm ids _ fields .computed).map _
  computed_sorted := names_lt_sortByName (nodup_names_groupMembers hd _ _)
  tags := names_tags hd ids

/-- **The canonical order.** The expected order of a top-level map with different
names is a permutation of the names, made of the blocks of the canonical order. -/
theorem expectedOrder_canonical (hd : (fields.map (·.name)).Nodup)
    (ids : Resolution (List String)) :
    (expectedOrder fields ids false).Perm (fields.map (·.name)) ∧
      ∃ b : Blocks, b.Canonical ids.value? fields ∧ expectedOrder fields ids false = b.names :=
  ⟨expectedOrder_perm fields ids false, topLevelBlocks ids.value? fields,
    canonical_topLevelBlocks hd ids.value?, map_name_topLevelOrder ids.value? fields⟩

/-- Fields of every block, with two required fields that the identifier names. -/
def storageFields : List Field :=
  [⟨"tags", { optional := true }, {}⟩, ⟨"zone", { optional := true }, {}⟩,
    ⟨"location", { required := true }, {}⟩, ⟨"endpoint", { computed := true }, {}⟩,
    ⟨"name", { required := true }, {}⟩, ⟨"sku", { required := true }, {}⟩,
    ⟨"account", {}, {}⟩, ⟨"group_id", { required := true }, {}⟩]

/-- An identifier that names a field twice, the tags, and a field that is not there. -/
theorem expectedOrder_canonical_storage :
    (storageFields.map (·.name)).Nodup ∧
      ∃ b : Blocks,
        b.Canonical (some ["group_id", "name", "group_id", "tags", "gone"]) storageFields ∧
        b.names = ["name", "group_id", "location", "sku", "zone", "account", "endpoint", "tags"] := by
  have hd : (storageFields.map (·.name)).Nodup := by decide
  obtain ⟨-, b, hb, he⟩ :=
    expectedOrder_canonical hd (.resolved ["group_id", "name", "group_id", "tags", "gone"])
  exact ⟨hd, b, hb, he ▸ by decide +kernel⟩

end FieldOrder
