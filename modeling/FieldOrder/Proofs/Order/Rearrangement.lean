/-
# Putting a map in order, again and again

Who follows a finding writes the fields in the expected order, and the check is
run on the result. The order of the new map is not always the old order: the
optional fields, which stayed as declared because one of them led the required
fields, lead no more, and are now sorted. After that nothing changes.

So on lists of fields the order is stable at the second step
(`orderFields_third`), and at the first step just when optional fields that lead
are sorted already (`orderFields_second_eq_iff`). `rearrange_converges` says the
same of maps and findings.

Key definitions: `SchemaMap.Settled`, `SchemaMap.rearrange`.
Key theorems: `topLevelOrder_second`, `orderFields_third`,
`orderFields_second_eq_iff`, `SchemaMap.Settled.finding?_isSome_iff`,
`rearrange_converges`.
-/
import FieldOrder.Proofs.Order.Canonical
import FieldOrder.Proofs.Order.Finding

namespace FieldOrder

variable {ids : Option (List String)} {fields : List Field}

/-! ### Lists with different names -/

/-- Lists of the same fields are equal when their names are. -/
theorem eq_of_map_name_eq {fields' : List Field} (hd : (fields.map (·.name)).Nodup)
    (hp : fields'.Perm fields) (h : fields'.map (·.name) = fields.map (·.name)) :
    fields' = fields := by
  have hlen : fields'.length = fields.length := hp.length_eq
  refine List.ext_getElem hlen fun i h1 h2 => ?_
  have hname : fields'[i].name = fields[i].name := by
    have := congrArg (fun l => l[i]?) h
    simpa [h1, h2] using this
  exact List.inj_on_of_nodup_map hd (hp.subset (List.getElem_mem h1)) (List.getElem_mem h2) hname

/-! ### Groups put in order twice -/

/-- In an identifier's order the members stay as they are. -/
theorem sortByIdentifier_sortByIdentifier (ids : List String) (fields : List Field) :
    sortByIdentifier ids (sortByIdentifier ids fields) = sortByIdentifier ids fields := by
  refine List.flatMap_congr fun id hid => ?_
  exact filter_flatMap_of_key Field.name (fun id => fields.filter fun f => f.name = id)
    (fun k f hf => by simpa using (List.mem_filter.mp hf).2) _ id (nodup_identifierOrder ids) hid

/-- Names that were put in order by the resource group are in order. -/
theorem resourceGroupAhead_resourceGroupAhead {names : List String} (hd : names.Nodup) :
    resourceGroupAhead (resourceGroupAhead names) = resourceGroupAhead names := by
  by_cases h : ["location", "resource_group_name"].Sublist names
  · have hmoved : resourceGroupAhead names =
        names.map (Equiv.swap "location" "resource_group_name") := if_pos h
    rw [hmoved]
    refine if_neg fun h' => ?_
    -- the exchange undone puts the two in the other order, and both orders cannot be
    have hback := h'.map (Equiv.swap "location" "resource_group_name")
    simp only [List.map_map, Function.comp_def, Equiv.swap_apply_self, List.map_id', List.map_cons,
      Equiv.swap_apply_left, Equiv.swap_apply_right, List.map_nil] at hback
    have h1 := idxOf_lt_of_pair_sublist hd h
    have h2 := idxOf_lt_of_pair_sublist hd hback
    omega
  · have hkept : resourceGroupAhead names = names := if_neg h
    rw [hkept, hkept]

theorem resourceGroupFirst_resourceGroupFirst (hd : (fields.map (·.name)).Nodup) :
    resourceGroupFirst (resourceGroupFirst fields) = resourceGroupFirst fields := by
  have hp := resourceGroupFirst_perm fields
  have hd' : ((resourceGroupFirst fields).map (·.name)).Nodup := (hp.map _).nodup_iff.mpr hd
  refine eq_of_map_name_eq hd' (resourceGroupFirst_perm _) ?_
  rw [map_name_resourceGroupFirst hd', map_name_resourceGroupFirst hd,
    resourceGroupAhead_resourceGroupAhead hd]

/-- A segment put in order again, now with the optional fields sorted. -/
theorem topLevelSegment_topLevelSegment (ids : Option (List String)) (keep : Bool)
    {members : List Field} (hd : (members.map (·.name)).Nodup) (g : FieldGroup) :
    topLevelSegment ids false (topLevelSegment ids keep members g) g =
      topLevelSegment ids false members g := by
  cases g with
  | identifier => exact sortByIdentifier_sortByIdentifier _ _
  | required => exact resourceGroupFirst_resourceGroupFirst hd
  | optional =>
    cases keep with
    | true => rfl
    | false => exact sortByName_sortByName members
  | computed => exact sortByName_sortByName members
  | location | computedLocation | tags => rfl

/-! ### The order of an ordered list -/

/-- The members of a group stand in the order as its segment. -/
theorem groupMembers_topLevelOrder (ids : Option (List String)) (fields : List Field)
    (g : FieldGroup) : groupMembers (groupOf ids) g (topLevelOrder ids fields) =
      topLevelSegment ids (keepsOptionalOrder (groupOf ids) fields)
        (groupMembers (groupOf ids) g fields) g := by
  rw [topLevelOrder_eq]
  exact groupMembers_flatMap FieldGroup.nodup_all (FieldGroup.mem_all g)
    (topLevelSegment_perm ids _ fields)

/-- In an ordered list no optional field leads: the required ones stand before. -/
theorem keepsOptionalOrder_topLevelOrder (ids : Option (List String)) (fields : List Field) :
    keepsOptionalOrder (groupOf ids) (topLevelOrder ids fields) = false := by
  set keep := keepsOptionalOrder (groupOf ids) fields
  let segment g := topLevelSegment ids keep (groupMembers (groupOf ids) g fields) g
  have hseg : ∀ g, ∀ f ∈ segment g, groupOf ids f = g := fun g f hf =>
    (mem_groupMembers.mp ((topLevelSegment_perm ids keep fields g).subset hf)).2
  have hsplit : topLevelOrder ids fields = (segment .identifier ++ segment .location) ++
      (segment .required ++ ([.optional, .computedLocation, .computed, .tags] : List _).flatMap
        segment) := by
    rw [topLevelOrder_eq]
    simp [FieldGroup.all, segment, keep]
  have hreq : groupMembers (groupOf ids) .required (topLevelOrder ids fields) = segment .required :=
    groupMembers_topLevelOrder ids fields .required
  cases hr : segment .required with
  | nil =>
    -- without required fields the optional ones are sorted
    have hnone : (topLevelOrder ids fields).any (fun f => groupOf ids f = .required) = false := by
      rw [hr, groupMembers, List.filter_eq_nil_iff] at hreq
      simpa using hreq
    simp [keepsOptionalOrder, hnone]
  | cons first rest =>
    have hfirst : groupOf ids first = .required := hseg .required first (hr ▸ List.mem_cons_self)
    have hbefore : (segment .identifier ++ segment .location).find?
        (fun f => groupOf ids f = .required || groupOf ids f = .optional) = none := by
      rw [List.find?_eq_none]
      intro f hf
      rcases List.mem_append.mp hf with hf | hf
      · simp [hseg _ f hf]
      · simp [hseg _ f hf]
    have hfind : (topLevelOrder ids fields).find?
        (fun f => groupOf ids f = .required || groupOf ids f = .optional) = some first := by
      rw [hsplit, List.find?_append, hbefore, hr]
      simp [hfirst]
    simp [keepsOptionalOrder, hfind, hfirst]

/-- The order of an ordered list: the same segments, with the optional fields sorted. -/
theorem topLevelOrder_second (hd : (fields.map (·.name)).Nodup) (ids : Option (List String)) :
    topLevelOrder ids (topLevelOrder ids fields) = FieldGroup.all.flatMap fun g =>
      topLevelSegment ids false (groupMembers (groupOf ids) g fields) g := by
  rw [topLevelOrder_eq ids (topLevelOrder ids fields), keepsOptionalOrder_topLevelOrder]
  refine List.flatMap_congr fun g _ => ?_
  rw [groupMembers_topLevelOrder]
  exact topLevelSegment_topLevelSegment ids _ (nodup_names_groupMembers hd _ g) g

theorem topLevelOrder_third (hd : (fields.map (·.name)).Nodup) (ids : Option (List String)) :
    topLevelOrder ids (topLevelOrder ids (topLevelOrder ids fields)) =
      topLevelOrder ids (topLevelOrder ids fields) := by
  have hd' : ((topLevelOrder ids fields).map (·.name)).Nodup :=
    ((topLevelOrder_perm ids fields).map _).nodup_iff.mpr hd
  rw [topLevelOrder_second hd', topLevelOrder_second hd]
  refine List.flatMap_congr fun g _ => ?_
  rw [groupMembers_topLevelOrder]
  exact topLevelSegment_topLevelSegment ids _ (nodup_names_groupMembers hd _ g) g

/-- The second order differs from the first just when the optional fields were
kept although they are not sorted. -/
theorem topLevelOrder_second_eq_iff (hd : (fields.map (·.name)).Nodup) (ids : Option (List String)) :
    topLevelOrder ids (topLevelOrder ids fields) = topLevelOrder ids fields ↔
      (OptionalLeads ids fields →
        ((optionalFields ids fields).map (·.name)).Pairwise (· ≤ ·)) := by
  rw [← keepsOptionalOrder_iff hd.of_map, List.pairwise_map, ← sortByName_eq_self_iff,
    ← groupMembers_optional]
  constructor
  · intro h hkeep
    have hopt := congrArg (groupMembers (groupOf ids) .optional) h
    rw [groupMembers_topLevelOrder, keepsOptionalOrder_topLevelOrder, groupMembers_topLevelOrder,
      hkeep] at hopt
    exact hopt
  · intro h
    rw [topLevelOrder_second hd, topLevelOrder_eq ids fields]
    refine List.flatMap_congr fun g _ => ?_
    cases g with
    | optional =>
      cases hkeep : keepsOptionalOrder (groupOf ids) fields with
      | true => exact h hkeep
      | false => rfl
    | _ => rfl

/-- Nested fields put in order stay as they are. -/
theorem nestedOrder_nestedOrder (fields : List Field) :
    nestedOrder (nestedOrder fields) = nestedOrder fields := by
  rw [nestedOrder_eq (nestedOrder fields), nestedOrder_eq fields]
  refine List.flatMap_congr fun g hg => ?_
  rw [groupMembers_flatMap FieldGroup.nodup_nested hg fun g => sortByName_perm _]
  exact sortByName_sortByName _

theorem nodup_names_orderFields (hd : (fields.map (·.name)).Nodup) (ids : Resolution (List String))
    (nested : Bool) : ((orderFields ids nested fields).map (·.name)).Nodup :=
  ((orderFields_perm ids nested fields).map _).nodup_iff.mpr hd

/-- The order is stable at the second step. -/
theorem orderFields_third (hd : (fields.map (·.name)).Nodup) (ids : Resolution (List String))
    (nested : Bool) :
    orderFields ids nested (orderFields ids nested (orderFields ids nested fields)) =
      orderFields ids nested (orderFields ids nested fields) := by
  cases nested with
  | true =>
    simp only [orderFields, if_true]
    rw [nestedOrder_nestedOrder]
  | false => exact topLevelOrder_third hd ids.value?

/-- The order is stable at the first step, unless optional fields that lead are
out of order. -/
theorem orderFields_second_eq_iff (hd : (fields.map (·.name)).Nodup)
    (ids : Resolution (List String)) (nested : Bool) :
    orderFields ids nested (orderFields ids nested fields) = orderFields ids nested fields ↔
      (nested = false → OptionalLeads ids.value? fields →
        ((optionalFields ids.value? fields).map (·.name)).Pairwise (· ≤ ·)) := by
  cases nested with
  | true => simp [orderFields, nestedOrder_nestedOrder]
  | false => simpa [orderFields] using topLevelOrder_second_eq_iff hd ids.value?

/-! ### Rearranging a map -/

namespace SchemaMap

/-- The entry of a name. -/
def entry? (m : SchemaMap) (name : String) : Option SchemaEntry :=
  m.entries.find? fun e => e.name = name

/-- The map with its entries in the expected order. -/
def rearrange (m : SchemaMap) (ids : Resolution (List String)) : SchemaMap :=
  { m with entries := (expectedOrder m.knownFields ids m.nested).filterMap m.entry? }

/-- A map with different names, in which every entry is known as a field of its
own name. -/
structure Settled (m : SchemaMap) : Prop where
  nodup : m.actualOrder.Nodup
  known : ∀ e ∈ m.entries, ∃ f, e.field = .resolved f ∧ f.name = e.name

variable {m : SchemaMap} {ids : Resolution (List String)}

/-! ### Settled maps -/

theorem Settled.isKnown (hm : m.Settled) : m.Known := by
  intro e he
  obtain ⟨f, hf, -⟩ := hm.known e he
  rw [hf]
  rfl

theorem Settled.isNamed (hm : m.Settled) : m.Named := by
  intro e he f hf
  obtain ⟨f', hf', hn⟩ := hm.known e he
  rw [hf] at hf'
  cases hf'
  exact hn

theorem Settled.map_name (hm : m.Settled) : m.knownFields.map (·.name) = m.actualOrder :=
  map_name_knownFields hm.isKnown hm.isNamed

theorem Settled.nodup_names (hm : m.Settled) : (m.knownFields.map (·.name)).Nodup :=
  hm.map_name ▸ hm.nodup

/-- In a settled map the entry of a known field's name is the one that holds it. -/
theorem Settled.entry?_name (hm : m.Settled) {f : Field} (hf : f ∈ m.knownFields) :
    ∃ e ∈ m.entries, m.entry? f.name = some e ∧ e.name = f.name ∧ e.field = .resolved f := by
  obtain ⟨e, he, hef⟩ := List.mem_filterMap.mp hf
  obtain ⟨f', hf', hn⟩ := hm.known e he
  obtain rfl : f' = f := by simpa [hf'] using hef
  refine ⟨e, he, ?_, hn.symm, hf'⟩
  have hsome : (m.entry? f'.name).isSome := List.find?_isSome.mpr ⟨e, he, by simp [hn]⟩
  obtain ⟨e', he'⟩ := Option.isSome_iff_exists.mp hsome
  have hname : e'.name = f'.name := by simpa using List.find?_some he'
  have : e' = e := List.inj_on_of_nodup_map hm.nodup (List.mem_of_find?_eq_some he') he
    (hname.trans hn)
  rw [he', this]

/-- Entries looked up by the names of known fields hold these fields. -/
theorem Settled.filterMap_entry? (hm : m.Settled) : ∀ l : List Field, (∀ f ∈ l, f ∈ m.knownFields) →
    ((l.map (·.name)).filterMap m.entry?).map (·.name) = l.map (·.name) ∧
    ((l.map (·.name)).filterMap m.entry?).map (·.field) = l.map .resolved
  | [], _ => ⟨rfl, rfl⟩
  | f :: l, h => by
    obtain ⟨e, -, he, hn, hf⟩ := hm.entry?_name (h f List.mem_cons_self)
    obtain ⟨ih1, ih2⟩ := hm.filterMap_entry? l fun x hx => h x (List.mem_cons_of_mem _ hx)
    rw [List.map_cons, List.filterMap_cons_some he, List.map_cons, List.map_cons, ih1, ih2, hn, hf]
    exact ⟨rfl, rfl⟩

/-- Entries looked up by all names in the order declared are all entries. -/
theorem Settled.filterMap_actualOrder (hm : m.Settled) :
    m.actualOrder.filterMap m.entry? = m.entries := by
  rw [actualOrder, List.filterMap_map]
  have hself : ∀ e ∈ m.entries, (m.entry? ∘ (·.name)) e = some e := by
    intro e he
    obtain ⟨f, hf, hn⟩ := hm.known e he
    have hmem : f ∈ m.knownFields :=
      List.mem_filterMap.mpr ⟨e, he, by simp [hf]⟩
    obtain ⟨e', he', hlook, hn', -⟩ := hm.entry?_name hmem
    have : e' = e := List.inj_on_of_nodup_map hm.nodup he' he (hn'.trans hn)
    simp [← hn, hlook, this]
  rw [List.filterMap_congr hself, List.filterMap_some]

/-! ### The rearranged map -/

theorem Settled.actualOrder_rearrange (hm : m.Settled) (ids : Resolution (List String)) :
    (m.rearrange ids).actualOrder = expectedOrder m.knownFields ids m.nested :=
  (hm.filterMap_entry? _ fun _ hf => (orderFields_perm ids m.nested _).subset hf).1

theorem Settled.knownFields_rearrange (hm : m.Settled) (ids : Resolution (List String)) :
    (m.rearrange ids).knownFields = orderFields ids m.nested m.knownFields := by
  have h := (hm.filterMap_entry? _ fun _ hf => (orderFields_perm ids m.nested _).subset hf).2
  have hcomp : (m.rearrange ids).knownFields =
      ((m.rearrange ids).entries.map (·.field)).filterMap (·.value?) := by
    simp [knownFields, List.filterMap_map]
  rw [hcomp]
  show List.filterMap _ (List.map _ (List.filterMap _ (expectedOrder _ _ _))) = _
  rw [expectedOrder_eq, h, List.filterMap_map]
  exact List.filterMap_some

/-- Rearranging moves the entries, and does nothing else to them. -/
theorem Settled.entries_rearrange_perm (hm : m.Settled) (ids : Resolution (List String)) :
    (m.rearrange ids).entries.Perm m.entries := by
  have hp := expectedOrder_perm_actualOrder hm.isKnown hm.isNamed ids
  have := hp.filterMap m.entry?
  rwa [hm.filterMap_actualOrder] at this

theorem Settled.rearrange (hm : m.Settled) (ids : Resolution (List String)) :
    (m.rearrange ids).Settled where
  nodup := ((hm.entries_rearrange_perm ids).map _).nodup_iff.mpr hm.nodup
  known e he := hm.known e ((hm.entries_rearrange_perm ids).subset he)

/-- A map in the expected order stays as it is. -/
theorem Settled.rearrange_eq_self (hm : m.Settled)
    (h : expectedOrder m.knownFields ids m.nested = m.actualOrder) : m.rearrange ids = m := by
  unfold SchemaMap.rearrange
  rw [h, hm.filterMap_actualOrder]

/-! ### Findings -/

/-- A settled map is found out of order just when it is not exempt and its names
are not the expected ones. -/
theorem Settled.finding?_isSome_iff (hm : m.Settled) (ids : Resolution (List String)) :
    (m.finding? ids).isSome ↔ m.exemption? m.knownFields = none ∧
      expectedOrder m.knownFields ids m.nested ≠ m.actualOrder := by
  rw [Option.isSome_iff_exists]
  constructor
  · rintro ⟨finding, h⟩
    obtain ⟨-, hex, hne, -⟩ := (finding?_eq_some_iff hm.isNamed).mp h
    exact ⟨hex, hne⟩
  · rintro ⟨hex, hne⟩
    exact ⟨_, (finding?_eq_some_iff hm.isNamed).mpr ⟨hm.isKnown, hex, hne, rfl⟩⟩

/-- Whether a map is exempt does not depend on the order of its fields. -/
theorem exemption?_eq_none_of_perm {fields fields' : List Field} (hp : fields'.Perm fields) :
    m.exemption? fields' = none ↔ m.exemption? fields = none := by
  unfold exemption?
  split
  · rfl
  · simp [List.findSome?_eq_none_iff, hp.mem_iff]

/-- A rearranged map is found out of order just when it is not exempt and its
fields move again. -/
theorem Settled.finding?_rearrange_isSome_iff (hm : m.Settled) (ids : Resolution (List String)) :
    ((m.rearrange ids).finding? ids).isSome ↔ m.exemption? m.knownFields = none ∧
      orderFields ids m.nested (orderFields ids m.nested m.knownFields) ≠
        orderFields ids m.nested m.knownFields := by
  have hfields := hm.knownFields_rearrange ids
  have hex : (m.rearrange ids).exemption? (m.rearrange ids).knownFields = none ↔
      m.exemption? m.knownFields = none := by
    rw [hfields]
    exact exemption?_eq_none_of_perm (orderFields_perm ids m.nested _)
  rw [(hm.rearrange ids).finding?_isSome_iff, hex, hfields, hm.actualOrder_rearrange,
    expectedOrder_eq, expectedOrder_eq]
  refine and_congr_right fun _ => not_congr ⟨fun h => ?_, fun h => congrArg _ h⟩
  exact eq_of_map_name_eq (nodup_names_orderFields hm.nodup_names ids m.nested)
    (orderFields_perm ids m.nested _) h

end SchemaMap

/-- **Convergence.** A settled map that is rearranged has the same entries in the
expected order. Rearranged twice it has no finding and rearranging it changes
nothing more. Rearranged once it has one just when it is a top-level map that is
not exempt, and in which optional fields that lead are not in order. -/
theorem rearrange_converges {m : SchemaMap} (hm : m.Settled) (ids : Resolution (List String)) :
    ((m.rearrange ids).entries.Perm m.entries ∧
      (m.rearrange ids).actualOrder = expectedOrder m.knownFields ids m.nested) ∧
    (((m.rearrange ids).rearrange ids).finding? ids = none ∧
      ((m.rearrange ids).rearrange ids).rearrange ids = (m.rearrange ids).rearrange ids) ∧
    (((m.rearrange ids).finding? ids).isSome ↔
      m.nested = false ∧ m.exemption? m.knownFields = none ∧
        OptionalLeads ids.value? m.knownFields ∧
        ¬((optionalFields ids.value? m.knownFields).map (·.name)).Pairwise (· ≤ ·)) := by
  have h1 := hm.rearrange ids
  have h2 := h1.rearrange ids
  have hthird := orderFields_third hm.nodup_names ids m.nested
  refine ⟨⟨hm.entries_rearrange_perm ids, hm.actualOrder_rearrange ids⟩, ⟨?_, ?_⟩, ?_⟩
  · rw [← Option.not_isSome_iff_eq_none, h1.finding?_rearrange_isSome_iff,
      hm.knownFields_rearrange]
    exact fun h => h.2 hthird
  · refine h2.rearrange_eq_self ?_
    rw [h1.knownFields_rearrange, h1.actualOrder_rearrange, hm.knownFields_rearrange]
    exact congrArg (List.map (·.name)) hthird
  · rw [hm.finding?_rearrange_isSome_iff, ne_eq, orderFields_second_eq_iff hm.nodup_names]
    tauto

/-- A top-level map of one required field behind two optional ones out of order. -/
def leadingMap : SchemaMap where
  file := ⟨"disk_resource.go"⟩
  pos := {}
  nested := false
  entries :=
    [⟨"zone", {}, .resolved ⟨"zone", { optional := true }, {}⟩⟩,
      ⟨"account", {}, .resolved ⟨"account", {}, {}⟩⟩,
      ⟨"name", {}, .resolved ⟨"name", { required := true }, {}⟩⟩]

/-- The map that needs two steps. -/
theorem rearrange_converges_leadingMap : leadingMap.Settled ∧
    ((leadingMap.rearrange .unresolvable).finding? .unresolvable).isSome ∧
    ((leadingMap.rearrange .unresolvable).rearrange .unresolvable).finding? .unresolvable = none := by
  have hm : leadingMap.Settled := ⟨by decide, by simp [leadingMap]⟩
  have hlead : OptionalLeads none leadingMap.knownFields :=
    ⟨⟨"name", { required := true }, {}⟩, by decide, ⟨"account", {}, {}⟩, by decide, by decide⟩
  obtain ⟨-, ⟨hnone, -⟩, hfind⟩ := rearrange_converges hm .unresolvable
  exact ⟨hm, hfind.mpr ⟨rfl, by decide, hlead, by decide⟩, hnone⟩

end FieldOrder
