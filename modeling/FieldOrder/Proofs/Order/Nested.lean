/-
# The order of a nested map is one sort

The fields of a nested map stand in three groups, each sorted by name. The same order
comes from a single stable sort, by what the flags tell first and by the bytes of the
name second (`nestedOrder_eq_mergeSort`): a list that is sorted, and in which those of
one key stand as declared, is the only one of this kind (`eq_mergeSort_of_key`).

From this follows what the order forgets (`expectedOrder_nested`): the identifier, how
fields with different names were declared, and what the names are besides their order.
So no name has a place of its own.

Key definitions: `Field.nestedClass`, `Field.nestedLE`, `Field.renamed`.
Key theorems: `filter_mergeSort_of_key`, `eq_mergeSort_of_key`,
`nestedOrder_eq_mergeSort`, `expectedOrder_nested`.
-/
import FieldOrder.Proofs.Order.Groups
import FieldOrder.Proofs.Text.Bytes

namespace FieldOrder

/-! ### Stable sorting by a key -/

section

variable {α κ : Type} [DecidableEq κ] {key : α → κ} {le : α → α → Bool}

/-- Sorted lists are equal when those of each key are the same in both. -/
theorem eq_of_pairwise_of_filter_key (antisymm : ∀ a b, le a b → le b a → key a = key b) :
    ∀ {l l' : List α}, l.Pairwise (le · ·) → l'.Pairwise (le · ·) →
      (∀ a, (l.filter fun b => key b = key a) = l'.filter fun b => key b = key a) → l = l'
  | [], [], _, _, _ => rfl
  | [], a :: _, _, _, h => by simpa using h a
  | a :: _, [], _, _, h => by simpa using h a
  | a :: l, b :: l', hl, hl', h => by
    obtain ⟨ha, hrest⟩ := List.pairwise_cons.mp hl
    obtain ⟨hb, hrest'⟩ := List.pairwise_cons.mp hl'
    have hmem : a ∈ b :: l' := by
      have ha : a ∈ (a :: l).filter fun c => key c = key a := by simp
      rw [h a] at ha
      exact List.mem_of_mem_filter ha
    have hmem' : b ∈ a :: l := by
      have hb : b ∈ (b :: l').filter fun c => key c = key b := by simp
      rw [← h b] at hb
      exact List.mem_of_mem_filter hb
    have hkey : key a = key b := by
      rcases List.mem_cons.mp hmem with rfl | hmem
      · rfl
      rcases List.mem_cons.mp hmem' with rfl | hmem'
      · rfl
      exact antisymm a b (ha b hmem') (hb a hmem)
    obtain rfl : a = b := by
      have hhead := h a
      rw [List.filter_cons_of_pos (by simp), List.filter_cons_of_pos (by simp [hkey])] at hhead
      exact (List.cons.inj hhead).1
    have htail : ∀ c, (l.filter fun d => key d = key c) = l'.filter fun d => key d = key c := by
      intro c
      have hc := h c
      rw [List.filter_cons, List.filter_cons] at hc
      split at hc
      · exact (List.cons.inj hc).2
      · exact hc
    rw [eq_of_pairwise_of_filter_key antisymm hrest hrest' htail]

variable (trans : ∀ a b c, le a b → le b c → le a c) (total : ∀ a b, le a b || le b a)

include trans total

/-- Sorting leaves those of one key as they stand. -/
theorem filter_mergeSort_of_key (hkey : ∀ a b, key a = key b → le a b) (k : κ) (l : List α) :
    ((l.mergeSort le).filter fun a => key a = k) = l.filter fun a => key a = k := by
  have hsorted : (l.filter fun a => key a = k).Pairwise (le · ·) := by
    refine List.Pairwise.imp_of_mem (R := fun _ _ => True) (fun {a b} ha hb _ => ?_)
      (List.pairwise_of_forall fun _ _ => trivial)
    have ha := (List.mem_filter.mp ha).2
    have hb := (List.mem_filter.mp hb).2
    exact hkey a b ((of_decide_eq_true ha).trans (of_decide_eq_true hb).symm)
  have hsub := (List.sublist_mergeSort trans total hsorted List.filter_sublist).filter
    fun a => decide (key a = k)
  rw [List.filter_filter, List.filter_congr fun a _ => Bool.and_self _] at hsub
  exact (hsub.eq_of_length ((List.mergeSort_perm l le).filter _).length_eq.symm).symm

/-- A sorted list in which those of each key stand as in another list is this list
sorted. -/
theorem eq_mergeSort_of_key (hkey : ∀ a b, key a = key b ↔ le a b ∧ le b a) {l l' : List α}
    (hsorted : l'.Pairwise (le · ·))
    (hfilter : ∀ a, (l'.filter fun b => key b = key a) = l.filter fun b => key b = key a) :
    l' = l.mergeSort le := by
  refine eq_of_pairwise_of_filter_key (fun a b hab hba => (hkey a b).mpr ⟨hab, hba⟩) hsorted
    (List.pairwise_mergeSort trans total l) fun a => ?_
  rw [filter_mergeSort_of_key trans total fun a b h => ((hkey a b).mp h).1]
  exact hfilter a

end

/-! ### The order of fields in a nested map -/

namespace Field

/-- The place of a field by its flags: the required first, and last those that are
computed and cannot be set. -/
def nestedClass (f : Field) : Nat :=
  if f.flags.required then 0 else if f.isComputedOnly then 2 else 1

/-- Whether a field may stand before another in a nested map: by their flags, and by the
bytes of their names if these tell no difference. -/
def nestedLE (f g : Field) : Bool :=
  f.nestedClass < g.nestedClass ||
    (f.nestedClass == g.nestedClass && decide (Text.bytes f.name ≤ Text.bytes g.name))

/-- The field under another name. -/
def renamed (rename : String → String) (f : Field) : Field := { f with name := rename f.name }

theorem nestedLE_iff {f g : Field} : f.nestedLE g ↔
    f.nestedClass < g.nestedClass ∨ f.nestedClass = g.nestedClass ∧ f.name ≤ g.name := by
  simp [nestedLE, Text.bytes_le_bytes_iff]

theorem nestedLE_trans (f g h : Field) (hfg : f.nestedLE g) (hgh : g.nestedLE h) :
    f.nestedLE h := by
  rw [nestedLE_iff] at *
  rcases hfg with hfg | ⟨hfg, hname⟩
  · exact .inl (by omega)
  · rcases hgh with hgh | ⟨hgh, hname'⟩
    · exact .inl (by omega)
    · exact .inr ⟨hfg.trans hgh, String.le_trans hname hname'⟩

theorem nestedLE_total (f g : Field) : f.nestedLE g || g.nestedLE f := by
  rw [Bool.or_eq_true, nestedLE_iff, nestedLE_iff]
  rcases Nat.lt_trichotomy f.nestedClass g.nestedClass with hlt | heq | hgt
  · exact .inl (.inl hlt)
  · exact (String.le_total f.name g.name).imp (fun h => .inr ⟨heq, h⟩) fun h => .inr ⟨heq.symm, h⟩
  · exact .inr (.inl hgt)

/-- Two fields may stand in either order when flags and name are alike. -/
theorem eq_key_iff (f g : Field) : (f.nestedClass, f.name) = (g.nestedClass, g.name) ↔
    f.nestedLE g ∧ g.nestedLE f := by
  rw [nestedLE_iff, nestedLE_iff, Prod.mk.injEq]
  constructor
  · rintro ⟨hclass, hname⟩
    exact ⟨.inr ⟨hclass, hname ▸ String.le_refl _⟩, .inr ⟨hclass.symm, hname ▸ String.le_refl _⟩⟩
  · rintro ⟨hfg, hgf⟩
    rcases hfg with hfg | ⟨hclass, hfg⟩
    · exact absurd hfg (by omega)
    · exact ⟨hclass, String.le_antisymm hfg (hgf.resolve_left (by omega)).2⟩

end Field

/-- The class of the fields in a group. -/
def FieldGroup.nestedClass : FieldGroup → Nat
  | .required => 0
  | .optional => 1
  | _ => 2

theorem nestedClass_flagGroup (f : Field) : (flagGroup f).nestedClass = f.nestedClass := by
  unfold flagGroup Field.nestedClass
  by_cases hcomputed : f.isComputedOnly = true
  · have hrequired : f.flags.required = false := by
      simp only [Field.isComputedOnly, Flags.isComputedOnly, Bool.and_eq_true] at hcomputed
      simpa using hcomputed.1.2
    simp [hcomputed, hrequired, FieldGroup.nestedClass]
  · rw [if_neg hcomputed, if_neg hcomputed]
    split <;> rfl

/-- The fields of a class are the members of its group. -/
theorem nestedClass_eq_iff {f : Field} {g : FieldGroup} (hg : g ∈ FieldGroup.nested) :
    f.nestedClass = g.nestedClass ↔ flagGroup f = g := by
  rw [← nestedClass_flagGroup]
  have hf := flagGroup_mem_nested f
  generalize flagGroup f = g' at *
  revert g g'
  decide

/-- The members of a group, sorted by name, are sorted. -/
theorem pairwise_sortByName_groupMembers (fields : List Field) (g : FieldGroup) :
    (sortByName (groupMembers flagGroup g fields)).Pairwise (·.nestedLE ·) := by
  refine List.Pairwise.imp_of_mem (fun {f h} hf hh hname => ?_) (sortByName_pairwise _)
  have hclass : ∀ f ∈ sortByName (groupMembers flagGroup g fields),
      f.nestedClass = g.nestedClass := by
    intro f hf
    have hgroup := (mem_groupMembers.mp ((sortByName_perm _).mem_iff.mp hf)).2
    rw [← nestedClass_flagGroup, hgroup]
  exact Field.nestedLE_iff.mpr (.inr ⟨(hclass f hf).trans (hclass h hh).symm, hname⟩)

theorem nestedOrder_pairwise (fields : List Field) :
    (nestedOrder fields).Pairwise (·.nestedLE ·) := by
  rw [nestedOrder_eq, List.pairwise_flatMap]
  refine ⟨fun g _ => pairwise_sortByName_groupMembers fields g, ?_⟩
  have hgroups : FieldGroup.nested.Pairwise fun g g' => g.nestedClass < g'.nestedClass := by decide
  refine hgroups.imp fun {g g'} hlt f hf f' hf' => ?_
  have hg := (mem_groupMembers.mp ((sortByName_perm _).mem_iff.mp hf)).2
  have hg' := (mem_groupMembers.mp ((sortByName_perm _).mem_iff.mp hf')).2
  rw [Field.nestedLE_iff, ← nestedClass_flagGroup, ← nestedClass_flagGroup, hg, hg']
  exact .inl hlt

/-- Fields of one name stand as declared when fields are sorted by name. -/
theorem filter_name_sortByName (name : String) (fields : List Field) :
    ((sortByName fields).filter fun f => f.name = name) = fields.filter fun f => f.name = name := by
  refine filter_mergeSort_of_key ?_ ?_ ?_ name fields
  · intro f g h hfg hgh
    simp only [decide_eq_true_eq] at *
    exact String.le_trans hfg hgh
  · intro f g
    simpa using String.le_total f.name g.name
  · intro f g h
    simp [h]

/-- **One sort.** The order of a nested map is the stable sort of its fields by flags and
name. -/
theorem nestedOrder_eq_mergeSort (fields : List Field) :
    nestedOrder fields = fields.mergeSort Field.nestedLE := by
  refine eq_mergeSort_of_key Field.nestedLE_trans Field.nestedLE_total Field.eq_key_iff
    (nestedOrder_pairwise fields) fun f => ?_
  have hgroup := flagGroup_mem_nested f
  -- those of a key are those of its name among the members of its group
  have hkey : ∀ l : List Field,
      (l.filter fun h => (h.nestedClass, h.name) = (f.nestedClass, f.name)) =
        (groupMembers flagGroup (flagGroup f) l).filter fun h => h.name = f.name := by
    intro l
    rw [groupMembers, List.filter_filter]
    refine List.filter_congr fun h _ => ?_
    rw [← nestedClass_flagGroup f, ← Bool.decide_and, decide_eq_decide, Prod.mk.injEq,
      nestedClass_eq_iff hgroup, and_comm]
  rw [hkey, hkey, nestedOrder_eq,
    groupMembers_flatMap FieldGroup.nodup_nested hgroup fun g => sortByName_perm _,
    filter_name_sortByName]

/-! ### What the order forgets -/

/-- Fields with different names have one order, in whatever order they come. -/
theorem mergeSort_nestedLE_eq_of_perm {fields fields' : List Field}
    (hd : (fields.map (·.name)).Nodup) (hp : fields'.Perm fields) :
    fields'.mergeSort Field.nestedLE = fields.mergeSort Field.nestedLE := by
  have hsorted : ∀ l : List Field, (l.mergeSort Field.nestedLE).Pairwise (·.nestedLE ·) :=
    List.pairwise_mergeSort Field.nestedLE_trans Field.nestedLE_total
  have hperm : (fields'.mergeSort Field.nestedLE).Perm (fields.mergeSort Field.nestedLE) :=
    ((List.mergeSort_perm _ _).trans hp).trans (List.mergeSort_perm _ _).symm
  refine hperm.eq_of_pairwise ?_ (hsorted fields') (hsorted fields)
  intro f g hf hg hfg hgf
  have hname : f.name = g.name := (Prod.mk.inj ((f.eq_key_iff g).mpr ⟨hfg, hgf⟩)).2
  exact List.inj_on_of_nodup_map hd (hp.subset (List.mem_mergeSort.mp hf))
    (List.mem_mergeSort.mp hg) hname

/-- Fields are sorted alike under other names, if these have the same order. -/
theorem map_renamed_mergeSort {rename : String → String} {fields : List Field}
    (hrename : ∀ f ∈ fields, ∀ g ∈ fields, rename f.name ≤ rename g.name ↔ f.name ≤ g.name) :
    (fields.mergeSort Field.nestedLE).map (·.renamed rename) =
      (fields.map (·.renamed rename)).mergeSort Field.nestedLE := by
  refine List.map_mergeSort fun f hf g hg => ?_
  rw [Bool.eq_iff_iff, Field.nestedLE_iff, Field.nestedLE_iff]
  exact or_congr Iff.rfl (and_congr_right fun _ => (hrename f hf g hg).symm)

/-- **The nested order.** The names of the fields of a nested map are expected in the order
of one stable sort: by what the flags tell, then by the bytes of the name. The identifier
has no part in it, and no name has a place of its own, since under other names with the
same order the fields stand alike. Every field is kept; and fields with different names
have the same order however they were declared. -/
theorem expectedOrder_nested (fields : List Field) (ids : Resolution (List String)) :
    expectedOrder fields ids true = (fields.mergeSort Field.nestedLE).map (·.name) ∧
    (∀ ids', expectedOrder fields ids' true = expectedOrder fields ids true) ∧
    (∀ rename : String → String,
      (∀ f ∈ fields, ∀ g ∈ fields, rename f.name ≤ rename g.name ↔ f.name ≤ g.name) →
      expectedOrder (fields.map (·.renamed rename)) ids true =
        (expectedOrder fields ids true).map rename) ∧
    (expectedOrder fields ids true).Perm (fields.map (·.name)) ∧
    ((fields.map (·.name)).Nodup → ∀ fields' : List Field, fields'.Perm fields →
      expectedOrder fields' ids true = expectedOrder fields ids true) := by
  have hsort : ∀ l : List Field,
      expectedOrder l ids true = (l.mergeSort Field.nestedLE).map (·.name) := by
    intro l
    rw [← nestedOrder_eq_mergeSort]
    rfl
  refine ⟨hsort fields, fun _ => rfl, fun rename hrename => ?_, expectedOrder_perm fields ids true,
    fun hd fields' hp => ?_⟩
  · rw [hsort, hsort, ← map_renamed_mergeSort hrename, List.map_map, List.map_map]
    rfl
  · rw [hsort, hsort, mergeSort_nestedLE_eq_of_perm hd hp]

/-- A nested map with the names that have a place of their own at the top level. -/
def networkRule : List Field :=
  [⟨"tags", { optional := true }, {}⟩, ⟨"location", { computed := true }, {}⟩,
    ⟨"name", { required := true, computed := true }, {}⟩, ⟨"zones", {}, {}⟩,
    ⟨"resource_group_name", { required := true }, {}⟩]

/-- The rule declared backwards, and with all its names made longer. -/
theorem expectedOrder_nested_networkRule :
    (networkRule.map (·.name)).Nodup ∧ networkRule.reverse.Perm networkRule ∧
      expectedOrder networkRule.reverse (.resolved ["zones"]) true =
        ["name", "resource_group_name", "tags", "zones", "location"] ∧
      (∀ f ∈ networkRule, ∀ g ∈ networkRule, "x_" ++ f.name ≤ "x_" ++ g.name ↔ f.name ≤ g.name) ∧
      expectedOrder (networkRule.map (·.renamed ("x_" ++ ·))) .unresolvable true =
        ["x_name", "x_resource_group_name", "x_tags", "x_zones", "x_location"] := by
  have hd : (networkRule.map (·.name)).Nodup := by decide
  have hp : networkRule.reverse.Perm networkRule := List.reverse_perm _
  have hrename : ∀ f ∈ networkRule, ∀ g ∈ networkRule,
      "x_" ++ f.name ≤ "x_" ++ g.name ↔ f.name ≤ g.name := by decide +kernel
  -- inside their groups the fields are declared by name
  have hsorted : ∀ g ∈ FieldGroup.nested,
      (groupMembers flagGroup g networkRule).Pairwise fun f h => f.name ≤ h.name := by
    decide +kernel
  have horder : ∀ ids, expectedOrder networkRule ids true =
      ["name", "resource_group_name", "tags", "zones", "location"] := by
    intro ids
    have hnested : nestedOrder networkRule =
        FieldGroup.nested.flatMap fun g => groupMembers flagGroup g networkRule := by
      rw [nestedOrder_eq]
      exact List.flatMap_congr fun g hg => sortByName_of_pairwise (hsorted g hg)
    show (nestedOrder networkRule).map (·.name) = _
    rw [hnested]
    decide +kernel
  obtain ⟨-, -, hname, -, hany⟩ := expectedOrder_nested networkRule (.resolved ["zones"])
  refine ⟨hd, hp, (hany hd _ hp).trans (horder _), hrename, ?_⟩
  obtain ⟨-, hids, -⟩ := expectedOrder_nested (networkRule.map (·.renamed ("x_" ++ ·)))
    (.resolved ["zones"])
  rw [hids, hname ("x_" ++ ·) hrename, horder]
  decide +kernel

end FieldOrder
