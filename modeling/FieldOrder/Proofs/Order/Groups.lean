/-
# The order puts groups one after the other

Both orders cut the fields into groups, put each group in an order of its own,
and write the groups one after the other. So the order keeps every field
(`expectedOrder_perm`), and the members of one group can be read back from it
(`groupMembers_flatMap`).

Key definitions: `topLevelSegment`, `orderFields`.
Key theorems: `perm_flatMap_filter`, `groupMembers_flatMap`,
`topLevelOrder_eq`, `orderFields_perm`, `expectedOrder_perm`.
-/
import Mathlib.Data.List.Perm.Basic
import Mathlib.Data.List.Nodup
import FieldOrder.Order

namespace FieldOrder

/-! ### Cutting a list by a key -/

section Keys

variable {α κ : Type} [DecidableEq κ]

/-- The members of a list taken key by key are the list again, if the keys are
all there and none comes twice. -/
theorem perm_flatMap_filter (key : α → κ) : ∀ (keys : List κ) (l : List α), keys.Nodup →
    (∀ a ∈ l, key a ∈ keys) → (keys.flatMap fun k => l.filter fun a => key a = k).Perm l
  | [], l, _, h => by
    have hl : l = [] := List.eq_nil_iff_forall_not_mem.mpr fun a ha => by simpa using h a ha
    simp [hl]
  | k :: keys, l, hn, h => by
    obtain ⟨hk, hn⟩ := List.nodup_cons.mp hn
    -- the other keys see only what is left when the members of `k` are taken out
    have hrest : (keys.flatMap fun k' => l.filter fun a => key a = k') =
        keys.flatMap fun k' => (l.filter fun a => ¬key a = k).filter fun a => key a = k' := by
      refine List.flatMap_congr fun k' hk' => ?_
      rw [List.filter_filter]
      refine List.filter_congr fun a _ => ?_
      by_cases hak : key a = k'
      · have : k' ≠ k := fun he => hk (he ▸ hk')
        simp [hak, this]
      · simp [hak]
    have hleft : ∀ a ∈ l.filter fun a => ¬key a = k, key a ∈ keys := by
      intro a ha
      obtain ⟨ha, hne⟩ := List.mem_filter.mp ha
      have := h a ha
      simp only [decide_not, Bool.not_eq_eq_eq_not, Bool.not_true, decide_eq_false_iff_not] at hne
      simpa [hne] using this
    rw [List.flatMap_cons, hrest]
    refine ((perm_flatMap_filter key keys _ hn hleft).append_left _).trans ?_
    simpa using List.filter_append_perm (fun a => decide (key a = k)) l

/-- The members of one key are read back from segments of which each holds the
members of its own key. -/
theorem filter_flatMap_of_key (key : α → κ) (segment : κ → List α)
    (hs : ∀ k, ∀ a ∈ segment k, key a = k) : ∀ (keys : List κ) (k : κ), keys.Nodup → k ∈ keys →
    ((keys.flatMap segment).filter fun a => key a = k) = segment k
  | [], _, _, h => absurd h List.not_mem_nil
  | j :: keys, k, hn, h => by
    obtain ⟨hj, hn⟩ := List.nodup_cons.mp hn
    rw [List.flatMap_cons, List.filter_append]
    by_cases hjk : j = k
    · subst hjk
      have h1 : ((segment j).filter fun a => key a = j) = segment j :=
        List.filter_eq_self.mpr fun a ha => by simp [hs j a ha]
      have h2 : ((keys.flatMap segment).filter fun a => key a = j) = [] := by
        rw [List.filter_eq_nil_iff]
        intro a ha
        obtain ⟨k', hk', ha⟩ := List.mem_flatMap.mp ha
        have : k' ≠ j := fun he => hj (he ▸ hk')
        simpa [hs k' a ha] using this
      rw [h1, h2, List.append_nil]
    · have h1 : ((segment j).filter fun a => key a = k) = [] := by
        rw [List.filter_eq_nil_iff]
        intro a ha
        simpa [hs j a ha] using hjk
      have hk : k ∈ keys := (List.mem_cons.mp h).resolve_left (Ne.symm hjk)
      rw [h1, List.nil_append, filter_flatMap_of_key key segment hs keys k hn hk]

end Keys

/-! ### The order inside a group -/

variable {fields : List Field}

theorem sortByName_perm (fields : List Field) : (sortByName fields).Perm fields :=
  List.mergeSort_perm _ _

theorem sortByName_pairwise (fields : List Field) :
    (sortByName fields).Pairwise fun f g => f.name ≤ g.name := by
  have h := @List.pairwise_mergeSort _ (fun f g : Field => decide (f.name ≤ g.name))
    (fun _ _ _ => by simpa using String.le_trans) (fun f g => by simpa using String.le_total _ _)
    fields
  simpa [sortByName] using h

theorem sortByName_of_pairwise (h : fields.Pairwise fun f g => f.name ≤ g.name) :
    sortByName fields = fields :=
  List.mergeSort_of_pairwise (h.imp fun hfg => by simpa using hfg)

/-- Fields stay in place when they are sorted, if and only if they are sorted. -/
theorem sortByName_eq_self_iff :
    sortByName fields = fields ↔ fields.Pairwise fun f g => f.name ≤ g.name :=
  ⟨fun h => h ▸ sortByName_pairwise fields, sortByName_of_pairwise⟩

@[simp] theorem sortByName_sortByName (fields : List Field) :
    sortByName (sortByName fields) = sortByName fields :=
  sortByName_of_pairwise (sortByName_pairwise fields)

theorem nodup_eraseDups {α : Type} [BEq α] [LawfulBEq α] : ∀ l : List α, l.eraseDups.Nodup
  | [] => by simp
  | a :: l => by
    rw [List.eraseDups_cons]
    refine List.nodup_cons.mpr ⟨fun h => ?_, nodup_eraseDups _⟩
    simp [List.mem_eraseDups] at h
  termination_by l => l.length
  decreasing_by
    simp only [List.length_cons]
    exact Nat.lt_succ_of_le (List.length_filter_le ..)

theorem nodup_identifierOrder (ids : List String) : (identifierOrder ids).Nodup :=
  List.nodup_reverse.mpr (nodup_eraseDups ids)

@[simp] theorem mem_identifierOrder {ids : List String} {id : String} :
    id ∈ identifierOrder ids ↔ id ∈ ids := by
  simp [identifierOrder, List.mem_eraseDups]

theorem sortByIdentifier_perm {ids : List String} (h : ∀ f ∈ fields, f.name ∈ ids) :
    (sortByIdentifier ids fields).Perm fields :=
  perm_flatMap_filter Field.name _ _ (nodup_identifierOrder ids)
    fun f hf => mem_identifierOrder.mpr (h f hf)

theorem exchange_perm (i j : Nat) (fields : List Field) : (exchange i j fields).Perm fields := by
  unfold exchange
  split
  · next f g hf hg =>
    obtain ⟨hi, rfl⟩ := List.getElem?_eq_some_iff.mp hf
    obtain ⟨hj, rfl⟩ := List.getElem?_eq_some_iff.mp hg
    exact List.set_set_perm hi hj
  · exact List.Perm.refl _

theorem resourceGroupFirst_perm (fields : List Field) : (resourceGroupFirst fields).Perm fields := by
  unfold resourceGroupFirst
  split
  · split
    · exact exchange_perm ..
    · exact List.Perm.refl _
  · exact List.Perm.refl _

/-! ### Segments -/

/-- All groups, in their order. -/
def FieldGroup.all : List FieldGroup :=
  [.identifier, .location, .required, .optional, .computedLocation, .computed, .tags]

theorem FieldGroup.mem_all (g : FieldGroup) : g ∈ FieldGroup.all := by
  cases g <;> decide

theorem FieldGroup.nodup_all : FieldGroup.all.Nodup := by decide

/-- The members of one group of a top-level map in the order of the group; `keep`
tells whether the optional fields stay as declared. -/
def topLevelSegment (ids : Option (List String)) (keep : Bool) (members : List Field) :
    FieldGroup → List Field
  | .identifier => sortByIdentifier (ids.getD []) members
  | .required => resourceGroupFirst members
  | .optional => if keep then members else sortByName members
  | .computed => sortByName members
  | .location | .computedLocation | .tags => members

/-- The order of a top-level map is made of the segments of all groups. -/
theorem topLevelOrder_eq (ids : Option (List String)) (fields : List Field) :
    topLevelOrder ids fields = FieldGroup.all.flatMap fun g =>
      topLevelSegment ids (keepsOptionalOrder (groupOf ids) fields)
        (groupMembers (groupOf ids) g fields) g := by
  simp [topLevelOrder, FieldGroup.all, topLevelSegment]

theorem mem_groupMembers {group : Field → FieldGroup} {g : FieldGroup} {f : Field} :
    f ∈ groupMembers group g fields ↔ f ∈ fields ∧ group f = g := by
  simp [groupMembers]

/-- Who is in the identifier group is named by the identifier. -/
theorem name_mem_of_groupOf_identifier {ids : Option (List String)} {f : Field}
    (h : groupOf ids f = .identifier) : f.name ∈ ids.getD [] := by
  unfold groupOf flagGroup at h
  split at h
  · cases h
  · split at h
    · next hc => simpa using (Bool.and_eq_true_iff.mp hc).1
    · split_ifs at h

theorem topLevelSegment_perm (ids : Option (List String)) (keep : Bool) (fields : List Field)
    (g : FieldGroup) : (topLevelSegment ids keep (groupMembers (groupOf ids) g fields) g).Perm
      (groupMembers (groupOf ids) g fields) := by
  cases g with
  | identifier =>
    exact sortByIdentifier_perm fun f hf =>
      name_mem_of_groupOf_identifier (mem_groupMembers.mp hf).2
  | required => exact resourceGroupFirst_perm _
  | optional =>
    simp only [topLevelSegment]
    split
    · exact List.Perm.refl _
    · exact sortByName_perm _
  | computed => exact sortByName_perm _
  | location | computedLocation | tags => exact List.Perm.refl _

/-- Groups of which each is put in some order are the fields again. -/
theorem flatMap_segment_perm (group : Field → FieldGroup) (groups : List FieldGroup)
    (hn : groups.Nodup) (hg : ∀ f ∈ fields, group f ∈ groups) (segment : FieldGroup → List Field)
    (hs : ∀ g, (segment g).Perm (groupMembers group g fields)) :
    (groups.flatMap segment).Perm fields :=
  (List.Perm.flatMap_left _ fun g _ => hs g).trans (perm_flatMap_filter group groups fields hn hg)

/-- The members of a group, read back from groups put in order. -/
theorem groupMembers_flatMap {group : Field → FieldGroup} {groups : List FieldGroup} {g : FieldGroup}
    (hn : groups.Nodup) (hg : g ∈ groups) {segment : FieldGroup → List Field}
    (hs : ∀ g, (segment g).Perm (groupMembers group g fields)) :
    groupMembers group g (groups.flatMap segment) = segment g :=
  filter_flatMap_of_key group segment (fun k _ hf => (mem_groupMembers.mp ((hs k).mem_iff.mp hf)).2)
    groups g hn hg

theorem topLevelOrder_perm (ids : Option (List String)) (fields : List Field) :
    (topLevelOrder ids fields).Perm fields := by
  rw [topLevelOrder_eq]
  exact flatMap_segment_perm (groupOf ids) _ FieldGroup.nodup_all (fun _ _ => FieldGroup.mem_all _) _
    (topLevelSegment_perm ids _ fields)

/-! ### Nested maps -/

/-- The groups of a nested map. -/
def FieldGroup.nested : List FieldGroup := [.required, .optional, .computed]

theorem FieldGroup.nodup_nested : FieldGroup.nested.Nodup := by decide

theorem flagGroup_mem_nested (f : Field) : flagGroup f ∈ FieldGroup.nested := by
  unfold flagGroup
  split_ifs <;> decide

theorem nestedOrder_eq (fields : List Field) : nestedOrder fields =
    FieldGroup.nested.flatMap fun g => sortByName (groupMembers flagGroup g fields) := by
  simp [nestedOrder, FieldGroup.nested]

theorem nestedOrder_perm (fields : List Field) : (nestedOrder fields).Perm fields := by
  rw [nestedOrder_eq]
  exact flatMap_segment_perm flagGroup _ FieldGroup.nodup_nested (fun f _ => flagGroup_mem_nested f)
    _ fun g => sortByName_perm _

/-! ### The whole order -/

/-- The fields of a map in the expected order. -/
def orderFields (ids : Resolution (List String)) (nested : Bool) (fields : List Field) :
    List Field := if nested then nestedOrder fields else topLevelOrder ids.value? fields

theorem expectedOrder_eq (fields : List Field) (ids : Resolution (List String)) (nested : Bool) :
    expectedOrder fields ids nested = (orderFields ids nested fields).map (·.name) := rfl

theorem orderFields_perm (ids : Resolution (List String)) (nested : Bool) (fields : List Field) :
    (orderFields ids nested fields).Perm fields := by
  unfold orderFields
  split
  · exact nestedOrder_perm fields
  · exact topLevelOrder_perm ids.value? fields

/-- The expected order has the names of the fields, each as often as it comes. -/
theorem expectedOrder_perm (fields : List Field) (ids : Resolution (List String)) (nested : Bool) :
    (expectedOrder fields ids nested).Perm (fields.map (·.name)) :=
  (orderFields_perm ids nested fields).map _

end FieldOrder
