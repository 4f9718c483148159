/-
# Flags by key

The flags of a schema literal are those that the last value of each key says
(`Flags.ofElements_eq`): one element more changes the value of its key, and the flags as that
key changes them (`Flags.ofValues_update`). So each flag is read off the last element with its
key, and only whether there is a validation or a description counts, whatever it is
(`Flags.ReadOff`).

Where no key stands twice, the last element with a key is the one with it. So the elements may
then stand in any order, and others, without a key or with one that is not looked for, may
stand anywhere between them (`Flags.ofElements_unordered`).

Key definitions: `Flags.keys`, `Flags.ofValues`, `Flags.lastValue?`, `Flags.ReadOff`.
Key theorems: `Flags.set_of_not_mem_keys`, `Flags.ofValues_update`, `Flags.ofElements_eq`,
`Flags.readOff_ofElements`, `Flags.ofElements_eq_of_perm`, `Flags.ofElements_unordered`.
-/
import Mathlib.Logic.Function.Basic
import FieldOrder.Proofs.Schema.Extraction
import FieldOrder.Proofs.Table.Last
import FieldOrder.Schema.Flags

namespace FieldOrder
namespace Flags

/-! ### Values of keys -/

/-- The keys that say something about a field. -/
def keys : List String :=
  ["Required", "Optional", "Computed", "ForceNew", "Type", "ValidateFunc", "ValidateDiagFunc",
    "Description", "ExactlyOneOf"]

/-- The flags that go with one value, or none, for each key. -/
def ofValues (value? : String → Option Expr) : Flags where
  required := (value? "Required").any Expr.isTrue
  optional := (value? "Optional").any Expr.isTrue
  computed := (value? "Computed").any Expr.isTrue
  forceNew := (value? "ForceNew").any Expr.isTrue
  valueType := (value? "Type").bind Expr.calleeName?
  declaresValidation := (value? "ValidateFunc").isSome || (value? "ValidateDiagFunc").isSome
  hasDescription := (value? "Description").isSome
  exactlyOneOf := ((value? "ExactlyOneOf").map texts).getD []

/-- Only the values of `keys` count. -/
theorem ofValues_congr {value? value?' : String → Option Expr}
    (h : ∀ key ∈ keys, value? key = value?' key) : ofValues value? = ofValues value?' := by
  simp only [keys, List.forall_mem_cons] at h
  obtain ⟨hrequired, hoptional, hcomputed, hforceNew, htype, hfunc, hdiag, hdescription, hone, -⟩ :=
    h
  simp only [ofValues, hrequired, hoptional, hcomputed, hforceNew, htype, hfunc, hdiag,
    hdescription, hone]

/-- Any other key says nothing. -/
theorem set_of_not_mem_keys {key : String} (h : key ∉ keys) (flags : Flags) (value : Expr) :
    flags.set key value = flags := by
  unfold set
  split
  case h_10 => rfl
  all_goals exact absurd (by decide) h

/-- Another value of one key changes the flags as that key does. -/
theorem ofValues_update (value? : String → Option Expr) (key : String) (value : Expr) :
    ofValues (Function.update value? key (some value)) = (ofValues value?).set key value := by
  by_cases hkey : key ∈ keys
  · simp only [keys, List.mem_cons, List.not_mem_nil, or_false] at hkey
    rcases hkey with rfl | rfl | rfl | rfl | rfl | rfl | rfl | rfl | rfl
    all_goals simp [ofValues, set, Function.update]
  · rw [set_of_not_mem_keys hkey]
    refine ofValues_congr fun k hk => Function.update_of_ne ?_ _ _
    rintro rfl
    exact hkey hk

/-- The value of the last element with a key. -/
def lastValue? (els : List Element) (key : String) : Option Expr :=
  els.reverse.findSome? fun el => if el.keyIdent? = some key then some el.value else none

variable {els : List Element} {el : Element} {key : String}

theorem lastValue?_concat (els : List Element) (el : Element) (key : String) :
    lastValue? (els ++ [el]) key =
      if el.keyIdent? = some key then some el.value else lastValue? els key := by
  rw [lastValue?, List.reverse_append, List.reverse_singleton, List.singleton_append,
    List.findSome?_cons]
  by_cases hkey : el.keyIdent? = some key
  · rw [if_pos hkey, if_pos hkey]
  · rw [if_neg hkey, if_neg hkey]
    rfl

theorem lastValue?_eq_some_iff {value : Expr} : lastValue? els key = some value ↔
    ∃ el, IsLast (Element.HasKey · key) els el ∧ el.value = value := by
  rw [lastValue?, findSome?_reverse_eq_some]
  simp only [IsLast, ← Element.keyIdent?_eq_some_iff]
  constructor
  · rintro ⟨front, el, back, hels, hel, hback⟩
    split at hel
    · next hkey =>
      refine ⟨el, ⟨front, back, hels, hkey, fun e he hkey => ?_⟩, Option.some.inj hel⟩
      simpa [hkey] using hback e he
    · cases hel
  · rintro ⟨el, ⟨front, back, hels, hkey, hback⟩, rfl⟩
    exact ⟨front, el, back, hels, if_pos hkey, fun e he => if_neg (hback e he)⟩

theorem isSome_lastValue?_iff :
    (lastValue? els key).isSome = true ↔ ∃ el ∈ els, el.HasKey key := by
  rw [Option.isSome_iff_exists, ← exists_isLast_iff]
  simp only [lastValue?_eq_some_iff]
  constructor
  · rintro ⟨value, el, hel, -⟩
    exact ⟨el, hel⟩
  · rintro ⟨el, hel⟩
    exact ⟨el.value, el, hel, rfl⟩

/-- The flags of a schema literal are those of the last values of its keys. -/
theorem ofElements_eq (els : List Element) : ofElements els = ofValues (lastValue? els) := by
  induction els using List.reverseRecOn with
  | nil => rfl
  | append_singleton els el ih =>
    have hadd : ofElements (els ++ [el]) = (ofElements els).add el := by
      rw [ofElements, List.foldl_append]
      rfl
    rw [hadd, ih, add]
    cases hkey : el.keyIdent? with
    | none =>
      refine congrArg ofValues (funext fun k => ?_)
      rw [lastValue?_concat, hkey, if_neg nofun]
    | some key =>
      dsimp only
      rw [← ofValues_update]
      refine congrArg ofValues (funext fun k => ?_)
      rw [lastValue?_concat, hkey, Function.update_apply]
      simp only [Option.some.injEq, eq_comm]

/-! ### Flag by flag -/

/-- The last element with the key has a value of which `P` holds. -/
def LastSays (els : List Element) (key : String) (P : Expr → Prop) : Prop :=
  ∃ el, IsLast (Element.HasKey · key) els el ∧ P el.value

/-- Every flag is the one that is read off the last element with its key; of a validation or
a description it counts only whether there is one. -/
structure ReadOff (els : List Element) (flags : Flags) : Prop where
  required : flags.required = true ↔ LastSays els "Required" fun value => value.isTrue = true
  optional : flags.optional = true ↔ LastSays els "Optional" fun value => value.isTrue = true
  computed : flags.computed = true ↔ LastSays els "Computed" fun value => value.isTrue = true
  forceNew : flags.forceNew = true ↔ LastSays els "ForceNew" fun value => value.isTrue = true
  valueType : ∀ name, flags.valueType = some name ↔
    LastSays els "Type" fun value => value.calleeName? = some name
  declaresValidation : flags.declaresValidation = true ↔
    ∃ el ∈ els, el.HasKey "ValidateFunc" ∨ el.HasKey "ValidateDiagFunc"
  hasDescription : flags.hasDescription = true ↔ ∃ el ∈ els, el.HasKey "Description"
  exactlyOneOf : ∀ fields, flags.exactlyOneOf = fields ↔
    (LastSays els "ExactlyOneOf" fun value => texts value = fields) ∨
      (∀ el ∈ els, ¬ el.HasKey "ExactlyOneOf") ∧ fields = []

theorem lastSays_iff {P : Expr → Prop} :
    LastSays els key P ↔ ∃ value, lastValue? els key = some value ∧ P value := by
  simp only [LastSays, lastValue?_eq_some_iff]
  constructor
  · rintro ⟨el, hel, hP⟩
    exact ⟨el.value, ⟨el, hel, rfl⟩, hP⟩
  · rintro ⟨_, ⟨el, hel, rfl⟩, hP⟩
    exact ⟨el, hel, hP⟩

theorem any_lastValue?_iff {test : Expr → Bool} :
    (lastValue? els key).any test = true ↔ LastSays els key fun value => test value = true := by
  rw [lastSays_iff, Option.any_eq_true]

theorem readOff_ofElements (els : List Element) : ReadOff els (ofElements els) where
  required := by rw [ofElements_eq]; exact any_lastValue?_iff
  optional := by rw [ofElements_eq]; exact any_lastValue?_iff
  computed := by rw [ofElements_eq]; exact any_lastValue?_iff
  forceNew := by rw [ofElements_eq]; exact any_lastValue?_iff
  valueType name := by rw [ofElements_eq, lastSays_iff]; exact Option.bind_eq_some_iff
  declaresValidation := by
    rw [ofElements_eq, ofValues, Bool.or_eq_true_iff, isSome_lastValue?_iff, isSome_lastValue?_iff]
    simp only [and_or_left, exists_or]
  hasDescription := by rw [ofElements_eq]; exact isSome_lastValue?_iff
  exactlyOneOf fields := by
    have hnone : lastValue? els "ExactlyOneOf" = none ↔ ∀ el ∈ els, ¬ el.HasKey "ExactlyOneOf" := by
      rw [← Option.not_isSome_iff_eq_none, isSome_lastValue?_iff]
      simp
    rw [ofElements_eq, lastSays_iff, ← hnone, ofValues]
    cases lastValue? els "ExactlyOneOf" with
    | none => simp [eq_comm]
    | some value => simp

/-! ### Elements in any order -/

/-- No key that is looked for stands in both elements. -/
def Apart (a b : Element) : Prop := ∀ key ∈ keys, a.HasKey key → ¬ b.HasKey key

theorem Apart.symm {a b : Element} (h : Apart a b) : Apart b a :=
  fun key hkey hb ha => h key hkey ha hb

/-- Where no key stands twice, the last element with a key is the one with it. -/
theorem isLast_hasKey_iff (h : els.Pairwise Apart) (hkey : key ∈ keys) :
    IsLast (Element.HasKey · key) els el ↔ el ∈ els ∧ el.HasKey key :=
  isLast_iff_mem (h.imp fun hab => hab key hkey)

theorem pairwise_apart (h : (els.filterMap Element.keyIdent?).Nodup) : els.Pairwise Apart := by
  refine (List.pairwise_filterMap.mp h).imp fun {a b} hab key _ ha hb => ?_
  rw [← Element.keyIdent?_eq_some_iff] at ha hb
  exact hab key ha key hb rfl

/-- Where no key stands twice, the order of the elements does not count, nor do elements more
that have no key that is looked for. -/
theorem ofElements_eq_of_perm {more els' : List Element} (hels : els.Pairwise Apart)
    (hmore : ∀ el ∈ more, ∀ key ∈ keys, ¬ el.HasKey key) (hperm : els'.Perm (els ++ more)) :
    ofElements els' = ofElements els := by
  have hapart : ∀ a, ∀ b ∈ more, Apart a b := fun _ b hb key hkey _ => hmore b hb key hkey
  have hall : (els ++ more).Pairwise Apart := List.pairwise_append.mpr
    ⟨hels, List.pairwise_of_forall_mem_list fun a _ => hapart a, fun a _ => hapart a⟩
  have hels' : els'.Pairwise Apart := (hperm.pairwise_iff Apart.symm).mpr hall
  rw [ofElements_eq, ofElements_eq]
  refine ofValues_congr fun key hkey => Option.ext fun value => ?_
  have hmem : ∀ el : Element, el ∈ els' ∧ el.HasKey key ↔ el ∈ els ∧ el.HasKey key := by
    intro el
    refine and_congr_left fun hel => hperm.mem_iff.trans (List.mem_append.trans ?_)
    exact or_iff_left fun hadded => hmore el hadded key hkey hel
  simp only [lastValue?_eq_some_iff, isLast_hasKey_iff hels hkey, isLast_hasKey_iff hels' hkey,
    hmem]

/-- **The order of keys does not matter.** Each flag is read off the last element with its key.
Where no identifier stands twice as a key, the elements say the same in any order, and with any
others among them that have no key or one that is not looked for. -/
theorem ofElements_unordered (els : List Element) :
    ReadOff els (ofElements els) ∧
    ((els.filterMap Element.keyIdent?).Nodup → ∀ more els' : List Element,
      (∀ el ∈ more, ∀ key ∈ keys, ¬ el.HasKey key) → els'.Perm (els ++ more) →
        ofElements els' = ofElements els) :=
  ⟨readOff_ofElements els, fun hnodup _ _ hmore hperm =>
    ofElements_eq_of_perm (pairwise_apart hnodup) hmore hperm⟩

/-- The elements of a literal in reverse, two others among them. -/
theorem ofElements_unordered_sku :
    let entry (key : String) (value : Expr) : Element := ⟨some (.ident key {}), value⟩
    let type := entry "Type" (.selector (.ident "pluginsdk" {}) "TypeString" {})
    let required := entry "Required" (.paren (.ident "true" {}))
    let validation := entry "ValidateFunc" (.ident "nil" {})
    let others : List Element := [entry "MaxItems" (.lit .int "1" {}), ⟨none, .other⟩]
    ([type, required, validation].filterMap Element.keyIdent?).Nodup ∧
      (∀ el ∈ others, ∀ key ∈ keys, ¬ el.HasKey key) ∧
      ofElements ([type, required, validation] ++ others).reverse =
        { required := true, valueType := some "TypeString", declaresValidation := true } := by
  intro entry type required validation others
  have hnodup : ([type, required, validation].filterMap Element.keyIdent?).Nodup := by decide
  have hothers : ∀ el ∈ others, ∀ key ∈ keys, ¬ el.HasKey key := by
    simp only [← Element.keyIdent?_eq_some_iff]
    decide
  refine ⟨hnodup, hothers, ?_⟩
  rw [(ofElements_unordered [type, required, validation]).2 hnodup others _ hothers
    (List.reverse_perm _)]
  decide

end Flags
end FieldOrder
