/-
# Resolutions

What became of the attempt to read something off a source tree: it was read,
it was there but could not be read, or there was nothing to read.

Key definitions: `Resolution`.
-/

namespace FieldOrder

/-- The outcome of reading a value off the source. -/
inductive Resolution (α : Type) where
  /-- The value that was read. -/
  | resolved (value : α)
  /-- The construct was recognised, but its value could not be told. -/
  | unresolvable
  /-- There was nothing to read. -/
  | notApplicable
  deriving DecidableEq, Repr

namespace Resolution

variable {α β : Type}

/-- The value, if one was read. -/
def value? : Resolution α → Option α
  | resolved a => some a
  | _ => none

/-- Whether a value was read. -/
def isResolved : Resolution α → Bool
  | resolved _ => true
  | _ => false

/-- The value changed by `f`; the two failures stay as they are. -/
def map (f : α → β) : Resolution α → Resolution β
  | resolved a => resolved (f a)
  | unresolvable => unresolvable
  | notApplicable => notApplicable

/-- A search that found nothing is a failure, not an absence. -/
def ofOption : Option α → Resolution α
  | some a => resolved a
  | none => unresolvable

@[simp] theorem value?_resolved (a : α) : (resolved a).value? = some a := rfl

@[simp] theorem value?_unresolvable : (unresolvable : Resolution α).value? = none := rfl

@[simp] theorem value?_map (f : α → β) (r : Resolution α) : (r.map f).value? = r.value?.map f := by
  cases r <;> rfl

@[simp] theorem value?_ofOption (o : Option α) : (ofOption o).value? = o := by
  cases o <;> rfl

theorem isResolved_eq_isSome (r : Resolution α) : r.isResolved = r.value?.isSome := by
  cases r <;> rfl

end Resolution
end FieldOrder
