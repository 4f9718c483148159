/-
# JSON values

The values that a JSON text stands for, with the members of an object in the
order written and repeated names kept. Only nonnegative integers are read as
numbers; the other numbers keep their text. A scalar may be well formed and
still have no value (a text with half a surrogate pair, a number too large for
a double); it may only stand where nobody looks.

Key definitions: `Json`, `Json.fits`.
-/

namespace FieldOrder

/-- A JSON value. -/
inductive Json where
  | null
  | bool (value : Bool)
  /-- An integer written with digits alone. -/
  | nat (value : Nat)
  /-- Any other number, as written. -/
  | number (text : String)
  | str (text : String)
  /-- Well formed, but without a value. -/
  | unreadable
  | arr (items : List Json)
  | obj (members : List (String × Json))
  deriving Repr, Inhabited

namespace Json

/-! ### Nesting -/

mutual

/-- Whether everything in a value has a value itself, and arrays and objects are
nested at most `levels` deep. -/
def fits (levels : Nat) : Json → Bool
  | arr items => 0 < levels && allFit (levels - 1) items
  | obj members => 0 < levels && membersFit (levels - 1) members
  | unreadable => false
  | _ => true

/-- Whether all items fit. -/
def allFit (levels : Nat) : List Json → Bool
  | [] => true
  | v :: rest => fits levels v && allFit levels rest

/-- Whether the values of all members fit. -/
def membersFit (levels : Nat) : List (String × Json) → Bool
  | [] => true
  | (_, v) :: rest => fits levels v && membersFit levels rest

end

/-- How deep arrays and objects may nest in a document. -/
def maxLevels : Nat := 127

/-! ### Writing values -/

/-- A list of texts. -/
def ofStrings (texts : List String) : Json := arr (texts.map str)

/-- A value that may be missing. -/
def ofOption {α : Type} (f : α → Json) : Option α → Json
  | none => null
  | some a => f a

/-- A word of 32 bits. -/
def ofWord (w : UInt32) : Json := nat w.toNat

end Json
end FieldOrder
