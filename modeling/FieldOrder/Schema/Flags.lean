/-
# Schema flags

What a schema literal says about its field, read off its elements in order.
Only keys that are identifiers count. Of a key that stands twice the last one
counts, except that a validation or a description once seen stays seen.

Key definitions: `Flags`, `Flags.ofElements`, `Field`.
-/
import FieldOrder.Json.Value
import FieldOrder.Syntax.Codec
import FieldOrder.Syntax.View

namespace FieldOrder

/-- What is said about a field. -/
structure Flags where
  required : Bool := false
  optional : Bool := false
  computed : Bool := false
  forceNew : Bool := false
  /-- The name of the value's type. -/
  valueType : Option String := none
  declaresValidation : Bool := false
  hasDescription : Bool := false
  /-- The fields of which exactly one may be set. -/
  exactlyOneOf : List String := []
  deriving DecidableEq, Repr

namespace Flags

/-- The texts in a composite literal of texts. -/
def texts (value : Expr) : List String :=
  match value.composite? with
  | some (_, elements, _) => elements.filterMap fun el => el.value.string?
  | none => []

/-- What an element with an identifier key adds. A truth value counts only when
it is `true` itself. -/
def set (flags : Flags) (key : String) (value : Expr) : Flags :=
  match key with
  | "Required" => { flags with required := value.isTrue }
  | "Optional" => { flags with optional := value.isTrue }
  | "Computed" => { flags with computed := value.isTrue }
  | "ForceNew" => { flags with forceNew := value.isTrue }
  | "Type" => { flags with valueType := value.calleeName? }
  | "ValidateFunc" => { flags with declaresValidation := true }
  | "ValidateDiagFunc" => { flags with declaresValidation := true }
  | "Description" => { flags with hasDescription := true }
  | "ExactlyOneOf" => { flags with exactlyOneOf := texts value }
  | _ => flags

/-- What an element adds. -/
def add (flags : Flags) (el : Element) : Flags :=
  match el.keyIdent? with
  | some key => flags.set key el.value
  | none => flags

/-- What the elements of a schema literal say. -/
def ofElements (elements : List Element) : Flags := elements.foldl add {}

/-- Whether a field is computed and cannot be set. -/
def isComputedOnly (flags : Flags) : Bool :=
  flags.computed && !flags.required && !flags.optional

def toJson (flags : Flags) : Json :=
  .obj [("required", .bool flags.required), ("optional", .bool flags.optional),
    ("computed", .bool flags.computed), ("force_new", .bool flags.forceNew),
    ("value_type", .ofOption .str flags.valueType),
    ("declares_validation", .bool flags.declaresValidation),
    ("has_description", .bool flags.hasDescription),
    ("exactly_one_of", .ofStrings flags.exactlyOneOf)]

end Flags

/-- A field of a schema map. -/
structure Field where
  name : String
  flags : Flags
  /-- Where its key stands. -/
  position : Pos
  deriving DecidableEq, Repr

namespace Field

/-- Whether the field is computed and cannot be set. -/
def isComputedOnly (f : Field) : Bool := f.flags.isComputedOnly

def toJson (f : Field) : Json :=
  .obj [("name", .str f.name), ("flags", f.flags.toJson), ("position", f.position.toJson)]

end Field
end FieldOrder
