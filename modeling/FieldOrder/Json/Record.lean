/-
# Records in JSON

How values of record types and of types with several kinds stand in JSON.

A record is an object, whose unknown members do not count and whose known
members may stand once, or an array of its fields in their order, where fields
at the end may be left out. A value of a type with kinds is a record with a
member `kind`, or an array that begins with the kind. Inside such a value a kind
may also be given by its number. A reader gives `none` for what it refuses.

Key definitions: `Json.record?`, `Json.tagged?`, `Json.required`,
`Json.optional`, `Json.nullable`.
-/
import FieldOrder.Json.Value

namespace FieldOrder
namespace Json

variable {α : Type}

/-! ### Single values -/

def text? : Json → Option String
  | str text => some text
  | _ => none

def bool? : Json → Option Bool
  | bool b => some b
  | _ => none

/-- A word of 32 bits. -/
def word? : Json → Option UInt32
  | nat n => if n < UInt32.size then some (UInt32.ofNat n) else none
  | _ => none

/-- An array, each item read by `read`. -/
def list? (read : Json → Option α) : Json → Option (List α)
  | arr items => items.mapM read
  | _ => none

/-- One of a few words, written as a text or as an object with the word as its
only name and nothing under it. -/
def choice? : Json → Option String
  | str text => some text
  | obj [(name, null)] => some name
  | _ => none

/-- One of a few words inside a value of a type with kinds, where an empty object
may stand under the word as well. -/
def innerChoice? : Json → Option String
  | obj [(name, obj [])] => some name
  | v => choice? v

/-! ### Records -/

/-- The value of the member `name`; `none` if the name stands twice, `some none`
if it does not stand at all. -/
def member? (name : String) (members : List (String × Json)) : Option (Option Json) :=
  match members.filter (·.1 == name) with
  | [] => some none
  | [(_, v)] => some (some v)
  | _ => none

/-- The fields `names` of a record, each with its value if it has one. -/
def record? (names : List String) : Json → Option (List (Option Json))
  | obj members => names.mapM (member? · members)
  | arr items =>
    if items.length ≤ names.length then
      some (items.map some ++ List.replicate (names.length - items.length) none)
    else none
  | _ => none

/-- A record without fields: an object, whatever it holds, or an empty array. -/
def isEmptyRecord : Json → Bool
  | obj _ => true
  | arr items => items.isEmpty
  | _ => false

/-- A kind, given by its name or by its number among `kinds`. -/
def kind? (kinds : List String) : Json → Option String
  | str kind => some kind
  | nat i => kinds[i]?
  | _ => none

/-- The kind of a value of a type with kinds, and the record of its fields. -/
def tagged? (kinds : List String) : Json → Option (String × Json)
  | obj members => do
    let kind ← (← member? "kind" members).bind (kind? kinds)
    return (kind, obj (members.filter (·.1 != "kind")))
  | arr (first :: fields) => (kind? kinds first).map (·, arr fields)
  | _ => none

/-- Whether a value has a kind, given by its name. -/
def isTagged (v : Json) : Bool := (v.tagged? []).isSome

/-- A value of the given kind with the given fields. -/
def ofTagged (kind : String) (fields : List (String × Json)) : Json :=
  obj (("kind", str kind) :: fields)

/-! ### Fields of a record -/

/-- A field that has to be there. -/
def required (read : Json → Option α) : Option Json → Option α
  | none => none
  | some v => read v

/-- A field that has the value `default` when it is not there. -/
def optional (default : α) (read : Json → Option α) : Option Json → Option α
  | none => some default
  | some v => read v

/-- A field that may be left out or be `null`. -/
def nullable (read : Json → Option α) : Option Json → Option (Option α)
  | none => some none
  | some null => some none
  | some v => (read v).map some

end Json
end FieldOrder
