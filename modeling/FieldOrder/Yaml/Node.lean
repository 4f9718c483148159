/-
# YAML nodes

The nodes of a YAML document without anchors and tags. A scalar keeps its text
and whether it was written plain, without quotes; a value that was left out is
an empty plain scalar. Mappings keep their entries in order, repeated keys too.

A record is a mapping (or nothing at all); a list is a sequence (or nothing at
all). A reader gives `none` for what it refuses.

Key definitions: `Yaml`, `Yaml.record?`, `Yaml.list?`.
-/

namespace FieldOrder

/-- A node of a YAML document. -/
inductive Yaml where
  | scalar (text : String) (plain : Bool)
  | seq (items : List Yaml)
  | map (entries : List (Yaml × Yaml))
  deriving Repr, Inhabited

namespace Yaml

variable {α : Type}

/-- A value that was left out. -/
def omitted : Yaml := scalar "" true

/-! ### Single values -/

/-- The text of a scalar, as written. -/
def text? : Yaml → Option String
  | scalar text _ => some text
  | _ => none

/-- A truth value, written plain in one of three spellings. -/
def bool? : Yaml → Option Bool
  | scalar text true =>
    if text = "true" || text = "True" || text = "TRUE" then some true
    else if text = "false" || text = "False" || text = "FALSE" then some false
    else none
  | _ => none

/-- The value of a digit in the given base. -/
def digit? (base : Nat) (c : Char) : Option Nat :=
  let value :=
    if c.isDigit then c.toNat - '0'.toNat
    else if 'a' ≤ c && c ≤ 'z' then c.toNat - 'a'.toNat + 10
    else if 'A' ≤ c && c ≤ 'Z' then c.toNat - 'A'.toNat + 10
    else base
  if value < base then some value else none

/-- The number that digits write in the given base, at least one of them. -/
def digits? (base : Nat) (cs : List Char) : Option Nat :=
  if cs.isEmpty then none
  else cs.foldlM (fun n c => (digit? base c).map (n * base + ·)) 0

/-- A nonnegative integer: decimal without leading zeros, or with `0x`, `0o` or
`0b` in another base; a plus sign may stand before it. -/
def nat? (cs : List Char) : Option Nat :=
  let cs := match cs with
    | '+' :: rest => rest
    | _ => cs
  match cs with
  | '0' :: 'x' :: rest => digits? 16 rest
  | '0' :: 'o' :: rest => digits? 8 rest
  | '0' :: 'b' :: rest => digits? 2 rest
  | '0' :: _ :: _ => none
  | _ => digits? 10 cs

/-- A word of 32 bits, written plain. -/
def word? : Yaml → Option UInt32
  | scalar text true =>
    match nat? text.toList with
    | some n => if n < UInt32.size then some (UInt32.ofNat n) else none
    | none => none
  | _ => none

/-- A sequence, each item read by `read`. -/
def list? (read : Yaml → Option α) : Yaml → Option (List α)
  | seq items => items.mapM read
  | scalar "" true => some []
  | _ => none

/-! ### Records -/

/-- The entries of a mapping, with the texts of the keys. -/
def entries? : Yaml → Option (List (String × Yaml))
  | map entries => entries.mapM fun (key, v) => key.text?.map (·, v)
  | scalar "" true => some []
  | _ => none

/-- The value under the key `name`; `none` if the key stands twice, `some none` if
it does not stand at all. -/
def valueAt? (name : String) (entries : List (String × Yaml)) : Option (Option Yaml) :=
  match entries.filter (·.1 == name) with
  | [] => some none
  | [(_, v)] => some (some v)
  | _ => none

/-- The fields `names` of a record, each with its value if it has one. Other keys
do not count. -/
def record? (names : List String) (v : Yaml) : Option (List (Option Yaml)) := do
  let entries ← v.entries?
  names.mapM (valueAt? · entries)

/-- The fields of a record in which no other keys may stand. -/
def closedRecord? (names : List String) (v : Yaml) : Option (List (Option Yaml)) := do
  let entries ← v.entries?
  if entries.all (names.contains ·.1) then names.mapM (valueAt? · entries) else none

/-- A field that has to be there. -/
def required (read : Yaml → Option α) : Option Yaml → Option α
  | none => none
  | some v => read v

/-- A field that has the value `default` when it is not there. -/
def optional (default : α) (read : Yaml → Option α) : Option Yaml → Option α
  | none => some default
  | some v => read v

end Yaml
end FieldOrder
