/-
# Writing JSON

A value on one line without blanks, or spread over lines with two spaces for
each level. Characters above ASCII stand for themselves; control characters
below the space are escaped.

Key definitions: `Json.compact`, `Json.pretty`.
-/
import FieldOrder.Json.Value

namespace FieldOrder
namespace Json

/-- The hexadecimal digit of a number below sixteen, in lower case. -/
def hexDigit (n : Nat) : Char :=
  if n < 10 then Char.ofNat ('0'.toNat + n) else Char.ofNat ('a'.toNat + (n - 10))

/-- How a character is written inside a text. -/
def escape (c : Char) : List Char :=
  if c = '"' then ['\\', '"']
  else if c = '\\' then ['\\', '\\']
  else if c = '\n' then ['\\', 'n']
  else if c = '\r' then ['\\', 'r']
  else if c = '\t' then ['\\', 't']
  else if c.toNat = 8 then ['\\', 'b']
  else if c.toNat = 12 then ['\\', 'f']
  else if c.toNat < 0x20 then ['\\', 'u', '0', '0', hexDigit (c.toNat / 16), hexDigit (c.toNat % 16)]
  else [c]

/-- A text in quotes. -/
def quoted (text : String) : String :=
  "\"" ++ String.ofList (text.toList.flatMap escape) ++ "\""

/-- A line break and the blanks before the contents of `depth` levels. -/
def lineBreak (depth : Nat) : String := "\n" ++ String.ofList (List.replicate (2 * depth) ' ')

mutual

/-- A value on one line. -/
def compact : Json → String
  | null => "null"
  | bool b => if b then "true" else "false"
  | nat n => toString n
  | number text => text
  | str text => quoted text
  | unreadable => "null"
  | arr items => "[" ++ compactItems items ++ "]"
  | obj members => "\x7b" ++ compactMembers members ++ "\x7d"

/-- Items with commas between them. -/
def compactItems : List Json → String
  | [] => ""
  | [v] => compact v
  | v :: next :: rest => compact v ++ "," ++ compactItems (next :: rest)

/-- Members with commas between them. -/
def compactMembers : List (String × Json) → String
  | [] => ""
  | [(name, v)] => quoted name ++ ":" ++ compact v
  | (name, v) :: next :: rest =>
    quoted name ++ ":" ++ compact v ++ "," ++ compactMembers (next :: rest)

end

mutual

/-- A value spread over lines, as it stands at the given depth. -/
def prettyAt (depth : Nat) : Json → String
  | arr [] => "[]"
  | arr (v :: rest) =>
    "[" ++ lineBreak (depth + 1) ++ prettyAt (depth + 1) v ++ prettyItems (depth + 1) rest ++
      lineBreak depth ++ "]"
  | obj [] => "\x7b\x7d"
  | obj ((name, v) :: rest) =>
    "\x7b" ++ lineBreak (depth + 1) ++ quoted name ++ ": " ++ prettyAt (depth + 1) v ++
      prettyMembers (depth + 1) rest ++ lineBreak depth ++ "\x7d"
  | null => "null"
  | bool b => if b then "true" else "false"
  | nat n => toString n
  | number text => text
  | str text => quoted text
  | unreadable => "null"

/-- The items after the first, each on its own line. -/
def prettyItems (depth : Nat) : List Json → String
  | [] => ""
  | v :: rest => "," ++ lineBreak depth ++ prettyAt depth v ++ prettyItems depth rest

/-- The members after the first, each on its own line. -/
def prettyMembers (depth : Nat) : List (String × Json) → String
  | [] => ""
  | (name, v) :: rest =>
    "," ++ lineBreak depth ++ quoted name ++ ": " ++ prettyAt depth v ++ prettyMembers depth rest

end

/-- A value spread over lines. -/
def pretty (v : Json) : String := prettyAt 0 v

end Json
end FieldOrder
