/-
# Reading JSON

The strict grammar of JSON: no comments, no trailing commas, no leading zeros,
no raw control characters in texts, nothing but blanks around the value.

Each function takes what is left of the text and gives back what it read and
what is left after it. The first argument of the recursive functions bounds the
calls inside one another. The length of the text is enough for all that is well
formed, since each of these calls has a character of its own: the first one of
a value, a comma, or a closing bracket.

Key definitions: `Json.parse?`.
-/
import FieldOrder.Json.Number

namespace FieldOrder
namespace Json

/-- The blanks of JSON. -/
def isBlank (c : Char) : Bool := c = ' ' || c = '\n' || c = '\t' || c = '\r'

/-- The text without the blanks at its front. -/
def skipBlanks (cs : List Char) : List Char := cs.dropWhile isBlank

/-! ### Texts -/

/-- The value of a hexadecimal digit. -/
def hexDigit? (c : Char) : Option Nat :=
  if c.isDigit then some (c.toNat - '0'.toNat)
  else if 'a' ≤ c && c ≤ 'f' then some (c.toNat - 'a'.toNat + 10)
  else if 'A' ≤ c && c ≤ 'F' then some (c.toNat - 'A'.toNat + 10)
  else none

/-- The number that four hexadecimal digits write. -/
def hex4? (a b c d : Char) : Option Nat := do
  let a ← hexDigit? a
  let b ← hexDigit? b
  let c ← hexDigit? c
  let d ← hexDigit? d
  return ((a * 16 + b) * 16 + c) * 16 + d

/-- The character that a short escape stands for. -/
def shortEscape? : Char → Option Char
  | '"' => some '"'
  | '\\' => some '\\'
  | '/' => some '/'
  | 'b' => some (Char.ofNat 8)
  | 'f' => some (Char.ofNat 12)
  | 'n' => some '\n'
  | 'r' => some '\r'
  | 't' => some '\t'
  | _ => none

/-- The first half of a surrogate pair. -/
def isHighSurrogate (n : Nat) : Bool := 0xD800 ≤ n && n ≤ 0xDBFF

/-- The second half of a surrogate pair. -/
def isLowSurrogate (n : Nat) : Bool := 0xDC00 ≤ n && n ≤ 0xDFFF

/-- The character of a surrogate pair. -/
def surrogatePair (high low : Nat) : Char :=
  Char.ofNat (0x10000 + (high - 0xD800) * 0x400 + (low - 0xDC00))

/-- What was read of a text: its characters in reverse, `sound` unless half a
surrogate pair stood alone. -/
structure TextPart where
  reversed : List Char := []
  sound : Bool := true

namespace TextPart

def push (t : TextPart) (c : Char) : TextPart := { t with reversed := c :: t.reversed }

def spoil (t : TextPart) : TextPart := { t with sound := false }

/-- The text, unless it was spoilt. -/
def text? (t : TextPart) : Option String :=
  if t.sound then some (String.ofList t.reversed.reverse) else none

end TextPart

/-- A text from behind its opening quote to behind its closing quote. -/
def readText (t : TextPart) : List Char → Option (TextPart × List Char)
  | [] => none
  | '"' :: rest => some (t, rest)
  | '\\' :: 'u' :: a :: b :: c :: d :: '\\' :: 'u' :: a' :: b' :: c' :: d' :: rest => do
    let n ← hex4? a b c d
    if isHighSurrogate n then
      let low ← hex4? a' b' c' d'
      if isLowSurrogate low then readText (t.push (surrogatePair n low)) rest
      else readText t.spoil ('\\' :: 'u' :: a' :: b' :: c' :: d' :: rest)
    else
      let t := if isLowSurrogate n then t.spoil else t.push (Char.ofNat n)
      readText t ('\\' :: 'u' :: a' :: b' :: c' :: d' :: rest)
  | '\\' :: 'u' :: a :: b :: c :: d :: rest => do
    let n ← hex4? a b c d
    let t := if isHighSurrogate n || isLowSurrogate n then t.spoil else t.push (Char.ofNat n)
    readText t rest
  | '\\' :: e :: rest => do
    let c ← shortEscape? e
    readText (t.push c) rest
  | c :: rest => if c.toNat < 0x20 then none else readText (t.push c) rest

/-! ### Values -/

/-- The text without the word at its front, if that stands there. -/
def dropWord? (word cs : List Char) : Option (List Char) :=
  if word.isPrefixOf cs then some (cs.drop word.length) else none

/-- An object, unless one of its names has no value. -/
def ofMembers (members : List (Option String × Json)) : Json :=
  match members.mapM fun (name, v) => name.map (·, v) with
  | some members => obj members
  | none => unreadable

mutual

/-- A value at the front of a text. -/
def readValue : Nat → List Char → Option (Json × List Char)
  | 0, _ => none
  | n + 1, cs =>
    match skipBlanks cs with
    | '"' :: rest => do
      let (t, rest) ← readText {} rest
      return ((t.text?.map str).getD unreadable, rest)
    | '[' :: rest =>
      match skipBlanks rest with
      | ']' :: rest => some (arr [], rest)
      | rest => do
        let (items, rest) ← readItems n [] rest
        return (arr items, rest)
    | '\x7b' :: rest =>
      match skipBlanks rest with
      | '\x7d' :: rest => some (obj [], rest)
      | rest => do
        let (members, rest) ← readMembers n [] rest
        return (ofMembers members, rest)
    | 't' :: rest => (dropWord? ['r', 'u', 'e'] rest).map (bool true, ·)
    | 'f' :: rest => (dropWord? ['a', 'l', 's', 'e'] rest).map (bool false, ·)
    | 'n' :: rest => (dropWord? ['u', 'l', 'l'] rest).map (null, ·)
    | rest => readNumber rest

/-- The items of an array from the first on, and the closing bracket. -/
def readItems : Nat → List Json → List Char → Option (List Json × List Char)
  | 0, _, _ => none
  | n + 1, before, cs => do
    let (v, rest) ← readValue n cs
    match skipBlanks rest with
    | ',' :: rest => readItems n (v :: before) rest
    | ']' :: rest => some ((v :: before).reverse, rest)
    | _ => none

/-- The members of an object from the first on, and the closing brace. -/
def readMembers : Nat → List (Option String × Json) → List Char →
    Option (List (Option String × Json) × List Char)
  | 0, _, _ => none
  | n + 1, before, cs =>
    match skipBlanks cs with
    | '"' :: rest => do
      let (name, rest) ← readText {} rest
      match skipBlanks rest with
      | ':' :: rest => do
        let (v, rest) ← readValue n rest
        let before := (name.text?, v) :: before
        match skipBlanks rest with
        | ',' :: rest => readMembers n before rest
        | '\x7d' :: rest => some (before.reverse, rest)
        | _ => none
      | _ => none
    | _ => none

end

/-- The value that a text stands for, if the text is JSON. -/
def parse? (text : String) : Option Json :=
  let cs := text.toList
  match readValue (cs.length + 1) cs with
  | some (v, rest) => if (skipBlanks rest).isEmpty then some v else none
  | none => none

end Json
end FieldOrder
