/-
# YAML scalars

Plain scalars and scalars in single and double quotes, over one or several lines.
The line breaks inside a scalar are folded: one is a blank, several are one less.

Key definitions: `Yaml.readScalar`.
-/
import FieldOrder.Yaml.Cursor
import FieldOrder.Yaml.Node

namespace FieldOrder
namespace Yaml

/-! ### Folding -/

/-- The blanks and line breaks between two words of a scalar. -/
structure Gap where
  /-- Blanks before the first line break, in reverse. -/
  blanks : List Char := []
  broken : Bool := false
  /-- The first line break, unless it was escaped. -/
  first : List Char := []
  /-- The other line breaks, in reverse. -/
  more : List Char := []

namespace Gap

def blank (g : Gap) (c : Char) : Gap :=
  if g.broken then g else { g with blanks := c :: g.blanks }

def lineBreak (g : Gap) (c : Char) : Gap :=
  if g.broken then { g with more := breakChar c :: g.more }
  else { broken := true, first := [breakChar c] }

/-- What a gap counts as: a single line break is a blank, of several the first
does not count. -/
def text (g : Gap) : List Char :=
  if g.broken then
    if g.first = ['\n'] then if g.more.isEmpty then [' '] else g.more.reverse
    else g.first ++ g.more.reverse
  else g.blanks.reverse

end Gap

/-! ### Plain scalars -/

/-- A plain scalar. Its lines after the first begin at column `floor` or behind
it, unless it stands in flow style; no tab may stand before that column in any
style. `read` holds what was read, in reverse. -/
def readPlain (flow : Bool) (floor line column : Nat) (read : List Char) (gap : Gap) :
    List Char → Option (String × Cursor)
  | [] => some (String.ofList read.reverse, ⟨[], line, column, gap.broken⟩)
  | '\r' :: '\n' :: rest => readPlain flow floor (line + 1) 0 read (gap.lineBreak '\n') rest
  | c :: rest =>
    if isBreak c then readPlain flow floor (line + 1) 0 read (gap.lineBreak c) rest
    else if isBlank c then
      if gap.broken && c = '\t' && column < floor then none
      else readPlain flow floor line (column + 1) read (gap.blank c) rest
    else
      let inGap := gap.broken || !gap.blanks.isEmpty
      let outside :=
        inGap && ((gap.broken && !flow && column < floor) ||
          (column = 0 && isMarker (c :: rest)) || c = '#')
      let misplaced := flow && c = ':' && rest.head?.any fun d => d = '?' || isFlowSign d
      let ended := (c = ':' && atGap rest) || (flow && isFlowSign c)
      if !outside && misplaced then none
      else if outside || ended then
        some (String.ofList read.reverse, ⟨c :: rest, line, column, gap.broken⟩)
      else readPlain flow floor line (column + 1) (c :: gap.text.reverse ++ read) {} rest

/-! ### Quoted scalars -/

/-- A scalar in single quotes, from behind the opening quote. -/
def readSingle (line column : Nat) (read : List Char) (gap : Gap) :
    List Char → Option (String × Cursor)
  | [] => none
  | '\'' :: '\'' :: rest =>
    readSingle line (column + 2) ('\'' :: gap.text.reverse ++ read) {} rest
  | '\'' :: rest =>
    some (String.ofList (gap.text.reverse ++ read).reverse, ⟨rest, line, column + 1, false⟩)
  | '\r' :: '\n' :: rest => readSingle (line + 1) 0 read (gap.lineBreak '\n') rest
  | c :: rest =>
    if isBreak c then readSingle (line + 1) 0 read (gap.lineBreak c) rest
    else if isBlank c then readSingle line (column + 1) read (gap.blank c) rest
    else if column = 0 && isMarker (c :: rest) then none
    else readSingle line (column + 1) (c :: gap.text.reverse ++ read) {} rest

/-- The character that an escape of one letter stands for. -/
def escape? : Char → Option Nat
  | '0' => some 0
  | 'a' => some 7
  | 'b' => some 8
  | 't' => some 9
  | '\t' => some 9
  | 'n' => some 10
  | 'v' => some 11
  | 'f' => some 12
  | 'r' => some 13
  | 'e' => some 27
  | ' ' => some 32
  | '"' => some 34
  | '/' => some 47
  | '\\' => some 92
  | 'N' => some 0x85
  | '_' => some 0xA0
  | 'L' => some 0x2028
  | 'P' => some 0x2029
  | _ => none

/-- How many hexadecimal digits follow the letter of an escape. -/
def escapeDigits? : Char → Option Nat
  | 'x' => some 2
  | 'u' => some 4
  | 'U' => some 8
  | _ => none

/-- The character of a code point. -/
def codePoint? (n : Nat) : Option Char :=
  if n < 0xD800 || (0xDFFF < n && n ≤ 0x10FFFF) then some (Char.ofNat n) else none

/-- A scalar in double quotes, from behind the opening quote; `digits` are those
still to come of an escape, whose value so far is `code`. -/
def readDouble (line column : Nat) (read : List Char) (gap : Gap) (digits code : Nat) :
    List Char → Option (String × Cursor)
  | [] => none
  | c :: rest =>
    if 0 < digits then do
      let code := code * 16 + (← digit? 16 c)
      if digits = 1 then
        readDouble line (column + 1) ((← codePoint? code) :: read) {} 0 0 rest
      else readDouble line (column + 1) read {} (digits - 1) code rest
    else if c = '"' then
      some (String.ofList (gap.text.reverse ++ read).reverse, ⟨rest, line, column + 1, false⟩)
    else if isBreak c then
      match c, rest with
      | '\r', '\n' :: rest => readDouble (line + 1) 0 read (gap.lineBreak '\n') 0 0 rest
      | _, rest => readDouble (line + 1) 0 read (gap.lineBreak c) 0 0 rest
    else if isBlank c then readDouble line (column + 1) read (gap.blank c) 0 0 rest
    else if column = 0 && isMarker (c :: rest) then none
    else if c = '\\' then
      let read := gap.text.reverse ++ read
      match rest with
      | [] => none
      | '\r' :: '\n' :: rest => readDouble (line + 1) 0 read { broken := true } 0 0 rest
      | e :: rest =>
        if isBreak e then readDouble (line + 1) 0 read { broken := true } 0 0 rest
        else
          match escapeDigits? e with
          | some n => readDouble line (column + 2) read {} n 0 rest
          | none => do
            let c ← (escape? e).bind codePoint?
            readDouble line (column + 2) (c :: read) {} 0 0 rest
    else readDouble line (column + 1) (c :: gap.text.reverse ++ read) {} 0 0 rest

/-! ### Any scalar -/

/-- Whether a plain scalar may begin here. -/
def beginsPlain (flow : Bool) : List Char → Bool
  | [] => false
  | c :: rest =>
    if c = '-' then !atGap rest
    else if c = '?' || c = ':' then !flow && !atGap rest
    else !isIndicator c && !isBlank c

/-- A scalar of any style. -/
def readScalar (flow : Bool) (floor : Nat) (c : Cursor) : Option (Yaml × Cursor) :=
  match c.rest with
  | '\'' :: rest =>
    (readSingle c.line (c.column + 1) [] {} rest).map fun (s, c) => (scalar s false, c)
  | '"' :: rest =>
    (readDouble c.line (c.column + 1) [] {} 0 0 rest).map fun (s, c) => (scalar s false, c)
  | rest =>
    if beginsPlain flow rest then
      (readPlain flow floor c.line c.column [] {} rest).map fun (s, c) => (scalar s true, c)
    else none

end Yaml
end FieldOrder
