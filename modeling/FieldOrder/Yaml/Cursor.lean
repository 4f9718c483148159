/-
# Places in a YAML text

The characters of YAML, and places in a text with what the meaning of the next
token depends on. In block style a key may only begin where `fresh` is set: at
the first token of a line, or behind the sign of an item or a written-out entry.
Tabs may separate tokens, but not indent a fresh one.

Key definitions: `Yaml.Cursor`, `Yaml.skip`.
-/

namespace FieldOrder
namespace Yaml

/-! ### Characters -/

/-- The characters that may stand in a document. -/
def isPrintable (c : Char) : Bool :=
  let n := c.toNat
  n == 9 || n == 10 || n == 13 || n == 0x85 || (0x20 ≤ n && n ≤ 0x7E) ||
    (0xA0 ≤ n && n ≤ 0xD7FF) || (0xE000 ≤ n && n ≤ 0xFFFD) || 0x10000 ≤ n

def isBreak (c : Char) : Bool :=
  c = '\n' || c = '\r' || c.toNat = 0x85 || c.toNat = 0x2028 || c.toNat = 0x2029

def isBlank (c : Char) : Bool := c = ' ' || c = '\t'

/-- The mark that says how a text is encoded; it may begin a line. -/
def isByteOrderMark (c : Char) : Bool := c.toNat = 0xFEFF

/-- Whether a text is over, or a blank or a line break comes next. -/
def atGap : List Char → Bool
  | [] => true
  | c :: _ => isBlank c || isBreak c

/-- What a line break counts as in a scalar. -/
def breakChar (c : Char) : Char :=
  if c.toNat = 0x2028 || c.toNat = 0x2029 then c else '\n'

/-- Whether `---` or `...` stands here as a marker (at the start of a line). -/
def isMarker : List Char → Bool
  | '-' :: '-' :: '-' :: rest => atGap rest
  | '.' :: '.' :: '.' :: rest => atGap rest
  | _ => false

/-- The characters that separate and enclose in flow style. -/
def isFlowSign (c : Char) : Bool := c = ',' || c = '[' || c = ']' || c = '\x7b' || c = '\x7d'

/-- The characters that no plain scalar begins with. -/
def isIndicator (c : Char) : Bool :=
  isFlowSign c || "-?:#&*!|>'\"%@\x60".toList.contains c

/-! ### Cursors -/

/-- A place in the text. -/
structure Cursor where
  rest : List Char
  line : Nat := 0
  column : Nat := 0
  /-- Whether a key may begin here. -/
  fresh : Bool := true

namespace Cursor

/-- Behind the next character, which is no line break. -/
def next (c : Cursor) : Cursor :=
  { c with rest := c.rest.drop 1, column := c.column + 1 }

/-- Whether the document is over: the text ends, or a marker follows. -/
def atEnd (c : Cursor) : Bool := c.rest.isEmpty || (c.column = 0 && isMarker c.rest)

/-- Whether a dash, a colon or the like stands here with a gap behind it. -/
def at? (c : Cursor) (sign : Char) : Bool :=
  match c.rest with
  | s :: rest => s = sign && atGap rest
  | [] => false

/-- Behind the blanks of a line. -/
def skipBlanks (c : Cursor) : Cursor :=
  let blanks := c.rest.takeWhile isBlank
  { c with rest := c.rest.drop blanks.length, column := c.column + blanks.length }

/-- The bytes that stand between two places of a line. -/
def bytesTo (start stop : Cursor) : Nat :=
  (String.ofList (start.rest.take (stop.column - start.column))).utf8ByteSize

end Cursor

/-! ### Blanks and comments -/

/-- The next token at or behind a place; `comment` while inside a comment. A byte
order mark takes up a column. -/
def skipFrom (flow : Bool) (line column : Nat) (fresh comment : Bool) : List Char → Cursor
  | [] => ⟨[], line, column, fresh⟩
  | '\r' :: '\n' :: rest => skipFrom flow (line + 1) 0 (fresh || !flow) false rest
  | c :: rest =>
    if isBreak c then skipFrom flow (line + 1) 0 (fresh || !flow) false rest
    else if comment || c = ' ' || (c = '\t' && (flow || !fresh)) ||
        (isByteOrderMark c && column = 0) then
      skipFrom flow line (column + 1) fresh comment rest
    else if c = '#' then skipFrom flow line (column + 1) fresh true rest
    else ⟨c :: rest, line, column, fresh⟩

/-- The next token in block or in flow style. -/
def skip (flow : Bool) (c : Cursor) : Cursor :=
  skipFrom flow c.line c.column c.fresh false c.rest

end Yaml
end FieldOrder
