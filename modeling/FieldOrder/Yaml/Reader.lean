/-
# Reading YAML

Block mappings and sequences by indentation, flow collections in brackets, and
scalars, with comments, one document, and before it an optional `---`, with a
directive that names the version if there is one. Anchors, tags and block scalars
are refused.

A key stands before its colon on one line, and is not longer than 1024 bytes up to
there, unless the entry is written out behind a question mark. The first argument
of the functions on nodes bounds their calls inside one another; four times the
length of the text is enough.

Key definitions: `Yaml.parse?`.
-/
import FieldOrder.Yaml.Scalar

namespace FieldOrder
namespace Yaml

/-! ### Keys -/

/-- The bytes that may stand from the first character of a key to its colon. -/
def maxKeyBytes : Nat := 1024

/-- Whether the node between two places is the key of a mapping. Gives the place
behind the colon. -/
def afterKey? (flow : Bool) (start stop : Cursor) : Option Cursor :=
  let stop := stop.skipBlanks
  if stop.line = start.line && start.bytesTo stop ≤ maxKeyBytes &&
      (stop.at? ':' || (flow && stop.rest.head? == some ':')) then
    some { stop.next with fresh := false }
  else none

/-! ### Flow style -/

mutual

/-- A node in flow style. `floor` is the first column of the block around it. -/
def readFlow : Nat → Nat → Cursor → Option (Yaml × Cursor)
  | 0, _, _ => none
  | n + 1, floor, c =>
    let c := skip true c
    if c.atEnd then none
    else
      match c.rest with
      | '[' :: _ => do
        let (items, c) ← readFlowItems n floor [] c.next
        return (seq items, c)
      | '\x7b' :: _ => do
        let (entries, c) ← readFlowEntries n floor [] c.next
        return (map entries, c)
      | _ => readScalar true floor c

/-- A key or a value in flow style; before a sign that cannot begin one it was
left out. -/
def readFlowPart : Nat → Nat → Cursor → Option (Yaml × Cursor)
  | 0, _, _ => none
  | n + 1, floor, c =>
    let c := skip true c
    match c.rest with
    | ':' :: _ => some (omitted, c)
    | ',' :: _ => some (omitted, c)
    | ']' :: _ => some (omitted, c)
    | '\x7d' :: _ => some (omitted, c)
    | _ => readFlow n floor c

/-- An entry in flow style, whose value may be missing. The key of a written-out
entry may only be left out in a mapping, not in an entry `alone` in a sequence. -/
def readFlowEntry : Nat → Nat → Bool → Cursor → Option ((Yaml × Option Yaml) × Cursor)
  | 0, _, _, _ => none
  | n + 1, floor, alone, c =>
    match c.rest with
    | '?' :: _ => do
      let (key, stop) ←
        if alone then readFlow n floor c.next else readFlowPart n floor c.next
      let stop := skip true stop
      match stop.rest with
      | ':' :: _ => do
        let (value, stop) ← readFlowPart n floor stop.next
        return ((key, some value), stop)
      | _ => return ((key, some omitted), stop)
    | _ => do
      let (key, stop) ← readFlow n floor c
      match afterKey? true c stop with
      | none => return ((key, none), stop)
      | some stop => do
        let (value, stop) ← readFlowPart n floor stop
        return ((key, some value), stop)

/-- The items of a sequence in flow style and the closing bracket. An entry among
them is a mapping of its own. -/
def readFlowItems : Nat → Nat → List Yaml → Cursor → Option (List Yaml × Cursor)
  | 0, _, _, _ => none
  | n + 1, floor, before, c =>
    let c := skip true c
    match c.rest with
    | ']' :: _ => some (before.reverse, { c.next with fresh := false })
    | _ => do
      let ((key, value), stop) ← readFlowEntry n floor true c
      let item := match value with
        | none => key
        | some value => map [(key, value)]
      let stop := skip true stop
      match stop.rest with
      | ',' :: _ => readFlowItems n floor (item :: before) stop.next
      | ']' :: _ => some ((item :: before).reverse, { stop.next with fresh := false })
      | _ => none

/-- The entries of a mapping in flow style and the closing brace. -/
def readFlowEntries : Nat → Nat → List (Yaml × Yaml) → Cursor →
    Option (List (Yaml × Yaml) × Cursor)
  | 0, _, _, _ => none
  | n + 1, floor, before, c =>
    let c := skip true c
    match c.rest with
    | '\x7d' :: _ => some (before.reverse, { c.next with fresh := false })
    | _ => do
      let ((key, value), stop) ← readFlowEntry n floor false c
      let before := (key, value.getD omitted) :: before
      let stop := skip true stop
      match stop.rest with
      | ',' :: _ => readFlowEntries n floor before stop.next
      | '\x7d' :: _ => some (before.reverse, { stop.next with fresh := false })
      | _ => none

end

/-- A scalar or a flow collection, standing in block style. -/
def readInline (n floor : Nat) (c : Cursor) : Option (Yaml × Cursor) :=
  match c.rest with
  | '[' :: _ => readFlow n floor c
  | '\x7b' :: _ => readFlow n floor c
  | _ => readScalar false floor c

/-! ### Block style -/

/-- The next token behind a sign of one character that a key may follow. -/
def afterSign (c : Cursor) : Cursor := skip false { c.next with fresh := true }

mutual

/-- A node in block style; `floor` is the first column that may belong to it. -/
def readBlock : Nat → Nat → Cursor → Option (Yaml × Cursor)
  | 0, _, _ => none
  | n + 1, floor, c =>
    if c.at? '-' then
      if c.fresh then do
        let (items, stop) ← readSequence n c.column false [] c
        return (seq items, stop)
      else none
    else if c.at? '?' then
      if c.fresh then do
        let (entries, stop) ← readMapping n c.column [] c
        return (map entries, stop)
      else none
    else do
      let (v, stop) ← readInline n floor c
      match afterKey? false c stop with
      | none => return (v, stop)
      | some stop =>
        if c.fresh then
          let (value, stop) ← readPart n c.column (skip false stop)
          let (entries, stop) ← readMapping n c.column [(v, value)] stop
          return (map entries, stop)
        else none

/-- A key or a value of a mapping whose keys stand in column `column`, from the
first token behind its sign on. -/
def readPart : Nat → Nat → Cursor → Option (Yaml × Cursor)
  | 0, _, _ => none
  | n + 1, column, c =>
    if c.atEnd then some (omitted, c)
    else if !c.fresh || column < c.column then readBlock n (column + 1) c
    else if c.column = column && c.at? '-' then do
      let (items, stop) ← readSequence n column true [] c
      return (seq items, stop)
    else some (omitted, c)

/-- The entries of a mapping whose keys stand in column `column`, from the end of
the entries `before` on. -/
def readMapping : Nat → Nat → List (Yaml × Yaml) → Cursor →
    Option (List (Yaml × Yaml) × Cursor)
  | 0, _, _, _ => none
  | n + 1, column, before, c => do
    let c := skip false c
    if c.atEnd then return (before.reverse, c)
    else if !c.fresh then none
    else if c.column < column then return (before.reverse, c)
    else if column < c.column then none
    else if c.at? '?' then
      let (key, c) ← readPart n column (afterSign c)
      let c := skip false c
      let (value, c) ←
        if c.fresh && c.column = column && c.at? ':' then readPart n column (afterSign c)
        else some (omitted, c)
      readMapping n column ((key, value) :: before) c
    else
      let (key, stop) ← readInline n (column + 1) c
      let stop ← afterKey? false c stop
      let (value, stop) ← readPart n column (skip false stop)
      readMapping n column ((key, value) :: before) stop

/-- The items of a sequence whose dashes stand in column `column`, from a dash on.
When `shared`, keys of the mapping around it stand in the same column. -/
def readSequence : Nat → Nat → Bool → List Yaml → Cursor → Option (List Yaml × Cursor)
  | 0, _, _, _, _ => none
  | n + 1, column, shared, before, c => do
    let dash := c.line
    let c := afterSign c
    let (item, c) ←
      if c.atEnd || (dash < c.line && c.column ≤ column) then some (omitted, c)
      else readBlock n (column + 1) c
    let c := skip false c
    let before := item :: before
    if c.atEnd then return (before.reverse, c)
    else if !c.fresh then none
    else if c.column < column then return (before.reverse, c)
    else if column < c.column then none
    else if c.at? '-' then readSequence n column shared before c
    else if shared then return (before.reverse, c)
    else none

end

/-! ### Documents -/

/-- Whether the marker `---` or `...` with the given sign stands here, at the start
of a line. -/
def Cursor.atMarker (c : Cursor) (sign : Char) : Bool :=
  c.column = 0 && isMarker c.rest && c.rest.head? == some sign

/-- The next token behind a marker. -/
def afterMarker (c : Cursor) : Cursor := skip false { c.next.next.next with fresh := false }

/-- The next token behind the markers `...` that end a document, at most `n`. -/
def afterEnd : Nat → Cursor → Cursor
  | 0, c => c
  | n + 1, c => if c.atMarker '.' then afterEnd n (afterMarker c) else c

/-- A number of a version, of at most nine digits. -/
def readVersionNumber (cs : List Char) : Option (Nat × List Char) :=
  let digits := cs.takeWhile Char.isDigit
  if 9 < digits.length then none
  else (digits? 10 digits).map (·, cs.drop digits.length)

/-- The next token behind the directive `%YAML` of a version that is understood;
only a comment may stand behind it in its line. -/
def afterDirective? (c : Cursor) : Option Cursor :=
  match c.rest with
  | '%' :: 'Y' :: 'A' :: 'M' :: 'L' :: rest => do
    if !atGap rest then none
    else
      let (major, rest) ← readVersionNumber (rest.dropWhile isBlank)
      let '.' :: rest := rest | none
      let (minor, rest) ← readVersionNumber rest
      let rest := rest.dropWhile isBlank
      let atLineEnd := match rest with
        | [] => true
        | s :: _ => s = '#' || isBreak s
      if major = 1 && (minor = 1 || minor = 2) && atLineEnd then
        some (skip false { c.next with rest, fresh := false })
      else none
  | _ => none

/-- Where the node of a document begins, and whether a marker opened it. A directive
needs one. -/
def openDocument (c : Cursor) : Option (Bool × Cursor) :=
  if c.column = 0 && c.rest.head? == some '%' then do
    let c ← afterDirective? c
    if c.atMarker '-' then return (true, afterMarker c) else none
  else if c.atMarker '-' then some (true, afterMarker c)
  else some (false, c)

/-- The node of a document, which may be empty only if a marker opened it or the
text holds nothing else. -/
def readDocument (n : Nat) (opened : Bool) (c : Cursor) : Option (Yaml × Cursor) :=
  if !c.atEnd then readBlock n 0 c
  else if opened || c.rest.isEmpty then some (omitted, c)
  else none

/-- The document that a text holds. -/
def parse? (text : String) : Option Yaml := do
  let cs := text.toList
  if !cs.all isPrintable then none
  else
    let (opened, start) ← openDocument (skip false { rest := cs })
    let (v, stop) ← readDocument (4 * cs.length + 8) opened start
    let stop := afterEnd cs.length (skip false stop)
    if stop.rest.isEmpty then some v else none

end Yaml
end FieldOrder
