/-
# Text

Questions about pieces of text, asked of the characters: whether one text
stands inside, at the front or at the end of another, and how a text falls
into pieces at a separator. `joined` undoes `pieces`.

Key definitions: `Text.occurs`, `Text.pieces`, `Text.joined`, `Text.trim`.
-/

namespace FieldOrder
namespace Text

/-- Whether `part` stands somewhere in a text. -/
def occurs (part : List Char) : List Char → Bool
  | [] => part.isEmpty
  | c :: rest => part.isPrefixOf (c :: rest) || occurs part rest

/-- What stands somewhere in a text is a run of its characters. -/
theorem occurs_iff {part : List Char} : ∀ {cs : List Char}, occurs part cs = true ↔ part <:+: cs
  | [] => by rw [occurs, List.isEmpty_iff, List.infix_nil]
  | c :: rest => by
    rw [occurs, Bool.or_eq_true_iff, occurs_iff, List.isPrefixOf_iff_prefix, List.infix_cons_iff]

/-- Whether the text `part` stands somewhere in `s`. -/
def contains (s part : String) : Bool := occurs part.toList s.toList

/-- Whether `s` begins with `part`. -/
def startsWith (s part : String) : Bool := part.toList.isPrefixOf s.toList

/-- Whether `s` ends with `part`. -/
def endsWith (s part : String) : Bool := part.toList.isSuffixOf s.toList

/-! ### Pieces between separators -/

/-- The pieces of a text between the separators `sep`, one more than there are
separators. -/
def pieces (sep : Char) : List Char → List (List Char)
  | [] => [[]]
  | c :: rest =>
    if c = sep then [] :: pieces sep rest
    else
      match pieces sep rest with
      | [] => [[c]]
      | piece :: more => (c :: piece) :: more

/-- The pieces written one after the other with `sep` between them. -/
def joined (sep : Char) : List (List Char) → List Char
  | [] => []
  | [piece] => piece
  | piece :: next :: more => piece ++ sep :: joined sep (next :: more)

theorem pieces_ne_nil (sep : Char) : ∀ cs : List Char, pieces sep cs ≠ []
  | [] => by simp [pieces]
  | c :: rest => by
    unfold pieces
    split
    · simp
    · split <;> simp

/-- Nothing is lost when a text falls into pieces. -/
theorem joined_pieces (sep : Char) : ∀ cs : List Char, joined sep (pieces sep cs) = cs
  | [] => rfl
  | c :: rest => by
    have ih := joined_pieces sep rest
    have hne := pieces_ne_nil sep rest
    unfold pieces
    split
    · next hc =>
      match h : pieces sep rest with
      | [] => exact absurd h hne
      | piece :: more => rw [h] at ih; simp [joined, ih, hc]
    · split
      · next h => exact absurd h hne
      · next piece more h =>
        rw [h] at ih
        match more with
        | [] => simpa [joined] using ih
        | next :: more => simpa [joined] using ih

/-! ### Blanks -/

/-- The characters with the Unicode property `White_Space`. -/
def isBlank (c : Char) : Bool :=
  let n := c.toNat
  (9 ≤ n && n ≤ 13) || n == 0x20 || n == 0x85 || n == 0xA0 || n == 0x1680 ||
    (0x2000 ≤ n && n ≤ 0x200A) || n == 0x2028 || n == 0x2029 || n == 0x202F ||
    n == 0x205F || n == 0x3000

/-- A text without the blanks at its two ends. -/
def trim (cs : List Char) : List Char :=
  ((cs.dropWhile isBlank).reverse.dropWhile isBlank).reverse

/-- A text filled up with spaces on the right to `width` characters. -/
def padRight (width : Nat) (s : String) : String :=
  s ++ String.ofList (List.replicate (width - s.length) ' ')

end Text
end FieldOrder
