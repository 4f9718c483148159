/-
# Paths

A path keeps the text it was written with, and is understood by its components:
repeated and trailing separators do not count, nor does a `.` except as the very
first thing of a relative path; `..` is a component like any other and is never
resolved. Two paths are equal (`==`) when their components are.

A path text is a lead (the root `/`, a first `.`, or nothing) and the pieces of
its body between separators. A piece that names no component is silent.

Key definitions: `Path.components`, `Path.parent?`, `Path.ancestors`,
`Path.join`, `Path.endsWith`, `Path.fileName?`.
-/
import FieldOrder.Text

namespace FieldOrder

/-- One step of a path. -/
inductive Component where
  /-- The root directory. -/
  | root
  /-- A `.` at the very start. -/
  | here
  /-- A `..`. -/
  | up
  | name (text : String)
  deriving DecidableEq, Repr

namespace Component

/-- The root comes first, then `.`, then `..`, then the names. -/
def rank : Component → Nat
  | root => 0
  | here => 1
  | up => 2
  | name _ => 3

/-- The text of a name. -/
def nameText : Component → String
  | name text => text
  | _ => ""

/-- Components are ordered by rank, and names among themselves by text. -/
instance : Ord Component := ⟨compareLex (compareOn rank) (compareOn nameText)⟩

end Component

/-- A path as it was written. -/
structure Path where
  text : String
  deriving Repr

namespace Path

/-! ### Components -/

/-- The component that a piece of the body stands for; empty pieces and `.` are
silent. -/
def component? : List Char → Option Component
  | [] => none
  | ['.'] => none
  | ['.', '.'] => some .up
  | piece => some (.name (String.ofList piece))

/-- Whether a piece of the body stands for no component. -/
def isSilent (piece : List Char) : Bool := (component? piece).isNone

/-- The lead of a path text and the pieces of its body. -/
def split : List Char → List Char × List (List Char)
  | '/' :: body => (['/'], Text.pieces '/' body)
  | ['.'] => (['.'], [])
  | '.' :: '/' :: body => (['.'], Text.pieces '/' ('/' :: body))
  | body => ([], Text.pieces '/' body)

/-- The component that the lead stands for. -/
def leadComponents : List Char → List Component
  | ['/'] => [.root]
  | ['.'] => [.here]
  | _ => []

/-- The components of a path, outermost first. -/
def components (p : Path) : List Component :=
  let (lead, body) := split p.text.toList
  leadComponents lead ++ body.filterMap component?

/-- Two texts name the same path when they have the same components. -/
instance : BEq Path := ⟨fun p q => p.components == q.components⟩

theorem beq_iff (p q : Path) : (p == q) = true ↔ p.components = q.components := by
  show (p.components == q.components) = true ↔ _
  exact beq_iff_eq

instance : EquivBEq Path where
  rfl := by intro p; rw [beq_iff]
  symm := by intro p q h; rw [beq_iff] at *; exact h.symm
  trans := by intro p q r h k; rw [beq_iff] at *; exact h.trans k

/-- Whether the components of `p` end with those of `q`. -/
def endsWith (p q : Path) : Bool := q.components.isSuffixOf p.components

/-- The name that a path ends in, if it ends in a name. -/
def fileName? (p : Path) : Option String :=
  match p.components.getLast? with
  | some (.name text) => some text
  | _ => none

/-! ### Moving up and down -/

/-- The path without its last component, as the front part of its own text. The
root and the empty path have no parent. -/
def parent? (p : Path) : Option Path :=
  let (lead, body) := split p.text.toList
  match body.reverse.dropWhile isSilent with
  | [] => if lead = ['.'] then some ⟨""⟩ else none
  | _ :: before =>
    some ⟨String.ofList (lead ++ Text.joined '/' (before.dropWhile isSilent).reverse)⟩

/-- The path itself and up to `n` paths above it. -/
def ancestorsUpTo : Nat → Path → List Path
  | 0, p => [p]
  | n + 1, p =>
    p :: match p.parent? with
      | none => []
      | some q => ancestorsUpTo n q

/-- The path itself and all paths above it, innermost first. Every step up takes
one component away. -/
def ancestors (p : Path) : List Path := ancestorsUpTo p.components.length p

/-- Whether the path starts at the root. -/
def isAbsolute (p : Path) : Bool := Text.startsWith p.text "/"

/-- The path `q` seen from `p`. An absolute path stays where it is. -/
def join (p q : Path) : Path :=
  if q.isAbsolute then q
  else if p.text = "" || Text.endsWith p.text "/" then ⟨p.text ++ q.text⟩
  else ⟨p.text ++ "/" ++ q.text⟩

end Path
end FieldOrder
