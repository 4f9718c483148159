/-
# Change scopes

Findings are always made; the scope decides which of them are told. A change
list names files by path and says for each whether it is new or which of its
lines changed. A file is looked up under the key with the same components, or
else under a key whose components its own end with.

Key definitions: `ChangeScope`, `ChangeList`, `ChangeList.lookup?`,
`ChangeList.scope`.
-/
import FieldOrder.Fault
import FieldOrder.Table

namespace FieldOrder

/-- What is told about which files and lines. -/
structure ChangeScope where
  isFileChanged : Path → Bool
  shouldReport : Path → UInt32 → Bool
  isNewFile : Path → Bool

/-- The scope in which every file is new. -/
def ChangeScope.everything : ChangeScope where
  isFileChanged _ := true
  shouldReport _ _ := true
  isNewFile _ := true

/-- Changed lines, from the first to the last. -/
structure LineRange where
  first : UInt32
  last : UInt32
  deriving DecidableEq, Repr

namespace LineRange

def contains (r : LineRange) (line : UInt32) : Bool := r.first ≤ line && line ≤ r.last

/-- Whether the range ends before it begins. -/
def isReversed (r : LineRange) : Bool := r.last < r.first

end LineRange

/-- How a file changed. -/
structure FileChange where
  isNew : Bool := false
  lines : List LineRange := []
  deriving DecidableEq, Repr

/-- The changed files. -/
structure ChangeList where
  files : Table Path FileChange := {}

namespace ChangeList

/-- The change of the file at a path. -/
def lookup? (l : ChangeList) (path : Path) : Option FileChange :=
  match l.files.get? path with
  | some change => some change
  | none => (l.files.entries.find? fun (key, _) => path.endsWith key).map (·.2)

/-- A change list as a scope. -/
def scope (l : ChangeList) : ChangeScope where
  isFileChanged path := (l.lookup? path).isSome
  shouldReport path line :=
    match l.lookup? path with
    | some change => change.isNew || change.lines.any (·.contains line)
    | none => false
  isNewFile path :=
    match l.lookup? path with
    | some change => change.isNew
    | none => false

/-- The first reversed range, with the file it stands under. -/
def reversed? (l : ChangeList) : Option (Path × LineRange) :=
  l.files.entries.findSome? fun (path, change) =>
    (change.lines.find? (·.isReversed)).map (path, ·)

end ChangeList
end FieldOrder
