/-
# Module paths

The import path of a module. It is never empty. A function of a module is known
elsewhere by its qualified name, the path and the name with a point between.

Key definitions: `ModulePath`, `ModulePath.qualify`.
-/

namespace FieldOrder

/-- An import path. -/
structure ModulePath where
  text : String
  nonempty : text ≠ "" := by decide
  deriving DecidableEq, Repr

namespace ModulePath

/-- The module path with a given text, if the text is not empty. -/
def ofString? (text : String) : Option ModulePath :=
  if h : text = "" then none else some ⟨text, h⟩

/-- The name by which a function of the module is known elsewhere. -/
def qualify (path : ModulePath) (function : String) : String := path.text ++ "." ++ function

theorem ofString?_text (path : ModulePath) : ofString? path.text = some path := by
  simp [ofString?, path.nonempty]

end ModulePath
end FieldOrder
