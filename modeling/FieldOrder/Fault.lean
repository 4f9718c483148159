/-
# Faults

Why an input was refused. A fault keeps what a reader of its message needs to
know; the words of a parser or of the operating system are not kept, and stand
in the message as three dots.

Key definitions: `Fault`, `Fault.message`.
-/
import FieldOrder.Path

namespace FieldOrder

/-- What can be wrong with the values of a configuration. -/
inductive ConfigFlaw where
  /-- A file suffix is empty. -/
  | emptySuffix
  /-- There is no commit receiver. -/
  | noCommitReceiver
  /-- Helpers are looked for, but under no directory name. -/
  | emptySentinel
  deriving DecidableEq, Repr

def ConfigFlaw.message : ConfigFlaw → String
  | .emptySuffix => "file_suffixes entries must not be empty"
  | .noCommitReceiver => "commit_receivers must name at least one receiver"
  | .emptySentinel => "shared_schema.sentinel_dir must not be empty"

/-- Why an input was refused. -/
inductive Fault where
  | configNotFound (path : Path)
  /-- The configuration is no YAML or has the wrong shape. -/
  | configMalformed (path : Path)
  | configFlawed (flaw : ConfigFlaw)
  | factsUnreadable (path : Path)
  /-- The facts are no JSON or have the wrong shape. -/
  | factsMalformed (path : Path)
  /-- The change list cannot be read, is no YAML or has the wrong shape. -/
  | changesMalformed (path : Path)
  /-- A range of the change list ends before it begins. -/
  | changesReversed (path file : Path) (first last : UInt32)
  /-- The file is there but cannot be read. -/
  | notReadable
  /-- The helper module in a directory could not be loaded. -/
  | helperModule (dir : Path) (cause : Fault)
  | unknownPass (name : String) (available : List String)

/-- The message of a fault. -/
def Fault.message : Fault → String
  | .configNotFound path => s!"[E001] Config file not found: {path.text}"
  | .configMalformed path => s!"[E002] Failed to parse config {path.text}: ..."
  | .configFlawed flaw => s!"[E003] Invalid config: {flaw.message}"
  | .factsUnreadable path => s!"[E004] Cannot read facts file {path.text}: ..."
  | .factsMalformed path => s!"[E005] Malformed facts file {path.text}: ..."
  | .changesMalformed path => s!"[E006] Invalid change list {path.text}: ..."
  | .changesReversed path file first last =>
    s!"[E006] Invalid change list {path.text}: " ++
      s!"{file.text}: line range {first.toNat}-{last.toNat} is reversed"
  | .notReadable => "[E007] IO error: ..."
  | .helperModule dir cause =>
    s!"[AE001] Failed to load shared schema module at {dir.text}: " ++ cause.message
  | .unknownPass name available =>
    s!"[AE002] Unknown analysis pass '{name}' (available: " ++ ", ".intercalate available ++ ")"

end FieldOrder
