/-
# The program

Reads the arguments, looks at everything on disk that the command asks for, and
writes the response. Paths are looked at twice: first those named, then those
where the helpers of the named modules would be.

Key definitions: `main`.
-/
import FieldOrder.CommandLine.Command

namespace FieldOrder

/-- What is known of a path. -/
structure Sight where
  isDir : Bool
  text : Option String

/-- Look at a path; nothing if it does not exist. -/
def Path.look (p : Path) : IO (Option Sight) := do
  match ← (IO.FS.realPath p.text).toBaseIO with
  | .error _ => return none
  | .ok place =>
    if ← place.isDir then return some ⟨true, none⟩
    else
      match ← (IO.FS.readFile p.text).toBaseIO with
      | .error _ => return some ⟨false, none⟩
      | .ok text => return some ⟨false, some text⟩

/-- The disk on which exactly the paths seen exist. -/
def Disk.ofSights (sights : List (String × Sight)) : Disk where
  exists? p := (sights.lookup p.text).isSome
  isDir p := (sights.lookup p.text).any (·.isDir)
  read? p := (sights.lookup p.text).bind (·.text)

/-- Look at several paths. -/
def lookAll (paths : List Path) : IO (List (String × Sight)) :=
  paths.filterMapM fun p => do return (← p.look).map (p.text, ·)

/-- How the program is used. -/
def usage : String :=
  "Usage: schemalint [-v] [-c FILE] check [--changes FILE] [--all-files] [-o table|json] " ++
    "[--pass NAMES] FACTS...\n       schemalint passes\n"

end FieldOrder

open FieldOrder in
/-- Do what the command line asks for. -/
def main (args : List String) : IO UInt32 := do
  match Invocation.parse? args with
  | none =>
    (← IO.getStderr).putStr usage
    return 2
  | some invocation =>
    let dir : Path := ⟨toString (← IO.currentDir)⟩
    let named ← lookAll (invocation.namedPaths dir)
    let helpers ← lookAll (invocation.helperPaths (.ofSights named) dir)
    let response := invocation.respond (.ofSights (named ++ helpers)) dir
    (← IO.getStdout).putStr response.out
    (← IO.getStderr).putStr response.err
    return UInt32.ofNat response.status
