/-
# Change lists in files

A change list is a YAML mapping from paths to changes. Of two equal paths the
later counts; ranges must not be reversed.

Key definitions: `ChangeList.parse`, `ChangeList.load`.
-/
import FieldOrder.ChangeScope
import FieldOrder.Disk
import FieldOrder.Yaml.Reader

namespace FieldOrder

open Yaml (record? required optional list? bool? word?)

def LineRange.ofYaml? (v : Yaml) : Option LineRange := do
  let [first, last] ← v.record? ["start", "end"] | none
  return ⟨← required word? first, ← required word? last⟩

def FileChange.ofYaml? (v : Yaml) : Option FileChange := do
  let [isNew, lines] ← v.record? ["new", "lines"] | none
  return {
    isNew := ← optional false bool? isNew
    lines := ← optional [] (list? LineRange.ofYaml?) lines }

namespace ChangeList

def ofYaml? (v : Yaml) : Option ChangeList := do
  let entries ← v.entries?
  let pairs ← entries.mapM fun (path, v) => (FileChange.ofYaml? v).map (Path.mk path, ·)
  return ⟨Table.ofList pairs⟩

/-- The change list in a text; `origin` names it in faults. -/
def parse (origin : Path) (text : String) : Except Fault ChangeList :=
  match (Yaml.parse? text).bind ofYaml? with
  | none => .error (.changesMalformed origin)
  | some l =>
    match l.reversed? with
    | some (file, range) => .error (.changesReversed origin file range.first range.last)
    | none => .ok l

/-- The change list in the file at `path`. -/
def load (disk : Disk) (path : Path) : Except Fault ChangeList :=
  match disk.read? path with
  | none => .error (.changesMalformed path)
  | some text => parse path text

end ChangeList
end FieldOrder
