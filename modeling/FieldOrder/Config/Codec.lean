/-
# Configurations in files

A configuration is written in YAML. Every field has a default, and no other
fields may stand in it. A file named explicitly has to exist; the file with the
usual name is read when it is there.

Key definitions: `Config.parse?`, `Config.load`, `Config.loadOrDefault`,
`Config.toJson`.
-/
import FieldOrder.Config
import FieldOrder.Disk
import FieldOrder.Json.Value
import FieldOrder.Log
import FieldOrder.Yaml.Reader

namespace FieldOrder

open Yaml (closedRecord? optional list? text? bool?)

/-! ### From YAML -/

def FileSuffixes.ofYaml? (v : Yaml) : Option FileSuffixes := do
  let [resource, dataSource] ← v.closedRecord? ["resource", "data_source"] | none
  let default : FileSuffixes := {}
  return {
    resource := ← optional default.resource text? resource
    dataSource := ← optional default.dataSource text? dataSource }

def SharedSchema.ofYaml? (v : Yaml) : Option SharedSchema := do
  let [enabled, sentinelDir, relativePath, factsFile] ←
    v.closedRecord? ["enabled", "sentinel_dir", "relative_path", "facts_file"] | none
  let default : SharedSchema := {}
  return {
    enabled := ← optional default.enabled bool? enabled
    sentinelDir := ← optional default.sentinelDir text? sentinelDir
    relativePath := ← optional default.relativePath text? relativePath
    factsFile := ← optional default.factsFile text? factsFile }

/-- The fields of a configuration. -/
def Config.fieldNames : List String :=
  ["skip_packages", "file_suffixes", "skip_files", "schema_modules", "accessor_receivers",
    "commit_receivers", "shared_schema", "new_files_only"]

def Config.ofYaml? (v : Yaml) : Option Config := do
  let [skipPackages, fileSuffixes, skipFiles, schemaModules, accessorReceivers,
    commitReceivers, sharedSchema, newFilesOnly] ← v.closedRecord? Config.fieldNames | none
  let default : Config := {}
  return {
    skipPackages := ← optional default.skipPackages (list? text?) skipPackages
    fileSuffixes := ← optional default.fileSuffixes FileSuffixes.ofYaml? fileSuffixes
    skipFiles := ← optional default.skipFiles (list? text?) skipFiles
    schemaModules := ← optional default.schemaModules (list? text?) schemaModules
    accessorReceivers := ← optional default.accessorReceivers (list? text?) accessorReceivers
    commitReceivers := ← optional default.commitReceivers (list? text?) commitReceivers
    sharedSchema := ← optional default.sharedSchema SharedSchema.ofYaml? sharedSchema
    newFilesOnly := ← optional default.newFilesOnly bool? newFilesOnly }

/-! ### From disk -/

namespace Config

/-- The configuration in the text of the file at `path`. -/
def parse (path : Path) (text : String) : Except Fault Config :=
  match (Yaml.parse? text).bind Config.ofYaml? with
  | none => .error (.configMalformed path)
  | some config =>
    match config.flaw? with
    | some flaw => .error (.configFlawed flaw)
    | none => .ok config

/-- The configuration in the file at `path`. -/
def load (disk : Disk) (path : Path) : Except Fault Config :=
  if !disk.exists? path then .error (.configNotFound path)
  else
    match disk.read? path with
    | none => .error .notReadable
    | some text => parse path text

/-- The configuration in the file named explicitly, or else in the usual file of
the directory `dir`, or else the default one; and what there is to tell. -/
def loadOrDefault (disk : Disk) (explicit : Option Path) (dir : Path) :
    Except Fault Config × List LogRecord :=
  match explicit with
  | some path => (load disk path, [])
  | none =>
    let path := dir.join ⟨fileName⟩
    if disk.exists? path then (load disk path, [.debug s!"using config {path.text}"])
    else (.ok {}, [.debug s!"no {fileName} in {dir.text}, using defaults"])

end Config

/-! ### To JSON -/

def FileSuffixes.toJson (s : FileSuffixes) : Json :=
  .obj [("resource", .str s.resource), ("data_source", .str s.dataSource)]

def SharedSchema.toJson (s : SharedSchema) : Json :=
  .obj [("enabled", .bool s.enabled), ("sentinel_dir", .str s.sentinelDir),
    ("relative_path", .str s.relativePath), ("facts_file", .str s.factsFile)]

def Config.toJson (c : Config) : Json :=
  .obj [("skip_packages", .ofStrings c.skipPackages), ("file_suffixes", c.fileSuffixes.toJson),
    ("skip_files", .ofStrings c.skipFiles), ("schema_modules", .ofStrings c.schemaModules),
    ("accessor_receivers", .ofStrings c.accessorReceivers),
    ("commit_receivers", .ofStrings c.commitReceivers),
    ("shared_schema", c.sharedSchema.toJson), ("new_files_only", .bool c.newFilesOnly)]

end FieldOrder
