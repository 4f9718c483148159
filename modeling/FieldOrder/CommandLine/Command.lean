/-
# Commands

What the program writes and with which status it ends. A check ends with 0 when
there are no findings and with 1 when there are; a fault ends it with 2, with
nothing on the standard output. Faults are met in a fixed order: configuration,
choice of passes, facts in the order named, change list.

Key definitions: `Response`, `Invocation.respond`, `findingsTable`.
-/
import FieldOrder.ChangeScope.Codec
import FieldOrder.CommandLine.Arguments
import FieldOrder.Config.Codec
import FieldOrder.Json.Writer
import FieldOrder.Pass

namespace FieldOrder

/-- What a command leaves behind. -/
structure Response where
  status : Nat
  out : String := ""
  err : String := ""
  deriving DecidableEq, Repr

/-- Lines with a line break behind each. -/
def unlines (lines : List String) : String := String.join (lines.map (· ++ "\n"))

/-! ### Writing findings -/

/-- The largest of some widths, but no less than `least`. -/
def widest (least : Nat) (widths : List Nat) : Nat := widths.foldl max least

/-- Where a diagnostic points to. -/
def Diagnostic.location (d : Diagnostic) : String :=
  s!"{d.file.text}:{d.line.toNat}:{d.column.toNat}"

/-- A row of the table of findings. -/
def tableRow (width : Nat) (location severity code message : String) : String :=
  Text.padRight width location ++ "  " ++ Text.padRight 8 severity ++ "  " ++
    Text.padRight 5 code ++ "  " ++ message

/-- The rows of a diagnostic: what it says and what could be done. -/
def Diagnostic.rows (width : Nat) (d : Diagnostic) : List String :=
  tableRow width d.location d.severity.text d.code.text d.message ::
    (d.hint.map fun hint => Text.padRight width "" ++ "  " ++ hint).toList

/-- The findings as a table. The column of locations is as wide as the longest of
them in bytes. -/
def findingsTable (ds : List Diagnostic) : List String :=
  if ds.isEmpty then ["No findings."]
  else
    let width := widest 8 (ds.map fun d => d.location.utf8ByteSize)
    let n := ds.length
    tableRow width "LOCATION" "SEVERITY" "CODE" "MESSAGE" :: ds.flatMap (·.rows width) ++
      ["", s!"{n} finding(s)"]

/-- The findings as a JSON list. -/
def findingsJson (ds : List Diagnostic) : Json := .arr (ds.map Diagnostic.toJson)

/-- The findings in a format. -/
def findingsText : OutputFormat → List Diagnostic → String
  | .table, ds => unlines (findingsTable ds)
  | .json, ds => (findingsJson ds).pretty ++ "\n"

/-- The passes as a table. -/
def passesTable : List String :=
  let width := widest 4 (passNames.map (·.utf8ByteSize))
  (Text.padRight width "PASS" ++ "  DESCRIPTION") ::
    passes.map fun p => Text.padRight width p.name ++ "  " ++ p.description

/-! ### The command `check` -/

/-- What the program was doing when a fault stopped it. -/
structure Stop where
  during : Option String
  fault : Fault

/-- The message of a fault that stopped the program. -/
def Stop.message (s : Stop) : String :=
  match s.during with
  | none => s!"Error: {s.fault.message}"
  | some during => s!"Error: {during}: {s.fault.message}"

/-- A result, or where the program stopped. -/
def during {α : Type} (what : Option String) : Except Fault α → Except Stop α
  | .ok a => .ok a
  | .error fault => .error ⟨what, fault⟩

/-- The passes chosen by names with commas between them. -/
def passFilter (text : String) : List String :=
  ((Text.pieces ',' text.toList).map fun piece => String.ofList (Text.trim piece)).filter (· ≠ "")

/-- The configuration of a check in the directory `dir`. -/
def CheckOptions.config (disk : Disk) (dir : Path) (global : GlobalOptions) (o : CheckOptions) :
    Except Fault Config :=
  (Config.loadOrDefault disk global.config dir).1.map fun config =>
    if o.allFiles then { config with newFilesOnly := false } else config

/-- The change scope of a check. -/
def CheckOptions.scope (disk : Disk) (o : CheckOptions) : Except Fault ChangeScope :=
  match o.changes with
  | none => .ok .everything
  | some path => (ChangeList.load disk path).map ChangeList.scope

/-- What a check works on, before the change list is read. -/
structure CheckInput where
  config : Config
  filter : Option (List String)
  modules : List ModuleFacts

/-- Load the configuration, the choice of passes and the facts. -/
def CheckOptions.load (disk : Disk) (dir : Path) (global : GlobalOptions) (o : CheckOptions) :
    Except Stop CheckInput := do
  let config ← during (some "Failed to load configuration") (o.config disk dir global)
  let filter := o.pass.map passFilter
  during none (checkFilter (filter.getD []))
  let modules ← o.facts.mapM fun path =>
    during (some s!"Failed to load facts {path.text}") (ModuleFacts.load disk path)
  return ⟨config, filter, modules⟩

/-- What a step of `check` failed on. -/
def Response.ofStop (err : List String) (s : Stop) : Response :=
  { status := 2, err := unlines (err ++ [s.message]) }

/-- Lines for those who want to know more. -/
def verboseLines (global : GlobalOptions) (line : String) : List String :=
  if global.verbose then ["[verbose] " ++ line] else []

/-- Check modules in the directory `dir`. -/
def CheckOptions.respond (disk : Disk) (dir : Path) (global : GlobalOptions) (o : CheckOptions) :
    Response :=
  match o.load disk dir global with
  | .error stop => .ofStop [] stop
  | .ok input =>
    let loaded := verboseLines global s!"Loaded facts for {input.modules.length} module(s)"
    match o.scope disk with
    | .error fault =>
      let path := (o.changes.map (·.text)).getD ""
      .ofStop loaded ⟨some s!"Failed to load change list {path}", fault⟩
    | .ok scope =>
      let report := run ⟨input.config, scope, disk⟩ input.filter input.modules {}
      let searched := verboseLines global
        s!"Shared schema cache: {report.cache.searches} population pass(es)"
      { status := if report.diagnostics.isEmpty then 0 else 1
        out := findingsText o.output report.diagnostics
        err := unlines (loaded ++ searched) }

/-! ### What a command asks the disk -/

/-- The paths that `check` asks for by name. -/
def CheckOptions.namedPaths (dir : Path) (global : GlobalOptions) (o : CheckOptions) : List Path :=
  global.config.getD (dir.join ⟨Config.fileName⟩) :: o.facts ++ o.changes.toList

/-- The paths that `check` asks for to find helpers, given those it asks for by name. -/
def CheckOptions.helperPaths (disk : Disk) (dir : Path) (global : GlobalOptions)
    (o : CheckOptions) : List Path :=
  match o.load disk dir global with
  | .error _ => []
  | .ok input =>
    let settings := input.config.sharedSchema
    (input.modules.filterMap fun facts => helperDir? settings facts.module.sourceDir).flatMap
      fun helpers => [helpers, helpers.join ⟨settings.factsFile⟩]

/-- The paths that a command asks for by name. -/
def Invocation.namedPaths (dir : Path) : Invocation → List Path
  | .check global options => options.namedPaths dir global
  | _ => []

/-- The paths that a command asks for to find helpers. -/
def Invocation.helperPaths (disk : Disk) (dir : Path) : Invocation → List Path
  | .check global options => options.helperPaths disk dir global
  | _ => []

/-! ### All commands -/

/-- The name and the version of the program. -/
def versionLine : String := "schemalint 0.1.0"

/-- Do what was asked for, in the directory `dir`. -/
def Invocation.respond (disk : Disk) (dir : Path) : Invocation → Response
  | .check global options => options.respond disk dir global
  | .passes => { status := 0, out := unlines passesTable }
  | .version => { status := 0, out := unlines [versionLine] }

end FieldOrder
