/-
# Checking modules

A check goes through the files of a module in order. A file is analysed when it
holds a definition, is not passed over, and is in the change scope; its schema
maps are then judged one by one. The cache of helpers is handed on from file to
file and from module to module.

Key definitions: `Setting`, `Report`, `analysedKind?`, `checkFile`,
`checkModule`.
-/
import FieldOrder.ChangeScope
import FieldOrder.HelperCache
import FieldOrder.Provenance.Trace
import FieldOrder.Verdict

namespace FieldOrder

/-- What stays the same during a check. -/
structure Setting where
  config : Config := {}
  scope : ChangeScope := .everything
  disk : Disk

/-- What a check told, the cache it left, and what it logged. -/
structure Report where
  diagnostics : List Diagnostic := []
  cache : HelperCache
  log : List LogRecord := []

namespace Report

/-- A report followed by a later one. -/
def andThen (first later : Report) : Report where
  diagnostics := first.diagnostics ++ later.diagnostics
  cache := later.cache
  log := first.log ++ later.log

end Report

/-! ### Schema maps of a file -/

/-- The helpers that a file needs. Nothing is looked for when no entry leads to
another module. -/
def helpersFor (s : Setting) (facts : ModuleFacts) (f : SourceFile) (cache : HelperCache) :
    Fetched :=
  if f.needsHelpers facts s.config.schemaModules then
    cache.fetchFor s.disk s.config.sharedSchema facts.module
  else { helpers := {}, cache }

/-- The schema maps of a file, with the cache left behind and what was logged. -/
def collectMaps (s : Setting) (facts : ModuleFacts) (f : SourceFile) (cache : HelperCache) :
    List SchemaMap × HelperCache × List LogRecord :=
  let fetched := helpersFor s facts f cache
  (f.schemaMaps facts s.config.schemaModules fetched.helpers, fetched.cache, fetched.log)

/-! ### One file -/

/-- What a file defines, if it is analysed at all: it has to be named for a
definition and not be passed over, and be in scope. -/
def analysedKind? (s : Setting) (f : SourceFile) : Option DefinitionKind :=
  if s.config.skipsFile f.fileName then none
  else
    match DefinitionKind.ofFile? f.fileName s.config.fileSuffixes with
    | none => none
    | some kind =>
      if s.scope.isFileChanged f.path && (!s.config.newFilesOnly || s.scope.isNewFile f.path) then
        some kind
      else none

/-- The fields of the identifier that a file defines. -/
def identifierFields (s : Setting) (facts : ModuleFacts) (f : SourceFile) (kind : DefinitionKind) :
    Resolution (List String) :=
  (Tracer.ofConfig (f.modelMapping facts) s.config).traceFile kind f

/-- What there is to tell about the identifier of a file. -/
def identifierLog (f : SourceFile) : Resolution (List String) → List LogRecord
  | .unresolvable =>
    [.debug (f.path.text ++ ": identifier fields not resolvable, identifier order not checked")]
  | _ => []

/-- The diagnostics about schema maps of a module that the scope lets through. -/
def mapDiagnostics (s : Setting) (module : String) (ids : Resolution (List String))
    (maps : List SchemaMap) : List Diagnostic :=
  (maps.filterMap (·.finding? ids)).filterMap fun finding =>
    if s.scope.shouldReport finding.file finding.pos.line then some (finding.diagnostic module)
    else none

/-- Check the file of a definition. -/
def checkDefinition (s : Setting) (facts : ModuleFacts) (f : SourceFile) (kind : DefinitionKind)
    (cache : HelperCache) : Report :=
  let ids := identifierFields s facts f kind
  let (maps, cache, log) := collectMaps s facts f cache
  { diagnostics := mapDiagnostics s facts.module.path.text ids maps
    cache
    log := identifierLog f ids ++ log ++ maps.flatMap (·.log ids) }

/-- Check a file. -/
def checkFile (s : Setting) (facts : ModuleFacts) (f : SourceFile) (cache : HelperCache) :
    Report :=
  match analysedKind? s f with
  | none => { cache }
  | some kind => checkDefinition s facts f kind cache

/-! ### A module -/

/-- Check files one after the other. -/
def checkFiles (s : Setting) (facts : ModuleFacts) : List SourceFile → HelperCache → Report
  | [], cache => { cache }
  | f :: rest, cache =>
    let report := checkFile s facts f cache
    report.andThen (checkFiles s facts rest report.cache)

/-- Check a module. -/
def checkModule (s : Setting) (facts : ModuleFacts) (cache : HelperCache) : Report :=
  if s.config.skipsPackage facts.module.path.text then
    { cache, log := [.debug s!"skipping module {facts.module.path.text}"] }
  else checkFiles s facts facts.module.files cache

end FieldOrder
