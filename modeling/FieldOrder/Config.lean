/-
# Configurations

What a check takes for given: which modules and files it passes over, which
files hold definitions, how a schema is recognised, through which receivers
fields are read and identifiers committed, and where the helper module is.

Key definitions: `Config`, `SharedSchema`, `Config.flaw?`, `DefinitionKind.ofFile?`.
-/
import FieldOrder.Fault
import FieldOrder.Text

namespace FieldOrder

/-- The name endings of files that hold definitions. -/
structure FileSuffixes where
  resource : String := "_resource.go"
  dataSource : String := "_data_source.go"
  deriving DecidableEq, Repr

/-- Where the module of shared helpers lies: in `relativePath` beside the nearest
directory named `sentinelDir`, with its facts in `factsFile`. -/
structure SharedSchema where
  enabled : Bool := true
  sentinelDir : String := "internal"
  relativePath : String :=
    "vendor/github.com/hashicorp/go-azure-helpers/resourcemanager/commonschema"
  factsFile : String := "schemalint.facts.json"
  deriving DecidableEq, Repr

/-- The configuration of a check. -/
structure Config where
  /-- Pieces of import paths; modules with any of them are passed over. -/
  skipPackages : List String :=
    ["_test", "/migration", "/client", "/validate", "/test-data", "/parse", "/models"]
  fileSuffixes : FileSuffixes := {}
  /-- Name endings of files that are passed over. -/
  skipFiles : List String := ["_test.go", "registration.go"]
  /-- The modules that declare the type of a schema. -/
  schemaModules : List String :=
    ["github.com/hashicorp/terraform-plugin-sdk/v2/helper/schema",
      "github.com/hashicorp/terraform-provider-azurerm/internal/tf/pluginsdk"]
  /-- The receivers through which configuration fields are read. -/
  accessorReceivers : List String := ["d"]
  /-- The receivers through which an identifier is committed. -/
  commitReceivers : List String := ["d", "meta", "metadata"]
  sharedSchema : SharedSchema := {}
  /-- Whether findings are told for new files only. -/
  newFilesOnly : Bool := true
  deriving DecidableEq, Repr

namespace Config

/-- The file that is looked for when no other is named. -/
def fileName : String := "schemalint.yml"

/-- The first flaw in the values. -/
def flaw? (c : Config) : Option ConfigFlaw :=
  if c.fileSuffixes.resource = "" || c.fileSuffixes.dataSource = "" then some .emptySuffix
  else if c.commitReceivers.isEmpty then some .noCommitReceiver
  else if c.sharedSchema.enabled && c.sharedSchema.sentinelDir = "" then some .emptySentinel
  else none

/-- Whether modules with this import path are passed over. -/
def skipsPackage (c : Config) (path : String) : Bool :=
  c.skipPackages.any (Text.contains path ·)

/-- Whether files with this name are passed over. -/
def skipsFile (c : Config) (name : String) : Bool := c.skipFiles.any (Text.endsWith name ·)

end Config

/-- What a file of definitions defines. -/
inductive DefinitionKind where
  | resource
  | dataSource
  deriving DecidableEq, Repr

namespace DefinitionKind

/-- What the file of a name defines, if anything. -/
def ofFile? (name : String) (suffixes : FileSuffixes) : Option DefinitionKind :=
  if Text.endsWith name suffixes.resource then some resource
  else if Text.endsWith name suffixes.dataSource then some dataSource
  else none

/-- What stands in the names of the functions that commit the identifier. -/
def entryName : DefinitionKind → String
  | resource => "Create"
  | dataSource => "Read"

end DefinitionKind
end FieldOrder
