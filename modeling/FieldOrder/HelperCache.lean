/-
# The shared helper module

Fields are often built by helpers of one shared module, which lies in a fixed
place beside the provider's source tree. It is looked for when the first field
leads there. A search that found helpers is kept for good; one that found none
is tried again at the next request, which may start from another directory.

Key definitions: `helperDir?`, `HelperSource`, `HelperSearch`, `HelperCache`,
`HelperCache.fetch`.
-/
import FieldOrder.Config
import FieldOrder.Disk
import FieldOrder.Facts.Codec
import FieldOrder.Log
import FieldOrder.Schema.Helper

namespace FieldOrder

/-! ### Where the module lies -/

/-- What stands in the paths of a toolchain's build caches. -/
def buildCacheMarkers : List String := ["go-build", "AppData", ".test"]

/-- The directory of the helper module for source under `start`: beside the nearest
sentinel directory at or above it. Nothing is looked for from a build cache. -/
def helperDir? (settings : SharedSchema) (start : Path) : Option Path :=
  if buildCacheMarkers.any (Text.contains start.text ·) then none
  else do
    let sentinel ← start.ancestors.find? fun dir => dir.fileName? == some settings.sentinelDir
    let root ← sentinel.parent?
    return root.join ⟨settings.relativePath⟩

/-- The facts in the file at `path`. -/
def ModuleFacts.load (disk : Disk) (path : Path) : Except Fault ModuleFacts :=
  match disk.read? path with
  | none => .error (.factsUnreadable path)
  | some text =>
    match ModuleFacts.parse? text with
    | none => .error (.factsMalformed path)
    | some facts => .ok facts

/-- The helper module in a directory. -/
def loadHelperModule (disk : Disk) (factsFile : String) (dir : Path) : Except Fault Module :=
  match ModuleFacts.load disk (dir.join ⟨factsFile⟩) with
  | .error cause => .error (.helperModule dir cause)
  | .ok facts => .ok facts.module

/-- Where helper modules come from. -/
structure HelperSource where
  isDir : Path → Bool
  /-- The helper module in a directory. -/
  load : Path → Except Fault Module

/-- The helper modules of a disk. -/
def Disk.helperSource (disk : Disk) (factsFile : String) : HelperSource :=
  ⟨disk.isDir, loadHelperModule disk factsFile⟩

/-! ### One search -/

/-- What came of a search for the helper module. -/
inductive HelperSearch where
  /-- There is no place for it above `start`. -/
  | noPlace (start : Path)
  /-- Its directory does not exist. -/
  | noDirectory (dir : Path)
  | refused (fault : Fault)
  | found (helpers : Helpers)

namespace HelperSearch

/-- The helpers that a search found. -/
def helpers : HelperSearch → Helpers
  | found helpers => helpers
  | _ => {}

/-- What there is to tell about a search. -/
def log : HelperSearch → List LogRecord
  | noPlace start => [.debug s!"shared schema cache: no helper module found from {start.text}"]
  | noDirectory dir => [.debug s!"shared schema cache: {dir.text} does not exist"]
  | refused fault => [.warn fault.message]
  | found _ => []

/-- Look for the helper module from the directory `start`. -/
def run (source : HelperSource) (settings : SharedSchema) (start : Path) : HelperSearch :=
  match helperDir? settings start with
  | none => noPlace start
  | some dir =>
    if !source.isDir dir then noDirectory dir
    else
      match source.load dir with
      | .error fault => refused fault
      | .ok helper => found helper.helpers

end HelperSearch

/-! ### The cache -/

/-- What a cache holds. -/
inductive CacheState where
  /-- Nothing was looked for yet. -/
  | empty
  /-- A search is under way. -/
  | loading
  | populated (helpers : Helpers)
  /-- The last search found nothing; the next request tries again. -/
  | failedRetryable

/-- The name of a state. -/
def CacheState.text : CacheState → String
  | empty => "empty"
  | loading => "loading"
  | populated _ => "populated"
  | failedRetryable => "failed_retryable"

/-- The helpers found so far, and how many searches there were. -/
structure HelperCache where
  state : CacheState := .empty
  searches : Nat := 0

/-- The answer to a request for helpers. -/
structure Fetched where
  helpers : Helpers
  cache : HelperCache
  log : List LogRecord := []

namespace HelperCache

/-- The cache while a search is under way. -/
def start (cache : HelperCache) : HelperCache := { cache with state := .loading }

/-- The end of a search: helpers are kept, if there are any. -/
def finish (cache : HelperCache) (search : HelperSearch) : Fetched :=
  let searches := cache.searches + 1
  let n := search.helpers.size
  if search.helpers.isEmpty then
    { helpers := search.helpers
      cache := ⟨.failedRetryable, searches⟩
      log := search.log ++ [.debug "shared schema cache: nothing loaded, will retry"] }
  else
    { helpers := search.helpers
      cache := ⟨.populated search.helpers, searches⟩
      log := search.log ++ [.debug s!"shared schema cache: loaded {n} helpers"] }

/-- Answer a request for helpers; `search` is what a search would find now. -/
def fetch (enabled : Bool) (search : Unit → HelperSearch) (cache : HelperCache) : Fetched :=
  if !enabled then { helpers := {}, cache }
  else
    match cache.state with
    | .populated helpers => { helpers, cache }
    | _ => cache.start.finish (search ())

/-- The helpers for a module under check. -/
def fetchFrom (source : HelperSource) (settings : SharedSchema) (m : Module)
    (cache : HelperCache) : Fetched :=
  cache.fetch settings.enabled fun _ => .run source settings m.sourceDir

/-- The helpers for a module under check, from a disk. -/
def fetchFor (disk : Disk) (settings : SharedSchema) (m : Module) (cache : HelperCache) : Fetched :=
  cache.fetchFrom (disk.helperSource settings.factsFile) settings m

end HelperCache
end FieldOrder
