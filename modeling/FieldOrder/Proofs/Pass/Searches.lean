/-
# The searches of a run

A file that is analysed asks the cache for helpers once, if the value of some text key of
a schema map of it leads to another module, and not at all otherwise (`Setting.Asks`).
While searches find nothing, each request makes one; once a search has found helpers there
is no other. So when all searches of a run come to the same, which they do if the helper
module lies in one place for all modules, the cache that is left tells how many files asked
(`cache_run`). Nor does it matter who checks the modules: workers that share the cache leave
the same one, whatever turns they take.

Key definitions: `HelperCache.requested`, `Requests`, `Setting.Asks`, `Setting.askingFiles`,
`Setting.helpersAt`.
Key theorems: `HelperCache.fetch_requested`, `Requests.inSequence`, `requests_checkFile`,
`cache_inSequence_steps`, `cache_run`.
-/
import FieldOrder.Proofs.Pass.Workers
import FieldOrder.Proofs.Schema.Routes

namespace FieldOrder

/-! ### Requests in a row -/

namespace HelperCache

/-- A cache after some requests whose searches would all find the same. -/
def requested (found : Helpers) : Nat → HelperCache
  | 0 => ⟨.empty, 0⟩
  | n + 1 => if found.isEmpty then ⟨.failedRetryable, n + 1⟩ else ⟨.populated found, 1⟩

/-- One more request. -/
theorem fetch_requested {found : Helpers} {search : Unit → HelperSearch}
    (h : (search ()).helpers = found) (n : Nat) :
    ((requested found n).fetch true search).cache = requested found (n + 1) := by
  by_cases hfound : found.isEmpty = true
  · -- nothing is ever held, so every request makes a search
    have hafter : ∀ k, requested found (k + 1) = ⟨.failedRetryable, k + 1⟩ := fun k => if_pos hfound
    have hheld : (requested found n).held? = none := by
      cases n with
      | zero => rfl
      | succ n => rw [hafter]; rfl
    have hsearches : (requested found n).searches = n := by
      cases n with
      | zero => rfl
      | succ n => rw [hafter]
    rw [fetch_of_not_held hheld, finish_cache, h, CacheState.afterSearch, if_pos hfound, hafter,
      start, hsearches]
  · -- the first request makes the search, and the others get what is held
    have hafter : ∀ k, requested found (k + 1) = ⟨.populated found, 1⟩ := fun k => if_neg hfound
    cases n with
    | zero =>
      rw [fetch_of_not_held rfl, finish_cache, h, CacheState.afterSearch, if_neg hfound, hafter]
      rfl
    | succ n =>
      have hheld : (requested found (n + 1)).held? = some found := by rw [hafter]; rfl
      rw [fetch_of_held hheld, hafter, hafter]

end HelperCache

/-- A check makes `n` requests for helpers. -/
def Requests (found : Helpers) (n : Nat) (check : HelperCache → Report) : Prop :=
  ∀ past, (check (.requested found past)).cache = .requested found (past + n)

section

variable {α : Type} {found : Helpers}

/-- With a new cache a check makes a search. -/
def makesSearch (check : HelperCache → Report) : Bool := 0 < (check {}).cache.searches

/-- A check that makes one request or none makes a search with a new cache, or none. -/
theorem Requests.makesSearch_eq {b : Bool} {check : HelperCache → Report}
    (h : Requests found (if b then 1 else 0) check) : makesSearch check = b := by
  have hnew : (check {}).cache = .requested found (0 + if b then 1 else 0) := h 0
  rw [makesSearch, hnew]
  cases b with
  | false => rfl
  | true =>
    have hone : (HelperCache.requested found 1).searches = 1 := by
      rw [HelperCache.requested]
      split <;> rfl
    show decide (0 < (HelperCache.requested found 1).searches) = true
    rw [hone]
    rfl

/-- In sequence checks make all their requests. -/
theorem Requests.inSequence {asks : α → Bool} {check : α → HelperCache → Report} :
    ∀ {as : List α}, (∀ a ∈ as, Requests found (if asks a then 1 else 0) (check a)) →
      Requests found (as.countP asks) (inSequence check as)
  | [], _ => fun _ => rfl
  | a :: rest, h => by
    obtain ⟨ha, hrest⟩ := List.forall_mem_cons.mp h
    intro past
    rw [FieldOrder.inSequence, Report.andThen, ha past, Requests.inSequence hrest, List.countP_cons,
      Nat.add_assoc, Nat.add_comm (rest.countP asks)]

end

/-! ### Who asks -/

namespace Setting

/-- A file is analysed, and some text key of a schema map of it leads to another module. -/
def Asks (s : Setting) (facts : ModuleFacts) (f : SourceFile) : Prop :=
  (analysedKind? s f).isSome = true ∧ f.UsesHelpers facts s.config.schemaModules

instance (s : Setting) (facts : ModuleFacts) : DecidablePred (s.Asks facts) :=
  fun _ => inferInstanceAs (Decidable (_ ∧ _))

/-- The files of a module for which helpers are asked for. -/
def askingFiles (s : Setting) (facts : ModuleFacts) : List SourceFile :=
  if s.config.skipsPackage facts.module.path.text then []
  else facts.module.files.filter fun f => s.Asks facts f

/-- The helpers of the module in a place. There are none if there is no place or no
directory there, or if the module cannot be loaded. -/
def helpersAt (s : Setting) : Option Path → Helpers
  | none => {}
  | some dir =>
    if s.disk.isDir dir then
      match loadHelperModule s.disk s.config.sharedSchema.factsFile dir with
      | .error _ => {}
      | .ok helper => helper.helpers
    else {}

/-- A search finds the helpers of the place that it leads to. -/
theorem found_eq_helpersAt (s : Setting) (m : Module) :
    s.found m = s.helpersAt (helperDir? s.config.sharedSchema m.sourceDir) := by
  unfold found HelperSearch.run
  cases helperDir? s.config.sharedSchema m.sourceDir with
  | none => rfl
  | some dir =>
    have hload : (s.disk.helperSource s.config.sharedSchema.factsFile).load dir =
        loadHelperModule s.disk s.config.sharedSchema.factsFile dir := rfl
    have hdir : (s.disk.helperSource s.config.sharedSchema.factsFile).isDir dir =
        s.disk.isDir dir := rfl
    dsimp only
    rw [hdir, hload, helpersAt]
    cases s.disk.isDir dir with
    | false => rfl
    | true =>
      cases loadHelperModule s.disk s.config.sharedSchema.factsFile dir with
      | error fault => rfl
      | ok helper => rfl

end Setting

/-! ### Checks -/

section

variable {s : Setting} {facts : ModuleFacts} {found : Helpers}

/-- A file asks once or not at all. -/
theorem requests_checkFile (henabled : s.config.sharedSchema.enabled = true)
    (hfound : s.found facts.module = found) (f : SourceFile) :
    Requests found (if s.Asks facts f then 1 else 0) (checkFile s facts f) := by
  intro past
  rw [cache_checkFile]
  by_cases hkind : (analysedKind? s f).isSome = true
  · by_cases huses : f.UsesHelpers facts s.config.schemaModules
    · have hneeds := SourceFile.needsHelpers_iff.mpr huses
      rw [if_pos hkind, if_pos ⟨hkind, huses⟩, helpersFor, if_pos hneeds, HelperCache.fetchFor,
        HelperCache.fetchFrom, henabled, HelperCache.fetch_requested]
      exact hfound
    · rw [if_pos hkind, if_neg fun h => huses h.2, helpersFor,
        if_neg fun h => huses (SourceFile.needsHelpers_iff.mp h)]
      rfl
  · rw [if_neg hkind, if_neg fun h => hkind h.1]
    rfl

/-- Of the steps of a module those ask that check a file which does. -/
theorem requests_moduleSteps (henabled : s.config.sharedSchema.enabled = true)
    (hfound : s.found facts.module = found) :
    (∀ step ∈ moduleSteps s none facts, Requests found (if makesSearch step then 1 else 0) step) ∧
      (moduleSteps s none facts).countP makesSearch = (s.askingFiles facts).length := by
  have hchosen : (!isChosen none fieldOrderPass) = false := rfl
  unfold moduleSteps Setting.askingFiles
  rw [hchosen, if_neg Bool.false_ne_true]
  by_cases hskip : s.config.skipsPackage facts.module.path.text = true
  · -- a module that is passed over is one step, which asks for nothing
    rw [if_pos hskip, if_pos hskip]
    have hidle : Requests found (if false then 1 else 0) (checkModule s facts) := by
      intro past
      rw [checkModule, if_pos hskip]
      rfl
    have hnone : makesSearch (checkModule s facts) = false := hidle.makesSearch_eq
    constructor
    · intro step hstep
      obtain rfl := List.mem_singleton.mp hstep
      rw [hnone]
      exact hidle
    · rw [List.countP_singleton, hnone]
      rfl
  · rw [if_neg hskip, if_neg hskip]
    have hfile : ∀ f, Requests found (if decide (s.Asks facts f) then 1 else 0)
        (checkFile s facts f) := by
      simpa using requests_checkFile henabled hfound
    have hasks : ∀ f, makesSearch (checkFile s facts f) = decide (s.Asks facts f) :=
      fun f => (hfile f).makesSearch_eq
    constructor
    · intro step hstep
      obtain ⟨f, -, rfl⟩ := List.mem_map.mp hstep
      rw [hasks]
      exact hfile f
    · rw [List.countP_map, ← List.countP_eq_length_filter]
      exact List.countP_congr fun f _ => by rw [Function.comp_apply, hasks]

end

/-! ### Runs -/

section

variable {s : Setting} {found : Helpers}

/-- As many steps ask as files. -/
theorem countP_makesSearch (henabled : s.config.sharedSchema.enabled = true) :
    ∀ {modules : List ModuleFacts}, (∀ facts ∈ modules, s.found facts.module = found) →
      (modules.flatMap (moduleSteps s none)).countP makesSearch =
        (modules.flatMap s.askingFiles).length
  | [], _ => rfl
  | facts :: rest, h => by
    obtain ⟨hfacts, hrest⟩ := List.forall_mem_cons.mp h
    rw [List.flatMap_cons, List.flatMap_cons, List.countP_append, List.length_append,
      (requests_moduleSteps henabled hfacts).2, countP_makesSearch henabled hrest]

variable {modules : List ModuleFacts}

/-- The steps of all modules, in whatever order, leave a cache behind that tells how many
files asked. -/
theorem cache_inSequence_steps (henabled : s.config.sharedSchema.enabled = true)
    (hfound : ∀ facts ∈ modules, s.found facts.module = found)
    {steps : List (HelperCache → Report)}
    (hsteps : steps.Perm (modules.flatMap (moduleSteps s none))) :
    (inSequence (fun step => step) steps {}).cache =
      .requested found (modules.flatMap s.askingFiles).length := by
  have hrequests : ∀ step ∈ steps, Requests found (if makesSearch step then 1 else 0) step := by
    intro step hstep
    obtain ⟨facts, hfacts, hstep⟩ := List.mem_flatMap.mp (hsteps.subset hstep)
    exact (requests_moduleSteps henabled (hfound facts hfacts)).1 step hstep
  have hcache := Requests.inSequence hrequests 0
  rw [Nat.zero_add, hsteps.countP_eq, countP_makesSearch henabled hfound] at hcache
  exact hcache

/-- A run makes the steps of its modules one after the other. -/
theorem runModules_eq_inSequence_steps (s : Setting) (modules : List ModuleFacts)
    (cache : HelperCache) : runModules s none modules cache =
      inSequence (fun step => step) (modules.flatMap (moduleSteps s none)) cache := by
  have hmodule : (fun facts => inSequence (fun step => step) (moduleSteps s none facts)) =
      runModule s none :=
    funext fun facts => funext fun cache => inSequence_moduleSteps s none facts cache
  rw [inSequence_flatMap, hmodule, runModules_eq_inSequence]

/-- **Searches are counted.** Let the helper module lie in one place for all modules, if it
lies anywhere. A run over the modules that starts with a new cache leaves it empty when no
file asked for helpers; else the cache holds the helpers of that place after one search, or
it has failed as often as files asked, when there are none. Workers that share the cache
leave the same one. -/
theorem cache_run (s : Setting) (modules : List ModuleFacts) (place : Option Path)
    (henabled : s.config.sharedSchema.enabled = true)
    (hplace : ∀ facts ∈ modules, helperDir? s.config.sharedSchema facts.module.sourceDir = place) :
    (run s none modules {}).cache =
      .requested (s.helpersAt place) (modules.flatMap s.askingFiles).length ∧
    ∀ chunks turns, chunks.flatten = modules → Schedules s none chunks turns →
      (inSequence Turn.step turns {}).cache = (run s none modules {}).cache := by
  have hfound : ∀ facts ∈ modules, s.found facts.module = s.helpersAt place := by
    intro facts hfacts
    rw [s.found_eq_helpersAt, hplace facts hfacts]
  have hrun : (run s none modules {}).cache =
      .requested (s.helpersAt place) (modules.flatMap s.askingFiles).length := by
    rw [← cache_inSequence_steps henabled hfound (.refl _), ← runModules_eq_inSequence_steps]
    rfl
  refine ⟨hrun, fun chunks turns hchunks hturns => ?_⟩
  have hsteps := hturns.perm
  rw [hchunks] at hsteps
  rw [hrun, ← cache_inSequence_steps henabled hfound hsteps, inSequence_map]

end

/-- A module with a file that calls a function of another module. -/
def zoned (dir : String) : ModuleFacts :=
  let zone : Expr := .call (.selector (.ident "commonschema" {}) "ZoneOptional" {}) [] {}
  let file : SourceFile := ⟨⟨dir ++ "/zoned_resource.go"⟩, "zoned",
    [⟨none, "example.com/helpers/commonschema"⟩],
    [.var ⟨["fields"], none, [.composite (some (.schemaMapOf "pluginsdk"))
      [⟨some (.lit .string "zone" {}), zone⟩] {}], {}⟩]⟩
  .syntaxOnly { path := { text := "example.com/zoned" }, dir := ⟨dir⟩, files := [file] }

/-- Three modules of one repository; the file of the second asks for no helpers. -/
def zonedModules : List ModuleFacts :=
  [zoned "repo/internal/compute", service "repo/internal/storage", zoned "repo/internal/network/dns"]

theorem helperDir?_zonedModules : ∀ facts ∈ zonedModules,
    helperDir? emptyDisk.config.sharedSchema facts.module.sourceDir =
      some ⟨"repo/vendor/github.com/hashicorp/go-azure-helpers/resourcemanager/commonschema"⟩ := by
  have htext : ∀ facts ∈ zonedModules,
      (helperDir? emptyDisk.config.sharedSchema facts.module.sourceDir).map (·.text) =
        some "repo/vendor/github.com/hashicorp/go-azure-helpers/resourcemanager/commonschema" := by
    decide +kernel
  exact fun facts hfacts =>
    Option.map_injective (fun _ _ => congrArg Path.mk) (htext facts hfacts)

/-- Without files on the disk two of the three modules make searches that fail. -/
theorem cache_run_zonedModules : emptyDisk.config.sharedSchema.enabled = true ∧
    (∃ place, ∀ facts ∈ zonedModules,
      helperDir? emptyDisk.config.sharedSchema facts.module.sourceDir = some place) ∧
    (run emptyDisk none zonedModules {}).cache = ⟨.failedRetryable, 2⟩ := by
  have henabled : emptyDisk.config.sharedSchema.enabled = true := rfl
  have hasking : (zonedModules.flatMap emptyDisk.askingFiles).length = 2 := by decide +kernel
  obtain ⟨hcache, -⟩ := cache_run emptyDisk zonedModules _ henabled helperDir?_zonedModules
  refine ⟨henabled, ⟨_, helperDir?_zonedModules⟩, ?_⟩
  rw [hcache, hasking]
  rfl

end FieldOrder
