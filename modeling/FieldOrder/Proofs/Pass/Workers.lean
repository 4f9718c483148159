/-
# Runs shared by workers

A run may be shared by workers. The modules are cut into chunks, a worker checks the
modules of its chunk, and what the workers tell is put together chunk by chunk and
sorted. All workers use one cache of helpers, and their turns may alternate in any way:
a worker is interrupted at most between two files (`moduleSteps`), since a file makes at
most one request to the cache.

When the helper module lies in one place for all modules, none of this can be seen
(`run_independent`). Every cache that started empty gives a module the same helpers,
whichever modules were checked before; so the diagnostics are those of each module
checked alone, and only the order of those of one place depends on the order of the
modules.

Key definitions: `Setting.OnePlace`, `moduleSteps`, `Turn`, `Schedules`, `runWorkers`.
Key theorems: `inSequence_moduleSteps`, `steady_runModule`, `run_perm`,
`Schedules.perm`, `runWorkers_perm`, `run_independent`.
-/
import FieldOrder.Proofs.Check.Sequence
import FieldOrder.Proofs.Diagnostic.Order
import FieldOrder.Proofs.Order.Groups

namespace FieldOrder

/-- The helper module lies in one place for all modules, or for none in any. -/
def Setting.OnePlace (s : Setting) (modules : List ModuleFacts) : Prop :=
  ∀ a ∈ modules, ∀ b ∈ modules, helperDir? s.config.sharedSchema a.module.sourceDir =
    helperDir? s.config.sharedSchema b.module.sourceDir

/-! ### Steps of a module -/

/-- The check of a module in the steps between which others may use the cache. -/
def moduleSteps (s : Setting) (filter : Option (List String)) (facts : ModuleFacts) :
    List (HelperCache → Report) :=
  if !isChosen filter fieldOrderPass then []
  else if s.config.skipsPackage facts.module.path.text then [checkModule s facts]
  else facts.module.files.map (checkFile s facts)

/-! ### Workers -/

/-- A worker makes a step. -/
structure Turn where
  worker : Nat
  step : HelperCache → Report

/-- The steps of a worker, in their order. -/
def stepsOf (w : Nat) (turns : List Turn) : List (HelperCache → Report) :=
  (turns.filter (·.worker == w)).map (·.step)

/-- Every worker checks the modules of its chunk, in some order. -/
def Schedules (s : Setting) (filter : Option (List String)) (chunks : List (List ModuleFacts))
    (turns : List Turn) : Prop :=
  ∀ w, ∃ order : List ModuleFacts, order.Perm (chunks.getD w []) ∧
    stepsOf w turns = order.flatMap (moduleSteps s filter)

/-- What is told turn by turn, with the worker who tells it. -/
def runTurns : List Turn → HelperCache → List (Nat × List Diagnostic)
  | [], _ => []
  | t :: rest, cache =>
    let report := t.step cache
    (t.worker, report.diagnostics) :: runTurns rest report.cache

/-- What one worker told. -/
def toldBy (w : Nat) (told : List (Nat × List Diagnostic)) : List Diagnostic :=
  (told.filter (·.1 == w)).flatMap (·.2)

/-- The diagnostics of a run that is shared by some number of workers. -/
def runWorkers (workers : Nat) (turns : List Turn) : List Diagnostic :=
  Diagnostic.sort ((List.range workers).flatMap fun w => toldBy w (runTurns turns {}))

/-! ### Checks of modules are steady -/

section

variable {s : Setting} {filter : Option (List String)} {facts : ModuleFacts}

theorem runModule_of_chosen (h : isChosen filter fieldOrderPass = true) (cache : HelperCache) :
    runModule s filter facts cache = checkModule s facts cache := by
  have hpasses : passes.filter (isChosen filter) = [fieldOrderPass] := by simp [passes, h]
  rw [runModule, hpasses, runPasses_eq_inSequence, inSequence_singleton]
  rfl

theorem runModule_of_not_chosen (h : isChosen filter fieldOrderPass = false)
    (cache : HelperCache) : runModule s filter facts cache = { cache } := by
  have hpasses : passes.filter (isChosen filter) = [] := by simp [passes, h]
  rw [runModule, hpasses, runPasses]

/-- The steps of a module, one after the other, are its check. -/
theorem inSequence_moduleSteps (s : Setting) (filter : Option (List String)) (facts : ModuleFacts)
    (cache : HelperCache) :
    inSequence (fun step => step) (moduleSteps s filter facts) cache =
      runModule s filter facts cache := by
  unfold moduleSteps
  cases hchosen : isChosen filter fieldOrderPass with
  | false => rw [runModule_of_not_chosen hchosen]; rfl
  | true =>
    rw [runModule_of_chosen hchosen, Bool.not_true, if_neg Bool.false_ne_true]
    by_cases hskip : s.config.skipsPackage facts.module.path.text = true
    · rw [if_pos hskip, inSequence_singleton]
    · rw [if_neg hskip, inSequence_map, checkModule, if_neg hskip, checkFiles_eq_inSequence]

theorem steady_moduleSteps (s : Setting) (filter : Option (List String)) (facts : ModuleFacts) :
    ∀ step ∈ moduleSteps s filter facts, Steady (s.offer (s.found facts.module)) step := by
  unfold moduleSteps
  intro step hstep
  split at hstep
  · cases hstep
  · split at hstep
    · obtain rfl := List.mem_singleton.mp hstep
      exact steady_checkModule s facts
    · obtain ⟨f, -, rfl⟩ := List.mem_map.mp hstep
      exact steady_checkFile s facts f

/-- What is told of a module is told in its steps, each with the cache of the first. -/
theorem diagnostics_runModule (s : Setting) (filter : Option (List String)) (facts : ModuleFacts)
    (cache : HelperCache) : (runModule s filter facts cache).diagnostics =
      (moduleSteps s filter facts).flatMap fun step => (step cache).diagnostics := by
  rw [← inSequence_moduleSteps]
  exact diagnostics_inSequence (steady_moduleSteps s filter facts) cache

theorem steady_runModule (s : Setting) (filter : Option (List String)) (facts : ModuleFacts) :
    Steady (s.offer (s.found facts.module)) (runModule s filter facts) := by
  have hsteps : runModule s filter facts =
      inSequence (fun step => step) (moduleSteps s filter facts) :=
    funext fun cache => (inSequence_moduleSteps s filter facts cache).symm
  rw [hsteps]
  exact .inSequence (steady_moduleSteps s filter facts)

/-- A search depends on the module only through the place that it leads to. -/
theorem Setting.found_eq_of_helperDir? {m m' : Module}
    (h : helperDir? s.config.sharedSchema m.sourceDir = helperDir? s.config.sharedSchema m'.sourceDir) :
    s.found m = s.found m' := by
  unfold Setting.found HelperSearch.run
  rw [h]
  cases helperDir? s.config.sharedSchema m'.sourceDir with
  | none => rfl
  | some dir => rfl

/-- Modules with one place for the helper module find the same helpers. -/
theorem Setting.OnePlace.found {modules : List ModuleFacts} (h : s.OnePlace modules) :
    ∃ found, ∀ facts ∈ modules, s.found facts.module = found := by
  cases modules with
  | nil => exact ⟨{}, by simp⟩
  | cons a rest =>
    refine ⟨s.found a.module, fun b hb => ?_⟩
    exact Setting.found_eq_of_helperDir? (h b hb a List.mem_cons_self)

end

/-! ### Runs -/

variable {s : Setting} {modules : List ModuleFacts}

/-- A run tells what is told of each module alone. -/
theorem run_perm (filter : Option (List String)) (h : s.OnePlace modules) :
    (run s filter modules {}).diagnostics.Perm
      (modules.flatMap fun facts => (runModule s filter facts {}).diagnostics) := by
  obtain ⟨found, hfound⟩ := h.found
  have hsteady : ∀ facts ∈ modules, Steady (s.offer found) (runModule s filter facts) := by
    intro facts hfacts
    rw [← hfound facts hfacts]
    exact steady_runModule s filter facts
  have hmodules : (runModules s filter modules {}).diagnostics =
      modules.flatMap fun facts => (runModule s filter facts {}).diagnostics := by
    rw [runModules_eq_inSequence]
    exact diagnostics_inSequence hsteady {}
  rw [← hmodules]
  exact Diagnostic.sort_perm _

/-- Steady steps tell in their turns what each would tell with the first cache. -/
theorem runTurns_eq_map {β : Type} {ask : HelperCache → β} : ∀ {turns : List Turn},
    (∀ t ∈ turns, Steady ask t.step) → ∀ cache : HelperCache,
      runTurns turns cache = turns.map fun t => (t.worker, (t.step cache).diagnostics)
  | [], _, _ => rfl
  | t :: rest, h, cache => by
    obtain ⟨ht, hrest⟩ := List.forall_mem_cons.mp h
    have hsame : (rest.map fun u => (u.worker, (u.step (t.step cache).cache).diagnostics)) =
        rest.map fun u => (u.worker, (u.step cache).diagnostics) :=
      List.map_congr_left fun u hu => by rw [(hrest u hu).diagnostics (ht.ask_cache cache)]
    rw [runTurns, runTurns_eq_map hrest, hsame, List.map_cons]

/-- What a worker tells is told in its steps. -/
theorem toldBy_map (w : Nat) (turns : List Turn) (cache : HelperCache) :
    toldBy w (turns.map fun t => (t.worker, (t.step cache).diagnostics)) =
      (stepsOf w turns).flatMap fun step => (step cache).diagnostics := by
  rw [toldBy, stepsOf, List.filter_map, List.flatMap_map, List.flatMap_map]
  rfl

theorem flatMap_getD_range {α β : Type} (g : List α → List β) (chunks : List (List α)) :
    ((List.range chunks.length).flatMap fun w => g (chunks.getD w [])) = chunks.flatMap g := by
  have hchunks : (List.range chunks.length).map (fun w => chunks.getD w []) = chunks := by
    apply List.ext_getElem
    · simp
    · intro i hi hi'
      simp [List.getD, hi']
  conv_rhs => rw [← hchunks, List.flatMap_map]

/-- All steps of all modules are made in the turns, each once. -/
theorem Schedules.perm {filter : Option (List String)} {chunks : List (List ModuleFacts)}
    {turns : List Turn} (h : Schedules s filter chunks turns) :
    (turns.map (·.step)).Perm (chunks.flatten.flatMap (moduleSteps s filter)) := by
  have hworker : ∀ w, (stepsOf w turns).Perm ((chunks.getD w []).flatMap (moduleSteps s filter)) := by
    intro w
    obtain ⟨order, hperm, horder⟩ := h w
    rw [horder]
    exact hperm.flatMap_right _
  -- who has no chunk has no turn
  have hworkers : ∀ t ∈ turns, t.worker ∈ List.range chunks.length := by
    intro t ht
    by_contra hout
    have hidle : chunks.getD t.worker [] = [] := by
      rw [List.mem_range, Nat.not_lt] at hout
      rw [List.getD, List.getElem?_eq_none hout, Option.getD_none]
    have hnone := hworker t.worker
    rw [hidle, List.flatMap_nil, List.perm_nil, stepsOf, List.map_eq_nil_iff] at hnone
    exact List.filter_eq_nil_iff.mp hnone t ht (beq_self_eq_true t.worker)
  have hcut : (turns.map (·.step)).Perm
      ((List.range chunks.length).flatMap fun w => stepsOf w turns) := by
    have hall := perm_flatMap_filter Turn.worker _ turns List.nodup_range hworkers
    have hsteps := (hall.map (·.step)).symm
    rwa [List.map_flatMap] at hsteps
  have hchunks : chunks.flatten.flatMap (moduleSteps s filter) =
      (List.range chunks.length).flatMap fun w =>
        (chunks.getD w []).flatMap (moduleSteps s filter) := by
    rw [flatMap_getD_range, List.flatten_eq_flatMap, List.flatMap_assoc]
    rfl
  rw [hchunks]
  exact hcut.trans (List.Perm.flatMap_left _ fun w _ => hworker w)

theorem steady_of_schedules {filter : Option (List String)} {chunks : List (List ModuleFacts)}
    {turns : List Turn} {found : Helpers} (hturns : Schedules s filter chunks turns)
    (hfound : ∀ facts ∈ chunks.flatten, s.found facts.module = found) :
    ∀ t ∈ turns, Steady (s.offer found) t.step := by
  intro t ht
  have hstep := hturns.perm.subset (List.mem_map_of_mem ht)
  obtain ⟨facts, hfacts, hstep⟩ := List.mem_flatMap.mp hstep
  rw [← hfound facts hfacts]
  exact steady_moduleSteps s filter facts t.step hstep

/-- Workers tell together what is told of each module alone. -/
theorem runWorkers_perm {filter : Option (List String)} {chunks : List (List ModuleFacts)}
    {turns : List Turn} (h : s.OnePlace modules) (hchunks : chunks.flatten = modules)
    (hturns : Schedules s filter chunks turns) : (runWorkers chunks.length turns).Perm
      (modules.flatMap fun facts => (runModule s filter facts {}).diagnostics) := by
  obtain ⟨found, hfound⟩ := h.found
  have hsteady := steady_of_schedules hturns (by rw [hchunks]; exact hfound)
  have hworker : ∀ w, (toldBy w (runTurns turns {})).Perm
      ((chunks.getD w []).flatMap fun facts => (runModule s filter facts {}).diagnostics) := by
    intro w
    obtain ⟨order, hperm, horder⟩ := hturns w
    have htold : toldBy w (runTurns turns {}) =
        order.flatMap fun facts => (runModule s filter facts {}).diagnostics := by
      rw [runTurns_eq_map hsteady, toldBy_map, horder, List.flatMap_assoc]
      exact List.flatMap_congr fun facts _ => (diagnostics_runModule s filter facts {}).symm
    rw [htold]
    exact hperm.flatMap_right _
  have hall : ((List.range chunks.length).flatMap fun w => toldBy w (runTurns turns {})).Perm
      (chunks.flatMap fun chunk =>
        chunk.flatMap fun facts => (runModule s filter facts {}).diagnostics) := by
    rw [← flatMap_getD_range]
    exact List.Perm.flatMap_left _ fun w _ => hworker w
  rw [← hchunks, List.flatten_eq_flatMap, List.flatMap_assoc]
  exact (Diagnostic.sort_perm _).trans hall

/-- **The order of modules does not matter.** When the helper module lies in one place
for all modules, a run that starts with a new cache tells, in order, just what is told
of each module alone. So the modules may come in any order, and they may be cut into
chunks and checked by workers that share the cache, in whatever order these take their
turns: the diagnostics are the same, up to the order of those of one place. -/
theorem run_independent (s : Setting) (filter : Option (List String)) (modules : List ModuleFacts)
    (h : s.OnePlace modules) :
    ((run s filter modules {}).diagnostics.Pairwise fun a b => (Diagnostic.cmp a b).isLE) ∧
    (run s filter modules {}).diagnostics.Perm
      (modules.flatMap fun facts => (runModule s filter facts {}).diagnostics) ∧
    (∀ modules', modules'.Perm modules → Diagnostic.SameUpToTies
      (run s filter modules' {}).diagnostics (run s filter modules {}).diagnostics) ∧
    ∀ chunks turns, chunks.flatten = modules → Schedules s filter chunks turns →
      Diagnostic.SameUpToTies (runWorkers chunks.length turns)
        (run s filter modules {}).diagnostics := by
  have hrun := run_perm filter h
  refine ⟨Diagnostic.pairwise_sort _, hrun, fun modules' hperm => ?_, ?_⟩
  · have h' : s.OnePlace modules' := fun a ha b hb => h a (hperm.subset ha) b (hperm.subset hb)
    have hsame := (run_perm filter h').trans (hperm.flatMap_right _)
    exact .of_perm (hsame.trans hrun.symm) (Diagnostic.pairwise_sort _) (Diagnostic.pairwise_sort _)
  · intro chunks turns hchunks hturns
    have hsame := runWorkers_perm h hchunks hturns
    exact .of_perm (hsame.trans hrun.symm) (Diagnostic.pairwise_sort _) (Diagnostic.pairwise_sort _)

/-- A file of a service with one schema map. -/
def serviceFile (dir : String) : SourceFile :=
  ⟨⟨dir ++ "/tags_resource.go"⟩, "service", [], [.var ⟨["fields"], none, [tagsFirst], {}⟩]⟩

/-- A service, with its directory in a repository. -/
def service (dir : String) : ModuleFacts :=
  .syntaxOnly { tagsFirstModule with dir := ⟨dir⟩, files := [serviceFile dir] }

/-- Two services at different depths of one repository. -/
def storageAndDns : List ModuleFacts :=
  [service "repo/internal/storage", service "repo/internal/network/dns"]

/-- A setting with no file on the disk. -/
def emptyDisk : Setting := { disk := ({} : FileTree).disk }

/-- Two workers, of which the second has its turn first. -/
def dnsFirst : List Turn :=
  [⟨1, checkFile emptyDisk (service "repo/internal/network/dns")
      (serviceFile "repo/internal/network/dns")⟩,
    ⟨0, checkFile emptyDisk (service "repo/internal/storage") (serviceFile "repo/internal/storage")⟩]

theorem onePlace_storageAndDns : emptyDisk.OnePlace storageAndDns := by
  have hplace : ∀ facts ∈ storageAndDns,
      (helperDir? emptyDisk.config.sharedSchema facts.module.sourceDir).map (·.text) =
        some "repo/vendor/github.com/hashicorp/go-azure-helpers/resourcemanager/commonschema" := by
    decide +kernel
  intro a ha b hb
  exact Option.map_injective (fun _ _ => congrArg Path.mk) ((hplace a ha).trans (hplace b hb).symm)

theorem schedules_dnsFirst : Schedules emptyDisk none (storageAndDns.map ([·])) dnsFirst := by
  have hsteps : ∀ dir, moduleSteps emptyDisk none (service dir) =
      [checkFile emptyDisk (service dir) (serviceFile dir)] := by
    intro dir
    have hskip : emptyDisk.config.skipsPackage (service dir).module.path.text = false :=
      show emptyDisk.config.skipsPackage "example" = false by decide
    rw [moduleSteps, if_neg (by decide), if_neg (Bool.eq_false_iff.mp hskip)]
    rfl
  intro w
  match w with
  | 0 => exact ⟨_, .refl _, by simp [storageAndDns, hsteps]; rfl⟩
  | 1 => exact ⟨_, .refl _, by simp [storageAndDns, hsteps]; rfl⟩
  | w + 2 => exact ⟨[], by simp [storageAndDns], by simp [stepsOf, dnsFirst]⟩

/-- The two services share a place, and their modules may be swapped or given to two
workers. -/
theorem run_independent_storageAndDns : emptyDisk.OnePlace storageAndDns ∧
    Schedules emptyDisk none (storageAndDns.map ([·])) dnsFirst ∧
    Diagnostic.SameUpToTies (run emptyDisk none storageAndDns.reverse {}).diagnostics
      (run emptyDisk none storageAndDns {}).diagnostics ∧
    Diagnostic.SameUpToTies (runWorkers 2 dnsFirst)
      (run emptyDisk none storageAndDns {}).diagnostics := by
  obtain ⟨-, -, hperm, hworkers⟩ :=
    run_independent emptyDisk none storageAndDns onePlace_storageAndDns
  exact ⟨onePlace_storageAndDns, schedules_dnsFirst, hperm _ (List.reverse_perm _),
    hworkers _ _ rfl schedules_dnsFirst⟩

end FieldOrder
