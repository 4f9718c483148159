/-
# Checks in sequence

The files of a module, the passes over it and the modules of a run are all checked in
the same way: one after the other, the cache of helpers being handed on. What a check
tells may depend on the cache it gets. It is steady when it depends only on what
the cache gives for a certain request, and leaves the cache giving the same. Steady
checks in sequence tell what each of them would tell with the first cache
(`diagnostics_inSequence`), and are steady together (`Steady.inSequence`).

On a disk that does not change, a check of a file is steady for the requests of its
module, and so is a check of the module (`steady_checkFile`, `steady_checkModule`).

Key definitions: `inSequence`, `Steady`, `Setting.found`, `Setting.offer`.
Key theorems: `diagnostics_inSequence`, `Steady.inSequence`, `steady_checkFile`,
`steady_checkModule`.
-/
import FieldOrder.Pass
import FieldOrder.Proofs.Check.Soundness
import FieldOrder.Proofs.HelperCache.Requests

namespace FieldOrder

/-! ### Sequences -/

section

variable {α : Type} {β : Type}

/-- The checks of things in a row, the cache being handed on. -/
def inSequence (check : α → HelperCache → Report) : List α → HelperCache → Report
  | [], cache => { cache }
  | a :: rest, cache =>
    let report := check a cache
    report.andThen (inSequence check rest report.cache)

theorem inSequence_map {γ : Type} (check : α → HelperCache → Report) (g : γ → α) :
    ∀ (cs : List γ) (cache : HelperCache),
      inSequence check (cs.map g) cache = inSequence (fun c => check (g c)) cs cache
  | [], _ => rfl
  | c :: rest, cache => by
    rw [List.map_cons, inSequence, inSequence, inSequence_map check g rest]

theorem Report.andThen_idle (report : Report) : report.andThen { cache := report.cache } = report := by
  simp [Report.andThen]

/-- A single check in sequence is the check. -/
theorem inSequence_singleton (check : α → HelperCache → Report) (a : α) (cache : HelperCache) :
    inSequence check [a] cache = check a cache := (check a cache).andThen_idle

theorem Report.andThen_assoc (a b c : Report) : (a.andThen b).andThen c = a.andThen (b.andThen c) := by
  simp [Report.andThen]

theorem inSequence_append (check : α → HelperCache → Report) :
    ∀ (as bs : List α) (cache : HelperCache), inSequence check (as ++ bs) cache =
      (inSequence check as cache).andThen (inSequence check bs (inSequence check as cache).cache)
  | [], _, _ => by simp [inSequence, Report.andThen]
  | a :: as, bs, cache => by
    rw [List.cons_append, inSequence, inSequence, inSequence_append check as bs, Report.andThen_assoc]
    rfl

/-- Sequences in sequence are one sequence. -/
theorem inSequence_flatMap {γ : Type} (check : α → HelperCache → Report) (g : γ → List α) :
    ∀ (cs : List γ) (cache : HelperCache),
      inSequence check (cs.flatMap g) cache = inSequence (fun c => inSequence check (g c)) cs cache
  | [], _ => rfl
  | c :: rest, cache => by
    rw [List.flatMap_cons, inSequence_append, inSequence, inSequence_flatMap check g rest]

theorem checkFiles_eq_inSequence (s : Setting) (facts : ModuleFacts) :
    ∀ (files : List SourceFile) (cache : HelperCache),
      checkFiles s facts files cache = inSequence (checkFile s facts) files cache
  | [], _ => rfl
  | f :: rest, cache => by
    rw [checkFiles, inSequence, checkFiles_eq_inSequence s facts rest]

theorem runPasses_eq_inSequence (s : Setting) (facts : ModuleFacts) :
    ∀ (ps : List Pass) (cache : HelperCache),
      runPasses s facts ps cache = inSequence (fun p => p.check s facts) ps cache
  | [], _ => rfl
  | p :: rest, cache => by
    rw [runPasses, inSequence, runPasses_eq_inSequence s facts rest]

theorem runModules_eq_inSequence (s : Setting) (filter : Option (List String)) :
    ∀ (modules : List ModuleFacts) (cache : HelperCache),
      runModules s filter modules cache = inSequence (runModule s filter) modules cache
  | [], _ => rfl
  | facts :: rest, cache => by
    rw [runModules, inSequence, runModules_eq_inSequence s filter rest]

/-- What a check tells depends on the cache only through the answer to a question, and
the check leaves this answer as it is. -/
structure Steady (ask : HelperCache → β) (check : HelperCache → Report) : Prop where
  diagnostics : ∀ {c c' : HelperCache}, ask c = ask c' → (check c).diagnostics = (check c').diagnostics
  ask_cache : ∀ c : HelperCache, ask (check c).cache = ask c

variable {ask : HelperCache → β} {check : α → HelperCache → Report}

/-- A check that tells nothing and leaves the cache alone. -/
theorem Steady.idle (log : List LogRecord) : Steady ask fun cache => { cache, log } where
  diagnostics _ := rfl
  ask_cache _ := rfl

/-- Steady checks in sequence tell what each would tell with the cache of the first. -/
theorem diagnostics_inSequence : ∀ {as : List α}, (∀ a ∈ as, Steady ask (check a)) →
    ∀ cache : HelperCache,
      (inSequence check as cache).diagnostics = as.flatMap fun a => (check a cache).diagnostics
  | [], _, _ => rfl
  | a :: rest, h, cache => by
    obtain ⟨ha, hrest⟩ := List.forall_mem_cons.mp h
    have ih := diagnostics_inSequence hrest (check a cache).cache
    have hsame : (rest.flatMap fun b => (check b (check a cache).cache).diagnostics) =
        rest.flatMap fun b => (check b cache).diagnostics :=
      List.flatMap_congr fun b hb => (hrest b hb).diagnostics (ha.ask_cache cache)
    rw [inSequence, Report.andThen, List.flatMap_cons, ← hsame, ← ih]

theorem ask_inSequence : ∀ {as : List α}, (∀ a ∈ as, Steady ask (check a)) →
    ∀ cache : HelperCache, ask (inSequence check as cache).cache = ask cache
  | [], _, _ => rfl
  | a :: rest, h, cache => by
    obtain ⟨ha, hrest⟩ := List.forall_mem_cons.mp h
    exact (ask_inSequence hrest (check a cache).cache).trans (ha.ask_cache cache)

/-- Steady checks are steady in sequence. -/
theorem Steady.inSequence {as : List α} (h : ∀ a ∈ as, Steady ask (check a)) :
    Steady ask (inSequence check as) where
  diagnostics hc := by
    rw [diagnostics_inSequence h, diagnostics_inSequence h]
    exact List.flatMap_congr fun a ha => (h a ha).diagnostics hc
  ask_cache := ask_inSequence h

end

/-! ### Checks of files and modules -/

namespace Setting

/-- The helpers that a search for a module would find. -/
def found (s : Setting) (m : Module) : Helpers :=
  (HelperSearch.run (s.disk.helperSource s.config.sharedSchema.factsFile) s.config.sharedSchema
    m.sourceDir).helpers

/-- What a cache gives when a search would find `found`. -/
def offer (s : Setting) (found : Helpers) (cache : HelperCache) : Helpers :=
  cache.offer s.config.sharedSchema.enabled found

end Setting

variable (s : Setting) (facts : ModuleFacts)

theorem helpers_helpersFor (f : SourceFile) (cache : HelperCache) :
    (helpersFor s facts f cache).helpers =
      if f.needsHelpers facts s.config.schemaModules then s.offer (s.found facts.module) cache
      else {} := by
  unfold helpersFor
  split
  · exact HelperCache.helpers_fetch _ _ _
  · rfl

theorem offer_helpersFor (f : SourceFile) (cache : HelperCache) :
    s.offer (s.found facts.module) (helpersFor s facts f cache).cache =
      s.offer (s.found facts.module) cache := by
  unfold helpersFor
  split
  · exact HelperCache.offer_fetch _ _ _
  · rfl

theorem cache_checkFile (f : SourceFile) (cache : HelperCache) : (checkFile s facts f cache).cache =
    if (analysedKind? s f).isSome then (helpersFor s facts f cache).cache else cache := by
  unfold checkFile
  cases analysedKind? s f with
  | none => rfl
  | some kind => rfl

/-- What is told of a file depends on what its module gets from the cache. -/
theorem steady_checkFile (f : SourceFile) :
    Steady (s.offer (s.found facts.module)) (checkFile s facts f) where
  diagnostics hc := by
    rw [checkFile_diagnostics, checkFile_diagnostics, helpers_helpersFor, helpers_helpersFor, hc]
  ask_cache cache := by
    rw [cache_checkFile]
    split
    · exact offer_helpersFor s facts f cache
    · rfl

/-- Every file of a module is told of as if it were the first. -/
theorem checkModule_diagnostics_eq_flatMap (cache : HelperCache) :
    (checkModule s facts cache).diagnostics =
      if s.config.skipsPackage facts.module.path.text then []
      else facts.module.files.flatMap fun f => (checkFile s facts f cache).diagnostics := by
  unfold checkModule
  split
  · rfl
  · rw [checkFiles_eq_inSequence]
    exact diagnostics_inSequence (fun f _ => steady_checkFile s facts f) cache

theorem steady_checkModule : Steady (s.offer (s.found facts.module)) (checkModule s facts) := by
  unfold checkModule
  split
  · exact .idle _
  · have hfiles : checkFiles s facts facts.module.files =
        inSequence (checkFile s facts) facts.module.files :=
      funext (checkFiles_eq_inSequence s facts facts.module.files)
    rw [hfiles]
    exact .inSequence fun f _ => steady_checkFile s facts f

end FieldOrder
