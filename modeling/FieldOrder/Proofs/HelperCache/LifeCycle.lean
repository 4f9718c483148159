/-
# The life of a cache

A cache meets one request after the other, and between them the directories and the
modules in them may change in any way. Before the first search it is empty; after a
search that found nothing it says so, and the next request tries again; after one that
found helpers it holds these for good. Between requests no search is under way.

A search finds helpers when it takes four hurdles: there is a place for the helper
module, there is a directory at that place, the directory can be loaded, and its
module has helpers (`HelperRequest.Succeeds`). A search that fails at any of them is
counted like the others.

Key definitions: `HelperRequest`, `HelperRequest.Succeeds`, `HelperCache.answer`,
`HelperCache.after`, `HelperCache.AtRest`.
Key theorems: `HelperRequest.found_iff_succeeds`, `HelperCache.AtRest.answer`,
`HelperCache.after_lifeCycle`.
-/
import Mathlib.Data.List.Induction
import FieldOrder.Proofs.HelperCache.Requests

namespace FieldOrder

/-! ### Requests -/

/-- A request for helpers, with what a search would meet at its time. -/
structure HelperRequest where
  source : HelperSource
  /-- The module under check. -/
  module : Module

namespace HelperRequest

/-- What a search for the request comes to. -/
def search (settings : SharedSchema) (r : HelperRequest) : HelperSearch :=
  .run r.source settings r.module.sourceDir

/-- There is a place for the helper module and a directory there, and the directory
can be loaded and its module has helpers. -/
def Succeeds (settings : SharedSchema) (r : HelperRequest) : Prop :=
  ∃ dir helper, helperDir? settings r.module.sourceDir = some dir ∧ r.source.isDir dir = true ∧
    r.source.load dir = .ok helper ∧ helper.helpers.isEmpty = false

/-- A search finds helpers just when it takes all hurdles. -/
theorem found_iff_succeeds (settings : SharedSchema) (r : HelperRequest) :
    (r.search settings).helpers.isEmpty = false ↔ r.Succeeds settings := by
  have hnothing : ({} : Helpers).isEmpty = true := rfl
  unfold Succeeds search HelperSearch.run
  cases hplace : helperDir? settings r.module.sourceDir with
  | none => simp [HelperSearch.helpers, hnothing]
  | some dir =>
    cases hdir : r.source.isDir dir with
    | false => simp [hdir, HelperSearch.helpers, hnothing]
    | true =>
      cases hload : r.source.load dir with
      | error fault => simp [hdir, hload, HelperSearch.helpers, hnothing]
      | ok helper => simp [hdir, hload, HelperSearch.helpers]

end HelperRequest

namespace HelperCache

/-- The answer to a request. -/
def answer (settings : SharedSchema) (cache : HelperCache) (r : HelperRequest) : Fetched :=
  cache.fetchFrom r.source settings r.module

/-- The cache that was new before the given requests. -/
def after (settings : SharedSchema) (requests : List HelperRequest) : HelperCache :=
  requests.foldl (fun cache r => (cache.answer settings r).cache) {}

/-- What holds of a cache between requests. -/
structure AtRest (cache : HelperCache) : Prop where
  notLoading : cache.state ≠ .loading
  holdsSome : ∀ helpers, cache.state = .populated helpers → helpers.isEmpty = false
  empty_iff : cache.state = .empty ↔ cache.searches = 0

/-! ### One request -/

variable {settings : SharedSchema} {cache : HelperCache}

theorem answer_of_disabled (h : settings.enabled = false) (cache : HelperCache) (r : HelperRequest) :
    cache.answer settings r = { helpers := {}, cache } := by
  unfold answer fetchFrom
  rw [h]
  exact fetch_of_disabled cache _

theorem answer_of_held {helpers : Helpers} (h : settings.enabled = true)
    (hheld : cache.held? = some helpers) (r : HelperRequest) :
    cache.answer settings r = { helpers, cache } := by
  unfold answer fetchFrom
  rw [h]
  exact fetch_of_held hheld

theorem answer_of_not_held (h : settings.enabled = true) (hheld : cache.held? = none)
    (r : HelperRequest) : cache.answer settings r = cache.start.finish (r.search settings) := by
  unfold answer fetchFrom
  rw [h]
  exact fetch_of_not_held hheld

theorem atRest_new : AtRest {} where
  notLoading := by simp
  holdsSome := by simp
  empty_iff := by simp

/-- A search leaves a cache at rest, and not empty. -/
theorem atRest_afterSearch (found : Helpers) (n : Nat) : AtRest ⟨.afterSearch found, n + 1⟩ := by
  by_cases hfound : found.isEmpty = true
  · have hstate : CacheState.afterSearch found = .failedRetryable := by
      rw [CacheState.afterSearch, if_pos hfound]
    constructor <;> simp [hstate]
  · have hstate : CacheState.afterSearch found = .populated found := by
      rw [CacheState.afterSearch, if_neg hfound]
    constructor <;> simp [hstate, hfound]

/-- Every request leaves a cache at rest. -/
theorem AtRest.answer (h : cache.AtRest) (settings : SharedSchema) (r : HelperRequest) :
    (cache.answer settings r).cache.AtRest := by
  cases henabled : settings.enabled with
  | false =>
    rw [answer_of_disabled henabled]
    exact h
  | true =>
    cases hheld : cache.held? with
    | some helpers =>
      rw [answer_of_held henabled hheld]
      exact h
    | none =>
      rw [answer_of_not_held henabled hheld, finish_cache]
      exact atRest_afterSearch _ _

/-! ### Many requests -/

theorem after_append (settings : SharedSchema) (past later : List HelperRequest) :
    after settings (past ++ later) =
      later.foldl (fun cache r => (cache.answer settings r).cache) (after settings past) :=
  List.foldl_append

theorem after_concat (settings : SharedSchema) (past : List HelperRequest) (r : HelperRequest) :
    after settings (past ++ [r]) = ((after settings past).answer settings r).cache :=
  after_append settings past [r]

/-- Whatever every request keeps, and a new cache has, a cache has after any requests. -/
theorem after_induction {P : HelperCache → Prop} (hnew : P {})
    (hanswer : ∀ cache, P cache → ∀ r, P (cache.answer settings r).cache)
    (past : List HelperRequest) : P (after settings past) := by
  induction past using List.reverseRecOn with
  | nil => exact hnew
  | append_singleton past r ih =>
    rw [after_concat]
    exact hanswer _ ih r

theorem after_of_disabled (h : settings.enabled = false) (past : List HelperRequest) :
    after settings past = {} := by
  refine after_induction (P := (· = {})) rfl (fun cache hcache r => ?_) past
  rw [answer_of_disabled h]
  exact hcache

/-- Requests leave a cache alone that holds helpers. -/
theorem after_append_of_held {helpers : Helpers} {past : List HelperRequest}
    (h : settings.enabled = true) (hheld : (after settings past).held? = some helpers)
    (later : List HelperRequest) : after settings (past ++ later) = after settings past := by
  induction later using List.reverseRecOn with
  | nil => rw [List.append_nil]
  | append_singleton later r ih =>
    rw [← List.append_assoc, after_concat, ih, answer_of_held h hheld]

/-- A cache that is not switched off makes a search at its first request. -/
theorem searches_after_pos (h : settings.enabled = true) (r : HelperRequest)
    (later : List HelperRequest) : 0 < (after settings (r :: later)).searches := by
  induction later using List.reverseRecOn with
  | nil =>
    have hnew : ({} : HelperCache).held? = none := rfl
    rw [← List.nil_append [r], after_concat]
    show 0 < (answer settings {} r).cache.searches
    rw [answer_of_not_held h hnew, finish_cache]
    exact Nat.succ_pos _
  | append_singleton later r' ih =>
    rw [← List.cons_append, after_concat]
    cases hheld : (after settings (r :: later)).held? with
    | some helpers =>
      rw [answer_of_held h hheld]
      exact ih
    | none =>
      rw [answer_of_not_held h hheld, finish_cache]
      exact Nat.succ_pos _

theorem atRest_after (settings : SharedSchema) (past : List HelperRequest) :
    (after settings past).AtRest :=
  after_induction atRest_new (fun _ h r => h.answer settings r) past

theorem state_after_eq_empty_iff (settings : SharedSchema) (past : List HelperRequest) :
    (after settings past).state = .empty ↔ settings.enabled = false ∨ past = [] := by
  rw [(atRest_after settings past).empty_iff]
  constructor
  · intro hsearches
    cases henabled : settings.enabled with
    | false => exact .inl rfl
    | true =>
      cases past with
      | nil => exact .inr rfl
      | cons r later =>
        have hpos := searches_after_pos henabled r later
        omega
  · rintro (henabled | rfl)
    · rw [after_of_disabled henabled]
    · rfl

/-- **The life of a cache.** After any requests a cache is at rest, and empty just
while there was no search, that is before the first request or when it is switched
off. Helpers that it holds are given to every later request, and nothing about it
changes any more. As long as it holds none, a request makes one search, gets what this
found, and the cache holds it if there is anything. A cache that is switched off gives
nothing and makes no search. -/
theorem after_lifeCycle (settings : SharedSchema) (past : List HelperRequest) :
    (after settings past).AtRest ∧
    ((after settings past).state = .empty ↔ settings.enabled = false ∨ past = []) ∧
    (∀ helpers, (after settings past).state = .populated helpers → ∀ later r,
      after settings (past ++ later) = after settings past ∧
        ((after settings (past ++ later)).answer settings r).helpers = helpers) ∧
    (settings.enabled = true → (∀ helpers, (after settings past).state ≠ .populated helpers) →
      ∀ r : HelperRequest,
        ((after settings past).answer settings r).helpers = (r.search settings).helpers ∧
        (after settings (past ++ [r])).searches = (after settings past).searches + 1 ∧
        (r.Succeeds settings →
          (after settings (past ++ [r])).state = .populated (r.search settings).helpers) ∧
        (¬r.Succeeds settings → (r.search settings).helpers = {} ∧
          (after settings (past ++ [r])).state = .failedRetryable)) ∧
    (settings.enabled = false →
      after settings past = {} ∧ ∀ r, ((after settings past).answer settings r).helpers = {}) := by
  refine ⟨atRest_after settings past, state_after_eq_empty_iff settings past, ?_, ?_, ?_⟩
  · intro helpers hstate later r
    have henabled : settings.enabled = true := by
      cases h : settings.enabled with
      | true => rfl
      | false =>
        rw [after_of_disabled h] at hstate
        cases hstate
    have hheld := held?_eq_some_iff.mpr hstate
    have hlater := after_append_of_held henabled hheld later
    refine ⟨hlater, ?_⟩
    rw [hlater, answer_of_held henabled hheld]
  · intro henabled hstate r
    have hheld := held?_eq_none_iff.mpr hstate
    have hafter : after settings (past ++ [r]) =
        ⟨.afterSearch (r.search settings).helpers, (after settings past).searches + 1⟩ := by
      rw [after_concat, answer_of_not_held henabled hheld, finish_cache]
      rfl
    refine ⟨?_, ?_, fun hsucceeds => ?_, fun hfails => ?_⟩
    · rw [answer_of_not_held henabled hheld, finish_helpers]
    · rw [hafter]
    · have hfound := (r.found_iff_succeeds settings).mpr hsucceeds
      simp [hafter, CacheState.afterSearch, hfound]
    · have hfound : (r.search settings).helpers.isEmpty = true := by
        rw [← r.found_iff_succeeds settings, Bool.not_eq_false] at hfails
        exact hfails
      refine ⟨Table.eq_empty_of_isEmpty hfound, ?_⟩
      simp [hafter, CacheState.afterSearch, hfound]
  · intro henabled
    refine ⟨after_of_disabled henabled past, fun r => ?_⟩
    rw [answer_of_disabled henabled]

end HelperCache
end FieldOrder
