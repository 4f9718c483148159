/-
# What a request does to a cache

There are three kinds of requests. A cache that is switched off gives nothing and
stays as it is; one that holds helpers gives them and stays as it is; any other makes
a search, counts it, and keeps what was found, if anything was (`fetch_of_held`,
`fetch_of_not_held`). So a request leaves behind what the requests after it need:
while searches find the same, a cache gives the same, whatever requests came before
(`offer_fetch`).

Key definitions: `HelperCache.held?`, `CacheState.afterSearch`, `HelperCache.offer`.
Key theorems: `HelperCache.fetch_of_held`, `HelperCache.fetch_of_not_held`,
`HelperCache.helpers_fetch`, `HelperCache.offer_fetch`.
-/
import FieldOrder.HelperCache

namespace FieldOrder

/-- The state in which a search leaves a cache. -/
def CacheState.afterSearch (found : Helpers) : CacheState :=
  if found.isEmpty then .failedRetryable else .populated found

namespace HelperCache

/-- The helpers that a cache holds. -/
def held? (cache : HelperCache) : Option Helpers :=
  match cache.state with
  | .populated helpers => some helpers
  | _ => none

variable {cache : HelperCache} {search : Unit → HelperSearch}

/-! ### One request -/

theorem held?_eq_some_iff {helpers : Helpers} :
    cache.held? = some helpers ↔ cache.state = .populated helpers := by
  unfold held?
  cases cache.state with
  | populated held => simp
  | _ => simp

theorem held?_eq_none_iff : cache.held? = none ↔ ∀ helpers, cache.state ≠ .populated helpers := by
  unfold held?
  cases cache.state with
  | populated held => simp
  | _ => simp

theorem finish_helpers (cache : HelperCache) (search : HelperSearch) :
    (cache.finish search).helpers = search.helpers := by
  unfold finish
  split <;> rfl

theorem finish_cache (cache : HelperCache) (search : HelperSearch) :
    (cache.finish search).cache = ⟨.afterSearch search.helpers, cache.searches + 1⟩ := by
  unfold finish CacheState.afterSearch
  split <;> rfl

theorem fetch_of_disabled (cache : HelperCache) (search : Unit → HelperSearch) :
    cache.fetch false search = { helpers := {}, cache } := rfl

theorem fetch_of_held {helpers : Helpers} (h : cache.held? = some helpers) :
    cache.fetch true search = { helpers, cache } := by
  rw [held?_eq_some_iff] at h
  simp [fetch, h]

theorem fetch_of_not_held (h : cache.held? = none) :
    cache.fetch true search = cache.start.finish (search ()) := by
  rw [held?_eq_none_iff] at h
  unfold fetch
  cases hs : cache.state with
  | populated helpers => exact absurd hs (h helpers)
  | _ => rfl

/-! ### Many requests -/

/-- What a cache gives when a search would find `found`. -/
def offer (enabled : Bool) (found : Helpers) (cache : HelperCache) : Helpers :=
  if enabled then cache.held?.getD found else {}

theorem held?_finish (cache : HelperCache) (search : HelperSearch) :
    ((cache.finish search).cache.held?).getD search.helpers = search.helpers := by
  rw [finish_cache, held?, CacheState.afterSearch]
  split
  · next helpers h =>
    split at h
    · cases h
    · obtain rfl := CacheState.populated.inj h
      rfl
  · rfl

theorem helpers_fetch (enabled : Bool) (search : Unit → HelperSearch) (cache : HelperCache) :
    (cache.fetch enabled search).helpers = cache.offer enabled (search ()).helpers := by
  cases enabled with
  | false => rfl
  | true =>
    cases hheld : cache.held? with
    | some helpers => rw [fetch_of_held hheld, offer, hheld]; rfl
    | none => rw [fetch_of_not_held hheld, finish_helpers, offer, hheld]; rfl

/-- A request does not change what the next one gets, if its search would find the same. -/
theorem offer_fetch (enabled : Bool) (search : Unit → HelperSearch) (cache : HelperCache) :
    (cache.fetch enabled search).cache.offer enabled (search ()).helpers =
      cache.offer enabled (search ()).helpers := by
  cases enabled with
  | false => rfl
  | true =>
    cases hheld : cache.held? with
    | some helpers => rw [fetch_of_held hheld]
    | none =>
      rw [fetch_of_not_held hheld, offer, offer, hheld, if_pos rfl, if_pos rfl, held?_finish]
      rfl

end HelperCache
end FieldOrder
