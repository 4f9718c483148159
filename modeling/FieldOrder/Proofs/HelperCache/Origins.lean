/-
# Where helpers come from

What a request is given was found by a search, its own or that of a request before it
(`HelperCache.exists_loads_of_answer`), and a search that finds helpers finds those of one
module, the one it loaded (`HelperRequest.exists_loads`). So whatever requests a cache has
met, and whatever modules were loaded meanwhile, a call of a function of another module is
told what the last function says that a loaded module with the called path offers by the
called name, and never what another function says, or a function of another module
(`helpers_exactlyOffered`).

Key definitions: `HelperRequest.Loads`.
Key theorems: `HelperCache.exists_loads_of_answer`, `HelperCache.exists_offersLast_of_answer`,
`helpers_exactlyOffered`.
-/
import FieldOrder.Proofs.HelperCache.LifeCycle
import FieldOrder.Proofs.Schema.NearestAssignment
import FieldOrder.Proofs.Schema.QualifiedNames

namespace FieldOrder

/-! ### One search -/

namespace HelperRequest

variable {settings : SharedSchema} {r : HelperRequest} {m : Module}

/-- There is a place for the helper module and a directory there, from which the module is
loaded. -/
def Loads (settings : SharedSchema) (r : HelperRequest) (m : Module) : Prop :=
  ∃ dir, helperDir? settings r.module.sourceDir = some dir ∧ r.source.isDir dir = true ∧
    r.source.load dir = .ok m

theorem Loads.helpers_search (h : r.Loads settings m) : (r.search settings).helpers = m.helpers := by
  obtain ⟨dir, hplace, hdir, hload⟩ := h
  simp [search, HelperSearch.run, hplace, hdir, hload, HelperSearch.helpers]

/-- A search that finds helpers finds those of the module that it loads. -/
theorem exists_loads (h : (r.search settings).helpers.isEmpty = false) :
    ∃ m, r.Loads settings m ∧ (r.search settings).helpers = m.helpers := by
  obtain ⟨dir, m, hplace, hdir, hload, -⟩ := (r.found_iff_succeeds settings).mp h
  have hloads : r.Loads settings m := ⟨dir, hplace, hdir, hload⟩
  exact ⟨m, hloads, hloads.helpers_search⟩

end HelperRequest

/-! ### Many requests -/

namespace HelperCache

variable {settings : SharedSchema} {cache : HelperCache} {helpers : Helpers}

/-- What a cache holds after a request it held before, or the search of the request found it. -/
theorem held?_answer {r : HelperRequest}
    (h : (cache.answer settings r).cache.held? = some helpers) :
    cache.held? = some helpers ∨ helpers = (r.search settings).helpers := by
  cases henabled : settings.enabled with
  | false =>
    rw [answer_of_disabled henabled] at h
    exact .inl h
  | true =>
    cases hheld : cache.held? with
    | some held =>
      rw [answer_of_held henabled hheld] at h
      exact .inl (hheld.symm.trans h)
    | none =>
      rw [answer_of_not_held henabled hheld, finish_cache, held?_eq_some_iff,
        CacheState.afterSearch] at h
      split at h
      · cases h
      · exact .inr (CacheState.populated.inj h).symm

/-- What a request is given the cache held before, or the search of the request found it. -/
theorem helpers_answer {r : HelperRequest} (h : (cache.answer settings r).helpers.isEmpty = false) :
    cache.held? = some (cache.answer settings r).helpers ∨
      (cache.answer settings r).helpers = (r.search settings).helpers := by
  cases henabled : settings.enabled with
  | false =>
    rw [answer_of_disabled henabled] at h
    cases h
  | true =>
    cases hheld : cache.held? with
    | some held =>
      rw [answer_of_held henabled hheld]
      exact .inl rfl
    | none =>
      rw [answer_of_not_held henabled hheld, finish_helpers]
      exact .inr rfl

/-- What a cache holds after some requests, the search of one of them found. -/
theorem exists_search_of_held {past : List HelperRequest}
    (h : (after settings past).held? = some helpers) :
    ∃ q ∈ past, helpers = (q.search settings).helpers := by
  induction past using List.reverseRecOn with
  | nil => cases h
  | append_singleton past r ih =>
    rw [after_concat] at h
    rcases held?_answer h with hheld | hfound
    · obtain ⟨q, hq, hsearch⟩ := ih hheld
      exact ⟨q, List.mem_append_left [r] hq, hsearch⟩
    · exact ⟨r, List.mem_append_right past (List.mem_singleton_self r), hfound⟩

/-- The helpers that a request is given are those of a module that was loaded for it, or for
a request before it. -/
theorem exists_loads_of_answer {past : List HelperRequest} {r : HelperRequest}
    (h : ((after settings past).answer settings r).helpers.isEmpty = false) :
    ∃ q ∈ past ++ [r], ∃ m, q.Loads settings m ∧
      ((after settings past).answer settings r).helpers = m.helpers := by
  have hsearch : ∃ q ∈ past ++ [r],
      ((after settings past).answer settings r).helpers = (q.search settings).helpers := by
    rcases helpers_answer h with hheld | hfound
    · obtain ⟨q, hq, hsearch⟩ := exists_search_of_held hheld
      exact ⟨q, List.mem_append_left [r] hq, hsearch⟩
    · exact ⟨r, List.mem_append_right past (List.mem_singleton_self r), hfound⟩
  obtain ⟨q, hq, hsearch⟩ := hsearch
  rw [hsearch] at h
  obtain ⟨m, hloads, hhelpers⟩ := HelperRequest.exists_loads h
  exact ⟨q, hq, m, hloads, hsearch.trans hhelpers⟩

end HelperCache

/-! ### Looking up -/

theorem Table.isEmpty_of_get? {α β : Type} [BEq α] {t : Table α β} {k : α} {v : β}
    (h : t.get? k = some v) : t.isEmpty = false := by
  cases hempty : t.isEmpty with
  | false => rfl
  | true =>
    rw [eq_empty_of_isEmpty hempty] at h
    cases h

/-- What a request finds under a qualified name is what the last function says that is
offered by the name in a loaded module with the path. -/
theorem HelperCache.exists_offersLast_of_answer {settings : SharedSchema}
    {past : List HelperRequest} {r : HelperRequest}
    (hloaded : ∀ q ∈ past ++ [r], ∀ m, q.Loads settings m → m.Undotted) {path function : String}
    (hfunction : IsUndotted function) {flags : Flags}
    (h : ((after settings past).answer settings r).helpers.get? (path ++ "." ++ function) =
      some flags) :
    ∃ q ∈ past ++ [r], ∃ m, q.Loads settings m ∧ m.path.text = path ∧
      ∃ d, m.OffersLast function d ∧ d.returnedFlags? = some flags := by
  obtain ⟨q, hq, m, hloads, hhelpers⟩ := exists_loads_of_answer (Table.isEmpty_of_get? h)
  rw [hhelpers, Module.get?_helpers_eq_some_iff (hloaded q hq m hloads) hfunction] at h
  obtain ⟨hpath, d, hlast, hflags⟩ := h
  exact ⟨q, hq, m, hloads, hpath.symm, d, hlast, hflags⟩

/-- **A look-up gives what the called function says.** Under a qualified name the helpers of
a module hold something just when the path is that of the module and a file of it declares a
function that is offered by the name; this is what the last such function says, and functions
behind it that say nothing do not take it away. So a call of a function of another module,
looked up in a cache after any requests, is told only what the last function says that is
offered by the called name in a module with the called path, which was loaded for one of the
requests. -/
theorem helpers_exactlyOffered {function : String} (hfunction : IsUndotted function) (path : String) :
    (∀ m : Module, m.Undotted →
      ((m.helpers.get? (path ++ "." ++ function)).isSome = true ↔ path = m.path.text ∧
        ∃ file ∈ m.files, ∃ d, .func d ∈ file.decls ∧ d.Offers function) ∧
      (∀ flags, m.helpers.get? (path ++ "." ++ function) = some flags ↔ path = m.path.text ∧
        ∃ d, m.OffersLast function d ∧ d.returnedFlags? = some flags) ∧
      (∀ before d behind, m.decls = before ++ .func d :: behind → d.Offers function →
        (∀ d', Decl.func d' ∈ behind → d'.name = function → d'.receiver = none →
          d'.returnedFlags? = none) →
        m.helpers.get? (m.path.qualify function) = d.returnedFlags?)) ∧
    (∀ (settings : SharedSchema) (past : List HelperRequest) (r : HelperRequest),
      (∀ q ∈ past ++ [r], ∀ m, q.Loads settings m → m.Undotted) →
      ∀ (facts : ModuleFacts) (file : SourceFile) (value callee : Expr) (args : List Expr) (pos : Pos)
        (flags : Flags), value.unparen = .call callee args pos →
        CallsFunction facts file callee pos path function →
        (value.route facts file).flags facts
          ((HelperCache.after settings past).answer settings r).helpers = .resolved flags →
        ∃ q ∈ past ++ [r], ∃ m, q.Loads settings m ∧ m.path.text = path ∧
          ∃ d, m.OffersLast function d ∧ d.returnedFlags? = some flags) := by
  constructor
  · intro m hm
    exact ⟨Module.isSome_get?_helpers_iff hm hfunction,
      fun flags => Module.get?_helpers_eq_some_iff hm hfunction,
      fun before d behind => Module.get?_helpers_of_silent_behind hm hfunction⟩
  · intro settings past r hloaded facts file value callee args pos flags hcall hcalls hflags
    rw [Expr.flags_of_callsFunction hcall hcalls] at hflags
    have hget := congrArg Resolution.value? hflags
    rw [Resolution.value?_ofOption, Resolution.value?_resolved] at hget
    exact HelperCache.exists_offersLast_of_answer hloaded hfunction hget

/-! ### Some requests -/

/-- The function `Sku` that returns the schema literal with the key. -/
def FuncDecl.returningSku (key : String) : FuncDecl :=
  { returningAfter [.defineSchema key] with name := "Sku" }

/-- A module with a point in its path. The function is declared twice, and once more as a
method and without a body. -/
def versionedSchemas : Module where
  path := { text := "example.com/v1.2/schemas" }
  dir := ⟨"schemas"⟩
  files := [⟨⟨"schemas/sku.go"⟩, "schemas", [], [.func (.returningSku "Required")]⟩,
    ⟨⟨"schemas/zone.go"⟩, "schemas", [], [.func (.returningSku "Computed"),
      .func { FuncDecl.returningSku "ForceNew" with receiver := some ⟨none, .interface⟩ },
      .func { FuncDecl.returningSku "Optional" with body := none }]⟩]

/-- A file that imports this module. -/
def versionedCaller : SourceFile :=
  ⟨⟨"repo/internal/sku/sku_resource.go"⟩, "sku", [⟨none, "example.com/v1.2/schemas"⟩], []⟩

/-- A request for the module of this file. -/
def versionedRequest (source : HelperSource) : HelperRequest :=
  ⟨source, ⟨{ text := "example.com/provider/sku" }, ⟨"repo/internal/sku"⟩, [versionedCaller]⟩⟩

/-- First there is no directory, then there is one. -/
def versionedPast : List HelperRequest :=
  [versionedRequest ⟨fun _ => false, fun _ => .ok versionedSchemas⟩,
    versionedRequest ⟨fun _ => true, fun _ => .ok versionedSchemas⟩]

/-- Later the directory cannot be loaded. -/
def versionedLater : HelperRequest :=
  versionedRequest ⟨fun _ => true, fun dir => .error (.factsUnreadable dir)⟩

theorem eq_of_loads_versioned : ∀ q ∈ versionedPast ++ [versionedLater], ∀ m,
    q.Loads {} m → m = versionedSchemas := by
  rintro q hq m ⟨dir, -, hdir, hload⟩
  simp only [versionedPast, List.cons_append, List.nil_append, List.mem_cons, List.not_mem_nil,
    or_false] at hq
  rcases hq with rfl | rfl | rfl
  · cases hdir
  · exact (Except.ok.inj hload).symm
  · cases hload

/-- The last function offered as `Sku` is the one in the second file, and a call of it is
told what it says, also when the module can no longer be loaded. -/
theorem helpers_exactlyOffered_versioned :
    let facts := ModuleFacts.syntaxOnly versionedLater.module
    let callee : Expr := .selector (.ident "schemas" {}) "Sku" {}
    IsUndotted "Sku" ∧ versionedSchemas.Undotted ∧
      versionedSchemas.helpers.get? ("example.com/v1.2/schemas" ++ "." ++ "Sku") =
        some { computed := true } ∧
      CallsFunction facts versionedCaller callee {} "example.com/v1.2/schemas" "Sku" ∧
      ∃ q ∈ versionedPast ++ [versionedLater], ∃ m, q.Loads {} m ∧
        m.path.text = "example.com/v1.2/schemas" ∧
        ∃ d, m.OffersLast "Sku" d ∧
          d.returnedFlags? = some { computed := true } := by
  intro facts callee
  have hsku : IsUndotted "Sku" := by decide
  have hschemas : versionedSchemas.Undotted := by
    unfold Module.Undotted
    decide
  have hcalls : CallsFunction facts versionedCaller callee {} "example.com/v1.2/schemas" "Sku" :=
    .inr ⟨rfl, _, _, _, _, rfl, rfl, by decide⟩
  have hloaded : ∀ q ∈ versionedPast ++ [versionedLater], ∀ m, q.Loads {} m → m.Undotted :=
    fun q hq m hm => eq_of_loads_versioned q hq m hm ▸ hschemas
  obtain ⟨hmodule, hlookUp⟩ := helpers_exactlyOffered hsku "example.com/v1.2/schemas"
  obtain ⟨-, -, hkept⟩ := hmodule versionedSchemas hschemas
  refine ⟨hsku, hschemas, ?_, hcalls, ?_⟩
  · have hoffers : (FuncDecl.returningSku "Computed").Offers "Sku" :=
      ⟨rfl, rfl, ⟨'S', ['k', 'u'], rfl, by decide⟩, by decide⟩
    refine (hkept [_] _ [_, _] rfl hoffers fun d hd _ hreceiver => ?_).trans (by decide)
    simp only [List.mem_cons, Decl.func.injEq, List.not_mem_nil, or_false] at hd
    rcases hd with rfl | rfl
    · cases hreceiver
    · rfl
  · exact hlookUp {} versionedPast versionedLater hloaded facts versionedCaller
      (.call callee [] {}) callee [] {} { computed := true } rfl hcalls (by decide +kernel)

end FieldOrder
