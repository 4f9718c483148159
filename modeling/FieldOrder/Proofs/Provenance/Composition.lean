/-
# The trace of a file is composed from its parts

Commits are taken together in a way that does not depend on where a file is cut: the
outcome for declarations in a row is that for the first part combined with that for
the second (`Tracer.mergeCommits_append`, `Resolution.combine`). A part without
commits says nothing, a part whose commits all failed says less than one with fields,
and fields of the second part go behind those of the first.

So the outcome can be told from the single commits. There is nothing to trace only
when no function that creates or reads the definition commits anything; there are
fields when some commit of such a function has fields, and these fields are those of
all its commits, whatever becomes of others (`Tracer.traceFile_composed`). Each commit
is resolved by the tables of its own function (`Tracer.CommitsTo`).

Key definitions: `Resolution.combine`, `Tracer.CommitsIn`, `SourceFile.HasEntry`,
`Tracer.contributed`.
Key theorems: `Tracer.mergeCommits_append`, `Tracer.traceFile_composed`.
-/
import FieldOrder.Proofs.Provenance.Reads

namespace FieldOrder

/-- What two parts of a file say together of the fields of an identifier. -/
def Resolution.combine : Resolution (List String) → Resolution (List String) →
    Resolution (List String)
  | .resolved a, .resolved b => .resolved (a ++ b.filter (· ∉ a))
  | .resolved a, _ => .resolved a
  | _, .resolved b => .resolved b
  | .notApplicable, .notApplicable => .notApplicable
  | _, _ => .unresolvable

namespace Resolution

@[simp] theorem notApplicable_combine (r : Resolution (List String)) :
    notApplicable.combine r = r := by
  cases r with
  | _ => rfl

@[simp] theorem combine_notApplicable (r : Resolution (List String)) :
    r.combine notApplicable = r := by
  cases r with
  | _ => rfl

end Resolution

/-! ### Names pushed one after the other -/

/-- Names that are there already are not pushed again. -/
theorem foldl_pushUnique_eq_append (fields names : List String) : names.foldl pushUnique fields =
    fields ++ (names.foldl pushUnique []).filter (· ∉ fields) := by
  induction names using List.reverseRecOn with
  | nil => simp
  | append_singleton names name ih =>
    simp only [List.foldl_append, List.foldl_cons, List.foldl_nil, ih]
    have hmem : name ∈ fields ++ (names.foldl pushUnique []).filter (· ∉ fields) ↔
        name ∈ fields ∨ name ∈ names.foldl pushUnique [] := by
      by_cases hfields : name ∈ fields
      · simp [hfields]
      · simp [hfields]
    simp only [pushUnique, List.contains_iff_mem, hmem]
    by_cases hfields : name ∈ fields
    · by_cases hnames : name ∈ names.foldl pushUnique []
      · simp [hfields, hnames]
      · simp [hfields, hnames]
    · by_cases hnames : name ∈ names.foldl pushUnique []
      · simp [hfields, hnames]
      · simp [hfields, hnames]

/-! ### Commits taken together -/

namespace Tracer

/-- The fields that commits contribute, each once. -/
def contributed (commits : List (Resolution (List String))) : List String :=
  (commits.filterMap Resolution.value?).flatten.foldl pushUnique []

theorem mem_contributed {commits : List (Resolution (List String))} {name : String} :
    name ∈ contributed commits ↔ ∃ ids, .resolved ids ∈ commits ∧ name ∈ ids := by
  rw [contributed, mem_foldl_pushUnique, or_iff_right List.not_mem_nil, List.mem_flatten]
  refine exists_congr fun ids => and_congr_left fun _ => ?_
  rw [List.mem_filterMap]
  constructor
  · rintro ⟨r, hr, hvalue⟩
    cases r with
    | resolved ids' =>
      obtain rfl := Option.some.inj hvalue
      exact hr
    | unresolvable => cases hvalue
    | notApplicable => cases hvalue
  · exact fun hids => ⟨.resolved ids, hids, rfl⟩

theorem contributed_append (a b : List (Resolution (List String))) : contributed (a ++ b) =
    contributed a ++ (contributed b).filter (· ∉ contributed a) := by
  rw [contributed, List.filterMap_append, List.flatten_append, List.foldl_append,
    foldl_pushUnique_eq_append]
  rfl

theorem mergeCommits_of_ne_nil {commits : List (Resolution (List String))}
    (h : contributed commits ≠ []) : mergeCommits commits = .resolved (contributed commits) := by
  have hne : commits ≠ [] := by
    rintro rfl
    exact h rfl
  unfold mergeCommits
  rw [if_neg (by simpa using hne)]
  exact if_neg (by simpa [contributed] using h)

theorem mergeCommits_of_eq_nil {commits : List (Resolution (List String))} (hne : commits ≠ [])
    (h : contributed commits = []) : mergeCommits commits = .unresolvable := by
  unfold mergeCommits
  rw [if_neg (by simpa using hne)]
  exact if_pos (List.isEmpty_iff.mpr h)

theorem mergeCommits_eq_notApplicable_iff {commits : List (Resolution (List String))} :
    mergeCommits commits = .notApplicable ↔ commits = [] := by
  by_cases hne : commits = []
  · exact iff_of_true (hne ▸ rfl) hne
  · by_cases hfields : contributed commits = []
    · rw [mergeCommits_of_eq_nil hne hfields]
      exact iff_of_false nofun hne
    · rw [mergeCommits_of_ne_nil hfields]
      exact iff_of_false nofun hne

theorem mergeCommits_eq_resolved_iff {commits : List (Resolution (List String))}
    {fields : List String} : mergeCommits commits = .resolved fields ↔
      contributed commits = fields ∧ fields ≠ [] := by
  constructor
  · intro h
    have hne := (mergeCommits_eq_resolved h).1
    by_cases hfields : contributed commits = []
    · have hcommits : commits ≠ [] := by
        rintro rfl
        cases h
      rw [mergeCommits_of_eq_nil hcommits hfields] at h
      cases h
    · rw [mergeCommits_of_ne_nil hfields] at h
      exact ⟨Resolution.resolved.inj h, hne⟩
  · rintro ⟨rfl, hne⟩
    exact mergeCommits_of_ne_nil hne

/-- **Commits in two parts.** The parts can be taken together by themselves first. -/
theorem mergeCommits_append (a b : List (Resolution (List String))) :
    mergeCommits (a ++ b) = (mergeCommits a).combine (mergeCommits b) := by
  by_cases ha : a = []
  · subst ha
    exact (Resolution.notApplicable_combine _).symm
  by_cases hb : b = []
  · subst hb
    rw [List.append_nil]
    exact (Resolution.combine_notApplicable _).symm
  have hab : a ++ b ≠ [] := by simp [ha]
  by_cases hfa : contributed a = []
  · by_cases hfb : contributed b = []
    · have hfab : contributed (a ++ b) = [] := by rw [contributed_append, hfa, hfb]; rfl
      rw [mergeCommits_of_eq_nil hab hfab, mergeCommits_of_eq_nil ha hfa,
        mergeCommits_of_eq_nil hb hfb]
      rfl
    · have hfab : contributed (a ++ b) = contributed b := by rw [contributed_append, hfa]; simp
      rw [mergeCommits_of_ne_nil (hfab ▸ hfb), hfab, mergeCommits_of_eq_nil ha hfa,
        mergeCommits_of_ne_nil hfb]
      rfl
  · have hfab : contributed (a ++ b) ≠ [] := by simp [contributed_append, hfa]
    rw [mergeCommits_of_ne_nil hfab, mergeCommits_of_ne_nil hfa, contributed_append]
    by_cases hfb : contributed b = []
    · rw [mergeCommits_of_eq_nil hb hfb, hfb]
      simp [Resolution.combine]
    · rw [mergeCommits_of_ne_nil hfb]
      rfl

/-! ### The commits of a block -/

variable {tracer : Tracer}

/-- Somewhere in the body, function literals included, something is committed. -/
def CommitsIn (tracer : Tracer) (body : List Stmt) : Prop :=
  ∃ call args, .expr call ∈ blockNodes body ∧ tracer.CommitCall args call

theorem traceBlock_eq_nil_iff {body : List Stmt} :
    tracer.traceBlock body = [] ↔ ¬tracer.CommitsIn body := by
  rw [traceBlock, List.map_eq_nil_iff, List.eq_nil_iff_forall_not_mem]
  simp only [mem_commitCalls_iff, CommitsIn]
  constructor
  · rintro h ⟨call, args, hcall⟩
    exact h args ⟨call, hcall⟩
  · rintro h args ⟨call, hcall⟩
    exact h ⟨call, args, hcall⟩

end Tracer

/-! ### The commits of a file -/

/-- The body is that of a function of the file whose name says that it creates or
reads a definition of the kind. -/
def SourceFile.HasEntry (f : SourceFile) (kind : DefinitionKind) (body : List Stmt) : Prop :=
  ∃ g, .func g ∈ f.decls ∧ kind.entryName.toList <:+: g.name.toList ∧ g.body = some body

theorem SourceFile.mem_funcs_iff {f : SourceFile} {g : FuncDecl} :
    g ∈ f.funcs ↔ .func g ∈ f.decls := by
  rw [funcs, List.mem_filterMap]
  constructor
  · rintro ⟨d, hd, hg⟩
    split at hg
    · exact Option.some.inj hg ▸ hd
    · cases hg
  · exact fun hd => ⟨.func g, hd, rfl⟩

namespace Tracer

variable {tracer : Tracer} {kind : DefinitionKind} {f : SourceFile}

theorem mem_fileCommits_iff {r : Resolution (List String)} : r ∈ tracer.fileCommits kind f ↔
    ∃ body, f.HasEntry kind body ∧ r ∈ tracer.traceBlock body := by
  rw [fileCommits, List.mem_flatMap]
  constructor
  · rintro ⟨g, hg, hr⟩
    obtain ⟨hfunc, hname⟩ := List.mem_filter.mp hg
    cases hbody : g.body with
    | none => simp [traceFunction, hbody] at hr
    | some body =>
      rw [traceFunction, hbody] at hr
      exact ⟨body, ⟨g, SourceFile.mem_funcs_iff.mp hfunc, Text.occurs_iff.mp hname, hbody⟩, hr⟩
  · rintro ⟨body, ⟨g, hfunc, hname, hbody⟩, hr⟩
    refine ⟨g, List.mem_filter.mpr ⟨SourceFile.mem_funcs_iff.mpr hfunc, Text.occurs_iff.mpr hname⟩, ?_⟩
    rw [traceFunction, hbody]
    exact hr

theorem fileCommits_eq_nil_iff : tracer.fileCommits kind f = [] ↔
    ¬∃ body, f.HasEntry kind body ∧ tracer.CommitsIn body := by
  simp only [List.eq_nil_iff_forall_not_mem, mem_fileCommits_iff]
  constructor
  · rintro h ⟨body, hentry, hcommits⟩
    have hne : tracer.traceBlock body ≠ [] := mt traceBlock_eq_nil_iff.mp (not_not_intro hcommits)
    obtain ⟨r, hr⟩ := List.exists_mem_of_ne_nil _ hne
    exact h r ⟨body, hentry, hr⟩
  · rintro h r ⟨body, hentry, hr⟩
    have hnil : tracer.traceBlock body = [] :=
      traceBlock_eq_nil_iff.mpr fun hcommits => h ⟨body, hentry, hcommits⟩
    rw [hnil] at hr
    exact List.not_mem_nil hr

/-- The fields that the commits of a file contribute are those of its commits. -/
theorem mem_contributed_fileCommits {name : String} :
    name ∈ contributed (tracer.fileCommits kind f) ↔
      ∃ body ids, f.HasEntry kind body ∧ tracer.CommitsTo body ids ∧ name ∈ ids := by
  simp only [mem_contributed, mem_fileCommits_iff, resolved_mem_traceBlock_iff]
  constructor
  · rintro ⟨ids, ⟨body, hentry, hids⟩, hname⟩
    exact ⟨body, ids, hentry, hids, hname⟩
  · rintro ⟨body, ids, hentry, hids, hname⟩
    exact ⟨ids, ⟨body, hentry, hids⟩, hname⟩

theorem fileCommits_append (tracer : Tracer) (kind : DefinitionKind) (f : SourceFile)
    (a b : List Decl) : tracer.fileCommits kind { f with decls := a ++ b } =
      tracer.fileCommits kind { f with decls := a } ++
        tracer.fileCommits kind { f with decls := b } := by
  simp only [fileCommits, SourceFile.funcs, List.filterMap_append, List.filter_append,
    List.flatMap_append]

end Tracer

/-- **The trace of a file is composed from its parts.** Cutting the declarations in two
and combining gives the same outcome. There is nothing to trace only when no function
that creates or reads the definition commits anything. There are fields when some
commit has fields, and then they are those of all commits, each by the tables of its
own function. -/
theorem Tracer.traceFile_composed (tracer : Tracer) (kind : DefinitionKind) (f : SourceFile) :
    (∀ a b, tracer.traceFile kind { f with decls := a ++ b } =
      (tracer.traceFile kind { f with decls := a }).combine
        (tracer.traceFile kind { f with decls := b })) ∧
    (tracer.traceFile kind f = .notApplicable ↔
      ¬∃ body, f.HasEntry kind body ∧ tracer.CommitsIn body) ∧
    ((∃ fields, tracer.traceFile kind f = .resolved fields) ↔
      ∃ body ids, f.HasEntry kind body ∧ tracer.CommitsTo body ids ∧ ids ≠ []) ∧
    (∀ fields, tracer.traceFile kind f = .resolved fields → ∀ name, name ∈ fields ↔
      ∃ body ids, f.HasEntry kind body ∧ tracer.CommitsTo body ids ∧ name ∈ ids) := by
  refine ⟨fun a b => ?_, ?_, ⟨?_, ?_⟩, ?_⟩
  · rw [traceFile, fileCommits_append, mergeCommits_append]
    rfl
  · rw [traceFile, mergeCommits_eq_notApplicable_iff, fileCommits_eq_nil_iff]
  · rintro ⟨fields, hfields⟩
    obtain ⟨rfl, hne⟩ := mergeCommits_eq_resolved_iff.mp hfields
    obtain ⟨name, hname⟩ := List.exists_mem_of_ne_nil _ hne
    obtain ⟨body, ids, hentry, hids, hname⟩ := mem_contributed_fileCommits.mp hname
    exact ⟨body, ids, hentry, hids, List.ne_nil_of_mem hname⟩
  · rintro ⟨body, ids, hentry, hids, hne⟩
    obtain ⟨name, hname⟩ := List.exists_mem_of_ne_nil _ hne
    have hmem := mem_contributed_fileCommits.mpr ⟨body, ids, hentry, hids, hname⟩
    exact ⟨_, mergeCommits_of_ne_nil (List.ne_nil_of_mem hmem)⟩
  · intro fields hfields name
    obtain ⟨rfl, -⟩ := mergeCommits_eq_resolved_iff.mp hfields
    exact mem_contributed_fileCommits

end FieldOrder
