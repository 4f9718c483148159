/-
# Where the helper module is looked for

From every directory at or below a sentinel the helper module is looked for in the same
place, if the text is not that of a build cache: beside the last sentinel among the
components (`helperDir?_eq_some`). Without a sentinel there is no place
(`helperDir?_eq_none`). So every module of a repository is given the same place, however
deep it lies and however its directory is spelled (`helperDir?_descend`).

Key definitions: `Path.descend`.
Key theorems: `Path.components_descend`, `helperDir?_descend`.
-/
import FieldOrder.HelperCache
import FieldOrder.Proofs.Path.Ancestors

namespace FieldOrder

/-- The directory reached from a path by one name after the other. -/
def Path.descend (p : Path) (names : List String) : Path :=
  names.foldl (fun dir name => dir.join ⟨name⟩) p

/-- The way down adds its names. -/
theorem Path.components_descend {names : List String} (h : ∀ name ∈ names, IsPlainName name)
    (p : Path) : (p.descend names).components = p.components ++ names.map .name := by
  induction names generalizing p with
  | nil => exact (List.append_nil p.components).symm
  | cons name rest ih =>
    obtain ⟨hname, hrest⟩ := List.forall_mem_cons.mp h
    show ((p.join ⟨name⟩).descend rest).components = _
    rw [ih hrest, Path.components_join_plain hname, List.append_assoc, List.map_cons,
      List.singleton_append]

variable {settings : SharedSchema}

/-- The place for a directory with a sentinel among its components lies beside the last of
them. -/
theorem helperDir?_eq_some {start root : Path} {below : List Component}
    (hmarkers : ∀ marker ∈ buildCacheMarkers, ¬ marker.toList <:+: start.text.toList)
    (hstart : start.components = root.components ++ .name settings.sentinelDir :: below)
    (hbelow : .name settings.sentinelDir ∉ below) :
    ∃ dir : Path, helperDir? settings start = some (dir.join ⟨settings.relativePath⟩) ∧
      dir.components = root.components := by
  obtain ⟨sentinel, hsentinel, hcomponents⟩ := Path.exists_find?_ancestors hbelow hstart
  have hroot : sentinel.components ≠ [.root] := by
    intro hroot
    have hlast : root.components ++ [.name settings.sentinelDir] = [] ++ [Component.root] :=
      hcomponents.symm.trans hroot
    cases List.append_inj_right' hlast rfl
  obtain ⟨dir, hdir, hdirComponents⟩ := Path.exists_parent? hcomponents hroot
  have hcache : buildCacheMarkers.any (Text.contains start.text ·) = false := by
    rw [List.any_eq_false]
    exact fun marker hmarker hcontains => hmarkers marker hmarker (Text.occurs_iff.mp hcontains)
  refine ⟨dir, ?_, hdirComponents⟩
  rw [helperDir?, hcache, if_neg Bool.false_ne_true, hsentinel]
  simp [hdir]

theorem helperDir?_eq_none {start : Path}
    (h : .name settings.sentinelDir ∉ start.components) : helperDir? settings start = none := by
  rw [helperDir?, Path.find?_ancestors_eq_none h]
  exact ite_self none

/-- Every directory below a sentinel has the same place for the helper module, whatever lies
between them and wherever the sentinel is; a directory that is not below one has none. -/
theorem helperDir?_descend (settings : SharedSchema) (hplain : IsPlainName settings.sentinelDir) :
    (∀ (root : Path) (below : List String),
      (∀ name ∈ below, IsPlainName name ∧ name ≠ settings.sentinelDir) →
      (∀ marker ∈ buildCacheMarkers,
        ¬ marker.toList <:+: (root.descend (settings.sentinelDir :: below)).text.toList) →
      ∃ dir, helperDir? settings (root.descend (settings.sentinelDir :: below)) = some dir ∧
        dir.components = (root.join ⟨settings.relativePath⟩).components ∧
        (Path.isAbsolute ⟨settings.relativePath⟩ = true → dir = ⟨settings.relativePath⟩)) ∧
    ∀ start : Path, .name settings.sentinelDir ∉ start.components →
      helperDir? settings start = none := by
  refine ⟨fun root below hbelow hmarkers => ?_, fun start => helperDir?_eq_none⟩
  have hnames : ∀ name ∈ settings.sentinelDir :: below, IsPlainName name :=
    List.forall_mem_cons.mpr ⟨hplain, fun name hname => (hbelow name hname).1⟩
  have hlast : .name settings.sentinelDir ∉ below.map Component.name := by
    intro hmem
    obtain ⟨name, hname, heq⟩ := List.mem_map.mp hmem
    exact (hbelow name hname).2 (Component.name.inj heq)
  obtain ⟨dir, hdir, hcomponents⟩ :=
    helperDir?_eq_some hmarkers (Path.components_descend hnames root) hlast
  refine ⟨_, hdir, Path.components_join_congr hcomponents _, fun habsolute => ?_⟩
  rw [Path.join, if_pos habsolute]

/-- A repository may itself lie below a sentinel: the inner one counts. -/
theorem helperDir?_descend_inner :
    IsPlainName "internal" ∧
    (∃ dir, helperDir? {} ((Path.mk "//srv/./internal/repo//").descend
        ["internal", "services", "foo"]) = some dir ∧
      dir.components = [.root, .name "srv", .name "internal", .name "repo", .name "vendor",
        .name "github.com", .name "hashicorp", .name "go-azure-helpers", .name "resourcemanager",
        .name "commonschema"]) ∧
    helperDir? {} ⟨"services/foo"⟩ = none := by
  have hplain : IsPlainName "internal" := by decide
  obtain ⟨hbelow, habove⟩ := helperDir?_descend {} hplain
  have hmarkers : ∀ marker ∈ buildCacheMarkers, ¬ marker.toList <:+:
      ((Path.mk "//srv/./internal/repo//").descend ["internal", "services", "foo"]).text.toList := by
    simp only [← Text.occurs_iff]
    decide
  obtain ⟨dir, hdir, hcomponents, -⟩ :=
    hbelow ⟨"//srv/./internal/repo//"⟩ ["services", "foo"] (by decide) hmarkers
  exact ⟨hplain, ⟨dir, hdir, hcomponents.trans (by decide +kernel)⟩,
    habove ⟨"services/foo"⟩ (by decide)⟩

end FieldOrder
