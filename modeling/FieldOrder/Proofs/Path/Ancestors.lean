/-
# Paths above a path

The parent of a path has all its components but the last, and only the root and the
empty path have none (`Path.parent?_cases`). So the paths above a path are known by
their components, and the innermost with a given name stands where the name stands last
among the components (`Path.exists_find?_ancestors`).

Key theorems: `Path.parent?_cases`, `Path.exists_find?_ancestors`,
`Path.find?_ancestors_eq_none`.
-/
import FieldOrder.Proofs.Path.Components

namespace FieldOrder
namespace Path

variable {p q : Path} {c : Component} {cs : List Component} {text : String}

/-! ### The parent -/

theorem filterMap_dropWhile_isSilent (pieces : List (List Char)) :
    (pieces.dropWhile isSilent).filterMap component? = pieces.filterMap component? := by
  induction pieces with
  | nil => rfl
  | cons piece more ih =>
    cases h : component? piece with
    | none => rw [List.dropWhile_cons_of_pos (by simp [isSilent, h]), ih,
        List.filterMap_cons_none h]
    | some c => rw [List.dropWhile_cons_of_neg (by simp [isSilent, h])]

theorem filterMap_reverse_dropWhile_isSilent (pieces : List (List Char)) :
    (pieces.dropWhile isSilent).reverse.filterMap component? =
      pieces.reverse.filterMap component? := by
  rw [List.filterMap_reverse, List.filterMap_reverse, filterMap_dropWhile_isSilent]

theorem named_joined {pieces : List (List Char)} (h : pieces ≠ [])
    (hplain : ∀ piece ∈ pieces, '/' ∉ piece) :
    named (Text.joined '/' pieces) = pieces.filterMap component? := by
  rw [named, Text.pieces_joined h hplain]

/-- The components of the front part of a path's text. -/
theorem components_front {lead : List Char} {kept rest : List (List Char)}
    (h : IsSplit p.text.toList lead (kept ++ rest)) (hrest : rest ≠ []) :
    components ⟨String.ofList (lead ++ Text.joined '/' kept)⟩ =
      leadComponents lead ++ kept.filterMap component? := by
  rw [components_eq, String.toList_ofList]
  by_cases hkept : kept = []
  · rw [hkept, Text.joined, List.append_nil]
    rcases h.lead_cases with rfl | rfl | ⟨rfl, -⟩ <;> rfl
  have hplain : ∀ piece ∈ rest, '/' ∉ piece := fun piece hpiece =>
    h.plain piece (List.mem_append_right kept hpiece)
  have htext : p.text.toList =
      (lead ++ Text.joined '/' kept) ++ '/' :: Text.joined '/' rest := by
    rw [← h.text_eq, Text.joined_append hkept hrest, List.append_assoc]
  have hne : lead ++ Text.joined '/' kept ≠ [] := by
    intro hnil
    rcases h.lead_cases with rfl | rfl | ⟨-, hroot⟩
    · cases hnil
    · cases hnil
    · rw [hnil] at htext
      exact hroot _ htext
  have hlead : leadOf (lead ++ Text.joined '/' kept) = leadComponents lead := by
    rw [h.leadComponents_eq, htext, leadOf_append hne]
  have hnamed : named (lead ++ Text.joined '/' kept) ++ rest.filterMap component? =
      kept.filterMap component? ++ rest.filterMap component? := by
    rw [← List.filterMap_append, h.named_eq, htext, named_append, named_joined hrest hplain]
  rw [hlead, List.append_cancel_right hnamed]

/-- What is kept of a path's pieces stands at their front. -/
theorem exists_append_of_dropWhile_isSilent {body before : List (List Char)} {piece : List Char}
    (h : body.reverse.dropWhile isSilent = piece :: before) :
    ∃ rest, rest ≠ [] ∧ body = (before.dropWhile isSilent).reverse ++ rest := by
  have hbody : body.reverse = body.reverse.takeWhile isSilent ++ piece :: before := by
    rw [← h, List.takeWhile_append_dropWhile]
  have hbefore : before.reverse =
      (before.dropWhile isSilent).reverse ++ (before.takeWhile isSilent).reverse := by
    rw [← List.reverse_append, List.takeWhile_append_dropWhile]
  refine ⟨(before.takeWhile isSilent).reverse ++ piece :: (body.reverse.takeWhile isSilent).reverse,
    List.append_ne_nil_of_right_ne_nil _ (List.cons_ne_nil _ _), ?_⟩
  rw [← List.append_assoc, ← hbefore]
  exact List.reverse_injective (by simpa using hbody)

/-- A path has a parent with all components but the last, unless it is the root or empty. -/
theorem parent?_cases (p : Path) :
    p.parent? = none ∧ (p.components = [] ∨ p.components = [.root]) ∨
      ∃ q c, p.parent? = some q ∧ c ≠ .root ∧ p.components = q.components ++ [c] := by
  have h := isSplit_split p.text.toList
  have hcomponents : p.components = leadComponents (split p.text.toList).1 ++
      (split p.text.toList).2.filterMap component? := rfl
  unfold parent?
  generalize split p.text.toList = parts at h hcomponents
  obtain ⟨lead, body⟩ := parts
  have hkept := filterMap_reverse_dropWhile_isSilent body.reverse
  rw [List.reverse_reverse] at hkept
  dsimp only at h hcomponents ⊢
  rw [← hkept] at hcomponents
  cases hbody : body.reverse.dropWhile isSilent with
  | nil =>
    rw [hbody, List.reverse_nil, List.filterMap_nil, List.append_nil] at hcomponents
    rcases h.lead_cases with rfl | rfl | ⟨rfl, -⟩
    · exact .inl ⟨rfl, .inr hcomponents⟩
    · exact .inr ⟨⟨""⟩, .here, rfl, nofun, hcomponents⟩
    · exact .inl ⟨rfl, .inl hcomponents⟩
  | cons piece before =>
    have hpiece : isSilent piece = false := by
      have hhead := List.head?_dropWhile_not isSilent body.reverse
      rwa [hbody] at hhead
    obtain ⟨rest, hrest, rfl⟩ := exists_append_of_dropWhile_isSilent hbody
    cases hc : component? piece with
    | none => rw [isSilent, hc] at hpiece; cases hpiece
    | some c =>
      refine .inr ⟨_, c, rfl, ne_root_of_component? hc, ?_⟩
      rw [components_front h hrest, hcomponents, hbody, List.reverse_cons, List.filterMap_append,
        List.filterMap_cons_some hc, List.filterMap_nil, filterMap_reverse_dropWhile_isSilent,
        List.append_assoc]

/-- The parent of a path with a component, other than the root. -/
theorem exists_parent? (h : p.components = cs ++ [c]) (hroot : p.components ≠ [.root]) :
    ∃ q, p.parent? = some q ∧ q.components = cs := by
  rcases parent?_cases p with ⟨-, hnil | hroot'⟩ | ⟨q, d, hq, -, hp⟩
  · rw [hnil] at h
    exact absurd h.symm (List.append_ne_nil_of_right_ne_nil cs (List.cons_ne_nil c []))
  · exact absurd hroot' hroot
  · exact ⟨q, hq, List.append_inj_left' (hp.symm.trans h) rfl⟩

/-! ### The innermost path with a name -/

theorem fileName?_eq_some_iff :
    p.fileName? = some text ↔ p.components.getLast? = some (.name text) := by
  unfold fileName?
  cases p.components.getLast? with
  | none => simp
  | some c => cases c with
    | name t => simp
    | _ => simp

theorem fileName?_of_components (h : p.components = cs ++ [.name text]) :
    p.fileName? = some text := by
  rw [fileName?_eq_some_iff, h, List.getLast?_concat]

theorem mem_components_of_fileName? (h : p.fileName? = some text) : .name text ∈ p.components :=
  List.mem_of_getLast? (fileName?_eq_some_iff.mp h)

/-- The components of a path above are the first of the path. -/
theorem components_prefix_of_mem_ancestorsUpTo {n : ℕ} (h : q ∈ ancestorsUpTo n p) :
    q.components <+: p.components := by
  induction n generalizing p with
  | zero =>
    obtain rfl := List.mem_singleton.mp h
    exact List.prefix_rfl
  | succ n ih =>
    rcases List.mem_cons.mp h with rfl | h
    · exact List.prefix_rfl
    rcases parent?_cases p with ⟨hnone, -⟩ | ⟨r, c, hr, -, hp⟩
    · rw [hnone] at h
      exact absurd h List.not_mem_nil
    · rw [hr] at h
      rw [hp]
      exact (ih h).trans (List.prefix_append r.components [c])

/-- No path above has a name that is not among the components. -/
theorem find?_ancestors_eq_none (h : .name text ∉ p.components) :
    p.ancestors.find? (fun dir => dir.fileName? == some text) = none := by
  rw [List.find?_eq_none]
  intro q hq hname
  have hmem := mem_components_of_fileName? (beq_iff_eq.mp hname)
  exact h ((components_prefix_of_mem_ancestorsUpTo hq).subset hmem)

theorem find?_ancestorsUpTo_self (h : p.fileName? = some text) (n : ℕ) :
    (ancestorsUpTo n p).find? (fun dir => dir.fileName? == some text) = some p := by
  cases n with
  | zero => exact List.find?_cons_of_pos (beq_iff_eq.mpr h)
  | succ n => exact List.find?_cons_of_pos (beq_iff_eq.mpr h)

theorem find?_ancestorsUpTo_succ (h : p.fileName? ≠ some text) (hq : p.parent? = some q) (n : ℕ) :
    (ancestorsUpTo (n + 1) p).find? (fun dir => dir.fileName? == some text) =
      (ancestorsUpTo n q).find? (fun dir => dir.fileName? == some text) := by
  rw [ancestorsUpTo, List.find?_cons_of_neg (by simpa using h), hq]

/-- The innermost path with a name is found, if there are enough steps up to where the name
stands last. -/
theorem exists_find?_ancestorsUpTo {n : ℕ} {below : List Component} (hn : below.length ≤ n)
    (hbelow : .name text ∉ below) (h : p.components = cs ++ .name text :: below) :
    ∃ q, (ancestorsUpTo n p).find? (fun dir => dir.fileName? == some text) = some q ∧
      q.components = cs ++ [.name text] := by
  induction n generalizing p below with
  | zero =>
    obtain rfl := List.eq_nil_of_length_eq_zero (Nat.le_zero.mp hn)
    exact ⟨p, find?_ancestorsUpTo_self (fileName?_of_components h) 0, h⟩
  | succ n ih =>
    rcases List.eq_nil_or_concat below with rfl | ⟨outer, c, rfl⟩
    · exact ⟨p, find?_ancestorsUpTo_self (fileName?_of_components h) (n + 1), h⟩
    obtain ⟨houter, hc⟩ : .name text ∉ outer ∧ .name text ≠ c := by simpa using hbelow
    have hp : p.components = (cs ++ .name text :: outer) ++ [c] := by simp [h]
    have hname : p.fileName? ≠ some text := by
      rw [Ne, fileName?_eq_some_iff, hp, List.getLast?_concat]
      exact fun hsome => hc (Option.some.inj hsome).symm
    have hroot : p.components ≠ [.root] := by
      intro hroot
      have hlength := congrArg List.length (hp.symm.trans hroot)
      simp only [List.length_append, List.length_cons, List.length_nil] at hlength
      omega
    obtain ⟨q, hq, hqcs⟩ := exists_parent? hp hroot
    rw [find?_ancestorsUpTo_succ hname hq]
    exact ih (by simpa using hn) houter hqcs

/-- The innermost path with a name stands where the name does last. -/
theorem exists_find?_ancestors {below : List Component} (hbelow : .name text ∉ below)
    (h : p.components = cs ++ .name text :: below) :
    ∃ q, p.ancestors.find? (fun dir => dir.fileName? == some text) = some q ∧
      q.components = cs ++ [.name text] := by
  refine exists_find?_ancestorsUpTo ?_ hbelow h
  rw [h, List.length_append, List.length_cons]
  omega

end Path
end FieldOrder
