/-
# Diagnostics in order

Diagnostics are compared by file, line, column and code, taken together their place.
The comparison is a linear order of places, so sorted diagnostics are in order, and two
lists of the same diagnostics have, once sorted, the same place at every position: they
differ at most in the order of those that tell of one place.

Key definitions: `Diagnostic.Place`, `Diagnostic.place`, `Diagnostic.SameUpToTies`.
Key theorems: `Diagnostic.pairwise_sort`, `Diagnostic.SameUpToTies.of_perm`.
-/
import FieldOrder.Diagnostic

namespace FieldOrder

/-! ### Components and codes -/

instance : Std.TransOrd Component :=
  inferInstanceAs (Std.TransCmp (compareLex (compareOn Component.rank) (compareOn Component.nameText)))

instance : Std.LawfulEqOrd Component where
  eq_of_compare {a b} h := by
    obtain ⟨hrank, htext⟩ := compareLex_eq_eq.mp h
    have hrank : a.rank = b.rank := Std.LawfulEqOrd.eq_of_compare hrank
    have htext : a.nameText = b.nameText := Std.LawfulEqOrd.eq_of_compare htext
    cases a <;> cases b <;> simp_all [Component.rank, Component.nameText]

theorem DiagnosticCode.eq_of_rank_eq {a b : DiagnosticCode} (h : a.rank = b.rank) : a = b := by
  cases a
  cases b
  rfl

namespace Diagnostic

/-! ### Places -/

/-- What diagnostics are ordered by: the file, component by component, the line, the
column and the code. -/
abbrev Place := List Component × UInt32 × UInt32 × DiagnosticCode

/-- The place of which a diagnostic tells, and with which code. -/
def place (d : Diagnostic) : Place := (d.file.components, d.line, d.column, d.code)

/-- The order of places. -/
def cmpPlace : Place → Place → Ordering :=
  compareLex (compareOn (·.1)) <| compareLex (compareOn (·.2.1)) <|
    compareLex (compareOn (·.2.2.1)) (compareOn (·.2.2.2.rank))

theorem cmp_eq_cmpPlace (a b : Diagnostic) : cmp a b = cmpPlace a.place b.place := rfl

instance : Std.TransCmp cmpPlace := by
  unfold cmpPlace
  infer_instance

/-- Only equal places agree in the order. -/
theorem eq_of_cmpPlace_eq {p q : Place} (h : cmpPlace p q = .eq) : p = q := by
  obtain ⟨hfile, h⟩ := compareLex_eq_eq.mp h
  obtain ⟨hline, h⟩ := compareLex_eq_eq.mp h
  obtain ⟨hcolumn, hcode⟩ := compareLex_eq_eq.mp h
  have hfile : p.1 = q.1 := Std.LawfulEqOrd.eq_of_compare hfile
  have hline : p.2.1 = q.2.1 := Std.LawfulEqOrd.eq_of_compare hline
  have hcolumn : p.2.2.1 = q.2.2.1 := Std.LawfulEqOrd.eq_of_compare hcolumn
  have hcode : p.2.2.2 = q.2.2.2 :=
    DiagnosticCode.eq_of_rank_eq (Std.LawfulEqOrd.eq_of_compare hcode)
  exact Prod.ext hfile (Prod.ext hline (Prod.ext hcolumn hcode))

/-! ### Sorted diagnostics -/

theorem sort_perm (ds : List Diagnostic) : (sort ds).Perm ds := List.mergeSort_perm ds _

/-- Sorted diagnostics are in order. -/
theorem pairwise_sort (ds : List Diagnostic) : (sort ds).Pairwise fun a b => (cmp a b).isLE := by
  apply List.pairwise_mergeSort
  · intro a b c hab hbc
    rw [cmp_eq_cmpPlace] at hab hbc ⊢
    exact Std.TransCmp.isLE_trans hab hbc
  · intro a b
    have hswap : cmpPlace b.place a.place = (cmpPlace a.place b.place).swap :=
      Std.OrientedCmp.eq_swap
    rw [cmp_eq_cmpPlace, cmp_eq_cmpPlace, hswap, Ordering.isLE_swap, Bool.or_eq_true]
    cases cmpPlace a.place b.place with
    | lt => exact .inl rfl
    | eq => exact .inl rfl
    | gt => exact .inr rfl

/-- The same diagnostics, in the same order but for those that tell of one place. -/
def SameUpToTies (as bs : List Diagnostic) : Prop := as.Perm bs ∧ as.map place = bs.map place

/-- Diagnostics in order have the same place at every position, if they are the same. -/
theorem SameUpToTies.of_perm {as bs : List Diagnostic} (h : as.Perm bs)
    (has : as.Pairwise fun a b => (cmp a b).isLE) (hbs : bs.Pairwise fun a b => (cmp a b).isLE) :
    SameUpToTies as bs := by
  have hplaces : (as.map place).Pairwise fun p q => (cmpPlace p q).isLE := List.pairwise_map.mpr has
  have hplaces' : (bs.map place).Pairwise fun p q => (cmpPlace p q).isLE := List.pairwise_map.mpr hbs
  refine ⟨h, (h.map place).eq_of_pairwise ?_ hplaces hplaces'⟩
  intro p q _ _ hpq hqp
  exact eq_of_cmpPlace_eq (Std.OrientedCmp.isLE_antisymm hpq hqp)

end Diagnostic
end FieldOrder
