/-
# Lower case outside ASCII

A text of ASCII letters is looked for in a name whatever the case of the letters in the
name. Lower case is a matter of all of Unicode, but what characters outside ASCII become
hardly ever is ASCII: only a `k`, and an `i` that has a combining dot behind it. So a
text without a `k` that does not end in `i` is found in the name exactly when it is found
with nothing but ASCII letters in lower case (`PlainAscii.infix_flatMap_lower`).

Key definitions: `Text.LowerCase`, `Text.PlainAscii`.
Key theorems: `Text.PlainAscii.infix_flatMap_lower`.
-/
import FieldOrder.Text

namespace FieldOrder
namespace Text

/-- What is known of lower case: ASCII characters become what they become in ASCII. Of
all others only the Kelvin sign and the capital `I` with a dot become an ASCII letter,
and this `i` has a combining dot behind it. -/
structure LowerCase (lower : Char → List Char) : Prop where
  ascii : ∀ c, c.toNat < 128 → lower c = [c.toLower]
  other : ∀ c, 128 ≤ c.toNat → lower c = ['k'] ∨ lower c = ['i', '\u0307'] ∨
    lower c ≠ [] ∧ ∀ d ∈ lower c, 128 ≤ d.toNat

/-- A text that no character outside ASCII has a part in when it is written in lower case. -/
structure PlainAscii (part : List Char) : Prop where
  ascii : ∀ d ∈ part, d.toNat < 128 ∧ d ≠ 'k'
  last : part.getLast? ≠ some 'i'

/-- Characters outside ASCII have no lower case in ASCII. -/
theorem toLower_of_le {c : Char} (h : 128 ≤ c.toNat) : c.toLower = c := by
  unfold Char.toLower
  refine dif_neg fun hupper => ?_
  have hle : c.toNat ≤ 90 := UInt32.le_iff_toNat_le.mp hupper.2
  omega

/-- Lower case in ASCII alone is one of those that are meant. -/
theorem lowerCase_ascii : LowerCase fun c => [c.toLower] where
  ascii _ _ := rfl
  other c hc := by
    rw [toLower_of_le hc]
    exact .inr (.inr ⟨List.cons_ne_nil c [], List.forall_mem_singleton.mpr hc⟩)

namespace PlainAscii

variable {part : List Char}

theorem tail {a : Char} (h : PlainAscii (a :: part)) : PlainAscii part := by
  refine ⟨fun d hd => h.ascii d (List.mem_cons_of_mem a hd), ?_⟩
  cases part with
  | nil => nofun
  | cons b rest => exact h.last

/-- The text does not begin with a character outside ASCII. -/
theorem not_prefix_cons (h : PlainAscii part) (hne : part ≠ []) {c : Char} (hc : 128 ≤ c.toNat)
    (rest : List Char) : ¬part <+: c :: rest := by
  cases part with
  | nil => exact absurd rfl hne
  | cons a part =>
    intro hprefix
    obtain ⟨rfl, -⟩ := List.cons_prefix_cons.mp hprefix
    have hlt := (h.ascii a List.mem_cons_self).1
    omega

variable {lower : Char → List Char} (hlower : LowerCase lower)

include hlower

/-- The text does not begin with what a character outside ASCII becomes. -/
theorem not_prefix_lower (h : PlainAscii part) (hne : part ≠ []) {c : Char} (hc : 128 ≤ c.toNat)
    (rest : List Char) : ¬part <+: lower c ++ rest := by
  rcases hlower.other c hc with hk | hi | ⟨hsome, hnot⟩
  · rw [hk]
    cases part with
    | nil => exact absurd rfl hne
    | cons a part =>
      intro hprefix
      obtain ⟨rfl, -⟩ := List.cons_prefix_cons.mp hprefix
      exact (h.ascii 'k' List.mem_cons_self).2 rfl
  · rw [hi]
    cases part with
    | nil => exact absurd rfl hne
    | cons a part =>
      intro hprefix
      obtain ⟨rfl, hrest⟩ := List.cons_prefix_cons.mp hprefix
      have hmore : part ≠ [] := fun hnil => h.last (hnil ▸ rfl)
      exact h.tail.not_prefix_cons hmore (by decide) rest hrest
  · obtain ⟨d, ds, hd⟩ := List.exists_cons_of_ne_nil hsome
    rw [hd]
    exact h.not_prefix_cons hne (hnot d (hd ▸ List.mem_cons_self)) (ds ++ rest)

theorem prefix_flatMap_lower : ∀ {part : List Char}, PlainAscii part → ∀ cs : List Char,
    part <+: cs.flatMap lower ↔ part <+: cs.map Char.toLower
  | _, _, [] => Iff.rfl
  | [], _, _ :: _ => iff_of_true List.nil_prefix List.nil_prefix
  | a :: part, h, c :: cs => by
    rw [List.flatMap_cons, List.map_cons]
    by_cases hc : c.toNat < 128
    · rw [hlower.ascii c hc, List.singleton_append, List.cons_prefix_cons, List.cons_prefix_cons,
        prefix_flatMap_lower h.tail cs]
    · have hc : 128 ≤ c.toNat := Nat.not_lt.mp hc
      refine iff_of_false (h.not_prefix_lower hlower (List.cons_ne_nil a part) hc _) ?_
      rw [toLower_of_le hc]
      exact h.not_prefix_cons (List.cons_ne_nil a part) hc _

/-- What a character outside ASCII becomes is never a part of the text. -/
theorem infix_lower_append (h : PlainAscii part) (hne : part ≠ []) {c : Char} (hc : 128 ≤ c.toNat)
    (rest : List Char) : part <:+: lower c ++ rest ↔ part <:+: rest := by
  have hskip : ∀ ds : List Char, (∀ d ∈ ds, 128 ≤ d.toNat) →
      (part <:+: ds ++ rest ↔ part <:+: rest) := by
    intro ds hds
    induction ds with
    | nil => rfl
    | cons d ds ih =>
      obtain ⟨hd, hds⟩ := List.forall_mem_cons.mp hds
      rw [List.cons_append, List.infix_cons_iff, or_iff_right (h.not_prefix_cons hne hd _), ih hds]
  have hfirst := h.not_prefix_lower hlower hne hc rest
  rcases hlower.other c hc with hk | hi | ⟨-, hnot⟩
  · rw [hk] at hfirst ⊢
    rw [List.singleton_append] at hfirst ⊢
    rw [List.infix_cons_iff, or_iff_right hfirst]
  · rw [hi] at hfirst ⊢
    rw [List.cons_append, List.singleton_append] at hfirst ⊢
    rw [List.infix_cons_iff, or_iff_right hfirst]
    exact hskip ['\u0307'] (List.forall_mem_singleton.mpr (by decide))
  · exact hskip _ hnot

/-- The text stands in another written in lower case as if there were only ASCII. -/
theorem infix_flatMap_lower (h : PlainAscii part) (cs : List Char) :
    part <:+: cs.flatMap lower ↔ part <:+: cs.map Char.toLower := by
  by_cases hne : part = []
  · rw [hne]
    exact iff_of_true List.nil_infix List.nil_infix
  induction cs with
  | nil => rfl
  | cons c cs ih =>
    have hprefix := prefix_flatMap_lower hlower h (c :: cs)
    rw [List.flatMap_cons, List.map_cons] at hprefix ⊢
    by_cases hc : c.toNat < 128
    · rw [hlower.ascii c hc, List.singleton_append] at hprefix ⊢
      rw [List.infix_cons_iff, List.infix_cons_iff, hprefix, ih]
    · have hc : 128 ≤ c.toNat := Nat.not_lt.mp hc
      have hnot : ¬part <+: c.toLower :: cs.map Char.toLower := by
        rw [toLower_of_le hc]
        exact h.not_prefix_cons hne hc _
      rw [h.infix_lower_append hlower hne hc, List.infix_cons_iff, or_iff_right hnot, ih]

end PlainAscii
end Text
end FieldOrder
