/-
# What is read off a tag

A struct tag is made of pairs `key:"value"` with spaces between them. The schema field
is not found by splitting the tag into pairs, but behind the first `tfschema:"` anywhere
in it. This text ends in a quote, so it can only stand before the opening quote of a
value, at the end of a key, or before the closing quote, at the end of a value: and so
a tag is read piece by piece between its quotes (`behind?_piece`).

For tags without a pair that looks like it, this is the value of the key `tfschema`
(`schemaTag?_tagText`). A longer key that ends in `tfschema` is taken for it, and of a
value that ends in `tfschema:` the key of the next pair is taken
(`schemaTag?_tagText_lookAlike`).

Key definitions: `TagPair`, `tagText`, `TagPair.LooksLike`, `fieldReadOff`.
Key theorems: `behind?_piece`, `schemaTag?_eq_fieldReadOff`, `schemaTag?_tagText`.
-/
import Mathlib.Data.List.Infix
import FieldOrder.Provenance.Model

namespace FieldOrder

/-! ### Pieces between quotes -/

/-- Texts in front of quotes are found at the same place only if they are the same. -/
theorem append_quote_prefix_iff {part piece : List Char} (hpart : '"' ∉ part)
    (hpiece : '"' ∉ piece) (rest : List Char) :
    part ++ ['"'] <+: piece ++ '"' :: rest ↔ part = piece := by
  induction part generalizing piece with
  | nil =>
    cases piece with
    | nil => simp
    | cons c piece =>
      obtain ⟨hc, -⟩ := List.ne_and_not_mem_of_not_mem_cons hpiece
      simpa using hc
  | cons a part ih =>
    obtain ⟨ha, hpart⟩ := List.ne_and_not_mem_of_not_mem_cons hpart
    cases piece with
    | nil => simpa using fun h => (ha h.symm).elim
    | cons c piece =>
      obtain ⟨-, hpiece⟩ := List.ne_and_not_mem_of_not_mem_cons hpiece
      rw [List.cons_append, List.cons_append, List.cons_prefix_cons, ih hpart hpiece,
        List.cons.injEq]

/-- What ends in a quote is found at the end of the piece before the next quote, or behind
that quote. -/
theorem behind?_piece {part piece : List Char} (hne : part ≠ []) (hpart : '"' ∉ part)
    (hpiece : '"' ∉ piece) (rest : List Char) :
    behind? (part ++ ['"']) (piece ++ '"' :: rest) =
      if part <:+ piece then some rest else behind? (part ++ ['"']) rest := by
  induction piece with
  | nil =>
    have hfront := append_quote_prefix_iff hpart hpiece rest
    rw [List.nil_append] at hfront
    rw [List.nil_append, behind?, if_neg fun h => hne (hfront.mp (List.isPrefixOf_iff_prefix.mp h)),
      if_neg fun h => hne (List.suffix_nil.mp h)]
  | cons c piece ih =>
    have hfront := append_quote_prefix_iff hpart hpiece rest
    obtain ⟨-, hpiece⟩ := List.ne_and_not_mem_of_not_mem_cons hpiece
    rw [List.cons_append] at hfront
    rw [List.cons_append, behind?]
    by_cases hfound : part = c :: piece
    · have hdrop : (c :: (piece ++ '"' :: rest)).drop (part ++ ['"']).length = rest := by
        simp [hfound]
      rw [if_pos (List.isPrefixOf_iff_prefix.mpr (hfront.mpr hfound)), hdrop,
        if_pos (hfound ▸ List.suffix_refl part)]
    · rw [if_neg fun h => hfound (hfront.mp (List.isPrefixOf_iff_prefix.mp h)), ih hpiece]
      simp only [List.suffix_cons_iff, hfound, false_or]

theorem untilQuote?_piece {piece : List Char} (h : '"' ∉ piece) (rest : List Char) :
    untilQuote? (piece ++ '"' :: rest) = some piece := by
  induction piece with
  | nil => rfl
  | cons c piece ih =>
    obtain ⟨hc, hpiece⟩ := List.ne_and_not_mem_of_not_mem_cons h
    rw [List.cons_append, untilQuote?, if_neg (Ne.symm hc), ih hpiece]
    rfl

/-- The pieces in front, and behind each a separator with the next piece. -/
theorem Text.joined_cons (sep : Char) : ∀ (piece : List Char) (more : List (List Char)),
    Text.joined sep (piece :: more) = piece ++ more.flatMap (sep :: ·)
  | piece, [] => by simp [Text.joined]
  | piece, next :: more => by
    rw [Text.joined, Text.joined_cons sep next more, List.flatMap_cons, List.cons_append]

/-! ### Tags -/

/-- A pair of a struct tag. -/
structure TagPair where
  key : String
  value : String
  key_nonempty : key ≠ "" := by decide
  key_plain : ' ' ∉ key.toList ∧ ':' ∉ key.toList ∧ '"' ∉ key.toList := by decide
  value_plain : '"' ∉ value.toList ∧ '\\' ∉ value.toList := by decide

namespace TagPair

/-- The pair as it is written. -/
def chars (p : TagPair) : List Char :=
  (p.key.toList ++ [':']) ++ '"' :: (p.value.toList ++ ['"'])

/-- The value, if it is not empty. -/
def value? (p : TagPair) : Option String := if p.value = "" then none else some p.value

/-- Another key that ends in `tfschema`, or a value that ends in `tfschema:`. -/
def LooksLike (p : TagPair) : Prop :=
  p.key ≠ "tfschema" ∧ "tfschema".toList <:+ p.key.toList ∨
    "tfschema:".toList <:+ p.value.toList

end TagPair

/-- A tag of pairs with single spaces between them. -/
def tagText (pairs : List TagPair) : String :=
  String.ofList (Text.joined ' ' (pairs.map TagPair.chars))

/-- What is read off a tag: the value of the first pair whose key ends in `tfschema`, or
what stands between the first value that ends in `tfschema:` and the value behind it,
whichever comes first. -/
def fieldReadOff : List TagPair → Option String
  | [] => none
  | p :: later =>
    if "tfschema".toList <:+ p.key.toList then p.value?
    else if "tfschema:".toList <:+ p.value.toList then
      later.head?.map fun q => " " ++ q.key ++ ":"
    else fieldReadOff later

/-! ### Reading tags -/

/-- What is looked for ends in a quote and has no other. -/
theorem tagKey_eq : tagKey = "tfschema:".toList ++ ['"'] := by decide

/-- What is read between `tfschema:"` and the next quote. -/
def quotedBehind? (cs : List Char) : Option String :=
  ((behind? tagKey cs).bind untilQuote?).bind fun value =>
    if value.isEmpty then none else some (String.ofList value)

theorem schemaTag?_ofList (cs : List Char) : schemaTag? (String.ofList cs) = quotedBehind? cs := by
  rw [schemaTag?, String.toList_ofList]
  rfl

/-- The pieces of a tag between its quotes. -/
theorem quotedBehind?_piece {piece : List Char} (hpiece : '"' ∉ piece) (rest : List Char) :
    quotedBehind? (piece ++ '"' :: rest) =
      if "tfschema:".toList <:+ piece then
        (untilQuote? rest).bind fun value =>
          if value.isEmpty then none else some (String.ofList value)
      else quotedBehind? rest := by
  rw [quotedBehind?, tagKey_eq, behind?_piece (by decide) (by decide) hpiece]
  split
  · rfl
  · rw [quotedBehind?, tagKey_eq]

namespace TagPair

variable (p : TagPair)

theorem quote_not_mem_key : '"' ∉ p.key.toList ++ [':'] := by
  intro h
  rcases List.mem_append.mp h with h | h
  · exact p.key_plain.2.2 h
  · simp at h

theorem quote_not_mem_value : '"' ∉ p.value.toList := p.value_plain.1

/-- Before a colon the key is looked at, whatever stands before it. -/
theorem suffix_key_iff {lead : List Char} (hlead : lead = [] ∨ lead = [' ']) :
    "tfschema:".toList <:+ lead ++ (p.key.toList ++ [':']) ↔
      "tfschema".toList <:+ p.key.toList := by
  have hcolon : "tfschema:".toList = "tfschema".toList ++ [':'] := by decide
  rw [hcolon, ← List.append_assoc, List.suffix_append_self_iff]
  rcases hlead with rfl | rfl
  · rw [List.nil_append]
  · rw [List.singleton_append, List.suffix_cons_iff]
    refine or_iff_right fun h => ?_
    simp at h

/-- The first pair of a tag decides, or it is passed. -/
theorem quotedBehind?_chars {lead : List Char} (hlead : lead = [] ∨ lead = [' '])
    (later : List TagPair) :
    quotedBehind? (lead ++ (p.chars ++ later.flatMap fun q => ' ' :: q.chars)) =
      if "tfschema".toList <:+ p.key.toList then p.value?
      else if "tfschema:".toList <:+ p.value.toList then
        later.head?.map fun q => " " ++ q.key ++ ":"
      else quotedBehind? (later.flatMap fun q => ' ' :: q.chars) := by
  have hkey : '"' ∉ lead ++ (p.key.toList ++ [':']) := by
    rcases hlead with rfl | rfl
    · exact p.quote_not_mem_key
    · simpa using p.quote_not_mem_key
  have hchars : lead ++ (p.chars ++ later.flatMap fun q => ' ' :: q.chars) =
      (lead ++ (p.key.toList ++ [':'])) ++ '"' ::
        (p.value.toList ++ '"' :: later.flatMap fun q => ' ' :: q.chars) := by
    simp [chars]
  rw [hchars, quotedBehind?_piece hkey, quotedBehind?_piece p.quote_not_mem_value,
    untilQuote?_piece p.quote_not_mem_value]
  simp only [p.suffix_key_iff hlead]
  congr 1
  · -- the value of the pair itself
    by_cases hvalue : p.value = ""
    · simp [value?, hvalue]
    · simp [value?, hvalue]
  · -- the key of the next pair, which is never empty
    congr 1
    cases later with
    | nil => rfl
    | cons q later =>
      have hq : '"' ∉ ' ' :: (q.key.toList ++ [':']) := by simpa using q.quote_not_mem_key
      have hnext : (q :: later).flatMap (fun q => ' ' :: q.chars) =
          (' ' :: (q.key.toList ++ [':'])) ++ '"' ::
            (q.value.toList ++ '"' :: later.flatMap fun q => ' ' :: q.chars) := by
        simp [chars]
      rw [hnext, untilQuote?_piece hq]
      simp [String.ofList_cons, String.append_assoc]

end TagPair

theorem quotedBehind?_later : ∀ later : List TagPair,
    quotedBehind? (later.flatMap fun q => ' ' :: q.chars) = fieldReadOff later
  | [] => rfl
  | p :: later => by
    rw [List.flatMap_cons, List.cons_append, ← List.singleton_append,
      p.quotedBehind?_chars (.inr rfl), quotedBehind?_later later, fieldReadOff]

/-- What is read off a tag, pair by pair. -/
theorem schemaTag?_eq_fieldReadOff (pairs : List TagPair) :
    schemaTag? (tagText pairs) = fieldReadOff pairs := by
  rw [tagText, schemaTag?_ofList]
  cases pairs with
  | nil => rfl
  | cons p later =>
    rw [List.map_cons, Text.joined_cons, List.flatMap_map, ← List.nil_append (p.chars ++ _),
      p.quotedBehind?_chars (.inl rfl), quotedBehind?_later, fieldReadOff]

/-- When no pair before the key `tfschema` looks like it, its value is read off. -/
theorem fieldReadOff_eq_value? : ∀ {pairs : List TagPair},
    (∀ p ∈ pairs.takeWhile fun p => p.key ≠ "tfschema", ¬p.LooksLike) →
      fieldReadOff pairs = (pairs.find? fun p => p.key = "tfschema").bind TagPair.value?
  | [], _ => rfl
  | p :: later, h => by
    rw [fieldReadOff]
    by_cases hkey : p.key = "tfschema"
    · rw [if_pos (by rw [hkey]), List.find?_cons_of_pos (by simpa using hkey)]
      rfl
    · rw [List.takeWhile_cons_of_pos (by simpa using hkey)] at h
      obtain ⟨hp, hlater⟩ := List.forall_mem_cons.mp h
      have hends : ¬"tfschema".toList <:+ p.key.toList := fun h => hp (.inl ⟨hkey, h⟩)
      have hvalue : ¬"tfschema:".toList <:+ p.value.toList := fun h => hp (.inr h)
      rw [if_neg hends, if_neg hvalue, fieldReadOff_eq_value? hlater,
        List.find?_cons_of_neg (by simpa using hkey)]

/-- **What is read off a tag.** Of every tag it is what stands behind the first piece
that ends in `tfschema:`. When no pair looks like it before the first pair with the key
`tfschema`, or in the whole tag if there is no such pair, a field is read off just when
there is one and its value is not empty, and then it is this value. -/
theorem schemaTag?_tagText (pairs : List TagPair) :
    schemaTag? (tagText pairs) = fieldReadOff pairs ∧
    ((∀ p ∈ pairs.takeWhile fun p => p.key ≠ "tfschema", ¬p.LooksLike) → ∀ field : String,
      schemaTag? (tagText pairs) = some field ↔ field ≠ "" ∧
        ∃ p, (pairs.find? fun p => p.key = "tfschema") = some p ∧ p.value = field) := by
  have hread := schemaTag?_eq_fieldReadOff pairs
  refine ⟨hread, fun h field => ?_⟩
  rw [hread, fieldReadOff_eq_value? h, Option.bind_eq_some_iff]
  constructor
  · rintro ⟨p, hp, hvalue⟩
    unfold TagPair.value? at hvalue
    split at hvalue
    · cases hvalue
    · next hne =>
      obtain rfl := Option.some.inj hvalue
      exact ⟨hne, p, hp, rfl⟩
  · rintro ⟨hne, p, hp, rfl⟩
    exact ⟨p, hp, if_neg hne⟩

/-- The tag `json:"id,omitempty" tfschema:"name" mytfschema:"title"`. -/
def nameTag : List TagPair :=
  [{ key := "json", value := "id,omitempty" }, { key := "tfschema", value := "name" },
    { key := "mytfschema", value := "title" }]

theorem schemaTag?_tagText_nameTag :
    (∀ p ∈ nameTag.takeWhile fun p => p.key ≠ "tfschema", ¬p.LooksLike) ∧
      schemaTag? (tagText nameTag) = some "name" := by
  have h : ∀ p ∈ nameTag.takeWhile fun p => p.key ≠ "tfschema", ¬p.LooksLike := by
    unfold TagPair.LooksLike
    decide
  obtain ⟨-, hread⟩ := schemaTag?_tagText nameTag
  exact ⟨h, (hread h "name").mpr ⟨by decide, _, rfl, rfl⟩⟩

/-- The tag `json:"id" mytfschema:"title"`. -/
def keyLookAlike : List TagPair :=
  [{ key := "json", value := "id" }, { key := "mytfschema", value := "title" }]

/-- The tag `json:"tfschema:" yaml:"x"`. -/
def valueLookAlike : List TagPair :=
  [{ key := "json", value := "tfschema:" }, { key := "yaml", value := "x" }]

/-- Without the key `tfschema` a field is read off another key and off the end of another
value. -/
theorem schemaTag?_tagText_lookAlike :
    (∀ p ∈ keyLookAlike ++ valueLookAlike, p.key ≠ "tfschema") ∧
      schemaTag? (tagText keyLookAlike) = some "title" ∧
      schemaTag? (tagText valueLookAlike) = some " yaml:" := by
  rw [schemaTag?_eq_fieldReadOff, schemaTag?_eq_fieldReadOff]
  decide

end FieldOrder
