/-
# Ways to write JSON

A value can be written in many ways, with blanks between its signs. `Spelling`
tells them all for the values that are written with words, texts and numbers of
64 bits alone (a text only with the escapes of the writer). Whatever way a value
is written, it is read back (`parse?_of_spelling`): the induction is on how it is
written, and the bound on the calls is carried as the length of the text. The two
writers choose one way each (`spelling_compact`, `spelling_prettyAt`).

Key definitions: `Json.Spelling`, `Json.LooseSpelling`, `Json.isPlain`.
Key theorems: `Json.parse?_of_spelling`, `Json.parse?_compact`, `Json.parse?_pretty`.
-/
import FieldOrder.Proofs.Json.Scalar

namespace FieldOrder
namespace Json

/-! ### Spellings -/

/-- A text of blanks alone. -/
def Blank (cs : List Char) : Prop := ∀ c ∈ cs, isBlank c = true

mutual

/-- The ways to write a value, from its first sign to its last. -/
inductive Spelling : Json → List Char → Prop where
  | null : Spelling null "null".toList
  | bool (b : Bool) : Spelling (bool b) (if b then "true" else "false").toList
  | nat {n : Nat} (h : n < Nat.pow 2 64) : Spelling (nat n) (Nat.toDigits 10 n)
  | str (text : String) : Spelling (str text) (quoted text).toList
  | noItems {b : List Char} (h : Blank b) : Spelling (arr []) ('[' :: (b ++ [']']))
  | items {vs : List Json} {cs : List Char} (h : ItemsSpelling vs cs) :
    Spelling (arr vs) ('[' :: (cs ++ [']']))
  | noMembers {b : List Char} (h : Blank b) : Spelling (obj []) ('\x7b' :: (b ++ ['\x7d']))
  | members {ms : List (String × Json)} {cs : List Char} (h : MembersSpelling ms cs) :
    Spelling (obj ms) ('\x7b' :: (cs ++ ['\x7d']))

/-- The ways to write a value, with blanks around it. -/
inductive LooseSpelling : Json → List Char → Prop where
  | within {v : Json} {b cs b' : List Char} (hb : Blank b) (h : Spelling v cs) (hb' : Blank b') :
    LooseSpelling v (b ++ (cs ++ b'))

/-- The ways to write one or more items, with commas between them. -/
inductive ItemsSpelling : List Json → List Char → Prop where
  | last {v : Json} {cs : List Char} (h : LooseSpelling v cs) : ItemsSpelling [v] cs
  | cons {v : Json} {vs : List Json} {cs more : List Char} (h : LooseSpelling v cs)
    (hmore : ItemsSpelling vs more) : ItemsSpelling (v :: vs) (cs ++ ',' :: more)

/-- The ways to write one or more members, with commas between them. -/
inductive MembersSpelling : List (String × Json) → List Char → Prop where
  | last (name : String) {v : Json} {b b' cs : List Char} (hb : Blank b) (hb' : Blank b')
    (h : LooseSpelling v cs) :
    MembersSpelling [(name, v)] (b ++ ((quoted name).toList ++ (b' ++ ':' :: cs)))
  | cons (name : String) {v : Json} {ms : List (String × Json)} {b b' cs more : List Char}
    (hb : Blank b) (hb' : Blank b') (h : LooseSpelling v cs) (hmore : MembersSpelling ms more) :
    MembersSpelling ((name, v) :: ms)
      (b ++ ((quoted name).toList ++ (b' ++ ':' :: (cs ++ ',' :: more))))

end

theorem Blank.skipBlanks {b : List Char} (hb : Blank b) (cs : List Char) :
    skipBlanks (b ++ cs) = skipBlanks cs := List.dropWhile_append_of_pos hb

theorem skipBlanks_cons {c : Char} (hc : isBlank c = false) (cs : List Char) :
    skipBlanks (c :: cs) = c :: cs := List.dropWhile_cons_of_neg (by simp [hc])

theorem skipBlanks_skipBlanks (cs : List Char) : skipBlanks (skipBlanks cs) = skipBlanks cs := by
  induction cs with
  | nil => rfl
  | cons c cs ih =>
    by_cases hc : isBlank c = true
    · have hcs : skipBlanks (c :: cs) = skipBlanks cs := List.dropWhile_cons_of_pos hc
      rw [hcs, ih]
    · rw [skipBlanks_cons (by simpa using hc), skipBlanks_cons (by simpa using hc)]

theorem readValue_skipBlanks (n : Nat) (cs : List Char) :
    readValue n (skipBlanks cs) = readValue n cs := by
  cases n with
  | zero => rfl
  | succ n => rw [readValue, readValue, skipBlanks_skipBlanks]

theorem readItems_skipBlanks (n : Nat) (before : List Json) (cs : List Char) :
    readItems n before (skipBlanks cs) = readItems n before cs := by
  cases n with
  | zero => rfl
  | succ n => rw [readItems, readItems, readValue_skipBlanks]

theorem readMembers_skipBlanks (n : Nat) (before : List (Option String × Json)) (cs : List Char) :
    readMembers n before (skipBlanks cs) = readMembers n before cs := by
  cases n with
  | zero => rfl
  | succ n => rw [readMembers, readMembers, skipBlanks_skipBlanks]

theorem isBlank_of_isDigit {c : Char} (hc : c.isDigit = true) : isBlank c = false := by
  apply Bool.eq_false_iff.mpr
  intro hb
  simp only [isBlank, Bool.or_eq_true, decide_eq_true_eq] at hb
  rcases hb with ((rfl | rfl) | rfl) | rfl
  all_goals exact absurd hc (by decide)

/-- A value begins with a sign that is no blank and closes no list. -/
theorem Spelling.exists_cons {v : Json} {cs : List Char} (h : Spelling v cs) :
    ∃ c rest, cs = c :: rest ∧ isBlank c = Bool.false ∧ c ≠ ']' := by
  cases h with
  | null => exact ⟨_, _, rfl, by decide, by decide⟩
  | bool b => cases b <;> exact ⟨_, _, rfl, by decide, by decide⟩
  | @nat n h =>
    obtain ⟨c, rest, hdigits, hc⟩ := exists_toDigits_cons n
    refine ⟨c, rest, hdigits, isBlank_of_isDigit hc, ?_⟩
    rintro rfl
    exact absurd hc (by decide)
  | str text => exact ⟨'"', _, toList_quoted text, by decide, by decide⟩
  | noItems h => exact ⟨_, _, rfl, by decide, by decide⟩
  | items h => exact ⟨_, _, rfl, by decide, by decide⟩
  | noMembers h => exact ⟨_, _, rfl, by decide, by decide⟩
  | members h => exact ⟨_, _, rfl, by decide, by decide⟩

theorem Blank.endsNumber {b rest : List Char} (hb : Blank b) (hr : EndsNumber rest) :
    EndsNumber (b ++ rest) := by
  cases b with
  | nil => exact hr
  | cons c b =>
    have hc : isBlank c = true := hb c List.mem_cons_self
    refine EndsNumber.of_cons ?_
    simp only [isBlank, Bool.or_eq_true, decide_eq_true_eq] at hc
    rcases hc with ((rfl | rfl) | rfl) | rfl
    all_goals decide

theorem ofMembers_map_some (ms : List (String × Json)) :
    ofMembers (ms.map fun m => (some m.1, m.2)) = obj ms := by
  have h : ∀ f : Option String × Json → Option (String × Json), (∀ m, f (some m.1, m.2) = some m) →
      (ms.map fun m => (some m.1, m.2)).mapM f = some ms := by
    intro f hf
    induction ms with
    | nil => rfl
    | cons m ms ih => simp [List.mapM_cons, ih, hf]
  unfold ofMembers
  rw [h _ fun _ => rfl]

theorem readValue_digit {n : Nat} {c : Char} (hc : c.isDigit = true) (cs : List Char) :
    readValue (n + 1) (c :: cs) = readNumber (c :: cs) := by
  rw [readValue, skipBlanks_cons (isBlank_of_isDigit hc)]
  split
  all_goals first
    | rfl
    | next h =>
      obtain ⟨rfl, -⟩ := List.cons.inj h
      exact absurd hc (by decide)

theorem LooseSpelling.exists_skipBlanks {v : Json} {cs : List Char} (h : LooseSpelling v cs)
    (rest : List Char) : ∃ c more, skipBlanks (cs ++ rest) = c :: more ∧ c ≠ ']' := by
  cases h with
  | @within _ b cs b' hb h hb' =>
    obtain ⟨c, more, rfl, hblank, hc⟩ := h.exists_cons
    refine ⟨c, more ++ (b' ++ rest), ?_, hc⟩
    rw [List.append_assoc, hb.skipBlanks, List.append_assoc, List.cons_append,
      skipBlanks_cons hblank]

theorem ItemsSpelling.exists_skipBlanks {vs : List Json} {cs : List Char} (h : ItemsSpelling vs cs)
    (rest : List Char) : ∃ c more, skipBlanks (cs ++ rest) = c :: more ∧ c ≠ ']' := by
  cases h with
  | last h => exact h.exists_skipBlanks rest
  | cons h hmore =>
    rw [List.append_assoc]
    exact h.exists_skipBlanks _

theorem MembersSpelling.exists_skipBlanks {ms : List (String × Json)} {cs : List Char}
    (h : MembersSpelling ms cs) (rest : List Char) :
    ∃ more, skipBlanks (cs ++ rest) = '"' :: more := by
  have hquote : isBlank '"' = false := by decide
  cases h with
  | last _ hb hb' h =>
    rw [List.append_assoc, hb.skipBlanks, List.append_assoc, toList_quoted, List.cons_append,
      skipBlanks_cons hquote]
    exact ⟨_, rfl⟩
  | cons _ hb hb' h hmore =>
    rw [List.append_assoc, hb.skipBlanks, List.append_assoc, toList_quoted, List.cons_append,
      skipBlanks_cons hquote]
    exact ⟨_, rfl⟩

/-- What the text behind a member, without blanks, is read as: more members, or the
end of the object. -/
def afterMember (n : Nat) (found : List (Option String × Json)) :
    List Char → Option (List (Option String × Json) × List Char)
  | ',' :: rest => readMembers n found rest
  | '\x7d' :: rest => some (found.reverse, rest)
  | _ => none

/-- A member is read with its name, its colon and its value. -/
theorem readMembers_member {n : Nat} {before : List (Option String × Json)} {name : String}
    {v : Json} {b b' b'' cs rest : List Char} (hb : Blank b) (hb' : Blank b')
    (hv : readValue n cs = some (v, b'' ++ rest)) (hb'' : Blank b'') :
    readMembers (n + 1) before (b ++ ((quoted name).toList ++ (b' ++ ':' :: cs))) =
      afterMember n ((some name, v) :: before) (skipBlanks rest) := by
  rw [readMembers, hb.skipBlanks, toList_quoted, List.cons_append, skipBlanks_cons (by decide),
    List.append_assoc, List.singleton_append]
  simp only [readText_flatMap_escape, Option.bind_eq_bind, Option.bind_some, hb'.skipBlanks,
    skipBlanks_cons (show isBlank ':' = false by decide), hv, hb''.skipBlanks]
  simp only [TextPart.text?, List.append_nil, List.reverse_reverse, String.ofList_toList, if_true]
  rfl

mutual

theorem Spelling.readValue {v : Json} {cs : List Char} (h : Spelling v cs) {n : Nat}
    {rest : List Char} (hr : EndsNumber rest) (hn : cs.length < n) :
    readValue n (cs ++ rest) = some (v, rest) := by
  obtain ⟨n, rfl⟩ : ∃ m, n = m + 1 := ⟨n - 1, by omega⟩
  cases h with
  | null => rfl
  | bool b => cases b <;> rfl
  | @nat k h =>
    obtain ⟨c, digits, hdigits, hc⟩ := exists_toDigits_cons k
    rw [hdigits, List.cons_append, readValue_digit hc, ← List.cons_append, ← hdigits,
      readNumber_toDigits hr h]
  | str text =>
    rw [toList_quoted, List.cons_append, List.append_assoc, List.singleton_append, Json.readValue,
      skipBlanks_cons (by decide)]
    simp [readText_flatMap_escape, TextPart.text?]
  | noItems h =>
    rw [List.cons_append, List.append_assoc, List.singleton_append, Json.readValue,
      skipBlanks_cons (by decide)]
    simp only [h.skipBlanks, skipBlanks_cons (show isBlank ']' = false by decide)]
  | @items vs cs h =>
    have hlen : cs.length + 1 < n := by simp at hn; omega
    have hitems := ItemsSpelling.readItems h [] rest hlen
    rw [List.cons_append, List.append_assoc, List.singleton_append, Json.readValue,
      skipBlanks_cons (by decide)]
    obtain ⟨c, more, hmore, hc⟩ := ItemsSpelling.exists_skipBlanks h (']' :: rest)
    rw [← readItems_skipBlanks, hmore] at hitems
    simp only [hmore]
    split
    · next heq => exact absurd (List.cons.inj heq).1 hc
    · next heq => rw [hitems]; rfl
  | noMembers h =>
    rw [List.cons_append, List.append_assoc, List.singleton_append, Json.readValue,
      skipBlanks_cons (by decide)]
    simp only [h.skipBlanks, skipBlanks_cons (show isBlank '\x7d' = false by decide)]
  | @members ms cs h =>
    have hlen : cs.length + 1 < n := by simp at hn; omega
    have hmembers := MembersSpelling.readMembers h [] rest hlen
    rw [List.cons_append, List.append_assoc, List.singleton_append, Json.readValue,
      skipBlanks_cons (by decide)]
    obtain ⟨more, hmore⟩ := h.exists_skipBlanks ('\x7d' :: rest)
    rw [← readMembers_skipBlanks, hmore] at hmembers
    simp only [hmore]
    split
    · next heq => exact absurd (List.cons.inj heq).1 (by decide)
    · next heq =>
      rw [hmembers]
      simp [ofMembers_map_some]

theorem LooseSpelling.readValue {v : Json} {cs : List Char} (h : LooseSpelling v cs) {n : Nat}
    {rest : List Char} (hr : EndsNumber rest) (hn : cs.length < n) :
    ∃ b, Blank b ∧ readValue n (cs ++ rest) = some (v, b ++ rest) := by
  cases h with
  | @within _ b cs b' hb h hb' =>
    refine ⟨b', hb', ?_⟩
    rw [← readValue_skipBlanks, List.append_assoc, List.append_assoc, hb.skipBlanks,
      readValue_skipBlanks]
    exact Spelling.readValue h (hb'.endsNumber hr) (by simp at hn; omega)

theorem ItemsSpelling.readItems {vs : List Json} {cs : List Char} (h : ItemsSpelling vs cs)
    {n : Nat} (before : List Json) (rest : List Char) (hn : cs.length + 1 < n) :
    readItems n before (cs ++ ']' :: rest) = some (before.reverse ++ vs, rest) := by
  obtain ⟨n, rfl⟩ : ∃ m, n = m + 1 := ⟨n - 1, by omega⟩
  cases h with
  | last h =>
    have hends : EndsNumber (']' :: rest) := .of_cons (by decide)
    have hlen : cs.length < n := by omega
    obtain ⟨b, hb, hv⟩ := LooseSpelling.readValue h hends hlen
    rw [Json.readItems, hv]
    simp only [Option.bind_eq_bind, Option.bind_some, hb.skipBlanks,
      skipBlanks_cons (show isBlank ']' = false by decide)]
    simp
  | @cons v vs cs more h hmore =>
    have hlen : cs.length + more.length + 1 < n := by simp at hn; omega
    have hends : EndsNumber (',' :: (more ++ ']' :: rest)) := .of_cons (by decide)
    have hfirst : cs.length < n := by omega
    have hlater : more.length + 1 < n := by omega
    obtain ⟨b, hb, hv⟩ := LooseSpelling.readValue h hends hfirst
    have hitems := ItemsSpelling.readItems hmore (v :: before) rest hlater
    rw [List.append_assoc, List.cons_append, Json.readItems, hv]
    simp only [Option.bind_eq_bind, Option.bind_some, hb.skipBlanks,
      skipBlanks_cons (show isBlank ',' = false by decide)]
    rw [hitems]
    simp

theorem MembersSpelling.readMembers {ms : List (String × Json)} {cs : List Char}
    (h : MembersSpelling ms cs) {n : Nat} (before : List (Option String × Json))
    (rest : List Char) (hn : cs.length + 1 < n) :
    readMembers n before (cs ++ '\x7d' :: rest) =
      some (before.reverse ++ ms.map fun m => (some m.1, m.2), rest) := by
  obtain ⟨n, rfl⟩ : ∃ m, n = m + 1 := ⟨n - 1, by omega⟩
  cases h with
  | @last name v b b' cs hb hb' h =>
    have hlen : cs.length < n := by simp at hn; omega
    have hends : EndsNumber ('\x7d' :: rest) := .of_cons (by decide)
    obtain ⟨b'', hb'', hv⟩ := LooseSpelling.readValue h hends hlen
    rw [List.append_assoc, List.append_assoc, List.append_assoc, List.cons_append,
      readMembers_member hb hb' hv hb'', skipBlanks_cons (by decide)]
    simp [afterMember]
  | @cons name v ms b b' cs more hb hb' h hmore =>
    have hlen : cs.length + more.length + 1 < n := by simp at hn; omega
    have hends : EndsNumber (',' :: (more ++ '\x7d' :: rest)) := .of_cons (by decide)
    have hfirst : cs.length < n := by omega
    have hlater : more.length + 1 < n := by omega
    obtain ⟨b'', hb'', hv⟩ := LooseSpelling.readValue h hends hfirst
    have hmembers := MembersSpelling.readMembers hmore ((some name, v) :: before) rest hlater
    rw [List.append_assoc, List.append_assoc, List.append_assoc, List.cons_append,
      List.append_assoc, List.cons_append, readMembers_member hb hb' hv hb'',
      skipBlanks_cons (by decide)]
    simp [afterMember, hmembers]

end

/-- A text that spells a value is read as this value. -/
theorem parse?_of_spelling {v : Json} {text : String} (h : LooseSpelling v text.toList) :
    parse? text = some v := by
  have hends : EndsNumber [] := nofun
  obtain ⟨b, hb, hv⟩ := h.readValue hends (Nat.lt_succ_self text.toList.length)
  rw [List.append_nil, List.append_nil] at hv
  have hblank : skipBlanks b = [] := by
    have h := hb.skipBlanks []
    rwa [List.append_nil] at h
  simp [parse?, hv, hblank]

/-! ### The writers -/

mutual

/-- Whether the writers lose nothing of a value: everything in it has a value
itself, and its numbers are numbers of 64 bits. -/
def isPlain : Json → Bool
  | nat n => n < Nat.pow 2 64
  | number _ => false
  | unreadable => false
  | arr items => allPlain items
  | obj members => membersPlain members
  | null => true
  | bool _ => true
  | str _ => true

/-- Whether all items are plain. -/
def allPlain : List Json → Bool
  | [] => true
  | v :: rest => v.isPlain && allPlain rest

/-- Whether the values of all members are plain. -/
def membersPlain : List (String × Json) → Bool
  | [] => true
  | (_, v) :: rest => v.isPlain && membersPlain rest

end

theorem Blank.nil : Blank [] := nofun

theorem blank_space : Blank [' '] := by simp [Blank, isBlank]

theorem Spelling.loose {v : Json} {cs : List Char} (h : Spelling v cs) : LooseSpelling v cs := by
  have hloose := LooseSpelling.within Blank.nil h Blank.nil
  rwa [List.nil_append, List.append_nil] at hloose

theorem itemsSpelling_compactItems : ∀ {vs : List Json}, vs ≠ [] →
    (∀ v ∈ vs, Spelling v (compact v).toList) → ItemsSpelling vs (compactItems vs).toList
  | [v], _, h => .last (h v List.mem_cons_self).loose
  | v :: w :: rest, _, h => by
    obtain ⟨hv, hrest⟩ := List.forall_mem_cons.mp h
    have hcons := ItemsSpelling.cons hv.loose (itemsSpelling_compactItems (by simp) hrest)
    simpa [compactItems] using hcons

theorem membersSpelling_compactMembers : ∀ {ms : List (String × Json)}, ms ≠ [] →
    (∀ m ∈ ms, Spelling m.2 (compact m.2).toList) → MembersSpelling ms (compactMembers ms).toList
  | [(name, v)], _, h => by
    have hlast := MembersSpelling.last name .nil .nil (h _ List.mem_cons_self).loose
    simpa [compactMembers] using hlast
  | (name, v) :: w :: rest, _, h => by
    obtain ⟨hv, hrest⟩ := List.forall_mem_cons.mp h
    have hcons := MembersSpelling.cons name .nil .nil hv.loose
      (membersSpelling_compactMembers (by simp) hrest)
    simpa [compactMembers] using hcons

mutual

/-- A value on one line is one way to write it. -/
theorem spelling_compact : ∀ {v : Json}, v.isPlain = true → Spelling v (compact v).toList
  | .null, _ => .null
  | .bool b, _ => .bool b
  | .nat n, h => by
    simpa [compact] using Spelling.nat (of_decide_eq_true h)
  | .str text, _ => .str text
  | .arr [], _ => .noItems .nil
  | .arr (v :: vs), h => by
    have hplain : allPlain (v :: vs) = true := h
    have hitems := itemsSpelling_compactItems (by simp) (spelling_compact_items hplain)
    simpa [compact] using Spelling.items hitems
  | .obj [], _ => .noMembers .nil
  | .obj (m :: ms), h => by
    have hplain : membersPlain (m :: ms) = true := h
    have hmembers := membersSpelling_compactMembers (by simp) (spelling_compact_members hplain)
    simpa [compact] using Spelling.members hmembers

theorem spelling_compact_items : ∀ {vs : List Json}, allPlain vs = true →
    ∀ v ∈ vs, Spelling v (compact v).toList
  | [], _ => nofun
  | v :: vs, h => by
    obtain ⟨hv, hvs⟩ := Bool.and_eq_true_iff.mp h
    exact List.forall_mem_cons.mpr ⟨spelling_compact hv, spelling_compact_items hvs⟩

theorem spelling_compact_members : ∀ {ms : List (String × Json)}, membersPlain ms = true →
    ∀ m ∈ ms, Spelling m.2 (compact m.2).toList
  | [], _ => nofun
  | (_, v) :: ms, h => by
    obtain ⟨hv, hms⟩ := Bool.and_eq_true_iff.mp h
    exact List.forall_mem_cons.mpr ⟨spelling_compact hv, spelling_compact_members hms⟩

end

theorem blank_lineBreak (depth : Nat) : Blank (lineBreak depth).toList := by
  intro c hc
  simp only [lineBreak, String.toList_append, List.mem_append, String.toList_ofList,
    List.mem_replicate] at hc
  rcases hc with hc | ⟨-, rfl⟩
  · obtain rfl : c = '\n' := by simpa using hc
    decide
  · decide

theorem itemsSpelling_pretty (depth : Nat) : ∀ {v : Json} {rest : List Json},
    (∀ w ∈ v :: rest, Spelling w (prettyAt depth w).toList) → ∀ {b b' : List Char}, Blank b →
    Blank b' → ItemsSpelling (v :: rest)
      (b ++ ((prettyAt depth v).toList ++ ((prettyItems depth rest).toList ++ b')))
  | v, [], h, b, b', hb, hb' => by
    have hv := h v List.mem_cons_self
    simpa [prettyItems] using ItemsSpelling.last (.within hb hv hb')
  | v, w :: rest, h, b, b', hb, hb' => by
    obtain ⟨hv, hrest⟩ := List.forall_mem_cons.mp h
    have hmore := itemsSpelling_pretty depth hrest (blank_lineBreak depth) hb'
    simpa [prettyItems] using ItemsSpelling.cons (.within hb hv .nil) hmore

theorem membersSpelling_pretty (depth : Nat) : ∀ {name : String} {v : Json}
    {rest : List (String × Json)},
    (∀ m ∈ (name, v) :: rest, Spelling m.2 (prettyAt depth m.2).toList) →
    ∀ {b b' : List Char}, Blank b → Blank b' → MembersSpelling ((name, v) :: rest)
      (b ++ ((quoted name).toList ++ (':' :: ' ' :: ((prettyAt depth v).toList ++
        ((prettyMembers depth rest).toList ++ b')))))
  | name, v, [], h, b, b', hb, hb' => by
    have hv := h _ List.mem_cons_self
    have hlast := MembersSpelling.last name hb .nil (.within blank_space hv hb')
    simpa [prettyMembers] using hlast
  | name, v, (name', w) :: rest, h, b, b', hb, hb' => by
    obtain ⟨hv, hrest⟩ := List.forall_mem_cons.mp h
    have hmore := membersSpelling_pretty depth hrest (blank_lineBreak depth) hb'
    have hcons := MembersSpelling.cons name hb .nil (.within blank_space hv .nil) hmore
    simpa [prettyMembers] using hcons

mutual

/-- A value spread over lines is one way to write it. -/
theorem spelling_prettyAt (depth : Nat) : ∀ {v : Json}, v.isPlain = true →
    Spelling v (prettyAt depth v).toList
  | .null, _ => .null
  | .bool b, _ => .bool b
  | .nat n, h => by
    simpa [prettyAt] using Spelling.nat (of_decide_eq_true h)
  | .str text, _ => .str text
  | .arr [], _ => by simpa [prettyAt] using Spelling.noItems .nil
  | .arr (v :: rest), h => by
    have hplain : allPlain (v :: rest) = true := h
    have hitems := itemsSpelling_pretty (depth + 1) (spelling_prettyAt_items (depth + 1) hplain)
      (blank_lineBreak (depth + 1)) (blank_lineBreak depth)
    simpa [prettyAt] using Spelling.items hitems
  | .obj [], _ => by simpa [prettyAt] using Spelling.noMembers .nil
  | .obj ((name, v) :: rest), h => by
    have hplain : membersPlain ((name, v) :: rest) = true := h
    have hmembers := membersSpelling_pretty (depth + 1)
      (spelling_prettyAt_members (depth + 1) hplain)
      (blank_lineBreak (depth + 1)) (blank_lineBreak depth)
    simpa [prettyAt] using Spelling.members hmembers

theorem spelling_prettyAt_items (depth : Nat) : ∀ {vs : List Json}, allPlain vs = true →
    ∀ v ∈ vs, Spelling v (prettyAt depth v).toList
  | [], _ => nofun
  | v :: vs, h => by
    obtain ⟨hv, hvs⟩ := Bool.and_eq_true_iff.mp h
    exact List.forall_mem_cons.mpr ⟨spelling_prettyAt depth hv, spelling_prettyAt_items depth hvs⟩

theorem spelling_prettyAt_members (depth : Nat) : ∀ {ms : List (String × Json)},
    membersPlain ms = true → ∀ m ∈ ms, Spelling m.2 (prettyAt depth m.2).toList
  | [], _ => nofun
  | (_, v) :: ms, h => by
    obtain ⟨hv, hms⟩ := Bool.and_eq_true_iff.mp h
    exact List.forall_mem_cons.mpr ⟨spelling_prettyAt depth hv, spelling_prettyAt_members depth hms⟩

end

/-- What is written on one line is read back. -/
theorem parse?_compact {v : Json} (h : v.isPlain = true) : parse? v.compact = some v :=
  parse?_of_spelling (spelling_compact h).loose

/-- What is written over several lines is read back. -/
theorem parse?_pretty {v : Json} (h : v.isPlain = true) : parse? v.pretty = some v :=
  parse?_of_spelling (spelling_prettyAt 0 h).loose

end Json
end FieldOrder
