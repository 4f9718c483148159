/-
# Texts and numbers of JSON read back

Reading undoes writing for the two kinds of values that have signs of their own.
An escaped character is read as the character, whatever stands behind it, also
when the text behind it could be the second half of a surrogate pair
(`readText_escape`); so is a whole text (`readText_flatMap_escape`). The digits of
a number of 64 bits are read as the number, if what stands behind them does not
go on with it (`readNumber_toDigits`): the significand has room for all of them,
and the number is far from too large.

Key definitions: `Json.EndsNumber`.
Key theorems: `Json.readText_escape`, `Json.readText_flatMap_escape`,
`Json.readNumber_toDigits`.
-/
import FieldOrder.Json.Reader
import FieldOrder.Json.Writer
import Mathlib.Tactic.SplitIfs

namespace FieldOrder
namespace Json

/-! ### Texts -/

theorem hexDigit?_hexDigit : ∀ {d : Nat}, d < 16 → hexDigit? (hexDigit d) = some d := by
  decide

/-- Four digits, the first two zero, write a number of eight bits. -/
theorem hex4?_hexDigit {n : Nat} (h : n < 256) :
    hex4? '0' '0' (hexDigit (n / 16)) (hexDigit (n % 16)) = some n := by
  have hzero : hexDigit? '0' = some 0 := by decide
  have hhigh : hexDigit? (hexDigit (n / 16)) = some (n / 16) := hexDigit?_hexDigit (by omega)
  have hlow : hexDigit? (hexDigit (n % 16)) = some (n % 16) := hexDigit?_hexDigit (by omega)
  simp only [hex4?, hzero, hhigh, hlow, Option.bind_eq_bind, Option.bind_some]
  show some (((0 * 16 + 0) * 16 + n / 16) * 16 + n % 16) = some n
  congr 1
  omega

/-- An escape by four digits is read alone when it is no half of a pair. -/
theorem readText_unicode (t : TextPart) {n : Nat} {a b c d : Char} (h : hex4? a b c d = some n)
    (hn : n < 0xD800) (rest : List Char) :
    readText t ('\\' :: 'u' :: a :: b :: c :: d :: rest) = readText (t.push (Char.ofNat n)) rest := by
  have hhigh : isHighSurrogate n = false := by
    simp only [isHighSurrogate, Bool.and_eq_false_iff, decide_eq_false_iff_not]
    omega
  have hlow : isLowSurrogate n = false := by
    simp only [isLowSurrogate, Bool.and_eq_false_iff, decide_eq_false_iff_not]
    omega
  -- the reader looks for the second half of a pair first
  by_cases hpair : ∃ a' b' c' d' more, rest = '\\' :: 'u' :: a' :: b' :: c' :: d' :: more
  · obtain ⟨a', b', c', d', more, rfl⟩ := hpair
    rw [readText]
    simp [h, hhigh, hlow]
  · have hrest : ∀ a' b' c' d' more, rest ≠ '\\' :: 'u' :: a' :: b' :: c' :: d' :: more :=
      fun a' b' c' d' more hmore => hpair ⟨a', b', c', d', more, hmore⟩
    rw [readText.eq_4 t a b c d rest hrest]
    simp [h, hhigh, hlow]

theorem readText_short (t : TextPart) {e c : Char} (h : shortEscape? e = some c)
    (rest : List Char) : readText t ('\\' :: e :: rest) = readText (t.push c) rest := by
  have hu : e ≠ 'u' := by
    rintro rfl
    cases h
  rw [readText.eq_5 t e rest (fun _ _ _ _ _ _ _ _ _ he _ => hu he) (fun _ _ _ _ _ he _ => hu he), h]
  rfl

theorem readText_plain (t : TextPart) {c : Char} (hquote : c ≠ '"') (hslash : c ≠ '\\')
    (hc : 0x20 ≤ c.toNat) (rest : List Char) : readText t (c :: rest) = readText (t.push c) rest := by
  rw [readText.eq_6 t c rest hquote (fun _ _ _ _ _ _ _ _ _ h _ => hslash h)
    (fun _ _ _ _ _ h _ => hslash h) (fun _ _ h _ => hslash h), if_neg (by omega)]

/-- A character is read as it was before it was escaped. -/
theorem readText_escape (t : TextPart) (c : Char) (rest : List Char) :
    readText t (escape c ++ rest) = readText (t.push c) rest := by
  unfold escape
  by_cases hquote : c = '"'
  · subst hquote
    exact readText_short t rfl rest
  by_cases hslash : c = '\\'
  · subst hslash
    exact readText_short t rfl rest
  rw [if_neg hquote, if_neg hslash]
  split_ifs with hn hr ht hb hf hcontrol
  · subst hn
    exact readText_short t rfl rest
  · subst hr
    exact readText_short t rfl rest
  · subst ht
    exact readText_short t rfl rest
  · have hc : Char.ofNat 8 = c := by rw [← hb, Char.ofNat_toNat]
    exact readText_short t (hc ▸ rfl) rest
  · have hc : Char.ofNat 12 = c := by rw [← hf, Char.ofNat_toNat]
    exact readText_short t (hc ▸ rfl) rest
  · have h := readText_unicode t (hex4?_hexDigit (show c.toNat < 256 by omega)) (by omega) rest
    rwa [Char.ofNat_toNat] at h
  · exact readText_plain t hquote hslash (by omega) rest

/-- An escaped text is read up to its closing quote. -/
theorem readText_flatMap_escape (cs rest : List Char) : ∀ t : TextPart,
    readText t (cs.flatMap escape ++ '"' :: rest) =
      some ({ t with reversed := cs.reverse ++ t.reversed }, rest) := by
  induction cs with
  | nil =>
    intro t
    rw [List.flatMap_nil, List.nil_append, readText]
    rfl
  | cons c cs ih =>
    intro t
    rw [List.flatMap_cons, List.append_assoc, readText_escape, ih]
    simp [TextPart.push]

theorem toList_quoted (text : String) :
    (quoted text).toList = '"' :: (text.toList.flatMap escape ++ ['"']) := by
  simp [quoted]

/-! ### Digits -/

theorem digitsToNat_toDigits (n : Nat) : digitsToNat (Nat.toDigits 10 n) = n := by
  have h := Nat.ofDigitChars_toDigits (b := 10) (n := n) (by decide) (by decide)
  rw [Nat.ofDigitChars_eq_foldl] at h
  simpa [digitsToNat, digitValue, Nat.mul_comm] using h

theorem exists_toDigits_cons (n : Nat) :
    ∃ c rest, Nat.toDigits 10 n = c :: rest ∧ c.isDigit = true := by
  obtain ⟨c, rest, hdigits⟩ := List.exists_cons_of_ne_nil (Nat.toDigits_ne_nil (n := n) (b := 10))
  have hmem : c ∈ Nat.toDigits 10 n := hdigits ▸ List.mem_cons_self
  exact ⟨c, rest, hdigits, Nat.isDigit_of_mem_toDigits (by decide) (by decide) hmem⟩

/-- A number begins with a zero only if it is zero. -/
theorem head?_toDigits_ne_zero {n : Nat} (h : 0 < n) : (Nat.toDigits 10 n).head? ≠ some '0' := by
  induction n using Nat.strongRecOn with
  | ind n ih =>
    rw [Nat.toDigits_eq_if (by decide)]
    by_cases hlt : n < 10
    · rw [if_pos hlt]
      simp
      omega
    · obtain ⟨c, rest, hdigits, -⟩ := exists_toDigits_cons (n / 10)
      have hhead := ih (n / 10) (by omega) (by omega)
      rw [if_neg hlt]
      rwa [hdigits] at hhead ⊢

theorem le_foldl_digits (cs : List Char) : ∀ m : Nat,
    m ≤ cs.foldl (fun n c => n * 10 + digitValue c) m := by
  induction cs with
  | nil => exact fun m => Nat.le_refl m
  | cons c cs ih => exact fun m => Nat.le_trans (by omega) (ih (m * 10 + digitValue c))

/-- A significand of 64 bits has room for all its digits. -/
theorem extend_of_lt (digits : List Char) : ∀ {s : Nat},
    digits.foldl (fun n c => n * 10 + digitValue c) s < Nat.pow 2 64 →
      extend s digits = (digits.foldl (fun n c => n * 10 + digitValue c) s, 0) := by
  induction digits with
  | nil => exact fun _ => rfl
  | cons c rest ih =>
    intro s h
    have hlt : s * 10 + digitValue c < Nat.pow 2 64 := Nat.lt_of_le_of_lt (le_foldl_digits rest _) h
    rw [extend, if_pos hlt, ih h]
    rfl

/-! ### Size -/

theorem nearestDouble_le (n : Nat) : nearestDouble n ≤ 2 * n + 1 := by
  have hunit : 2 ^ (n.log2 - 52) ≤ n + 1 := by
    rcases Nat.eq_zero_or_pos n with rfl | hn
    · decide
    · calc 2 ^ (n.log2 - 52) ≤ 2 ^ n.log2 := Nat.pow_le_pow_right (by decide) (Nat.sub_le _ _)
        _ ≤ n := Nat.log2_self_le (by omega)
        _ ≤ n + 1 := Nat.le_succ n
  have hround : n / 2 ^ (n.log2 - 52) * 2 ^ (n.log2 - 52) ≤ n := Nat.div_mul_le_self _ _
  show (if _ then _ else _) ≤ _
  split
  · show (n / 2 ^ (n.log2 - 52) + 1) * 2 ^ (n.log2 - 52) ≤ _
    rw [Nat.add_mul, Nat.one_mul]
    omega
  · show n / 2 ^ (n.log2 - 52) * 2 ^ (n.log2 - 52) ≤ _
    omega

/-- A number of 64 bits is not too large for a double. -/
theorem isFinite_toDigits {n : Nat} (h : n < Nat.pow 2 64) :
    (Decimal.ofDigits (Nat.toDigits 10 n) [] 0).isFinite = true := by
  have hn := digitsToNat_toDigits n
  unfold digitsToNat at hn
  have hdigits : Decimal.ofDigits (Nat.toDigits 10 n) [] 0 = ⟨n, 0⟩ := by
    simp [Decimal.ofDigits, extend_of_lt _ (hn.symm ▸ h), hn, extend]
  have hone : nearestDouble (Nat.pow 10 0) = 1 := by decide
  have hlt : nearestDouble (nearestDouble n * 1) < 2 ^ 67 := by
    have hn : n < 2 ^ 64 := h
    have h1 := nearestDouble_le n
    have h2 := nearestDouble_le (nearestDouble n * 1)
    omega
  have hpow : ∀ k, 67 ≤ k → nearestDouble (nearestDouble n * 1) < Nat.pow 2 k := fun k hk =>
    Nat.lt_of_lt_of_le hlt (Nat.pow_le_pow_right (by decide) hk)
  have hbound := hpow 1024 (by decide)
  rw [hdigits]
  show (_ || _ || (_ && decide (nearestDouble (nearestDouble n * nearestDouble (Nat.pow 10 0)) < _)))
    = true
  rw [hone, decide_eq_true hbound]
  simp

/-! ### Numbers -/

/-- A text that does not go on with the number before it. -/
def EndsNumber (cs : List Char) : Prop :=
  ∀ c ∈ cs.head?, c.isDigit = false ∧ c ≠ '.' ∧ c ≠ 'e' ∧ c ≠ 'E'

theorem EndsNumber.of_cons {c : Char} {cs : List Char}
    (hc : c.isDigit = false ∧ c ≠ '.' ∧ c ≠ 'e' ∧ c ≠ 'E') : EndsNumber (c :: cs) := by
  intro d hd
  obtain rfl := Option.some.inj hd
  exact hc

section Endings

variable {rest : List Char} (hr : EndsNumber rest)
include hr

theorem takeDigits_append {digits : List Char} (hd : ∀ c ∈ digits, c.isDigit = true) :
    takeDigits (digits ++ rest) = (digits, rest) := by
  have hdrop : rest.takeWhile Char.isDigit = [] ∧ rest.dropWhile Char.isDigit = rest := by
    cases rest with
    | nil => exact ⟨rfl, rfl⟩
    | cons c rest =>
      have hc : c.isDigit = false := (hr c rfl).1
      exact ⟨List.takeWhile_cons_of_neg (by simp [hc]), List.dropWhile_cons_of_neg (by simp [hc])⟩
  rw [takeDigits, List.takeWhile_append_of_pos hd, List.dropWhile_append_of_pos hd, hdrop.1, hdrop.2,
    List.append_nil]

theorem readIntegral_toDigits (n : Nat) :
    readIntegral (Nat.toDigits 10 n ++ rest) = some (Nat.toDigits 10 n, rest) := by
  have htake : takeDigits (Nat.toDigits 10 n ++ rest) = (Nat.toDigits 10 n, rest) :=
    takeDigits_append hr fun c hc => Nat.isDigit_of_mem_toDigits (by decide) (by decide) hc
  unfold readIntegral
  rw [htake]
  rcases Nat.eq_zero_or_pos n with rfl | hn
  · rw [Nat.toDigits_zero]
    rfl
  · split
    · next h => exact absurd (congrArg Prod.fst h) Nat.toDigits_ne_nil
    · next more _ h =>
      have hdigits : Nat.toDigits 10 n = '0' :: more := congrArg Prod.fst h
      exact absurd (by rw [hdigits]; rfl) (head?_toDigits_ne_zero hn)
    · next h => rw [h]

theorem readFraction_of_endsNumber : readFraction rest = some ([], rest) := by
  unfold readFraction
  split
  · exact absurd rfl (hr '.' rfl).2.1
  · rfl

theorem readExponent_of_endsNumber : readExponent rest = some (none, rest) := by
  cases rest with
  | nil => rfl
  | cons c cs =>
    obtain ⟨-, -, he, hE⟩ := hr c rfl
    simp [readExponent, he, hE]

/-- The digits of a number are read as the number. -/
theorem readNumber_toDigits {n : Nat} (hn : n < Nat.pow 2 64) :
    readNumber (Nat.toDigits 10 n ++ rest) = some (nat n, rest) := by
  have hsign : ∀ cs, Nat.toDigits 10 n ++ rest ≠ '-' :: cs := by
    intro cs h
    obtain ⟨c, digits, hdigits, hc⟩ := exists_toDigits_cons n
    rw [hdigits] at h
    obtain ⟨rfl, -⟩ := List.cons.inj h
    exact absurd hc (by decide)
  unfold readNumber
  split
  next negative body hbody =>
    split at hbody
    · next h => exact absurd h (hsign _)
    · obtain ⟨rfl, rfl⟩ := Prod.mk.inj hbody
      simp [readIntegral_toDigits hr n, readFraction_of_endsNumber hr,
        readExponent_of_endsNumber hr, isFinite_toDigits hn, digitsToNat_toDigits]

end Endings

end Json
end FieldOrder
