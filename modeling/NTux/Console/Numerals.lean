import NTux.Console.Format
import NTux.Console.OnScreen
import Mathlib.Data.Nat.Digits.Defs
import Mathlib.Data.List.GetD
import Mathlib.Data.List.TakeWhile

/-! # Printing unsigned numbers

`itoa` of `kprint.c` and the functions that print an `uint32_t` with it. They hand the number
to `itoa` as an `int`, so numbers from `2 ^ 31` on are printed as negative ones
(`kprintUnsigned_iff`), where `kprintf` prints them with a converter of its own.
-/

namespace NTux.Console

open NTux.Foundation

/-! ## `itoa` -/

/-- The character of a remainder, which is negative for a negative number. -/
def itoaChar (rem : Int) : Byte :=
  if rem > 9 then BitVec.ofInt 8 (rem - 10) + 0x61 else BitVec.ofInt 8 rem + 0x30

/-- The loop of `itoa`, for as many digits as the buffers of its callers have room for: the
digits from the last one on. -/
def itoaLoop (base : Int) : Nat → Int → List Byte
  | 0, _ => []
  | room + 1, num =>
      if num = 0 then [] else itoaChar (num.tmod base) :: itoaLoop base room (num.tdiv base)

/-- `itoa`, with the characters in front of the `NUL`. -/
def itoa (num base : Int) : List Byte :=
  if num = 0 then [0x30]
  else
    let isNegative := num < 0 ∧ base = 10
    let digits := itoaLoop base 20 (if isNegative then int (-num) else num)
    (digits ++ if isNegative then [0x2D] else []).reverse

/-- Only in base ten a negative number gets a sign. -/
theorem itoa_unsigned {num base : Int} (nonzero : num ≠ 0) (plain : ¬ (num < 0 ∧ base = 10)) :
    itoa num base = (itoaLoop base 20 num).reverse := by
  simp only [itoa, if_neg nonzero, if_neg plain, List.append_nil]

theorem itoa_signed {num : Int} (negative : num < 0) :
    itoa num 10 = 0x2D :: (itoaLoop 10 20 (int (-num))).reverse := by
  simp only [itoa, if_neg negative.ne, negative, and_self, if_true, List.reverse_append]
  rfl

/-! ## The functions that print -/

/-- The characters that a call of `kprint` or `kprintcolor` prints. -/
def Print.printed (print : Print) : List Byte := print.text.takeWhile (· ≠ 0)

/-- `kprint_uint`; the color is the one of `g_printer`. -/
def kprintUint (color : Nat) (num : BitVec 32) : List Print :=
  [⟨itoa (int num.toNat) 10 ++ [0], color⟩]

/-- `kprinthex` -/
def kprinthex (color : Nat) (num : BitVec 32) : List Print :=
  [⟨[0x30, 0x78, 0], color⟩, ⟨itoa (int num.toNat) 16 ++ [0], color⟩]

/-- `kprintcolor_uint32` -/
def kprintcolorUint32 (num : BitVec 32) (color : Nat) : List Print :=
  [⟨itoa (int num.toNat) 10 ++ [0], color⟩]

/-- `kprintcolorhex` -/
def kprintcolorhex (num : BitVec 32) (color : Nat) : List Print :=
  [⟨[0x30, 0x78, 0], color⟩, ⟨itoa (int num.toNat) 16 ++ [0], color⟩]

/-- The characters that some calls print. -/
def printedText (prints : List Print) : List Byte := prints.flatMap Print.printed

/-- The characters in the buffers that the case of a letter of `kprintf` prints. -/
def charsText (texts : List Text) : List Byte :=
  texts.flatMap fun
    | .chars text => text
    | .string _ => []

/-! ## Numerals -/

/-- The digits, of bases up to sixteen. -/
def digitChars : List Byte :=
  [0x30, 0x31, 0x32, 0x33, 0x34, 0x35, 0x36, 0x37, 0x38, 0x39, 0x61, 0x62, 0x63, 0x64, 0x65, 0x66]

/-- The numeral of a number, without leading zeros. -/
def numeralOf (base num : Nat) : List Byte :=
  if num = 0 then [0x30] else (Nat.digits base num).reverse.map fun digit => digitChars.getD digit 0

theorem digitChar_eq {digit : Nat} (small : digit < 16) :
    digitChar digit = digitChars.getD digit 0 := by
  revert digit
  decide

section Bases

variable {base : Nat} (lower : 2 ≤ base) (upper : base ≤ 16)

include lower upper

theorem itoaDigits_eq (room : Nat) {num : Nat} (fits : num < base ^ room) :
    itoaDigits base room num = (Nat.digits base num).map fun digit => digitChars.getD digit 0 := by
  induction room generalizing num with
  | zero =>
      obtain rfl := Nat.lt_one_iff.mp fits
      rw [Nat.digits_zero]
      rfl
  | succ room ih =>
      rw [itoaDigits]
      split
      · next zero =>
          rw [zero, Nat.digits_zero]
          rfl
      · next nonzero =>
          have rest : num / base < base ^ room := Nat.div_lt_of_lt_mul (by rwa [← Nat.pow_succ'])
          have digit : num % base < 16 := (Nat.mod_lt num (by omega)).trans_le upper
          rw [Nat.digits_def' (by omega) (Nat.pos_of_ne_zero nonzero), List.map_cons, ih rest,
            digitChar_eq digit]

/-- `itoa_unsigned` writes the numeral. -/
theorem itoaUnsigned_eq {num : Nat} (fits : num < 2 ^ 64) :
    itoaUnsigned num base = numeralOf base num := by
  rw [itoaUnsigned, numeralOf]
  split
  · rfl
  · rw [itoaDigits_eq lower upper 64 (fits.trans_le (Nat.pow_le_pow_left lower 64)),
      List.map_reverse]

theorem mem_numeralOf {num : Nat} {c : Byte} (member : c ∈ numeralOf base num) :
    c ∈ digitChars := by
  rw [numeralOf] at member
  split at member
  · rw [List.mem_singleton.mp member]
    decide
  · obtain ⟨digit, inside, rfl⟩ := List.mem_map.mp member
    have small : digit < 16 :=
      (Nat.digits_lt_base (by omega) (List.mem_reverse.mp inside)).trans_le upper
    have places : digit < digitChars.length := small
    rw [List.getD_eq_getElem _ _ places]
    exact List.getElem_mem places

end Bases

/-! ## Numbers that are not negative -/

theorem itoaChar_natCast (rem : Nat) : itoaChar rem = digitChar rem := by
  have ofInt : ∀ n : Nat, BitVec.ofInt 8 n = BitVec.ofNat 8 n := fun n => BitVec.ofInt_natCast 8 n
  rw [itoaChar, digitChar]
  by_cases large : rem > 9
  · have sub : (rem : Int) - 10 = ((rem - 10 : Nat) : Int) := by omega
    rw [if_pos (by omega), if_pos large, sub, ofInt]
  · rw [if_neg (by omega), if_neg large, ofInt]

theorem itoaLoop_natCast (base room num : Nat) :
    itoaLoop base room num = itoaDigits base room num := by
  induction room generalizing num with
  | zero => rfl
  | succ room ih =>
      rw [itoaLoop, itoaDigits, ← Int.ofNat_tmod, ← Int.ofNat_tdiv, itoaChar_natCast, ih]
      simp only [Int.natCast_eq_zero]

/-- A number that is not negative is written as its numeral. -/
theorem itoa_natCast {base num : Nat} (lower : 2 ≤ base) (upper : base ≤ 16)
    (fits : num < base ^ 20) : itoa num base = numeralOf base num := by
  have positive : ¬ ((num : Int) < 0 ∧ (base : Int) = 10) := fun both => by omega
  rw [numeralOf]
  by_cases zero : num = 0
  · rw [if_pos zero, zero]
    rfl
  · rw [if_neg zero, itoa_unsigned (by omega) positive, itoaLoop_natCast,
      itoaDigits_eq lower upper 20 fits, List.map_reverse]

/-! ## Negative numbers -/

/-- The digits of a number, whatever its sign, do not end a text. -/
theorem itoaLoop_ne_zero {base : Int} (lower : 2 ≤ base) (upper : base ≤ 16) (room : Nat) (num : Int) :
    ∀ c ∈ itoaLoop base room num, c ≠ 0 := by
  have chars : ∀ rem : Fin 31, itoaChar ((rem : Int) - 15) ≠ 0 := by decide
  induction room generalizing num with
  | zero => exact fun _ member => nomatch member
  | succ room ih =>
      rw [itoaLoop]
      split
      · exact fun _ member => nomatch member
      · have bound : (num.tmod base).natAbs < base.natAbs := by
          rw [Int.natAbs_tmod]
          exact Nat.mod_lt _ (by omega)
        have char := chars ⟨(num.tmod base + 15).toNat, by omega⟩
        have same : (((num.tmod base + 15).toNat : Nat) : Int) - 15 = num.tmod base := by omega
        rw [same] at char
        intro c member
        rcases List.mem_cons.mp member with rfl | later
        · exact char
        · exact ih _ c later

/-- Among the digits of a negative number there is a character that is no digit. -/
theorem itoaLoop_negative (room : Nat) {num : Int} (negative : num < 0) (fits : num.natAbs < 16 ^ room) :
    ∃ c ∈ itoaLoop 16 room num, c ∉ digitChars := by
  have chars : ∀ rem : Fin 15, itoaChar ((rem : Int) - 15) ∉ digitChars := by decide
  induction room generalizing num with
  | zero => omega
  | succ room ih =>
      rw [itoaLoop, if_neg (by omega)]
      have parts := Int.tmod_add_mul_tdiv num 16
      have sign : num.tmod 16 ≤ 0 := by
        rw [← neg_neg num, Int.neg_tmod]
        have := Int.tmod_nonneg 16 (show 0 ≤ -num by omega)
        omega
      have bound : (num.tmod 16).natAbs < 16 := by
        rw [Int.natAbs_tmod]
        exact Nat.mod_lt _ (by decide)
      by_cases zero : num.tmod 16 = 0
      · have smaller : (num.tdiv 16).natAbs < 16 ^ room := by
          rw [Nat.pow_succ] at fits
          omega
        obtain ⟨c, member, other⟩ := @ih (num.tdiv 16) (by omega) smaller
        exact ⟨c, List.mem_cons_of_mem _ member, other⟩
      · refine ⟨_, List.mem_cons_self, ?_⟩
        have char := chars ⟨(num.tmod 16 + 15).toNat, by omega⟩
        have same : (((num.tmod 16 + 15).toNat : Nat) : Int) - 15 = num.tmod 16 := by omega
        rwa [same] at char

theorem itoa_ne_zero {base : Int} (lower : 2 ≤ base) (upper : base ≤ 16) (num : Int) :
    ∀ c ∈ itoa num base, c ≠ 0 := by
  intro c member
  simp only [itoa] at member
  split at member
  · rw [List.mem_singleton.mp member]
    decide
  · rcases List.mem_append.mp (List.mem_reverse.mp member) with digit | sign
    · exact itoaLoop_ne_zero lower upper 20 _ c digit
    · split at sign
      · rw [List.mem_singleton.mp sign]
        decide
      · cases sign

/-- In both bases a negative number is written with a character that is no digit. -/
theorem itoa_negative {base num : Int} (bases : base = 10 ∨ base = 16) (negative : num < 0)
    (fits : num.natAbs ≤ 2 ^ 31) : ∃ c ∈ itoa num base, c ∉ digitChars := by
  rcases bases with rfl | rfl
  · rw [itoa_signed negative]
    exact ⟨0x2D, List.mem_cons_self, by decide⟩
  · have other : ¬ (num < 0 ∧ (16 : Int) = 10) := fun both => absurd both.2 (by decide)
    rw [itoa_unsigned negative.ne other]
    obtain ⟨c, member, odd⟩ := itoaLoop_negative 20 negative (by omega)
    exact ⟨c, List.mem_reverse.mpr member, odd⟩

/-! ## What is printed -/

/-- A text is printed up to its `NUL`. -/
theorem printed_chars {text : List Byte} (chars : ∀ c ∈ text, c ≠ 0) (color : Nat) :
    Print.printed ⟨text ++ [0], color⟩ = text := by
  have whole : text.takeWhile (· ≠ 0) = text :=
    List.takeWhile_eq_self_iff.mpr fun c member => decide_eq_true (chars c member)
  rw [Print.printed, List.takeWhile_append, whole, if_pos rfl]
  exact List.append_nil _

theorem printed_itoa {base : Int} (lower : 2 ≤ base) (upper : base ≤ 16) (num : Int) (color : Nat) :
    Print.printed ⟨itoa num base ++ [0], color⟩ = itoa num base :=
  printed_chars (itoa_ne_zero lower upper num) color

theorem printed_uint (color : Nat) (num : BitVec 32) :
    printedText (kprintUint color num) = itoa (int num.toNat) 10 := by
  rw [kprintUint, printedText, List.flatMap_singleton]
  exact printed_itoa (by decide) (by decide) _ color

theorem printed_hex (color : Nat) (num : BitVec 32) :
    printedText (kprinthex color num) = [0x30, 0x78] ++ itoa (int num.toNat) 16 := by
  rw [kprinthex, printedText, List.flatMap_cons, List.flatMap_singleton,
    printed_itoa (by decide) (by decide)]
  rfl

/-- The number is printed as its numeral in both bases, in any color, and as `kprintf` prints
it. -/
structure PrintsNumerals (color : Nat) (num : BitVec 32) : Prop where
  uint : printedText (kprintUint color num) = numeralOf 10 num.toNat
  hex : printedText (kprinthex color num) = [0x30, 0x78] ++ numeralOf 16 num.toNat
  uintColored : ∀ other,
    printedText (kprintcolorUint32 num other) = printedText (kprintUint color num)
  hexColored : ∀ other,
    printedText (kprintcolorhex num other) = printedText (kprinthex color num)
  uintFormat : printedText (kprintUint color num) =
    charsText (Letter.u.texts (.unsigned num.toNat))
  hexFormat : printedText (kprinthex color num) =
    charsText (Letter.x.texts (.unsigned num.toNat))

/-- `kprintf` prints numerals. -/
theorem charsText_unsigned (num : BitVec 32) :
    charsText (Letter.u.texts (.unsigned num.toNat)) = numeralOf 10 num.toNat ∧
      charsText (Letter.x.texts (.unsigned num.toNat)) = [0x30, 0x78] ++ numeralOf 16 num.toNat := by
  have small := num.isLt
  have slot : (Argument.unsigned num.toNat).slot % 2 ^ 32 = num.toNat := by
    rw [Argument.slot]
    omega
  have decimal := @itoaUnsigned_eq 10 (by decide) (by decide) _
    (small.trans (by decide : 2 ^ 32 < 2 ^ 64))
  have hexadecimal := @itoaUnsigned_eq 16 (by decide) (by decide) _
    (small.trans (by decide : 2 ^ 32 < 2 ^ 64))
  constructor
  · rw [Letter.texts, slot, decimal, charsText, List.flatMap_singleton]
  · rw [Letter.texts, slot, hexadecimal, charsText, List.flatMap_cons, List.flatMap_singleton]

/-- **Unsigned numbers** are printed as such if and only if they are not negative as an
`int`. -/
theorem kprintUnsigned_iff (color : Nat) (num : BitVec 32) :
    PrintsNumerals color num ↔ num.toNat < 2 ^ 31 := by
  have bound := num.isLt
  obtain ⟨uintFormat, hexFormat⟩ := charsText_unsigned num
  constructor
  · intro prints
    by_contra large
    have wraps : int num.toNat = num.toNat - 0x100000000 := by
      unfold int
      omega
    obtain ⟨c, member, odd⟩ := @itoa_negative 10 (int num.toNat) (.inl rfl) (by omega) (by omega)
    rw [← printed_uint color, prints.uint] at member
    exact odd (mem_numeralOf (by decide) (by decide) member)
  · intro small
    have same : int num.toNat = num.toNat := int_of_range (by omega) (by omega)
    have decimal := @itoa_natCast 10 num.toNat (by decide) (by decide) (by omega)
    have hexadecimal := @itoa_natCast 16 num.toNat (by decide) (by decide) (by omega)
    have uint : printedText (kprintUint color num) = numeralOf 10 num.toNat := by
      rw [printed_uint, same]
      exact decimal
    have hex : printedText (kprinthex color num) = [0x30, 0x78] ++ numeralOf 16 num.toNat := by
      rw [printed_hex, same]
      exact congrArg _ hexadecimal
    exact ⟨uint, hex, fun _ => rfl, fun _ => rfl, uint.trans uintFormat.symm,
      hex.trans hexFormat.symm⟩

/-- The largest number is printed as minus one. -/
theorem kprintUnsigned_largest : ¬ PrintsNumerals 0 0xFFFFFFFF := by
  intro prints
  have sign : (0x2D : Byte) ∈ printedText (kprintUint 0 0xFFFFFFFF) := by decide
  rw [prints.uint] at sign
  exact absurd (mem_numeralOf (by decide) (by decide) sign) (by decide)

end NTux.Console
