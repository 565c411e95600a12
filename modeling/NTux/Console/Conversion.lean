import NTux.Console.Numerals
import NTux.Foundation.Reversal
import Mathlib.Data.Nat.Digits.Lemmas

/-! # Converting numbers in place

`reverse`, `itoa_unsigned` and `itoa_signed` of `kprint.c` on the bytes of memory. The digits are
written from the last one on and turned around afterwards, so that the text in memory is the one
that `kprintf` is taken to print (`itoaUnsignedAt_eq`, `itoaSignedAt_eq`). That text is the one
numeral of the number (`isNumeral_iff`).
-/

namespace NTux.Console

open NTux.Foundation

/-! ## The functions -/

/-- The loop of `reverse`. -/
def reverseLoop (str i j : Nat) (memory : Memory) : Memory :=
  if i < j then
    let t := memory (str + i)
    let memory := Function.update memory (str + i) (memory (str + j))
    reverseLoop str (i + 1) (j - 1) (Function.update memory (str + j) t)
  else memory
termination_by j - i

/-- `reverse`, for a length that is not zero. -/
def reverse (str len : Nat) (memory : Memory) : Memory := reverseLoop str 0 (len - 1) memory

/-- The loop of `itoa_unsigned`. -/
def itoaUnsignedLoop (base str : Nat) : Nat → Nat → Nat → Memory → Option (Nat × Memory)
  | 0, _, _, _ => none
  | fuel + 1, num, i, memory =>
      if num = 0 then some (i, memory)
      else
        itoaUnsignedLoop base str fuel (num / base) (i + 1)
          (Function.update memory (str + i) (digitChar (num % base)))

/-- The text of zero, which both functions write first. -/
def writeZero (str : Nat) (memory : Memory) : Nat × Memory :=
  (1, Function.update (Function.update memory str 0x30) (str + 1) 0)

/-- `itoa_unsigned`: what it returns, and the memory. -/
def itoaUnsignedAt (fuel num str base : Nat) (memory : Memory) : Option (Nat × Memory) :=
  if num = 0 then some (writeZero str memory)
  else
    (itoaUnsignedLoop base str fuel num 0 memory).map fun (i, memory) =>
      (i, reverse str i (Function.update memory (str + i) 0))

/-- `itoa_signed`, for a number whose negation is one of 64 bits. -/
def itoaSignedAt (fuel : Nat) (num : Int) (str : Nat) (memory : Memory) : Option (Nat × Memory) :=
  if num = 0 then some (writeZero str memory)
  else
    let (i, memory, num) :=
      if num < 0 then (1, Function.update memory str 0x2D, -num) else (0, memory, num)
    (itoaUnsignedAt fuel num.toNat (str + i) 10 memory).map fun (len, memory) =>
      (i + len, Function.update memory (str + (i + len)) 0)

/-! ## Texts in memory -/

/-- The memory with a text in it. -/
def writeText (memory : Memory) (str : Nat) (text : List Byte) : Memory :=
  memory.store str text.length fun i => text.getD i 0

section Texts

variable {memory : Memory} {str : Nat} {text : List Byte} {c : Byte}

theorem writeText_nil : writeText memory str [] = memory := by
  funext address
  exact memory.store_of_notMem _ fun inside => absurd inside.2 (Nat.not_lt.mpr inside.1)

theorem writeText_cons :
    writeText memory str (c :: text) = writeText (Function.update memory str c) (str + 1) text := by
  funext address
  unfold writeText
  by_cases first : address = str
  · subst first
    rw [Memory.store_of_mem _ _ ⟨le_rfl, by rw [List.length_cons]; omega⟩, Nat.sub_self,
      Memory.store_of_notMem _ _ fun inside => absurd inside.1 (by omega), Function.update_self]
    rfl
  · by_cases later : address ∈ Memory.block (str + 1) text.length
    · obtain ⟨low, high⟩ := later
      have place : address - str = address - (str + 1) + 1 := by omega
      rw [Memory.store_of_mem _ _ ⟨by omega, by rw [List.length_cons]; omega⟩,
        Memory.store_of_mem _ _ ⟨low, high⟩, place]
      rfl
    · rw [Memory.store_of_notMem _ _ later, Function.update_of_ne first, Memory.store_of_notMem]
      rintro ⟨low, high⟩
      rw [List.length_cons] at high
      exact later ⟨by omega, by omega⟩

theorem update_writeText :
    Function.update (writeText memory str text) (str + text.length) c =
      writeText memory str (text ++ [c]) := by
  induction text generalizing memory str with
  | nil => rw [List.nil_append, writeText_cons, writeText_nil, writeText_nil]; rfl
  | cons d text ih =>
      rw [List.cons_append, writeText_cons, writeText_cons, ← ih, List.length_cons, Nat.add_assoc,
        Nat.add_comm 1]

theorem update_update_same (d : Byte) :
    Function.update (writeText memory str (text ++ [c])) (str + text.length) d =
      writeText memory str (text ++ [d]) := by
  rw [← update_writeText, Function.update_idem, update_writeText]

theorem writeText_at {i : Nat} (inside : i < text.length) :
    writeText memory str text (str + i) = text[i] := by
  rw [writeText, Memory.store_at _ _ inside, List.getD_eq_getElem _ _ inside]

/-- Outside of its bytes a text is not seen. -/
theorem writeText_outside {address : Nat} (outside : address ∉ Memory.block str text.length) :
    writeText memory str text address = memory address :=
  memory.store_of_notMem _ outside

/-! ## Reversal -/

theorem reverseLoop_eq (i j : Nat) (memory : Memory) :
    reverseLoop str i j memory = swapInwards (str + i) (str + j) memory := by
  fun_induction reverseLoop str i j memory with
  | case1 i j memory less t memory' ih =>
      have up : str + (i + 1) = str + i + 1 := (Nat.add_assoc str i 1).symm
      have down : str + (j - 1) = str + j - 1 := by omega
      rw [ih, up, down]
      conv_rhs => rw [swapInwards, if_pos (Nat.add_lt_add_left less str)]
  | case2 i j memory notLess =>
      rw [swapInwards, if_neg (by omega)]

/-- **Reversal** of a text of some length that is followed by another one. -/
theorem reverse_writeText (some : text ≠ []) (rest : List Byte) :
    reverse str text.length (writeText memory str (text ++ rest)) =
      writeText memory str (text.reverse ++ rest) := by
  have positive := List.length_pos_iff.mpr some
  have same : (text.reverse ++ rest).length = (text ++ rest).length := by
    rw [List.length_append, List.length_append, List.length_reverse]
  funext address
  rw [reverse, reverseLoop_eq, swapInwards_apply]
  by_cases inside : address ∈ Memory.block str (text ++ rest).length
  · obtain ⟨offset, rfl⟩ := Nat.exists_eq_add_of_le inside.1
    have less : offset < (text ++ rest).length := Nat.lt_of_add_lt_add_left inside.2
    have length : text.reverse.length = text.length := List.length_reverse
    have long : text.length ≤ (text ++ rest).length := by
      rw [List.length_append]
      exact Nat.le_add_right _ _
    have right : writeText memory str (text.reverse ++ rest) (str + offset) =
        (text.reverse ++ rest)[offset] := writeText_at (same ▸ less)
    rw [right]
    split
    · next turned =>
        have place : str + 0 + (str + (text.length - 1)) - (str + offset) =
            str + (text.length - 1 - offset) := by omega
        rw [place, writeText_at (by omega), List.getElem_append_left (by omega),
          List.getElem_append_left (by omega), List.getElem_reverse]
    · next behind =>
        rw [writeText_at less, List.getElem_append_right (by omega),
          List.getElem_append_right (by omega)]
        simp only [length]
  · have long : text.length ≤ (text ++ rest).length := by
      rw [List.length_append]
      exact Nat.le_add_right _ _
    rw [if_neg fun turned => inside ⟨by omega, by omega⟩, writeText_outside inside,
      writeText_outside (same ▸ inside)]

end Texts

/-! ## The digits -/

/-- **The loop of `itoa_unsigned`** writes the digits from the last one on. -/
theorem itoaUnsignedLoop_eq {base room fuel : Nat} (str : Nat) (enough : room < fuel) :
    ∀ {num : Nat} {memory : Memory} {i : Nat}, num < base ^ room →
      itoaUnsignedLoop base str fuel num i memory =
        some (i + (itoaDigits base room num).length,
          writeText memory (str + i) (itoaDigits base room num)) := by
  induction room generalizing fuel with
  | zero =>
      intro num memory i fits
      obtain rfl := Nat.lt_one_iff.mp fits
      obtain ⟨fuel, rfl⟩ := Nat.exists_eq_add_of_lt enough
      rw [itoaUnsignedLoop, if_pos rfl, itoaDigits, writeText_nil]
      rfl
  | succ room ih =>
      intro num memory i fits
      obtain ⟨fuel, rfl⟩ := Nat.exists_eq_add_of_le' (Nat.zero_lt_of_lt enough)
      rw [itoaUnsignedLoop, itoaDigits]
      by_cases zero : num = 0
      · rw [if_pos zero, if_pos zero, writeText_nil]
        rfl
      · have rest : num / base < base ^ room := Nat.div_lt_of_lt_mul (by rwa [← Nat.pow_succ'])
        rw [if_neg zero, if_neg zero, ih (Nat.lt_of_succ_lt_succ enough) rest, writeText_cons,
          List.length_cons, Nat.add_assoc, Nat.add_assoc, Nat.add_comm 1]

theorem itoaDigits_ne_nil {base room num : Nat} (nonzero : num ≠ 0) :
    itoaDigits base (room + 1) num ≠ [] := by
  rw [itoaDigits, if_neg nonzero]
  exact List.cons_ne_nil _ _

theorem writeZero_eq (str : Nat) (memory : Memory) :
    writeZero str memory = (1, writeText memory str [0x30, 0]) := by
  rw [writeText_cons, writeText_cons, writeText_nil]
  rfl

/-- **`itoa_unsigned`** returns the length of the text that it writes with its `NUL`. -/
theorem itoaUnsignedAt_eq {fuel num base : Nat} (enough : 64 < fuel) (lower : 2 ≤ base)
    (fits : num < 2 ^ 64) (str : Nat) (memory : Memory) :
    itoaUnsignedAt fuel num str base memory =
      some ((itoaUnsigned num base).length,
        writeText memory str (itoaUnsigned num base ++ [0])) := by
  unfold itoaUnsignedAt itoaUnsigned
  by_cases zero : num = 0
  · rw [if_pos zero, if_pos zero, writeZero_eq]
    rfl
  · rw [if_neg zero, if_neg zero, itoaUnsignedLoop_eq str enough
      (fits.trans_le (Nat.pow_le_pow_left lower 64)), Option.map_some]
    dsimp only
    rw [Nat.zero_add, Nat.add_zero, update_writeText, reverse_writeText (itoaDigits_ne_nil zero),
      List.length_reverse]

/-- **`itoa_signed`** -/
theorem itoaSignedAt_eq {fuel : Nat} {num : Int} (enough : 64 < fuel) (fits : num.natAbs < 2 ^ 64)
    (str : Nat) (memory : Memory) :
    itoaSignedAt fuel num str memory =
      some ((itoaSigned num).length, writeText memory str (itoaSigned num ++ [0])) := by
  unfold itoaSignedAt itoaSigned
  by_cases zero : num = 0
  · rw [if_pos zero, if_pos zero, writeZero_eq]
    rfl
  · rw [if_neg zero, if_neg zero]
    by_cases negative : num < 0
    · simp only [if_pos negative]
      rw [itoaUnsignedAt_eq enough (by decide) (by omega), Option.map_some]
      dsimp only
      rw [← Nat.add_assoc, update_update_same, List.cons_append, writeText_cons, List.length_cons,
        Nat.add_comm 1]
    · simp only [if_neg negative]
      rw [itoaUnsignedAt_eq enough (by decide) (by omega), Option.map_some]
      dsimp only
      rw [Nat.zero_add, Nat.add_zero, update_update_same]

/-! ## Numerals -/

/-- A numeral of a number: digits of the base, without leading zeros, that stand for the number. -/
structure IsNumeral (base num : Nat) (text : List Byte) : Prop where
  digits : ∀ c ∈ text, c ∈ digitChars.take base
  nonempty : text ≠ []
  leading : text.head? = some 0x30 → text = [0x30]
  value : numeral base text = num

theorem numeral_eq_ofDigits (base : Nat) (text : List Byte) :
    numeral base text = Nat.ofDigits base (text.reverse.map digitValue) := by
  have reversed : text = text.reverse.reverse := (List.reverse_reverse text).symm
  rw [numeral]
  conv_lhs => rw [reversed, List.foldl_reverse]
  induction text.reverse with
  | nil => rfl
  | cons c text ih =>
      rw [List.foldr_cons, ih, List.map_cons, Nat.ofDigits_cons, Nat.add_comm]

/-- The characters of the digits below a base. -/
theorem mem_take_digitChars {base : Nat} (upper : base ≤ 16) {c : Byte} :
    c ∈ digitChars.take base ↔ ∃ digit < base, digitChars.getD digit 0 = c := by
  rw [List.mem_take_iff_getElem]
  have length : digitChars.length = 16 := rfl
  constructor
  · rintro ⟨digit, small, rfl⟩
    exact ⟨digit, by omega, List.getD_eq_getElem _ _ _⟩
  · rintro ⟨digit, small, rfl⟩
    exact ⟨digit, by omega, (List.getD_eq_getElem _ _ _).symm⟩

theorem digitValue_getD {digit : Nat} (small : digit < 16) :
    digitValue (digitChars.getD digit 0) = digit := by
  rw [← digitChar_eq small]
  exact digitValue_digitChar small

section Bases

variable {base : Nat} (lower : 2 ≤ base) (upper : base ≤ 16)

include lower upper

/-- The numeral of a number that is not zero. -/
theorem isNumeral_of_digits {num : Nat} (nonzero : num ≠ 0) :
    IsNumeral base num ((Nat.digits base num).reverse.map fun digit => digitChars.getD digit 0) := by
  have some : Nat.digits base num ≠ [] := Nat.digits_ne_nil_iff_ne_zero.mpr nonzero
  constructor
  case digits =>
    intro c member
    obtain ⟨digit, inside, rfl⟩ := List.mem_map.mp member
    exact (mem_take_digitChars upper).mpr
      ⟨digit, Nat.digits_lt_base (by omega) (List.mem_reverse.mp inside), rfl⟩
  case nonempty => simpa using some
  case leading =>
    intro first
    rw [List.head?_map, List.head?_reverse, List.getLast?_eq_some_getLast some] at first
    have small := (Nat.digits_lt_base (by omega) (List.getLast_mem some)).trans_le upper
    have zero := congrArg digitValue (Option.some.inj first)
    dsimp only at zero
    rw [digitValue_getD small] at zero
    exact absurd zero (Nat.getLast_digit_ne_zero base nonzero)
  case value =>
    rw [numeral_eq_ofDigits, ← List.map_reverse, List.reverse_reverse, List.map_map]
    have same : (Nat.digits base num).map (digitValue ∘ fun digit => digitChars.getD digit 0) =
        Nat.digits base num := by
      refine (List.map_congr_left fun digit inside => ?_).trans (List.map_id _)
      exact digitValue_getD ((Nat.digits_lt_base (by omega) inside).trans_le upper)
    rw [same, Nat.ofDigits_digits]

/-- A numeral whose first digit is not zero has the digits of its number. -/
theorem digits_of_isNumeral {num : Nat} {text : List Byte} (isNumeral : IsNumeral base num text)
    (first : text.head? ≠ some 0x30) :
    text = (Nat.digits base num).reverse.map fun digit => digitChars.getD digit 0 := by
  have chars : ∀ c ∈ text, digitValue c < base ∧ digitChars.getD (digitValue c) 0 = c := by
    intro c member
    obtain ⟨digit, small, rfl⟩ := (mem_take_digitChars upper).mp (isNumeral.digits c member)
    rw [digitValue_getD (small.trans_le upper)]
    exact ⟨small, rfl⟩
  have digits : Nat.digits base num = text.reverse.map digitValue := by
    rw [← isNumeral.value, numeral_eq_ofDigits]
    refine Nat.digits_ofDigits base (by omega) _ (fun digit inside => ?_) fun some zero => ?_
    · obtain ⟨c, member, rfl⟩ := List.mem_map.mp inside
      exact (chars c (List.mem_reverse.mp member)).1
    · rw [List.getLast_map, List.getLast_reverse] at zero
      have member := List.head_mem isNumeral.nonempty
      have char := (chars _ member).2
      rw [zero] at char
      refine first ?_
      rw [List.head?_eq_some_head isNumeral.nonempty, ← char]
      rfl
  rw [digits, ← List.map_reverse, List.reverse_reverse, List.map_map]
  exact ((List.map_congr_left fun c member => (chars c member).2).trans (List.map_id _)).symm

/-- **The numeral** of a number is the only one. -/
theorem isNumeral_iff {num : Nat} {text : List Byte} :
    IsNumeral base num text ↔ text = numeralOf base num := by
  have zero : numeral base [0x30] = 0 := rfl
  constructor
  · intro isNumeral
    by_cases first : text.head? = some 0x30
    · have only := isNumeral.leading first
      have value := isNumeral.value
      rw [only, zero] at value
      rw [only, ← value]
      rfl
    · have digits := digits_of_isNumeral lower upper isNumeral first
      have nonzero : num ≠ 0 := by
        rintro rfl
        rw [Nat.digits_zero] at digits
        exact isNumeral.nonempty digits
      rw [numeralOf, if_neg nonzero]
      exact digits
  · rintro rfl
    by_cases nonzero : num = 0
    · subst nonzero
      refine ⟨fun c member => ?_, List.cons_ne_nil _ _, fun _ => rfl, zero⟩
      rw [List.mem_singleton.mp member]
      exact (mem_take_digitChars upper).mpr ⟨0, by omega, rfl⟩
    · rw [numeralOf, if_neg nonzero]
      exact isNumeral_of_digits lower upper nonzero

omit upper in
/-- A numeral has no more digits than the base's powers allow. -/
theorem numeralOf_length {num places : Nat} (positive : 0 < places) (fits : num < base ^ places) :
    (numeralOf base num).length ≤ places := by
  rw [numeralOf]
  split
  · exact positive
  · rw [List.length_map, List.length_reverse]
    exact (Nat.digits_length_le_iff (by omega) num).mpr fits

end Bases

/-! ## Exactness -/

/-- There is one numeral of the number, and `itoa_unsigned` writes it with its `NUL`, writes
nothing else and returns its length. -/
def ConvertsUnsigned (num base : Nat) : Prop :=
  ∃ text, (∀ other, IsNumeral base num other ↔ other = text) ∧
    ∃ enough, ∀ fuel ≥ enough, ∀ str memory, itoaUnsignedAt fuel num str base memory =
      some (text.length, writeText memory str (text ++ [0]))

/-- `itoa_signed` writes the sign of a negative number and the numeral of the absolute value with
a `NUL` in less than 64 bytes, writes nothing else and returns the length. -/
def ConvertsSigned (num : Int) : Prop :=
  ∃ text, IsNumeral 10 num.natAbs text ∧
    let signed := (if num < 0 then [0x2D] else []) ++ text
    signed.length < 64 ∧
      ∃ enough, ∀ fuel ≥ enough, ∀ str memory, itoaSignedAt fuel num str memory =
        some (signed.length, writeText memory str (signed ++ [0]))

theorem itoaSigned_eq {num : Int} (fits : num.natAbs < 2 ^ 64) :
    itoaSigned num = (if num < 0 then [0x2D] else []) ++ numeralOf 10 num.natAbs := by
  have unsigned : ∀ n, n < 2 ^ 64 → itoaUnsigned n 10 = numeralOf 10 n := fun n small =>
    itoaUnsigned_eq (by decide) (by decide) small
  rw [itoaSigned]
  by_cases zero : num = 0
  · rw [if_pos zero, zero]
    rfl
  · rw [if_neg zero]
    by_cases negative : num < 0
    · have abs : (-num).toNat = num.natAbs := by omega
      rw [if_pos negative, if_pos negative, abs, unsigned _ fits]
      rfl
    · have abs : num.toNat = num.natAbs := by omega
      rw [if_neg negative, if_neg negative, abs, unsigned _ fits]
      rfl

theorem convertsSigned {num : Int} (fits : num.natAbs < 2 ^ 63) : ConvertsSigned num := by
  have short : (numeralOf 10 num.natAbs).length ≤ 20 :=
    numeralOf_length (by decide) (by decide) (by omega)
  refine ⟨numeralOf 10 num.natAbs, (isNumeral_iff (by decide) (by decide)).mpr rfl, ?_⟩
  dsimp only
  rw [← itoaSigned_eq (by omega)]
  refine ⟨?_, 65, fun fuel enough str memory => itoaSignedAt_eq enough (by omega) str memory⟩
  rw [itoaSigned_eq (by omega), List.length_append]
  split
  · rw [List.length_singleton]
    omega
  · rw [List.length_nil]
    omega

/-- **Conversions are exact.** Every number of 64 bits is converted in every base up to sixteen, in
the bases of `kprintf` in less than the 64 bytes of its buffer, and every `int` with its sign. -/
theorem conversions_exact (num : BitVec 64) (value : BitVec 32) {base : Nat} (lower : 2 ≤ base)
    (upper : base ≤ 16) :
    ConvertsUnsigned num.toNat base ∧
      (base = 10 ∨ base = 16 → ∀ text, IsNumeral base num.toNat text → text.length < 64) ∧
      ConvertsSigned value.toInt := by
  have fits := num.isLt
  refine ⟨⟨numeralOf base num.toNat, fun other => isNumeral_iff lower upper, 65, ?_⟩, ?_, ?_⟩
  · intro fuel enough str memory
    rw [← itoaUnsigned_eq lower upper fits]
    exact itoaUnsignedAt_eq enough lower fits str memory
  · intro bases text isNumeral
    rw [(isNumeral_iff lower upper).mp isNumeral]
    have large : 10 ≤ base := by omega
    have places : num.toNat < base ^ 20 :=
      (fits.trans (by decide : 2 ^ 64 < 10 ^ 20)).trans_le (Nat.pow_le_pow_left large 20)
    exact (numeralOf_length lower (by decide) places).trans_lt (by decide)
  · have low := BitVec.le_toInt value
    have high := @BitVec.toInt_lt 32 value
    exact convertsSigned (by omega)

/-- The most negative number. -/
theorem conversions_exact_least :
    ConvertsUnsigned (0xFFFFFFFFFFFFFFFF : BitVec 64).toNat 16 ∧
      ((16 : Nat) = 10 ∨ (16 : Nat) = 16 → ∀ text,
        IsNumeral 16 (0xFFFFFFFFFFFFFFFF : BitVec 64).toNat text → text.length < 64) ∧
      ConvertsSigned (0x80000000 : BitVec 32).toInt :=
  conversions_exact 0xFFFFFFFFFFFFFFFF 0x80000000 (by decide) (by decide)

end NTux.Console
