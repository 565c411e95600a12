import NTux.Console.Text
import Mathlib.Data.List.Forall2

/-! # Formatted printing

`kprintf` of `kprint.c` and the wrapper `printf` of `libc`. `kprintf` goes through its
format with a cursor in the list of its arguments; it prints by calling `kprint`. A format
string is its characters before the `NUL`. An argument of a variadic call is passed in
eight bytes, whatever its type; to read one where none is left is undefined.
-/

namespace NTux.Console

open NTux.Foundation

/-- `'%'`. -/
def percent : Byte := 0x25

/-! ## Numbers -/

/-- The character of a digit. -/
def digitChar (rem : Nat) : Byte :=
  if rem > 9 then BitVec.ofNat 8 (rem - 10) + 0x61 else BitVec.ofNat 8 rem + 0x30

/-- The loop of `itoa_unsigned`, for as many digits as the buffer of `kprintf` has room for:
the digits from the last one on. -/
def itoaDigits (base : Nat) : Nat → Nat → List Byte
  | 0, _ => []
  | room + 1, num =>
      if num = 0 then [] else digitChar (num % base) :: itoaDigits base room (num / base)

/-- `itoa_unsigned`. -/
def itoaUnsigned (num base : Nat) : List Byte :=
  if num = 0 then [0x30] else (itoaDigits base 64 num).reverse

/-- `itoa_signed`. -/
def itoaSigned (num : Int) : List Byte :=
  if num = 0 then [0x30]
  else if num < 0 then 0x2D :: itoaUnsigned (-num).toNat 10
  else itoaUnsigned num.toNat 10

/-- The value of a digit's character. -/
def digitValue (c : Byte) : Nat := if 0x61 ≤ c then (c - 0x61).toNat + 10 else (c - 0x30).toNat

/-- The number that a text stands for. -/
def numeral (base : Nat) (text : List Byte) : Nat :=
  text.foldl (fun num c => base * num + digitValue c) 0

theorem digitValue_digitChar {rem : Nat} (small : rem < 16) : digitValue (digitChar rem) = rem := by
  revert rem
  decide

/-- The digits are those of the number, if there is room for them. -/
theorem itoaDigits_value {base : Nat} (lower : 2 ≤ base) (upper : base ≤ 16) (room : Nat) {num : Nat}
    (fits : num < base ^ room) :
    (itoaDigits base room num).foldr (fun c num => base * num + digitValue c) 0 = num := by
  induction room generalizing num with
  | zero => exact (Nat.lt_one_iff.mp fits).symm
  | succ room ih =>
      rw [itoaDigits]
      split
      · exact (by assumption : num = 0).symm
      · have rest : num / base < base ^ room := Nat.div_lt_of_lt_mul (by rwa [← Nat.pow_succ'])
        have digit : num % base < 16 := (Nat.mod_lt num (by omega)).trans_le upper
        rw [List.foldr_cons, ih rest, digitValue_digitChar digit, Nat.div_add_mod]

/-- What `itoa_unsigned` writes stands for its number. -/
theorem itoaUnsigned_value {base num : Nat} (lower : 2 ≤ base) (upper : base ≤ 16)
    (fits : num < 2 ^ 64) : numeral base (itoaUnsigned num base) = num := by
  rw [itoaUnsigned]
  split
  · rename_i zero
    rw [zero]
    rfl
  · rw [numeral, List.foldl_reverse]
    exact itoaDigits_value lower upper 64 (fits.trans_le (Nat.pow_le_pow_left lower 64))

/-! ## Arguments -/

/-- An argument of a variadic call, by its type. -/
inductive Argument where
  | int (value : Int)
  | unsigned (value : Nat)
  | long (value : Int)
  | unsignedLong (value : Nat)
  | pointer (address : Nat)
  | string (address : Nat)
  deriving DecidableEq, Repr

/-- The eight bytes that it is passed in, as a number. -/
def Argument.slot : Argument → Nat
  | .int value => uint64 value
  | .unsigned value => value % 2 ^ 64
  | .long value => uint64 value
  | .unsignedLong value => value % 2 ^ 64
  | .pointer address => address % 2 ^ 64
  | .string address => address % 2 ^ 64

/-- The letters of the conversions that read an argument. -/
inductive Letter where
  | d
  | i
  | u
  | x
  | X
  | p
  | s
  | c
  deriving DecidableEq, Repr

def Letter.char : Letter → Byte
  | .d => 0x64
  | .i => 0x69
  | .u => 0x75
  | .x => 0x78
  | .X => 0x58
  | .p => 0x70
  | .s => 0x73
  | .c => 0x63

/-- The label of the `switch` that a character goes to, if that reads an argument. -/
def letterOf (c : Byte) : Option Letter :=
  [.d, .i, .u, .x, .X, .p, .s, .c].find? fun letter => letter.char = c

/-! ## `kprintf` -/

/-- What `kprint` is called with: characters in a buffer, or a string of the caller. -/
inductive Text where
  | chars (text : List Byte)
  | string (address : Nat)
  deriving DecidableEq, Repr

/-- What the case of a letter prints for the argument that it has read. -/
def Letter.texts (letter : Letter) (argument : Argument) : List Text :=
  match letter with
  | .d | .i => [.chars (itoaSigned (int argument.slot))]
  | .u => [.chars (itoaUnsigned (argument.slot % 2 ^ 32) 10)]
  | .x | .X => [.chars [0x30, 0x78], .chars (itoaUnsigned (argument.slot % 2 ^ 32) 16)]
  | .p => [.chars [0x30, 0x78], .chars (itoaUnsigned argument.slot 16)]
  | .s =>
      if argument.slot = 0 then [.chars [0x28, 0x6E, 0x75, 0x6C, 0x6C, 0x29]]
      else [.string argument.slot]
  | .c => [.chars [BitVec.ofNat 8 argument.slot]]

/-- An `unsigned int` is printed as its numeral. -/
theorem texts_unsigned {value : Nat} (fits : value < 2 ^ 32) :
    ∃ text, Letter.u.texts (.unsigned value) = [.chars text] ∧ numeral 10 text = value := by
  refine ⟨_, rfl, ?_⟩
  have slot : (Argument.unsigned value).slot % 2 ^ 32 = value := by
    rw [Argument.slot, Nat.mod_mod_of_dvd _ (Nat.pow_dvd_pow 2 (by omega)), Nat.mod_eq_of_lt fits]
  rw [slot]
  exact itoaUnsigned_value (by omega) (by omega) (by omega)

/-- What one turn of the loop of `kprintf` does: it prints characters of the format, or it
reads an argument, for the letter at a place of the format, and prints that. -/
inductive Piece where
  | chars (text : List Byte)
  | converted (place : Nat) (letter : Letter) (argument : Argument)
  deriving DecidableEq, Repr

/-- The calls of `kprint`. -/
def Piece.texts : Piece → List Text
  | .chars text => text.map fun c => .chars [c]
  | .converted _ letter argument => letter.texts argument

/-- The loop of `kprintf`, with its format from a place on and the arguments that it has not
read. -/
def kprintfFrom : Nat → List Byte → List Argument → Option (List Piece)
  | _, [], _ => some []
  | place, c :: format, args =>
      if c ≠ percent then (kprintfFrom (place + 1) format args).map (.chars [c] :: ·)
      else
        match format with
        | [] => some []
        | c :: format =>
            match letterOf c, args with
            | some _, [] => none
            | some letter, argument :: args =>
                (kprintfFrom (place + 2) format args).map
                  (.converted (place + 1) letter argument :: ·)
            | none, args =>
                if c = percent then
                  (kprintfFrom (place + 2) format args).map (.chars [percent] :: ·)
                else (kprintfFrom (place + 2) format args).map (.chars [percent, c] :: ·)

/-- `kprintf`. -/
def kprintf (format : List Byte) (args : List Argument) : Option (List Piece) :=
  kprintfFrom 0 format args

/-- The calls of `kprint` by `kprintf`. -/
def kprintfTexts (format : List Byte) (args : List Argument) : Option (List Text) :=
  (kprintf format args).map (·.flatMap Piece.texts)

/-- `printf`, which passes on its format only. -/
def printf (format : List Byte) (_args : List Argument) : Option (List Piece) :=
  kprintf format []

/-! ## Formats -/

inductive Flag where
  | minus
  | plus
  | space
  | hash
  | zero
  deriving DecidableEq, Repr

def Flag.char : Flag → Byte
  | .minus => 0x2D
  | .plus => 0x2B
  | .space => 0x20
  | .hash => 0x23
  | .zero => 0x30

/-- What may stand between the percent sign and the letter of a conversion. -/
structure Modifiers where
  flags : List Flag
  width : List (Fin 10)
  long : Bool
  deriving DecidableEq, Repr

def Modifiers.chars (modifiers : Modifiers) : List Byte :=
  modifiers.flags.map Flag.char ++ (modifiers.width.map fun digit => digitChar digit.val) ++
    if modifiers.long then [0x6C] else []

/-- A character that stands for itself. -/
structure Literal where
  char : Byte
  plain : char ≠ percent ∧ char ≠ 0

/-- A part of a format: a character, or a conversion, which is `%%` if it has no letter. -/
inductive Directive where
  | character (literal : Literal)
  | conversion (modifiers : Modifiers) (letter : Option Letter)

def Directive.chars : Directive → List Byte
  | .character literal => [literal.char]
  | .conversion modifiers letter =>
      percent :: (modifiers.chars ++ [letter.elim percent Letter.char])

/-- The characters of a format. -/
def spell (format : List Directive) : List Byte := format.flatMap Directive.chars

/-- The conversions of a format that need an argument, with the places of their letters. -/
def conversions : Nat → List Directive → List (Nat × Modifiers × Letter)
  | _, [] => []
  | place, .character _ :: format => conversions (place + 1) format
  | place, .conversion modifiers none :: format =>
      conversions (place + modifiers.chars.length + 2) format
  | place, .conversion modifiers (some letter) :: format =>
      (place + modifiers.chars.length + 1, modifiers, letter) ::
        conversions (place + modifiers.chars.length + 2) format

/-- The integers, by whether they are `long`. -/
def Argument.Integer (long : Bool) : Argument → Prop
  | .int _ | .unsigned _ => long = false
  | .long _ | .unsignedLong _ => long = true
  | .pointer _ | .string _ => False

/-- The arguments that a conversion is for. -/
def Letter.Accepts (long : Bool) (argument : Argument) : Letter → Prop
  | .d | .i | .u | .x | .X => argument.Integer long
  | .c => argument.Integer false
  | .p => ∃ address, argument = .pointer address
  | .s => ∃ address, argument = .string address

/-- There is an argument for each conversion. -/
def Matching (format : List Directive) (args : List Argument) : Prop :=
  List.Forall₂ (fun (_, modifiers, letter) argument => letter.Accepts modifiers.long argument)
    (conversions 0 format) args

/-- The arguments that a call reads, each with the place of a letter in the format. -/
def Piece.read : Piece → Option (Nat × Letter × Argument)
  | .chars _ => none
  | .converted place letter argument => some (place, letter, argument)

def reads (pieces : List Piece) : List (Nat × Letter × Argument) := pieces.filterMap Piece.read

/-- The conversions of a format, each with its argument. -/
def served (place : Nat) (format : List Directive) (args : List Argument) :
    List (Nat × Letter × Argument) :=
  List.zipWith (fun (place, _, letter) argument => (place, letter, argument))
    (conversions place format) args

/-- A call has read, for each conversion of its format, the argument of this conversion and
nothing else, and each `%s` a string. -/
structure InStep (format : List Directive) (args : List Argument)
    (result : Option (List Piece)) : Prop where
  served : result.map reads = some (served 0 format args)
  strings : ∀ place argument, (place, Letter.s, argument) ∈ NTux.Console.served 0 format args →
    ∃ address, argument = .string address

/-! ## When a format is read in step -/

/-- What may stand after a percent sign that is left over: conversions without a letter, and
then the end or a character that is not the letter of a conversion. -/
def Harmless : List Directive → Prop
  | [] => True
  | .character literal :: _ => letterOf literal.char = none
  | .conversion _ none :: format => Harmless format
  | .conversion _ (some _) :: _ => False

/-- No conversion with a letter has modifiers, and after a `%%` with modifiers the percent sign
that is left over does no harm. -/
def Plain : List Directive → Prop
  | [] => True
  | .character _ :: format => Plain format
  | .conversion modifiers none :: format =>
      (modifiers.chars = [] ∨ Harmless format) ∧ Plain format
  | .conversion modifiers (some _) :: format => modifiers.chars = [] ∧ Plain format

section Characters

theorem letterOf_char (letter : Letter) : letterOf letter.char = some letter := by
  cases letter <;> rfl

theorem char_of_letterOf {c : Byte} {letter : Letter} (found : letterOf c = some letter) :
    c = letter.char :=
  by
    have chosen := List.find?_some found
    exact (of_decide_eq_true chosen).symm

theorem letterOf_percent : letterOf percent = none := rfl

theorem Letter.char_ne_percent (letter : Letter) : letter.char ≠ percent := by
  cases letter <;> decide

/-- A modifier is neither a percent sign nor a letter. -/
theorem Modifiers.mem_chars {modifiers : Modifiers} {c : Byte} (member : c ∈ modifiers.chars) :
    c ≠ percent ∧ letterOf c = none := by
  simp only [Modifiers.chars, List.mem_append, List.mem_map] at member
  rcases member with (⟨flag, -, rfl⟩ | ⟨digit, -, rfl⟩) | long
  · cases flag <;> decide
  · revert digit
    decide
  · split at long
    · rw [List.mem_singleton.mp long]
      decide
    · cases long

end Characters

/-! ## The loop -/

section Loop

variable {place : Nat} {format : List Byte} {args : List Argument}

/-- The arguments that the loop reads. -/
def readsFrom (place : Nat) (format : List Byte) (args : List Argument) :
    Option (List (Nat × Letter × Argument)) :=
  (kprintfFrom place format args).map reads

@[simp] theorem readsFrom_nil : readsFrom place [] args = some [] := rfl

@[simp] theorem readsFrom_percent : readsFrom place [percent] args = some [] := rfl

/-- Printing characters reads nothing. -/
theorem map_reads_chars (result : Option (List Piece)) (text : List Byte) :
    (result.map (.chars text :: ·)).map reads = result.map reads := by
  cases result <;> rfl

theorem readsFrom_char {c : Byte} (plain : c ≠ percent) :
    readsFrom place (c :: format) args = readsFrom (place + 1) format args := by
  rw [readsFrom, kprintfFrom.eq_def]
  simp only [if_pos plain, map_reads_chars, readsFrom]

theorem readsFrom_chars {text : List Byte} (plain : ∀ c ∈ text, c ≠ percent) :
    readsFrom place (text ++ format) args = readsFrom (place + text.length) format args := by
  induction text generalizing place with
  | nil => rfl
  | cons c text ih =>
      rw [List.cons_append, readsFrom_char (plain c List.mem_cons_self),
        ih fun c member => plain c (List.mem_cons_of_mem _ member), List.length_cons]
      congr 1
      omega

/-- A percent sign and a character that is no letter read nothing. -/
theorem readsFrom_stray {c : Byte} (unlettered : letterOf c = none) :
    readsFrom place (percent :: c :: format) args = readsFrom (place + 2) format args := by
  rw [readsFrom, kprintfFrom.eq_def]
  simp only [ne_eq, not_true_eq_false, if_false, unlettered]
  split <;> simp only [map_reads_chars, readsFrom]

theorem readsFrom_letter (letter : Letter) (argument : Argument) :
    readsFrom place (percent :: letter.char :: format) (argument :: args) =
      (readsFrom (place + 2) format args).map ((place + 1, letter, argument) :: ·) := by
  rw [readsFrom, kprintfFrom.eq_def]
  simp only [ne_eq, not_true_eq_false, if_false, letterOf_char, readsFrom]
  cases kprintfFrom (place + 2) format args <;> rfl

theorem readsFrom_letter_nil (letter : Letter) :
    readsFrom place (percent :: letter.char :: format) [] = none := by
  rw [readsFrom, kprintfFrom.eq_def]
  simp only [ne_eq, not_true_eq_false, if_false, letterOf_char, Option.map_none]

end Loop

/-- The loop reads for letters at places that it has not come to, and no more than the
arguments. -/
theorem readsFrom_bounds {place : Nat} {format : List Byte} {args : List Argument}
    {read : List (Nat × Letter × Argument)} (result : readsFrom place format args = some read) :
    (∀ entry ∈ read, place ≤ entry.1) ∧ read.length ≤ args.length := by
  match format with
  | [] =>
      cases result
      exact ⟨fun _ member => absurd member List.not_mem_nil, Nat.zero_le _⟩
  | c :: format =>
      by_cases plain : c = percent
      · subst plain
        match format with
        | [] =>
            cases result
            exact ⟨fun _ member => absurd member List.not_mem_nil, Nat.zero_le _⟩
        | c :: format =>
            cases found : letterOf c with
            | none =>
                rw [readsFrom_stray found] at result
                obtain ⟨later, few⟩ := readsFrom_bounds result
                exact ⟨fun entry member => (Nat.le_add_right place 2).trans (later entry member), few⟩
            | some letter =>
                obtain rfl := char_of_letterOf found
                cases args with
                | nil =>
                    rw [readsFrom_letter_nil] at result
                    cases result
                | cons argument args =>
                    rw [readsFrom_letter] at result
                    obtain ⟨rest, restResult, rfl⟩ := Option.map_eq_some_iff.mp result
                    obtain ⟨later, few⟩ := readsFrom_bounds restResult
                    refine ⟨fun entry member => ?_, Nat.succ_le_succ few⟩
                    rcases List.mem_cons.mp member with rfl | member
                    · exact Nat.le_succ place
                    · exact (Nat.le_add_right place 2).trans (later entry member)
      · rw [readsFrom_char plain] at result
        obtain ⟨later, few⟩ := readsFrom_bounds result
        exact ⟨fun entry member => (Nat.le_succ place).trans (later entry member), few⟩

/-- What is read from a place on has its places from there on. -/
theorem ne_cons_of_readsFrom {place : Nat} {format : List Byte} {args : List Argument}
    {entry : Nat × Letter × Argument} {rest : List (Nat × Letter × Argument)}
    (passed : entry.1 < place) : readsFrom place format args ≠ some (entry :: rest) := by
  intro result
  have later := (readsFrom_bounds result).1 entry List.mem_cons_self
  omega

/-! ## Directives -/

section Directives

variable {place : Nat} {format : List Directive} {args : List Argument} {modifiers : Modifiers}

@[simp] theorem spell_nil : spell [] = [] := rfl

@[simp] theorem spell_character (literal : Literal) :
    spell (.character literal :: format) = literal.char :: spell format := rfl

@[simp] theorem spell_conversion (letter : Option Letter) :
    spell (.conversion modifiers letter :: format) =
      percent :: (modifiers.chars ++ letter.elim percent Letter.char :: spell format) := by
  simp [spell, Directive.chars]

/-- The place does not change how many conversions there are. -/
theorem length_conversions (place : Nat) :
    (conversions place format).length = (conversions 0 format).length := by
  induction format generalizing place with
  | nil => rfl
  | cons directive format ih =>
      match directive with
      | .character _ => exact (ih _).trans (ih _).symm
      | .conversion _ none => exact (ih _).trans (ih _).symm
      | .conversion _ (some _) => exact congrArg (· + 1) ((ih _).trans (ih _).symm)

/-- The conversions of the rest of a format have their places there. -/
theorem place_le_of_conversions :
    ∀ entry ∈ conversions place format, place ≤ entry.1 := by
  induction format generalizing place with
  | nil => exact fun _ member => absurd member List.not_mem_nil
  | cons directive format ih =>
      intro entry member
      match directive with
      | .character _ => exact (Nat.le_succ place).trans (ih entry member)
      | .conversion modifiers none =>
          have later := ih entry member
          omega
      | .conversion modifiers (some letter) =>
          rcases List.mem_cons.mp member with rfl | member
          · exact (Nat.le_add_right _ _).trans (Nat.le_succ _)
          · have later := ih entry member
            omega

theorem place_le_of_served {entry : Nat × Letter × Argument}
    (member : entry ∈ served place format args) : place ≤ entry.1 := by
  rw [served, ← List.map_uncurry_zip_eq_zipWith] at member
  obtain ⟨⟨conversion, argument⟩, zipped, rfl⟩ := List.mem_map.mp member
  exact place_le_of_conversions conversion (List.of_mem_zip zipped).1

/-- Behind a percent sign, the modifiers of a conversion are printed; its letter is next. -/
theorem readsFrom_modified (modified : modifiers.chars ≠ []) (last : List Byte) :
    readsFrom place (percent :: (modifiers.chars ++ last)) args =
      readsFrom (place + modifiers.chars.length + 1) last args := by
  have members : ∀ c ∈ modifiers.chars, c ≠ percent ∧ letterOf c = none :=
    fun _ => Modifiers.mem_chars
  generalize modifiers.chars = chars at modified members
  cases chars with
  | nil => exact absurd rfl modified
  | cons c chars =>
      rw [List.cons_append, readsFrom_stray (members c List.mem_cons_self).2,
        readsFrom_chars fun c member => (members c (List.mem_cons_of_mem _ member)).1,
        List.length_cons]
      congr 1
      omega

/-- After a percent sign that is left over, a conversion is printed like other characters, up to
its last one. -/
theorem readsFrom_leftover (last : List Byte) :
    readsFrom place (percent :: percent :: (modifiers.chars ++ last)) args =
      readsFrom (place + modifiers.chars.length + 2) last args := by
  rw [readsFrom_stray letterOf_percent, readsFrom_chars fun _ member => (Modifiers.mem_chars member).1]
  congr 1
  omega

theorem served_conversion (letter : Letter) (argument : Argument) :
    served place (.conversion modifiers (some letter) :: format) (argument :: args) =
      (place + modifiers.chars.length + 1, letter, argument) ::
        served (place + modifiers.chars.length + 2) format args := rfl

/-- With an argument for each conversion, the loop serves its format exactly if the format is
plain, and behind a percent sign that is left over if it is harmless as well. -/
def Decided (format : List Directive) : Prop :=
  ∀ (place : Nat) (args : List Argument), args.length = (conversions 0 format).length →
    (readsFrom place (spell format) args = some (served place format args) ↔ Plain format) ∧
      (readsFrom place (percent :: spell format) args = some (served (place + 1) format args) ↔
        Harmless format ∧ Plain format)

theorem decided_nil : Decided [] := fun _ _ _ =>
  ⟨by simp [served, conversions, Plain], by simp [served, conversions, Plain, Harmless]⟩

theorem decided_character (literal : Literal) (decided : Decided format) :
    Decided (.character literal :: format) := by
  intro place args enough
  have behind : args.length = (conversions 0 format).length :=
    enough.trans (length_conversions (0 + 1))
  rw [spell_character, readsFrom_char literal.plain.1]
  refine ⟨(decided (place + 1) args behind).1, ?_⟩
  have whole : served (place + 1) (.character literal :: format) args =
      served (place + 2) format args := rfl
  rw [whole, Harmless, Plain]
  cases found : letterOf literal.char with
  | none =>
      rw [readsFrom_stray found, and_iff_right rfl]
      exact (decided (place + 2) args behind).1
  | some letter =>
      -- the character is taken for the letter of a conversion
      refine iff_of_false (fun result => ?_) (fun harmless => nomatch harmless.1)
      rw [char_of_letterOf found] at result
      cases args with
      | nil =>
          rw [readsFrom_letter_nil] at result
          cases result
      | cons argument args =>
          rw [readsFrom_letter] at result
          obtain ⟨rest, -, equal⟩ := Option.map_eq_some_iff.mp result
          have member : (place + 1, letter, argument) ∈
              served (place + 2) format (argument :: args) := equal ▸ List.mem_cons_self
          have late := place_le_of_served member
          omega

theorem decided_percent (modifiers : Modifiers) (decided : Decided format) :
    Decided (.conversion modifiers none :: format) := by
  intro place args enough
  have behind : args.length = (conversions 0 format).length :=
    enough.trans (length_conversions (0 + modifiers.chars.length + 2))
  have whole (place : Nat) : served place (.conversion modifiers none :: format) args =
      served (place + modifiers.chars.length + 2) format args := rfl
  rw [spell_conversion, whole, whole, Plain, Harmless, Option.elim_none]
  constructor
  · by_cases bare : modifiers.chars = []
    · have next := (decided (place + 2) args behind).1
      rw [bare, List.nil_append, readsFrom_stray letterOf_percent, List.length_nil]
      simpa only [true_or, true_and] using next
    · have next := (decided (place + modifiers.chars.length + 1) args behind).2
      rw [readsFrom_modified bare]
      simpa only [bare, false_or] using next
  · have next := (decided (place + modifiers.chars.length + 2) args behind).2
    have same : place + 1 + modifiers.chars.length + 2 =
        place + modifiers.chars.length + 2 + 1 := by omega
    rw [readsFrom_leftover, same, next]
    exact ⟨fun ⟨harmless, plain⟩ => ⟨harmless, .inr harmless, plain⟩,
      fun ⟨harmless, _, plain⟩ => ⟨harmless, plain⟩⟩

theorem decided_letter (modifiers : Modifiers) (letter : Letter) (decided : Decided format) :
    Decided (.conversion modifiers (some letter) :: format) := by
  intro place args enough
  cases args with
  | nil => cases enough
  | cons argument args =>
      have behind : args.length = (conversions 0 format).length :=
        (Nat.succ.inj enough).trans (length_conversions _)
      rw [spell_conversion, served_conversion, served_conversion, Plain, Harmless,
        Option.elim_some]
      constructor
      · by_cases bare : modifiers.chars = []
        · have next := (decided (place + 2) args behind).1
          rw [bare, List.nil_append, readsFrom_letter, List.length_nil, Nat.add_zero,
            and_iff_right rfl, ← next]
          cases readsFrom (place + 2) (spell format) args with
          | none => exact ⟨nofun, nofun⟩
          | some read => simp
        · rw [readsFrom_modified bare, readsFrom_char letter.char_ne_percent]
          exact iff_of_false (ne_cons_of_readsFrom (Nat.lt_succ_self _)) fun plain => bare plain.1
      · rw [readsFrom_leftover, readsFrom_char letter.char_ne_percent]
        refine iff_of_false (ne_cons_of_readsFrom ?_) fun harmless => harmless.1
        dsimp only
        omega

/-- The loop serves the plain formats. -/
theorem decided (format : List Directive) : Decided format := by
  induction format with
  | nil => exact decided_nil
  | cons directive format ih =>
      match directive with
      | .character literal => exact decided_character literal ih
      | .conversion modifiers none => exact decided_percent modifiers ih
      | .conversion modifiers (some letter) => exact decided_letter modifiers letter ih

end Directives

/-! ## Calls -/

/-- With an argument for each conversion, `%s` is for strings. -/
theorem served_string {format : List Directive} {args : List Argument}
    (matching : Matching format args) (place : Nat) (argument : Argument)
    (member : (place, Letter.s, argument) ∈ served 0 format args) :
    ∃ address, argument = .string address := by
  rw [served, ← List.map_uncurry_zip_eq_zipWith] at member
  obtain ⟨⟨⟨_, modifiers, letter⟩, argument⟩, zipped, equal⟩ := List.mem_map.mp member
  have accepts := List.forall₂_zip matching zipped
  cases equal
  exact accepts

/-- **When the arguments are read in step.** With an argument for each conversion, `kprintf`
reads for every conversion its argument exactly if the format is plain; `printf` moreover only
if the format needs no argument. -/
theorem inStep_iff {format : List Directive} {args : List Argument}
    (matching : Matching format args) :
    (InStep format args (kprintf (spell format) args) ↔ Plain format) ∧
      (InStep format args (printf (spell format) args) ↔
        Plain format ∧ conversions 0 format = []) := by
  have strings := served_string matching
  have length := matching.length_eq.symm
  have called : InStep format args (kprintf (spell format) args) ↔ Plain format := by
    rw [← ((decided format) 0 args length).1]
    exact ⟨fun inStep => inStep.served, fun served => ⟨served, strings⟩⟩
  refine ⟨called, ⟨fun inStep => ?_, fun ⟨plain, unneeded⟩ => ?_⟩⟩
  · have result : readsFrom 0 (spell format) [] = some (served 0 format args) := inStep.served
    have few : (served 0 format args).length = 0 :=
      Nat.le_zero.mp (readsFrom_bounds result).2
    rw [served, List.length_zipWith, length, min_self] at few
    have noArgs : args = [] := List.length_eq_zero_iff.mp (length.trans few)
    rw [printf, ← noArgs] at inStep
    exact ⟨called.mp inStep, List.length_eq_zero_iff.mp few⟩
  · have noArgs : args = [] := List.length_eq_zero_iff.mp (by rw [length, unneeded]; rfl)
    rw [printf, ← noArgs]
    exact called.mpr plain

/-- `%lx`, a blank and `%s`. -/
def longThenString : List Directive :=
  [.conversion ⟨[], [], true⟩ (some .x), .character ⟨0x20, by decide⟩,
    .conversion ⟨[], [], false⟩ (some .s)]

theorem longThenString_matching : Matching longThenString [.unsignedLong 5, .string 0x1000] :=
  .cons rfl (.cons ⟨0x1000, rfl⟩ .nil)

theorem inStep_longThenString :
    Matching longThenString [.unsignedLong 5, .string 0x1000] ∧
      (InStep longThenString [.unsignedLong 5, .string 0x1000]
          (kprintf (spell longThenString) [.unsignedLong 5, .string 0x1000]) ↔
        Plain longThenString) ∧
      (InStep longThenString [.unsignedLong 5, .string 0x1000]
          (printf (spell longThenString) [.unsignedLong 5, .string 0x1000]) ↔
        Plain longThenString ∧ conversions 0 longThenString = []) :=
  ⟨longThenString_matching, inStep_iff longThenString_matching⟩

/-- `kprintf` takes the number for the string. -/
theorem kprintf_longThenString :
    kprintf (spell longThenString) [.unsignedLong 5, .string 0x1000] =
      some [.chars [percent, 0x6C], .chars [0x78], .chars [0x20],
        .converted 5 .s (.unsignedLong 5)] := by
  decide

theorem not_inStep_longThenString :
    ¬ ∀ format args, Matching format args →
      InStep format args (kprintf (spell format) args) ∧
        InStep format args (printf (spell format) args) := by
  intro claim
  have inStep := (claim longThenString _ longThenString_matching).1.served
  rw [kprintf_longThenString] at inStep
  revert inStep
  decide

end NTux.Console
