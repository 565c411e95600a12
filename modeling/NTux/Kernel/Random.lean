import NTux.Foundation.Runs
import Mathlib.Data.Nat.Prime.Basic
import Mathlib.Data.Nat.Factorization.PrimePow

/-! # The random number generator

`kernel_lib/random.c`: a generator of 128 bits of state, seeded from the time-stamp
counter. A step rotates and shifts the two words of the state and joins them by exclusive
or, so it is linear (`advance_xor`), and everything about it follows from the states it
sends to zero. There are 2 ^ 15 of these (`advance_eq_zero`): the step shifts the old
second word where it should shift the new one.
-/

namespace NTux.Kernel

open NTux.Foundation

/-- The static variables of `random.c`. -/
structure Rng where
  splitmix64State : BitVec 64
  s0 : BitVec 64
  s1 : BitVec 64
  rngInitialized : Bool
  deriving DecidableEq, Repr

/-- The two values of the time-stamp counter that a call may read. -/
abbrev Readings : Type := BitVec 64 × BitVec 64

def splitmix64Next (s : Rng) : BitVec 64 × Rng :=
  let state := s.splitmix64State + 0x9E3779B97F4A7C15
  let z := (state ^^^ (state >>> 30)) * 0xBF58476D1CE4E5B9
  let z := (z ^^^ (z >>> 27)) * 0x94D049BB133111EB
  (z ^^^ (z >>> 31), { s with splitmix64State := state })

def rotl (x : BitVec 64) (k : Nat) : BitVec 64 :=
  (x <<< k) ||| (x >>> (64 - k))

namespace Rng

/-- `s0` and `s1`. -/
def state (s : Rng) : BitVec 64 × BitVec 64 := (s.s0, s.s1)

/-- Set `s0` and `s1`. -/
def setState (s : Rng) (state : BitVec 64 × BitVec 64) : Rng :=
  { s with s0 := state.1, s1 := state.2 }

@[simp] theorem state_setState (s : Rng) (state : BitVec 64 × BitVec 64) :
    (s.setState state).state = state := rfl

end Rng

/-- The two words `random_init` ends with: those it drew, unless both are zero. -/
def avoidZero (s0 s1 : BitVec 64) : BitVec 64 × BitVec 64 :=
  if s0 = 0 ∧ s1 = 0 then (0x0123456789ABCDEF, 0xFEDCBA9876543210) else (s0, s1)

/-- `random_init`, which reads the counter when it is given no seed. -/
def randomInit (seed rdtsc : BitVec 64) (s : Rng) : Rng :=
  let seed := if seed = 0 then (if rdtsc = 0 then 0xDEADBEEFCAFEBABE else rdtsc) else seed
  let first := splitmix64Next { s with splitmix64State := seed, rngInitialized := true }
  let second := splitmix64Next first.2
  second.2.setState (avoidZero first.1 second.1)

/-- What `random_u64` does to `s0` and `s1`. -/
def advance (state : BitVec 64 × BitVec 64) : BitVec 64 × BitVec 64 :=
  let t := state.2 <<< 17
  let s1 := state.2 ^^^ state.1
  (rotl state.1 49 ^^^ s1 ^^^ t, rotl s1 28)

/-- The generator once it has a seed. -/
def Rng.seeded (rdtsc : Readings) (s : Rng) : Rng :=
  if s.rngInitialized then s else randomInit rdtsc.1 rdtsc.2 s

def randomU64 (rdtsc : Readings) (s : Rng) : BitVec 64 × Rng :=
  let s := s.seeded rdtsc
  (s.s0 + s.s1, s.setState (advance s.state))

/-- The loop of `random_bounded_u64`; `none` when it outlives its fuel. -/
def rejectBelow (rdtsc : Readings) (threshold : BitVec 64) : Nat → Rng → Option (BitVec 64 × Rng)
  | 0, _ => none
  | fuel + 1, s =>
      if (randomU64 rdtsc s).1 < threshold then
        rejectBelow rdtsc threshold fuel (randomU64 rdtsc s).2
      else some (randomU64 rdtsc s)

/-- `random_bounded_u64`. -/
def randomBoundedU64 (rdtsc : Readings) (bound : BitVec 64) (fuel : Nat) (s : Rng) :
    Option (BitVec 64 × Rng) :=
  if bound = 0 then some (0, s)
  else if bound &&& (bound - 1) = 0 then
    some ((randomU64 rdtsc s).1 &&& (bound - 1), (randomU64 rdtsc s).2)
  else
    (rejectBelow rdtsc (-bound % bound) fuel s).map fun (x, s) => (x % bound, s)

/-! ## The step is linear -/

section Bits

variable {x y : BitVec 64} {i k : Nat}

theorem getLsbD_rotl (small : k ≤ 64) (inside : i < 64) :
    (rotl x k).getLsbD i = if i < k then x.getLsbD (64 - k + i) else x.getLsbD (i - k) := by
  rw [rotl, BitVec.getLsbD_or, BitVec.getLsbD_shiftLeft, BitVec.getLsbD_ushiftRight]
  by_cases low : i < k
  · simp [low]
  · have outside : x.getLsbD (64 - k + i) = false := BitVec.getLsbD_of_ge _ _ (by omega)
    simp [low, inside, outside]

theorem rotl_xor (small : k ≤ 64) : rotl (x ^^^ y) k = rotl x k ^^^ rotl y k := by
  apply BitVec.eq_of_getLsbD_eq
  intro i inside
  rw [BitVec.getLsbD_xor, getLsbD_rotl small inside, getLsbD_rotl small inside,
    getLsbD_rotl small inside]
  split <;> rw [BitVec.getLsbD_xor]

theorem rotl_eq_zero (small : k ≤ 64) : rotl x k = 0 ↔ x = 0 := by
  constructor
  · intro zero
    apply BitVec.eq_of_getLsbD_eq
    intro i inside
    -- bit `i` is found at position `i + k`, modulo the width
    by_cases wraps : i + k < 64
    · have bit : (rotl x k).getLsbD (i + k) = (0#64).getLsbD (i + k) :=
        congrArg (fun word : BitVec 64 => word.getLsbD (i + k)) zero
      rw [getLsbD_rotl small wraps, if_neg (by omega), Nat.add_sub_cancel] at bit
      simpa using bit
    · have bit : (rotl x k).getLsbD (i + k - 64) = (0#64).getLsbD (i + k - 64) :=
        congrArg (fun word : BitVec 64 => word.getLsbD (i + k - 64)) zero
      have position : 64 - k + (i + k - 64) = i := by omega
      rw [getLsbD_rotl small (by omega), if_pos (by omega), position] at bit
      simpa using bit
  · rintro rfl
    simp [rotl]

end Bits

/-- Exclusive or of states. -/
def xorState (a b : BitVec 64 × BitVec 64) : BitVec 64 × BitVec 64 :=
  (a.1 ^^^ b.1, a.2 ^^^ b.2)

theorem xorState_eq_zero {a b : BitVec 64 × BitVec 64} : xorState a b = (0, 0) ↔ a = b := by
  rw [xorState, Prod.mk.injEq, Prod.ext_iff]
  exact and_congr BitVec.xor_eq_zero_iff BitVec.xor_eq_zero_iff

theorem advance_xor (a b : BitVec 64 × BitVec 64) :
    advance (xorState a b) = xorState (advance a) (advance b) := by
  obtain ⟨a0, a1⟩ := a
  obtain ⟨b0, b1⟩ := b
  have mixed : a1 ^^^ b1 ^^^ (a0 ^^^ b0) = (a1 ^^^ a0) ^^^ (b1 ^^^ b0) := by
    ac_rfl
  apply Prod.ext
  · change rotl (a0 ^^^ b0) 49 ^^^ (a1 ^^^ b1 ^^^ (a0 ^^^ b0)) ^^^ ((a1 ^^^ b1) <<< 17) =
      (rotl a0 49 ^^^ (a1 ^^^ a0) ^^^ (a1 <<< 17)) ^^^ (rotl b0 49 ^^^ (b1 ^^^ b0) ^^^ (b1 <<< 17))
    rw [mixed, rotl_xor (by decide), BitVec.shiftLeft_xor_distrib]
    generalize rotl a0 49 = x, rotl b0 49 = x', a1 <<< 17 = y, b1 <<< 17 = y', a1 ^^^ a0 = z,
      b1 ^^^ b0 = z'
    ac_rfl
  · change rotl (a1 ^^^ b1 ^^^ (a0 ^^^ b0)) 28 = rotl (a1 ^^^ a0) 28 ^^^ rotl (b1 ^^^ b0) 28
    rw [mixed, rotl_xor (by decide)]

/-! ## The states that a step sends to zero -/

/-- The word that holds the same 15 bits at the bottom of each half. -/
def twin (pattern : BitVec 15) : BitVec 64 :=
  (0#17 ++ pattern) ++ (0#17 ++ pattern)

/-- Both words hold the same 15 bits at the bottom of each half. -/
def Collapses (state : BitVec 64 × BitVec 64) : Prop :=
  ∃ pattern, state = (twin pattern, twin pattern)

theorem getLsbD_twin {pattern : BitVec 15} {i : Nat} (inside : i < 64) :
    (twin pattern).getLsbD i = pattern.getLsbD (i % 32) := by
  rw [twin, BitVec.getLsbD_append, BitVec.getLsbD_append, BitVec.getLsbD_append]
  have high : ∀ j, 15 ≤ j → pattern.getLsbD j = false :=
    fun j large => BitVec.getLsbD_of_ge _ _ large
  by_cases low : i < 32
  · have same : i % 32 = i := Nat.mod_eq_of_lt low
    by_cases bottom : i < 15
    · simp [low, bottom, same]
    · simp [low, bottom, same, high i (by omega)]
  · have same : i % 32 = i - 32 := by omega
    by_cases bottom : i - 32 < 15
    · simp [low, bottom, same]
    · simp [low, bottom, same, high (i - 32) (by omega)]

/-- The rotated word cancels the shifted one if its halves agree and hold 15 bits. -/
theorem rotl_xor_shift_eq_zero {x : BitVec 64} :
    rotl x 49 ^^^ (x <<< 17) = 0 ↔ ∃ pattern, x = twin pattern := by
  have bits : ∀ i < 64, (rotl x 49 ^^^ (x <<< 17)).getLsbD i =
      ((if i < 49 then x.getLsbD (15 + i) else x.getLsbD (i - 49)) ^^
        (decide (17 ≤ i) && x.getLsbD (i - 17))) := by
    intro i inside
    rw [BitVec.getLsbD_xor, getLsbD_rotl (by decide) inside, BitVec.getLsbD_shiftLeft]
    by_cases low : i < 17 <;> simp [low, inside, Nat.not_le.mpr, Nat.not_lt.mp]
  constructor
  · intro zero
    have none : ∀ i < 64, ((if i < 49 then x.getLsbD (15 + i) else x.getLsbD (i - 49)) ^^
        (decide (17 ≤ i) && x.getLsbD (i - 17))) = false := by
      intro i inside
      rw [← bits i inside, zero]
      exact BitVec.getLsbD_zero
    refine ⟨x.setWidth 15, BitVec.eq_of_getLsbD_eq fun i inside => ?_⟩
    have gap : ∀ j, 15 ≤ j → j < 32 → x.getLsbD j = false := by
      intro j low high
      have bit := none (j - 15) (by omega)
      rw [if_pos (by omega)] at bit
      have position : 15 + (j - 15) = j := by omega
      have early : ¬ 17 ≤ j - 15 := by omega
      simpa [position, early] using bit
    have halves : ∀ j < 32, x.getLsbD (j + 32) = x.getLsbD j := by
      intro j low
      have bit := none (j + 17) (by omega)
      rw [if_pos (by omega)] at bit
      have position : 15 + (j + 17) = j + 32 := by omega
      simpa [position] using bit
    rw [getLsbD_twin inside, BitVec.getLsbD_setWidth]
    have lower : x.getLsbD i = x.getLsbD (i % 32) := by
      by_cases low : i < 32
      · rw [Nat.mod_eq_of_lt low]
      · have shifted := halves (i - 32) (by omega)
        have position : i - 32 + 32 = i := by omega
        have residue : i % 32 = i - 32 := by omega
        rwa [position, ← residue] at shifted
    rw [lower]
    by_cases bottom : i % 32 < 15
    · simp [bottom]
    · simp [bottom, gap (i % 32) (by omega) (by omega)]
  · rintro ⟨pattern, rfl⟩
    apply BitVec.eq_of_getLsbD_eq
    intro i inside
    refine (bits i inside).trans (Eq.trans ?_ BitVec.getLsbD_zero.symm)
    have high : ∀ j, 15 ≤ j → pattern.getLsbD j = false :=
      fun j large => BitVec.getLsbD_of_ge _ _ large
    by_cases early : i < 17
    · rw [if_pos (by omega), getLsbD_twin (by omega), high _ (by omega)]
      simp [Nat.not_le.mpr early]
    · rw [getLsbD_twin (i := i - 17) (by omega)]
      by_cases middle : i < 49
      · have same : (15 + i) % 32 = (i - 17) % 32 := by omega
        rw [if_pos middle, getLsbD_twin (by omega), same]
        simp [Nat.not_lt.mp early]
      · have same : (i - 49) % 32 = (i - 17) % 32 := by omega
        rw [if_neg middle, getLsbD_twin (by omega), same]
        simp [Nat.not_lt.mp early]

theorem advance_eq_zero (state : BitVec 64 × BitVec 64) :
    advance state = (0, 0) ↔ Collapses state := by
  obtain ⟨s0, s1⟩ := state
  simp only [advance, Prod.mk.injEq, rotl_eq_zero (by decide : 28 ≤ 64), Collapses]
  constructor
  · rintro ⟨first, second⟩
    obtain rfl : s1 = s0 := BitVec.xor_eq_zero_iff.mp second
    rw [BitVec.xor_self, BitVec.xor_zero] at first
    obtain ⟨pattern, same⟩ := rotl_xor_shift_eq_zero.mp first
    exact ⟨pattern, same, same⟩
  · rintro ⟨pattern, rfl, rfl⟩
    rw [BitVec.xor_self, BitVec.xor_zero]
    exact ⟨rotl_xor_shift_eq_zero.mpr ⟨pattern, rfl⟩, rfl⟩

/-- Two states have the same successor if they differ by a state that collapses. -/
theorem advance_eq_iff (a b : BitVec 64 × BitVec 64) :
    advance a = advance b ↔ Collapses (xorState a b) := by
  rw [← advance_eq_zero, advance_xor, xorState_eq_zero]

/-! ## Seeding -/

theorem avoidZero_nonzero (s0 s1 : BitVec 64) : avoidZero s0 s1 ≠ (0, 0) := by
  rw [avoidZero]
  split
  · decide
  · rename_i given
    rw [ne_eq, Prod.mk.injEq]
    exact given

/-- A seed never gives the state zero. -/
theorem randomInit_state (seed rdtsc : BitVec 64) (s : Rng) :
    (randomInit seed rdtsc s).state ≠ (0, 0) := by
  rw [randomInit, Rng.state_setState]
  exact avoidZero_nonzero _ _

/-- The first call seeds the generator and then does what every call does. -/
theorem randomU64_state (rdtsc : Readings) (s : Rng) :
    (randomU64 rdtsc s).2.state = advance (s.seeded rdtsc).state := rfl

theorem seeded_of_initialized {s : Rng} (initialized : s.rngInitialized) (rdtsc : Readings) :
    s.seeded rdtsc = s :=
  if_pos initialized

theorem randomU64_initialized {s : Rng} (initialized : s.rngInitialized) (rdtsc : Readings) :
    (randomU64 rdtsc s).2.rngInitialized := by
  simp only [randomU64, seeded_of_initialized initialized]
  exact initialized

/-! ## Runs -/

/-- One call of `random_u64`. -/
def RandomStep (s : Rng) (rdtsc : Readings) (t : Rng) : Prop :=
  t = (randomU64 rdtsc s).2

/-- A call is made in a state that does not collapse. -/
def Safe (s : Rng) (_ : Readings) : Prop := ¬ Collapses s.state

/-- The state of the generator is not zero. -/
def Rng.Alive (s : Rng) : Prop := s.state ≠ (0, 0)

theorem randomStep_initialized {s t : Rng} {rdtsc : Readings} (initialized : s.rngInitialized)
    (step : RandomStep s rdtsc t) : t.rngInitialized := by
  rw [step]
  exact randomU64_initialized initialized rdtsc

/-- The state after a call is zero if the one before it collapses. -/
theorem randomStep_nonzero {s t : Rng} {rdtsc : Readings} (initialized : s.rngInitialized)
    (step : RandomStep s rdtsc t) :
    t.Alive ↔ s.Alive ∧ Safe s rdtsc := by
  rw [Rng.Alive, step, randomU64_state, seeded_of_initialized initialized, ne_eq, advance_eq_zero]
  refine ⟨fun kept => ⟨fun zero => kept ?_, kept⟩, And.right⟩
  rw [zero]
  exact ⟨0, by decide⟩

/-- **When the generator keeps its state.** Two states have different successors unless
they differ by a state that collapses, a state other than zero has a successor other than
zero unless it collapses, and a run from a state other than zero stays away from zero as
long as it stays away from those that collapse. -/
theorem randomU64_state_iff (a b state : BitVec 64 × BitVec 64) (s : Rng) (calls : List Readings)
    (t : Rng) :
    (advance a = advance b ↔ Collapses (xorState a b)) ∧
      (state ≠ (0, 0) → (advance state ≠ (0, 0) ↔ ¬ Collapses state)) ∧
      (s.rngInitialized → s.Alive → Run RandomStep s calls t →
        (t.Alive ↔ Run (Guarded Safe RandomStep) s calls t)) := by
  refine ⟨advance_eq_iff a b, fun _ => not_congr (advance_eq_zero state), ?_⟩
  intro initialized alive run
  have keeps : ∀ source rdtsc target, source.rngInitialized = true →
      RandomStep source rdtsc target → target.rngInitialized = true :=
    fun _ _ _ => randomStep_initialized
  have adds : ∀ source rdtsc target, source.rngInitialized = true →
      RandomStep source rdtsc target → (target.Alive ↔ source.Alive ∧ Safe source rdtsc) :=
    fun _ _ _ => randomStep_nonzero
  have same := run.guarded_iff (fun _ _ _ _ first second => first.trans second.symm) keeps adds
    initialized
  exact same.trans (and_iff_right alive)

/-- A generator with the state `(1, 2)`. -/
def sampleRng : Rng := ⟨0, 1, 2, true⟩

theorem randomU64_state_sample :
    (randomU64 (0, 0) sampleRng).2.Alive ↔
      Run (Guarded Safe RandomStep) sampleRng [(0, 0)] (randomU64 (0, 0) sampleRng).2 :=
  (randomU64_state_iff (0, 0) (0, 0) (0, 0) sampleRng [(0, 0)] _).2.2 rfl
    (by decide : sampleRng.state ≠ (0, 0)) (.single rfl)

/-- The state `(0x100000001, 0x100000001)` is sent to zero. -/
theorem randomU64_state_collapses :
    ¬ (Function.Injective advance ∧ (∀ state, state ≠ (0, 0) → advance state ≠ (0, 0)) ∧
      ∀ s calls t, s.rngInitialized → s.Alive → Run RandomStep s calls t → t.Alive) := by
  rintro ⟨-, kept, -⟩
  exact kept (0x100000001, 0x100000001) (by decide) (by decide)

/-! ## The state zero -/

/-- In the state zero every result is zero, and the state stays zero. -/
theorem randomU64_of_zero {s : Rng} (initialized : s.rngInitialized) (zero : s.state = (0, 0))
    (rdtsc : Readings) :
    (randomU64 rdtsc s).1 = 0 ∧ (randomU64 rdtsc s).2.state = (0, 0) := by
  have words := Prod.mk.inj zero
  rw [randomU64_state, seeded_of_initialized initialized, zero]
  refine ⟨?_, by decide⟩
  simp only [randomU64, seeded_of_initialized initialized, words.1, words.2]
  rfl

/-- A bound that is no power of two does not divide `2 ^ 64`. -/
theorem threshold_pos {bound : BitVec 64} (positive : bound ≠ 0)
    (uneven : bound &&& (bound - 1) ≠ 0) : 0 < -bound % bound := by
  have small := bound.isLt
  have nonzero : bound.toNat ≠ 0 := fun none => positive (BitVec.eq_of_toNat_eq none)
  rw [BitVec.lt_def, BitVec.toNat_umod, BitVec.toNat_neg,
    Nat.mod_eq_of_lt (by omega : 2 ^ 64 - bound.toNat < 2 ^ 64)]
  apply Nat.pos_of_ne_zero
  intro divides
  have whole : bound.toNat ∣ 2 ^ 64 := by
    have rest := Nat.dvd_of_mod_eq_zero divides
    have sum := Nat.dvd_add rest (Nat.dvd_refl bound.toNat)
    rwa [Nat.sub_add_cancel small.le] at sum
  obtain ⟨exponent, -, power⟩ := (Nat.dvd_prime_pow Nat.prime_two).mp whole
  apply uneven
  apply BitVec.eq_of_toNat_eq
  have pred : (bound - 1).toNat = 2 ^ exponent - 1 := by
    rw [BitVec.toNat_sub, power]
    have one : (1 : BitVec 64).toNat = 1 := rfl
    rw [one]
    omega
  rw [BitVec.toNat_and, pred, power, Nat.and_two_pow_sub_one_eq_mod, Nat.mod_self]
  rfl

/-- From the state zero a bounded random number is never found, unless the bound is zero
or a power of two. -/
theorem randomBoundedU64_of_zero {s : Rng} {bound : BitVec 64} (initialized : s.rngInitialized)
    (zero : s.state = (0, 0)) (uneven : bound &&& (bound - 1) ≠ 0) (rdtsc : Readings) (fuel : Nat) :
    randomBoundedU64 rdtsc bound fuel s = none := by
  have positive : bound ≠ 0 := by
    rintro rfl
    exact uneven (by decide)
  have low := threshold_pos positive uneven
  rw [randomBoundedU64, if_neg positive, if_neg uneven, Option.map_eq_none_iff]
  induction fuel generalizing s with
  | zero => rfl
  | succ fuel ih =>
      obtain ⟨result, next⟩ := randomU64_of_zero initialized zero rdtsc
      rw [rejectBelow, if_pos (by rw [result]; exact low)]
      exact ih (randomU64_initialized initialized rdtsc) next

end NTux.Kernel
