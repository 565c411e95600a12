import NTux.Foundation.Sampling
import NTux.Kernel.Random

/-! # Random numbers in a range

`random_bounded_u64`, `random_range_u32` and `random_range_u64` of `random.c`, over the source
of the draws that `random_u64` is one of. A draw that is accepted is split evenly over the
numbers below the bound (`evenSplit_bounded`).

The width of a range of 64 bits is one more than fits when the range is everything. It wraps
to zero, and only the least number is returned (`randomRangeU64_reachesAll_iff`).
-/

namespace NTux.Kernel

open NTux.Foundation

section Source

variable {Source : Type} (next : Source → BitVec 64 × Source)

/-- The loop of `random_bounded_u64`; `none` when it outlives its fuel. -/
def rejectBelowFrom (threshold : BitVec 64) : Nat → Source → Option (BitVec 64 × Source)
  | 0, _ => none
  | fuel + 1, s =>
      if (next s).1 < threshold then rejectBelowFrom threshold fuel (next s).2 else some (next s)

/-- `random_bounded_u64`. -/
def boundedFrom (bound : BitVec 64) (fuel : Nat) (s : Source) : Option (BitVec 64 × Source) :=
  if bound = 0 then some (0, s)
  else if bound &&& (bound - 1) = 0 then some ((next s).1 &&& (bound - 1), (next s).2)
  else (rejectBelowFrom next (-bound % bound) fuel s).map fun (x, s) => (x % bound, s)

/-- `random_range_u32`. -/
def rangeU32From (min max : BitVec 32) (fuel : Nat) (s : Source) : Option (BitVec 32 × Source) :=
  if max ≤ min then some (min, s)
  else
    let range := max.setWidth 64 - min.setWidth 64 + 1
    (boundedFrom next range fuel s).map fun (r, s) => ((min.setWidth 64 + r).setWidth 32, s)

/-- `random_range_u64`. -/
def rangeU64From (min max : BitVec 64) (fuel : Nat) (s : Source) : Option (BitVec 64 × Source) :=
  if max ≤ min then some (min, s)
  else
    let range := max - min + 1
    (boundedFrom next range fuel s).map fun (r, s) => (min + r, s)

end Source

/-! ## The kernel's source -/

theorem rejectBelowFrom_randomU64 (rdtsc : Readings) (threshold : BitVec 64) (fuel : Nat) (s : Rng) :
    rejectBelowFrom (randomU64 rdtsc) threshold fuel s = rejectBelow rdtsc threshold fuel s := by
  induction fuel generalizing s with
  | zero => rfl
  | succ fuel ih => rw [rejectBelowFrom, rejectBelow, ih]

theorem boundedFrom_randomU64 (rdtsc : Readings) (bound : BitVec 64) (fuel : Nat) (s : Rng) :
    boundedFrom (randomU64 rdtsc) bound fuel s = randomBoundedU64 rdtsc bound fuel s := by
  rw [boundedFrom, randomBoundedU64, rejectBelowFrom_randomU64]

/-! ## Draws that are accepted -/

/-- What a draw is accepted as by `random_bounded_u64`. -/
def boundedOf (bound draw : BitVec 64) : Option (BitVec 64) :=
  if bound &&& (bound - 1) = 0 then some (draw &&& (bound - 1))
  else if draw < -bound % bound then none
  else some (draw % bound)

variable {Source : Type} {next : Source → BitVec 64 × Source} {bound : BitVec 64}

/-- Drawing below a bound is drawing until a draw is accepted. -/
theorem boundedFrom_eq (positive : bound ≠ 0) (fuel : Nat) (s : Source) :
    boundedFrom next bound (fuel + 1) s = drawUntil next (boundedOf bound) (fuel + 1) s := by
  rw [boundedFrom, if_neg positive]
  by_cases power : bound &&& (bound - 1) = 0
  · rw [if_pos power, drawUntil, boundedOf, if_pos power]
  · rw [if_neg power]
    generalize fuel + 1 = fuel
    induction fuel generalizing s with
    | zero => rfl
    | succ fuel ih =>
        rw [drawUntil, boundedOf, if_neg power, rejectBelowFrom]
        by_cases low : (next s).1 < -bound % bound
        · rw [if_pos low, if_pos low, ih]
        · rw [if_neg low, if_neg low]
          rfl

theorem toNat_pos (positive : bound ≠ 0) : 0 < bound.toNat :=
  Nat.pos_of_ne_zero fun none => positive (BitVec.eq_of_toNat_eq none)

/-- The threshold is the remainder of `2 ^ 64`. -/
theorem threshold_toNat (positive : bound ≠ 0) :
    (-bound % bound).toNat = 2 ^ 64 % bound.toNat := by
  have small := bound.isLt
  have nonzero := toNat_pos positive
  rw [BitVec.toNat_umod, BitVec.toNat_neg,
    Nat.mod_eq_of_lt (by omega : 2 ^ 64 - bound.toNat < 2 ^ 64), ← Nat.mod_eq_sub_mod small.le]

/-- A bound that shares no bit with its predecessor is a power of two. -/
theorem power_of_and_pred (positive : bound ≠ 0) (power : bound &&& (bound - 1) = 0) :
    ∃ k, bound.toNat = 2 ^ k ∧ (bound - 1).toNat = 2 ^ k - 1 ∧ 2 ^ 64 % bound.toNat = 0 := by
  have nonzero := toNat_pos positive
  have pred : (bound - 1).toNat = bound.toNat - 1 := by
    have small := bound.isLt
    rw [BitVec.toNat_sub]
    have one : (1 : BitVec 64).toNat = 1 := rfl
    rw [one]
    omega
  have bits := congrArg BitVec.toNat power
  rw [BitVec.toNat_and, pred] at bits
  obtain ⟨k, whole⟩ := (Nat.and_sub_one_eq_zero_iff_isPowerOfTwo nonzero.ne').mp bits
  refine ⟨k, whole, by rw [pred, whole], ?_⟩
  have inside : 2 ^ k < 2 ^ 64 := whole ▸ bound.isLt
  have less : k ≤ 64 := (Nat.pow_lt_pow_iff_right (by decide)).mp inside |>.le
  rw [whole]
  exact Nat.mod_eq_zero_of_dvd (Nat.pow_dvd_pow 2 less)

/-- The value of a draw is a residue of its number. -/
theorem boundedOf_toNat (positive : bound ≠ 0) (draw : BitVec 64) :
    (boundedOf bound draw).map BitVec.toNat = residueOf (2 ^ 64) bound.toNat draw.toNat := by
  have inside := draw.isLt
  rw [boundedOf, residueOf]
  by_cases power : bound &&& (bound - 1) = 0
  · obtain ⟨k, whole, pred, none⟩ := power_of_and_pred positive power
    rw [if_pos power, none, if_pos ⟨inside, Nat.zero_le _⟩, Option.map_some, BitVec.toNat_and,
      pred, whole, Nat.and_two_pow_sub_one_eq_mod]
  · have below : draw < -bound % bound ↔ draw.toNat < 2 ^ 64 % bound.toNat := by
      rw [BitVec.lt_def, threshold_toNat positive]
    rw [if_neg power]
    by_cases low : draw < -bound % bound
    · rw [if_pos low, if_neg fun both => absurd (below.mp low) (not_lt.mpr both.2)]
      rfl
    · rw [if_neg low, if_pos ⟨inside, not_lt.mp fun less => low (below.mpr less)⟩, Option.map_some,
        BitVec.toNat_umod]

/-- **The draws.** Each number below the bound has as many accepted draws. -/
theorem evenSplit_bounded (positive : bound ≠ 0) :
    EvenSplit (boundedOf bound) {value | value.toNat < bound.toNat} (2 ^ 64 / bound.toNat) := by
  have residues := @evenSplit_residues (2 ^ 64) _ (toNat_pos positive)
  refine residues.of_number (fun _ _ => BitVec.eq_of_toNat_eq) (fun _ _ => BitVec.eq_of_toNat_eq)
    ?_ (boundedOf_toNat positive)
  intro draw value accepted
  rw [residueOf] at accepted
  split at accepted
  · next inside => exact ⟨BitVec.ofNat 64 draw, BitVec.toNat_ofNat .. |>.trans (Nat.mod_eq_of_lt inside.1)⟩
  · cases accepted

/-- A number that is returned is the value of a draw. -/
theorem accept_of_boundedFrom (positive : bound ≠ 0) {fuel : Nat} {s t : Source} {r : BitVec 64}
    (drawn : boundedFrom next bound fuel s = some (r, t)) : ∃ draw, boundedOf bound draw = some r := by
  cases fuel with
  | zero =>
      rw [boundedFrom, if_neg positive] at drawn
      by_cases power : bound &&& (bound - 1) = 0
      · rw [if_pos power] at drawn
        obtain ⟨rfl, -⟩ := Prod.mk.inj (Option.some.inj drawn)
        exact ⟨(next s).1, by rw [boundedOf, if_pos power]⟩
      · rw [if_neg power] at drawn
        cases drawn
  | succ fuel =>
      rw [boundedFrom_eq positive] at drawn
      exact accept_of_drawUntil drawn

theorem boundedFrom_lt (positive : bound ≠ 0) {fuel : Nat} {s t : Source} {r : BitVec 64}
    (drawn : boundedFrom next bound fuel s = some (r, t)) : r.toNat < bound.toNat := by
  obtain ⟨draw, accepted⟩ := accept_of_boundedFrom positive drawn
  exact (evenSplit_bounded positive).inside draw r accepted

/-- What `random_bounded_u64` returns for its first draw, if it is accepted. -/
def boundedFirst (bound draw : BitVec 64) : Option (BitVec 64) :=
  (boundedFrom fromStream bound 1 fun _ => draw).map Prod.fst

theorem boundedFirst_eq (positive : bound ≠ 0) (draw : BitVec 64) :
    boundedFirst bound draw = boundedOf bound draw := by
  have first : (fromStream fun _ : Nat => draw).1 = draw := rfl
  rw [boundedFirst, boundedFrom_eq positive, drawUntil, first]
  cases boundedOf bound draw with
  | none => rfl
  | some value => rfl

/-! ## Ranges of 64 bits -/

/-- What `random_range_u64` returns with its first draw, if that is accepted. -/
def rangeU64First (min max draw : BitVec 64) : Option (BitVec 64) :=
  (rangeU64From fromStream min max 1 fun _ => draw).map Prod.fst

/-- Only numbers in the range are returned, each of them for some draws and by as many
accepted ones. -/
structure ReachesAll (min max : BitVec 64) : Prop where
  inside : ∀ (Source : Type) (next : Source → BitVec 64 × Source) fuel s value t,
    rangeU64From next min max fuel s = some (value, t) → min ≤ value ∧ value ≤ max
  reached : ∀ value, min ≤ value → value ≤ max → ∃ draws fuel t,
    rangeU64From fromStream min max fuel draws = some (value, t)
  even : ∃ size, ∀ value, min ≤ value → value ≤ max →
    {draw | rangeU64First min max draw = some value}.ncard = size

section Range

variable {min max : BitVec 64}

/-- The width of a range that is not everything. -/
theorem width_toNat (ordered : min ≤ max) (part : ¬ (min = 0 ∧ max = BitVec.allOnes 64)) :
    (max - min + 1).toNat = max.toNat - min.toNat + 1 := by
  have low := min.isLt
  have high := max.isLt
  rw [BitVec.le_def] at ordered
  have fits : max.toNat - min.toNat + 1 < 2 ^ 64 := by
    by_contra wraps
    apply part
    constructor
    · apply BitVec.eq_of_toNat_eq
      change min.toNat = 0
      omega
    · apply BitVec.eq_of_toNat_eq
      rw [BitVec.toNat_allOnes]
      omega
  have one : (1 : BitVec 64).toNat = 1 := rfl
  rw [BitVec.toNat_add, BitVec.toNat_sub, one]
  omega

/-- The numbers of the range are those below its width, from the least on. -/
theorem add_image (ordered : min ≤ max) {width : Nat} (exact : width = max.toNat - min.toNat + 1) :
    (fun r => min + r) '' {r : BitVec 64 | r.toNat < width} = {value | min ≤ value ∧ value ≤ max} := by
  have low := min.isLt
  have high := max.isLt
  rw [BitVec.le_def] at ordered
  ext value
  have within := value.isLt
  constructor
  · rintro ⟨r, less, rfl⟩
    change r.toNat < width at less
    change min.toNat ≤ (min + r).toNat ∧ (min + r).toNat ≤ max.toNat
    rw [BitVec.toNat_add]
    omega
  · rintro ⟨least, most⟩
    rw [BitVec.le_def] at least most
    refine ⟨value - min, ?_, ?_⟩
    · change (value - min).toNat < width
      rw [BitVec.toNat_sub]
      omega
    · exact (BitVec.add_comm ..).trans (BitVec.sub_add_cancel ..)

theorem ne_zero_of_toNat {x : BitVec 64} (positive : 0 < x.toNat) : x ≠ 0 := by
  rintro rfl
  exact absurd positive (by decide)

/-- A range of more than one number that is not everything. -/
theorem reachesAll_of_lt (less : min < max) (part : ¬ (min = 0 ∧ max = BitVec.allOnes 64)) :
    ReachesAll min max := by
  have ordered : min ≤ max := BitVec.le_of_lt less
  have open' : ¬ max ≤ min := BitVec.not_le.mpr less
  have width := width_toNat ordered part
  have positive : max - min + 1 ≠ 0 := ne_zero_of_toNat (by omega)
  have image := add_image ordered width
  have distinct : Set.InjOn (fun r => min + r) {r : BitVec 64 | r.toNat < (max - min + 1).toNat} :=
    fun _ _ _ _ same => (BitVec.add_right_inj _).mp same
  have even := (evenSplit_bounded positive).map distinct
  rw [image] at even
  have first : ∀ draw, rangeU64First min max draw =
      (boundedOf (max - min + 1) draw).map fun r => min + r := by
    intro draw
    rw [← boundedFirst_eq positive, rangeU64First, rangeU64From, if_neg open', boundedFirst,
      Option.map_map, Option.map_map]
    rfl
  refine ⟨?_, ?_, 2 ^ 64 / (max - min + 1).toNat, ?_⟩
  · intro Source next fuel s value t drawn
    rw [rangeU64From, if_neg open'] at drawn
    obtain ⟨⟨r, u⟩, bounded, equal⟩ := Option.map_eq_some_iff.mp drawn
    obtain ⟨rfl, -⟩ := Prod.mk.inj equal
    have member : min + r ∈ (fun r => min + r) ''
        {r : BitVec 64 | r.toNat < (max - min + 1).toNat} :=
      ⟨r, boundedFrom_lt positive bounded, rfl⟩
    rwa [image] at member
  · intro value least most
    have some : 0 < 2 ^ 64 / (max - min + 1).toNat :=
      Nat.div_pos (max - min + 1).isLt.le (toNat_pos positive)
    obtain ⟨draw, accepted⟩ := even.exists_draw some ⟨least, most⟩
    have returned := (first draw).trans accepted
    obtain ⟨⟨_, t⟩, drawn, rfl⟩ := Option.map_eq_some_iff.mp returned
    exact ⟨_, 1, t, drawn⟩
  · intro value least most
    rw [← even.sizes value ⟨least, most⟩]
    congr 1
    ext draw
    rw [drawsOf, Set.mem_ofPred_eq, Set.mem_ofPred_eq, first]

/-- A range of one number needs no draw. -/
theorem reachesAll_self (min : BitVec 64) : ReachesAll min min := by
  have only : ∀ value, min ≤ value → value ≤ min → value = min := fun value least most =>
    BitVec.le_antisymm most least
  refine ⟨?_, ?_, Set.ncard (Set.univ : Set (BitVec 64)), ?_⟩
  · intro Source next fuel s value t drawn
    rw [rangeU64From, if_pos (BitVec.le_refl _)] at drawn
    obtain ⟨rfl, -⟩ := Prod.mk.inj (Option.some.inj drawn)
    exact ⟨(BitVec.le_refl _), (BitVec.le_refl _)⟩
  · intro value least most
    obtain rfl := only value least most
    exact ⟨fun _ => 0, 0, fun _ => 0, by rw [rangeU64From, if_pos (BitVec.le_refl _)]⟩
  · intro value least most
    obtain rfl := only value least most
    congr 1
    refine Set.eq_univ_of_forall fun draw => ?_
    rw [Set.mem_ofPred_eq, rangeU64First, rangeU64From, if_pos (BitVec.le_refl _), Option.map_some]

theorem rangeU64From_everything (fuel : Nat) (s : Source) :
    rangeU64From next 0 (BitVec.allOnes 64) fuel s = some (0, s) := rfl

/-- **Ranges of 64 bits.** The whole range is reached if and only if it is not everything. -/
theorem randomRangeU64_reachesAll_iff (ordered : min ≤ max) :
    ReachesAll min max ↔ ¬ (min = 0 ∧ max = BitVec.allOnes 64) := by
  constructor
  · rintro reaches ⟨rfl, rfl⟩
    -- the width wraps to zero, and zero is all that is returned
    obtain ⟨draws, fuel, t, drawn⟩ := reaches.reached 1 (by decide) (by decide)
    rw [rangeU64From_everything] at drawn
    exact absurd (Prod.mk.inj (Option.some.inj drawn)).1 (by decide)
  · intro part
    rcases eq_or_ne min max with rfl | differ
    · exact reachesAll_self min
    · exact reachesAll_of_lt (BitVec.lt_of_le_ne ordered differ) part

end Range

/-- A die. -/
theorem randomRangeU64_reachesAll_die : ReachesAll 1 6 :=
  (randomRangeU64_reachesAll_iff (by decide)).mpr (by decide)

/-- The range of all numbers. -/
theorem randomRangeU64_reachesAll_everything : ¬ ReachesAll 0 (BitVec.allOnes 64) := by
  intro reaches
  obtain ⟨draws, fuel, t, drawn⟩ := reaches.reached 1 (by decide) (by decide)
  rw [rangeU64From_everything] at drawn
  exact absurd (Prod.mk.inj (Option.some.inj drawn)).1 (by decide)

/-! ## Ranges of 32 bits -/

/-- `range` of `random_range_u32`. -/
def rangeU32 (min max : BitVec 32) : BitVec 64 := max.setWidth 64 - min.setWidth 64 + 1

/-- What `random_range_u32` returns with its first draw, if that is accepted. -/
def rangeU32First (min max : BitVec 32) (draw : BitVec 64) : Option (BitVec 32) :=
  (rangeU32From fromStream min max 1 fun _ => draw).map Prod.fst

/-- The draws that `random_bounded_u64` accepts for the range are split by what is returned
into classes of one size, one for each number of the range. Nothing wraps: the range is as
wide as it should be, the threshold is the remainder, and the sum fits into 32 bits. -/
structure UnbiasedU32 (min max : BitVec 32) : Prop where
  width : (rangeU32 min max).toNat = max.toNat - min.toNat + 1
  threshold : (-rangeU32 min max % rangeU32 min max).toNat = 2 ^ 64 % (rangeU32 min max).toNat
  sum : ∀ (Source : Type) (next : Source → BitVec 64 × Source) fuel s r t,
    boundedFrom next (rangeU32 min max) fuel s = some (r, t) → min.toNat + r.toNat < 2 ^ 32
  inside : ∀ (Source : Type) (next : Source → BitVec 64 × Source) fuel s value t,
    rangeU32From next min max fuel s = some (value, t) → min ≤ value ∧ value ≤ max
  accepted : {draw | boundedFirst (rangeU32 min max) draw ≠ none}.Nonempty
  split : ∀ draw, boundedFirst (rangeU32 min max) draw ≠ none ↔
    ∃ value, min ≤ value ∧ value ≤ max ∧ rangeU32First min max draw = some value
  sizes : ∀ value, min ≤ value → value ≤ max →
    {draw | rangeU32First min max draw = some value}.ncard =
      2 ^ 64 / (rangeU32 min max).toNat

section Range

variable {min max : BitVec 32}

theorem rangeU32_toNat (ordered : min ≤ max) :
    (rangeU32 min max).toNat = max.toNat - min.toNat + 1 := by
  have low := min.isLt
  have high := max.isLt
  rw [BitVec.le_def] at ordered
  have one : (1 : BitVec 64).toNat = 1 := rfl
  rw [rangeU32, BitVec.toNat_add, BitVec.toNat_sub, BitVec.toNat_setWidth, BitVec.toNat_setWidth, one]
  omega

/-- What is returned for a number below the width. -/
def offsetU32 (min : BitVec 32) (r : BitVec 64) : BitVec 32 := (min.setWidth 64 + r).setWidth 32

theorem offsetU32_toNat (ordered : min ≤ max) {r : BitVec 64}
    (less : r.toNat < (rangeU32 min max).toNat) :
    min.toNat + r.toNat < 2 ^ 32 ∧ (offsetU32 min r).toNat = min.toNat + r.toNat := by
  have width := rangeU32_toNat ordered
  have low := min.isLt
  have high := max.isLt
  rw [BitVec.le_def] at ordered
  refine ⟨by omega, ?_⟩
  rw [offsetU32, BitVec.toNat_setWidth, BitVec.toNat_add, BitVec.toNat_setWidth]
  omega

theorem offsetU32_image (ordered : min ≤ max) :
    offsetU32 min '' {r : BitVec 64 | r.toNat < (rangeU32 min max).toNat} =
      {value | min ≤ value ∧ value ≤ max} := by
  have width := rangeU32_toNat ordered
  ext value
  constructor
  · rintro ⟨r, less, rfl⟩
    have sum := (offsetU32_toNat ordered less).2
    change r.toNat < _ at less
    rw [BitVec.le_def] at ordered
    change min.toNat ≤ (offsetU32 min r).toNat ∧ (offsetU32 min r).toNat ≤ max.toNat
    omega
  · rintro ⟨least, most⟩
    rw [BitVec.le_def] at least most
    have within := value.isLt
    have number : (BitVec.ofNat 64 (value.toNat - min.toNat)).toNat = value.toNat - min.toNat := by
      rw [BitVec.toNat_ofNat]
      omega
    have less : (BitVec.ofNat 64 (value.toNat - min.toNat)).toNat < (rangeU32 min max).toNat := by
      omega
    refine ⟨BitVec.ofNat 64 (value.toNat - min.toNat), less, BitVec.eq_of_toNat_eq ?_⟩
    rw [(offsetU32_toNat ordered less).2]
    omega

theorem offsetU32_injOn (ordered : min ≤ max) :
    Set.InjOn (offsetU32 min) {r : BitVec 64 | r.toNat < (rangeU32 min max).toNat} := by
  intro r less r' less' same
  have sum := (offsetU32_toNat ordered less).2
  have sum' := (offsetU32_toNat ordered less').2
  rw [same] at sum
  apply BitVec.eq_of_toNat_eq
  omega

/-- **Ranges of 32 bits** are unbiased. -/
theorem randomRangeU32_unbiased (less : min < max) : UnbiasedU32 min max := by
  have ordered : min ≤ max := BitVec.le_of_lt less
  have open' : ¬ max ≤ min := BitVec.not_le.mpr less
  have width := rangeU32_toNat ordered
  have positive : rangeU32 min max ≠ 0 := ne_zero_of_toNat (by omega)
  have image := offsetU32_image ordered
  have even := (evenSplit_bounded positive).map (offsetU32_injOn ordered)
  rw [image] at even
  have first : ∀ draw, rangeU32First min max draw =
      (boundedOf (rangeU32 min max) draw).map (offsetU32 min) := by
    intro draw
    rw [← boundedFirst_eq positive, rangeU32First, rangeU32From, if_neg open', boundedFirst,
      Option.map_map, Option.map_map]
    rfl
  have some : 0 < 2 ^ 64 / (rangeU32 min max).toNat :=
    Nat.div_pos (rangeU32 min max).isLt.le (toNat_pos positive)
  refine ⟨width, threshold_toNat positive, ?_, ?_, ?_, ?_, ?_⟩
  · intro Source next fuel s r t drawn
    exact (offsetU32_toNat ordered (boundedFrom_lt positive drawn)).1
  · intro Source next fuel s value t drawn
    rw [rangeU32From, if_neg open'] at drawn
    obtain ⟨⟨r, u⟩, bounded, equal⟩ := Option.map_eq_some_iff.mp drawn
    obtain ⟨rfl, -⟩ := Prod.mk.inj equal
    have member : offsetU32 min r ∈ offsetU32 min ''
        {r : BitVec 64 | r.toNat < (rangeU32 min max).toNat} :=
      ⟨r, boundedFrom_lt positive bounded, rfl⟩
    rwa [image] at member
  · obtain ⟨draw, accepted⟩ := even.exists_draw some ⟨BitVec.le_refl min, ordered⟩
    obtain ⟨r, bounded, -⟩ := Option.map_eq_some_iff.mp accepted
    refine ⟨draw, ?_⟩
    rw [Set.mem_ofPred_eq, boundedFirst_eq positive, bounded]
    exact Option.some_ne_none r
  · intro draw
    rw [boundedFirst_eq positive, first]
    constructor
    · intro accepted
      obtain ⟨r, bounded⟩ := Option.ne_none_iff_exists'.mp accepted
      have member := even.inside draw (offsetU32 min r) (by rw [bounded, Option.map_some])
      exact ⟨offsetU32 min r, member.1, member.2, by rw [bounded, Option.map_some]⟩
    · rintro ⟨value, -, -, returned⟩ rejected
      rw [rejected] at returned
      cases returned
  · intro value least most
    rw [← even.sizes value ⟨least, most⟩]
    congr 1
    ext draw
    rw [drawsOf, Set.mem_ofPred_eq, Set.mem_ofPred_eq, first]

end Range

theorem randomRangeU32_unbiased_die : UnbiasedU32 1 6 := randomRangeU32_unbiased (by decide)

end NTux.Kernel
