import Mathlib.Data.Int.CardIntervalMod
import Mathlib.Data.Nat.Periodic
import Mathlib.Data.Set.Card

/-! # Rejection sampling

A draw is accepted as a value or rejected. Drawing goes on until a draw is accepted
(`drawUntil`). The draws are split evenly if each value comes from as many of them (`EvenSplit`), and
the residues of the numbers below a total are, when the remainder of the total is rejected
(`evenSplit_residues`).
-/

namespace NTux.Foundation

variable {Source Draw Value Other : Type} {accept : Draw → Option Value}

/-- Draw until a draw is accepted; `none` when that outlives its fuel. -/
def drawUntil (next : Source → Draw × Source) (accept : Draw → Option Value) :
    Nat → Source → Option (Value × Source)
  | 0, _ => none
  | fuel + 1, s =>
      match accept (next s).1 with
      | some value => some (value, (next s).2)
      | none => drawUntil next accept fuel (next s).2

/-- The source that hands out the members of a sequence. -/
def fromStream (draws : Nat → Draw) : Draw × (Nat → Draw) := (draws 0, fun i => draws (i + 1))

/-- The draws that are accepted as a value. -/
def drawsOf (accept : Draw → Option Value) (value : Value) : Set Draw :=
  {draw | accept draw = some value}

/-- The draws that are accepted are split by their values into classes of one size. -/
structure EvenSplit (accept : Draw → Option Value) (values : Set Value) (size : Nat) : Prop where
  inside : ∀ draw value, accept draw = some value → value ∈ values
  sizes : ∀ value ∈ values, (drawsOf accept value).ncard = size

theorem drawUntil_succ_of_accept {next : Source → Draw × Source} {s : Source} {value : Value}
    (accepted : accept (next s).1 = some value) (fuel : Nat) :
    drawUntil next accept (fuel + 1) s = some (value, (next s).2) := by
  rw [drawUntil, accepted]

/-- What is returned is the value of some draw. -/
theorem accept_of_drawUntil {next : Source → Draw × Source} {fuel : Nat} {s t : Source}
    {value : Value} (drawn : drawUntil next accept fuel s = some (value, t)) :
    ∃ draw, accept draw = some value := by
  induction fuel generalizing s with
  | zero => cases drawn
  | succ fuel ih =>
      rw [drawUntil] at drawn
      cases accepted : accept (next s).1 with
      | none =>
          rw [accepted] at drawn
          exact ih drawn
      | some other =>
          rw [accepted] at drawn
          obtain ⟨rfl, -⟩ := Prod.mk.inj (Option.some.inj drawn)
          exact ⟨_, accepted⟩

namespace EvenSplit

variable {values : Set Value} {size : Nat}

theorem exists_draw (even : EvenSplit accept values size) (some : 0 < size) {value : Value}
    (member : value ∈ values) : ∃ draw, accept draw = Option.some value :=
  Set.nonempty_of_ncard_ne_zero ((even.sizes value member).trans_ne some.ne')

theorem drawUntil_mem (even : EvenSplit accept values size) {next : Source → Draw × Source}
    {fuel : Nat} {s t : Source} {value : Value}
    (drawn : drawUntil next accept fuel s = some (value, t)) : value ∈ values := by
  obtain ⟨draw, accepted⟩ := accept_of_drawUntil drawn
  exact even.inside draw value accepted

/-- The same under other names of the values. -/
theorem map (even : EvenSplit accept values size) {rename : Value → Other}
    (distinct : Set.InjOn rename values) :
    EvenSplit (fun draw => (accept draw).map rename) (rename '' values) size where
  inside draw other accepted := by
    obtain ⟨value, found, rfl⟩ := Option.map_eq_some_iff.mp accepted
    exact ⟨value, even.inside draw value found, rfl⟩
  sizes := by
    rintro _ ⟨value, member, rfl⟩
    rw [← even.sizes value member]
    congr 1
    ext draw
    constructor
    · intro accepted
      obtain ⟨other, found, same⟩ := Option.map_eq_some_iff.mp accepted
      rwa [distinct (even.inside draw other found) member same] at found
    · intro found
      exact Option.map_eq_some_iff.mpr ⟨value, found, rfl⟩

/-- The same for draws and values that are numbered by those of a source. -/
theorem of_number (even : EvenSplit accept values size) {Draw' Value' : Type}
    {accept' : Draw' → Option Value'} {number : Draw' → Draw} {name : Value' → Value}
    (number_inj : Function.Injective number) (name_inj : Function.Injective name)
    (numbered : ∀ draw value, accept draw = some value → draw ∈ Set.range number)
    (same : ∀ draw, (accept' draw).map name = accept (number draw)) :
    EvenSplit accept' {value | name value ∈ values} size where
  inside draw value accepted := by
    have found := same draw
    rw [accepted] at found
    exact even.inside _ _ found.symm
  sizes value member := by
    rw [← even.sizes (name value) member, ← Set.ncard_image_of_injective _ number_inj]
    congr 1
    ext draw
    constructor
    · rintro ⟨draw', accepted, rfl⟩
      have found := same draw'
      rw [show accept' draw' = some value from accepted] at found
      exact found.symm
    · intro accepted
      obtain ⟨draw', rfl⟩ := numbered draw (name value) accepted
      have found := (same draw').trans accepted
      obtain ⟨value', taken, equal⟩ := Option.map_eq_some_iff.mp found
      exact ⟨draw', name_inj equal ▸ taken, rfl⟩

end EvenSplit

/-! ## Residues -/

/-- In as many whole periods there is each residue once. -/
theorem card_residues {bound residue : Nat} (small : residue < bound) (first periods : Nat) :
    ((Finset.Ico first (first + bound * periods)).filter (· % bound = residue)).card = periods := by
  have positive : 0 < bound := by omega
  have periodic : Function.Periodic (fun n => n % bound = residue) (bound * periods) := by
    intro n
    dsimp only
    rw [Nat.add_mul_mod_self_left]
  rw [Nat.filter_Ico_card_eq_of_periodic _ _ _ periodic]
  have residues : (fun n => n % bound = residue) = (· ≡ residue [MOD bound]) := by
    funext n
    rw [Nat.ModEq, Nat.mod_eq_of_lt small]
  have counted := Nat.count_modEq_card (bound * periods) positive residue
  rw [Nat.mul_mod_right, if_neg (Nat.not_lt_zero _), Nat.mul_div_cancel_left _ positive] at counted
  simp only [residues]
  exact counted

/-- The residues of the numbers below a total, without the remainder of the total. -/
def residueOf (total bound draw : Nat) : Option Nat :=
  if draw < total ∧ total % bound ≤ draw then some (draw % bound) else none

theorem evenSplit_residues {total bound : Nat} (positive : 0 < bound) :
    EvenSplit (residueOf total bound) {residue | residue < bound} (total / bound) where
  inside draw residue accepted := by
    rw [residueOf] at accepted
    split at accepted
    · obtain rfl := Option.some.inj accepted
      exact Nat.mod_lt draw positive
    · cases accepted
  sizes residue small := by
    have total_eq : total % bound + bound * (total / bound) = total := Nat.mod_add_div total bound
    rw [← card_residues small (total % bound) (total / bound), total_eq, ← Set.ncard_coe_finset]
    congr 1
    ext draw
    simp only [drawsOf, residueOf, Set.mem_ofPred_eq, Finset.coe_filter, Finset.mem_Ico]
    constructor
    · intro accepted
      split at accepted
      · next inside => exact ⟨⟨inside.2, inside.1⟩, Option.some.inj accepted⟩
      · cases accepted
    · rintro ⟨⟨low, high⟩, rfl⟩
      rw [if_pos ⟨high, low⟩]

end NTux.Foundation
