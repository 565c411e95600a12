import NTux.Foundation.Commands
import NTux.Foundation.Queue
import Mathlib.Data.List.Forall2

/-! # Calls served by commands

Calls that are served by commands one after the other (`Command.each`) behave as an abstract
service does, if every call that fits the abstract state is served as the abstract service serves
it (`each_simulates`). Nothing is said of calls that do not fit.
-/

namespace NTux.Foundation

variable {σ ε α κ : Type} {Abstract Reply : Type}

/-- Calls that fit, each in the state that the calls before it lead to. -/
def FitsAll (abstractly : Abstract → κ → Reply × Abstract) (fits : Abstract → κ → Prop) :
    Abstract → List κ → Prop
  | _, [] => True
  | f, call :: calls => fits f call ∧ FitsAll abstractly fits (abstractly f call).2 calls

/-- Whether all calls fit. -/
instance decidableFitsAll {abstractly : Abstract → κ → Reply × Abstract} {fits : Abstract → κ → Prop}
    [∀ f call, Decidable (fits f call)] : ∀ f calls, Decidable (FitsAll abstractly fits f calls)
  | _, [] => .isTrue trivial
  | f, call :: calls =>
      have : Decidable (FitsAll abstractly fits (abstractly f call).2 calls) :=
        decidableFitsAll _ _
      inferInstanceAs (Decidable (fits f call ∧ FitsAll abstractly fits (abstractly f call).2 calls))

theorem forall₂_concat_left {β γ : Type} {rel : β → γ → Prop} {xs : List β} {x : β} {ys : List γ}
    (all : List.Forall₂ rel (xs ++ [x]) ys) : ∃ zs y, ys = zs ++ [y] ∧ rel x y := by
  induction xs generalizing ys with
  | nil =>
      obtain ⟨y, rest, last, none, rfl⟩ := List.forall₂_cons_left_iff.mp all
      cases none
      exact ⟨[], y, rfl, last⟩
  | cons x' xs ih =>
      obtain ⟨y, rest, -, later, rfl⟩ := List.forall₂_cons_left_iff.mp all
      obtain ⟨zs, z, rfl, last⟩ := ih later
      exact ⟨y :: zs, z, rfl, last⟩

namespace Command

/-- One call after the other. -/
def each (serve : κ → Command σ ε α) : List κ → Command σ ε (List α)
  | [] => pure []
  | call :: calls => do
    let answer ← serve call
    let answers ← each serve calls
    pure (answer :: answers)

/-- Calls of which each is answered. -/
theorem run_each_cons {serve : κ → Command σ ε α} {call : κ} {calls : List κ} {s t u : σ} {a : α}
    {as : List α} (first : (serve call).run s = (.ok a, t))
    (rest : (each serve calls).run t = (.ok as, u)) :
    (each serve (call :: calls)).run s = (.ok (a :: as), u) := by
  rw [each, run_bind_ok first, run_bind_ok rest]
  rfl

/-- **Simulation.** Calls that fit are answered as the abstract service replies. -/
theorem each_simulates {serve : κ → Command σ ε α} {abstractly : Abstract → κ → Reply × Abstract}
    {fits : Abstract → κ → Prop} {stands : σ → Abstract → Prop} {tells : Reply → α → Prop}
    (step : ∀ s f call, stands s f → fits f call → ∃ a t, (serve call).run s = (.ok a, t) ∧
      tells (abstractly f call).1 a ∧ stands t (abstractly f call).2) :
    ∀ {calls : List κ} {s : σ} {f : Abstract}, stands s f → FitsAll abstractly fits f calls →
      ∃ as t, (each serve calls).run s = (.ok as, t) ∧
        List.Forall₂ tells (serveAll abstractly f calls).1 as ∧
        stands t (serveAll abstractly f calls).2 := by
  intro calls
  induction calls with
  | nil => exact fun stands _ => ⟨[], _, rfl, .nil, stands⟩
  | cons call calls ih =>
      intro s f before fit
      obtain ⟨a, t, first, told, between⟩ := step s f call before fit.1
      obtain ⟨as, u, rest, tells, after⟩ := ih between fit.2
      exact ⟨a :: as, u, run_each_cons first rest, .cons told tells, after⟩

end Command

end NTux.Foundation
