import Mathlib.Order.Defs.Unbundled

/-! # Commands that may stop

A command takes a state to a value and a state, or stops with a reason and a state. The
state is kept when a command stops, so a caller can go on from there (`attempt`).

`Command.wp` is the weakest precondition for a pair of postconditions, one for values and
one for reasons. A relation between the states before and after that composes is kept by
every command whose parts keep it (`Command.Obeys`).
-/

namespace NTux.Foundation

variable {σ τ ε α β : Type}

/-- A command over states `σ` that may stop with a reason `ε`. -/
def Command (σ ε α : Type) : Type := σ → Except ε α × σ

namespace Command

def run (c : Command σ ε α) (s : σ) : Except ε α × σ := c s

instance : Monad (Command σ ε) where
  pure a := fun s => (.ok a, s)
  bind c f := fun s =>
    match c s with
    | (.ok a, t) => f a t
    | (.error e, t) => (.error e, t)

/-- Stop with a reason. -/
def stop (e : ε) : Command σ ε α := fun s => (.error e, s)

/-- A part of the state. -/
def gets (f : σ → α) : Command σ ε α := fun s => (.ok (f s), s)

/-- Change the state. -/
def modify (f : σ → σ) : Command σ ε Unit := fun s => (.ok (), f s)

/-- Run a command and go on if it stops. -/
def attempt (c : Command σ ε α) : Command σ ε (Except ε α) := fun s => (.ok (c s).1, (c s).2)

/-- A command on a part of a larger state. -/
def zoom (get : τ → σ) (set : σ → τ → τ) (c : Command σ ε α) : Command τ ε α := fun t =>
  ((c (get t)).1, set (c (get t)).2 t)

/-! ## Results -/

@[simp] theorem run_pure (a : α) (s : σ) : (pure a : Command σ ε α).run s = (.ok a, s) := rfl

@[simp] theorem run_attempt (c : Command σ ε α) (s : σ) :
    (attempt c).run s = (.ok (c.run s).1, (c.run s).2) := rfl

@[simp] theorem run_zoom (get : τ → σ) (set : σ → τ → τ) (c : Command σ ε α) (t : τ) :
    (zoom get set c).run t = ((c.run (get t)).1, set (c.run (get t)).2 t) := rfl

theorem run_bind (c : Command σ ε α) (f : α → Command σ ε β) (s : σ) :
    (c >>= f).run s =
      match c.run s with
      | (.ok a, t) => (f a).run t
      | (.error e, t) => (.error e, t) := rfl

/-- After a command that gives a value. -/
theorem run_bind_ok {c : Command σ ε α} {f : α → Command σ ε β} {s t : σ} {a : α}
    (done : c.run s = (.ok a, t)) : (c >>= f).run s = (f a).run t := by
  rw [run_bind, done]

/-- After a command that stops. -/
theorem run_bind_error {c : Command σ ε α} {f : α → Command σ ε β} {s t : σ} {e : ε}
    (stopped : c.run s = (.error e, t)) : (c >>= f).run s = (.error e, t) := by
  rw [run_bind, stopped]

@[simp] theorem run_gets_bind (f : σ → α) (g : α → Command σ ε β) (s : σ) :
    (gets f >>= g).run s = (g (f s)).run s := rfl

@[simp] theorem run_modify_bind (f : σ → σ) (g : Unit → Command σ ε β) (s : σ) :
    (modify f >>= g).run s = (g ()).run (f s) := rfl

/-- A sequence in front of a command. -/
theorem bind_bind {γ : Type} (c : Command σ ε α) (f : α → Command σ ε β)
    (g : β → Command σ ε γ) : c >>= f >>= g = c >>= fun a => f a >>= g := by
  funext s
  change (c >>= f >>= g).run s = (c >>= fun a => f a >>= g).run s
  rw [run_bind, run_bind, run_bind]
  generalize c.run s = ended
  obtain ⟨_ | a, t⟩ := ended
  · rfl
  · rfl

/-- A sequence that gives a value does so in both parts. -/
theorem of_run_bind_ok {c : Command σ ε α} {f : α → Command σ ε β} {s u : σ} {b : β}
    (done : (c >>= f).run s = (.ok b, u)) :
    ∃ a t, c.run s = (.ok a, t) ∧ (f a).run t = (.ok b, u) := by
  rw [run_bind] at done
  split at done
  · next a t first => exact ⟨a, t, first, done⟩
  · cases done

/-- A sequence that stops does so in one of the parts. -/
theorem of_run_bind_error {c : Command σ ε α} {f : α → Command σ ε β} {s u : σ} {e : ε}
    (stopped : (c >>= f).run s = (.error e, u)) :
    c.run s = (.error e, u) ∨ ∃ a t, c.run s = (.ok a, t) ∧ (f a).run t = (.error e, u) := by
  rw [run_bind] at stopped
  split at stopped
  · next a t first => exact .inr ⟨a, t, first, stopped⟩
  · next e t first =>
      cases stopped
      exact .inl first

/-! ## Preconditions -/

/-- The command ends in `value` or stops in `reason`. -/
def wp (c : Command σ ε α) (value : α → σ → Prop) (reason : ε → σ → Prop) (s : σ) : Prop :=
  match c.run s with
  | (.ok a, t) => value a t
  | (.error e, t) => reason e t

section Rules

variable {value : α → σ → Prop} {reason : ε → σ → Prop} {s : σ}

theorem wp_pure {a : α} (holds : value a s) : (pure a : Command σ ε α).wp value reason s := holds

theorem wp_stop {e : ε} (holds : reason e s) : (stop e : Command σ ε α).wp value reason s := holds

theorem wp_bind {c : Command σ ε α} {f : α → Command σ ε β} {value : β → σ → Prop}
    (holds : c.wp (fun a t => (f a).wp value reason t) reason s) :
    (c >>= f).wp value reason s := by
  unfold wp at holds ⊢
  rw [run_bind]
  revert holds
  generalize c.run s = result
  rcases result with ⟨_ | _, t⟩ <;> exact id

theorem wp.mono {c : Command σ ε α} {value' : α → σ → Prop} {reason' : ε → σ → Prop}
    (holds : c.wp value reason s) (values : ∀ a t, value a t → value' a t)
    (reasons : ∀ e t, reason e t → reason' e t) : c.wp value' reason' s := by
  unfold wp at holds ⊢
  revert holds
  generalize c.run s = result
  rcases result with ⟨e | a, t⟩
  · exact reasons e t
  · exact values a t

theorem wp.of_ok {c : Command σ ε α} (holds : c.wp value reason s) {a : α} {t : σ}
    (done : c.run s = (.ok a, t)) : value a t := by
  rw [wp, done] at holds
  exact holds

theorem wp.of_error {c : Command σ ε α} (holds : c.wp value reason s) {e : ε} {t : σ}
    (stopped : c.run s = (.error e, t)) : reason e t := by
  rw [wp, stopped] at holds
  exact holds

end Rules

/-! ## Relations that commands keep -/

/-- From every state the command ends in a state that `kept` relates to it, or stops as
`failed` says. -/
def Obeys (c : Command σ ε α) (kept : σ → σ → Prop) (failed : σ → ε → σ → Prop) : Prop :=
  ∀ s, c.wp (fun _ t => kept s t) (failed s) s

/-- The relations of a sequence follow from those of its parts. -/
structure Composes (kept : σ → σ → Prop) (failed : σ → ε → σ → Prop) : Prop where
  refl : ∀ s, kept s s
  trans : ∀ {s t u}, kept s t → kept t u → kept s u
  after : ∀ {s t e u}, kept s t → failed t e u → failed s e u

section Obeys

variable {kept : σ → σ → Prop} {failed : σ → ε → σ → Prop}

theorem Composes.pure (law : Composes kept failed) (a : α) :
    (pure a : Command σ ε α).Obeys kept failed := fun s => wp_pure (law.refl s)

theorem Composes.gets (law : Composes kept failed) (f : σ → α) :
    (gets f : Command σ ε α).Obeys kept failed := fun s => law.refl s

theorem Composes.bind (law : Composes kept failed) {c : Command σ ε α} {f : α → Command σ ε β}
    (first : c.Obeys kept failed) (second : ∀ a, (f a).Obeys kept failed) :
    (c >>= f).Obeys kept failed := by
  intro s
  apply wp_bind
  apply (first s).mono
  · intro a t before
    exact (second a t).mono (fun _ _ later => law.trans before later)
      fun _ _ later => law.after before later
  · exact fun _ _ stopped => stopped

theorem Obeys.ite {condition : Prop} [Decidable condition] {c d : Command σ ε α}
    (yes : condition → c.Obeys kept failed) (no : ¬ condition → d.Obeys kept failed) :
    (if condition then c else d).Obeys kept failed := by
  split
  · next holds => exact yes holds
  · next fails => exact no fails

end Obeys

/-! ## Parts of the state that commands leave alone -/

/-- The command does not change a part of the state, whether it stops or not. -/
def Keeps (part : σ → τ) (c : Command σ ε α) : Prop := ∀ s, part (c.run s).2 = part s

section Keeps

variable {part : σ → τ}

theorem Keeps.bind {c : Command σ ε α} {f : α → Command σ ε β} (first : c.Keeps part)
    (second : ∀ a, (f a).Keeps part) : (c >>= f).Keeps part := by
  intro s
  have before := first s
  rw [run_bind]
  generalize c.run s = ended at before ⊢
  obtain ⟨_ | a, t⟩ := ended
  · exact before
  · exact (second a t).trans before

/-- The part, where a run has ended. -/
theorem Keeps.of_run {c : Command σ ε α} {s t : σ} {result : Except ε α} (keeps : c.Keeps part)
    (ran : c.run s = (result, t)) : part t = part s := by
  have same := keeps s
  rwa [ran] at same

theorem keeps_pure (a : α) : (pure a : Command σ ε α).Keeps part := fun _ => rfl

theorem keeps_gets (f : σ → α) : (gets f : Command σ ε α).Keeps part := fun _ => rfl

theorem keeps_stop (e : ε) : (stop e : Command σ ε α).Keeps part := fun _ => rfl

theorem keeps_modify {f : σ → σ} (same : ∀ s, part (f s) = part s) :
    (modify f : Command σ ε Unit).Keeps part := same

theorem Keeps.ite {condition : Prop} [Decidable condition] {c d : Command σ ε α}
    (yes : c.Keeps part) (no : d.Keeps part) : (if condition then c else d).Keeps part := by
  split
  · exact yes
  · exact no

end Keeps

/-! ## Relations between a part before and after -/

/-- The part of the state before the command is related to the one after it, whether the command
stops or not. -/
def Relates (rel : τ → τ → Prop) (part : σ → τ) (c : Command σ ε α) : Prop :=
  ∀ s, rel (part s) (part (c.run s).2)

section Relates

variable {rel : τ → τ → Prop} [IsPreorder τ rel] {part : σ → τ}

theorem Relates.bind {c : Command σ ε α} {f : α → Command σ ε β} (first : c.Relates rel part)
    (second : ∀ a, (f a).Relates rel part) : (c >>= f).Relates rel part := by
  intro s
  have before := first s
  rw [run_bind]
  generalize c.run s = ended at before ⊢
  obtain ⟨_ | a, t⟩ := ended
  · exact before
  · exact trans_of rel before (second a t)

theorem Keeps.relates {c : Command σ ε α} (keeps : c.Keeps part) : c.Relates rel part := fun s => by
  rw [keeps s]
  exact refl_of rel _

theorem relates_pure (a : α) : (pure a : Command σ ε α).Relates rel part := (keeps_pure a).relates

theorem relates_gets (f : σ → α) : (gets f : Command σ ε α).Relates rel part :=
  (keeps_gets f).relates

theorem relates_stop (e : ε) : (stop e : Command σ ε α).Relates rel part := (keeps_stop e).relates

theorem relates_modify {f : σ → σ} (same : ∀ s, part (f s) = part s) :
    (modify f : Command σ ε Unit).Relates rel part := (keeps_modify same).relates

omit [IsPreorder τ rel] in
theorem Relates.ite {condition : Prop} [Decidable condition] {c d : Command σ ε α}
    (yes : c.Relates rel part) (no : d.Relates rel part) :
    (if condition then c else d).Relates rel part := by
  split
  · exact yes
  · exact no

omit [IsPreorder τ rel] in
theorem Relates.attempt {c : Command σ ε α} (relates : c.Relates rel part) :
    (attempt c).Relates rel part := relates

omit [IsPreorder τ rel] in
/-- What is done to a part of a larger state. -/
theorem Relates.zoom {υ : Type} {get : υ → σ} {set : σ → υ → υ} {larger : υ → τ}
    {c : Command σ ε α} (relates : c.Relates rel part) (before : ∀ u, larger u = part (get u))
    (after : ∀ s u, larger (set s u) = part s) : (Command.zoom get set c).Relates rel larger := by
  intro u
  rw [run_zoom, before, after]
  exact relates (get u)

end Relates

end Command

end NTux.Foundation
