import NTux.Cpu.Scheduling

/-! # Threads that never run

`scheduler` takes the first thread that is ready, and the thread that it leaves is ready again.
So from the second thread on the first two take turns, whatever is created later, and no other
thread is ever switched to (`only_firstTwo_run`).
-/

namespace NTux.Cpu

open NTux.Foundation

namespace Threads

variable {s t : Threads} {i j lower upper : Fin maxThreads} {events : List ThreadEvent}

/-- The table is in order, and at most one thread comes before the current one. -/
structure AtFront (s : Threads) : Prop extends s.Orderly where
  front : ∀ i, s.currentThreadId = some i → ∀ j ∈ s.present, ∀ k ∈ s.present, j < i → k < i → j = k

theorem atFront_init (m : Machine) : (init m).AtFront := ⟨orderly_init m, nofun⟩

/-- A thread that is there has a number that was given away. -/
theorem Orderly.val_lt (orderly : s.Orderly) (inside : i ∈ s.present) : i.val < s.nextThreadId := by
  obtain ⟨thread, here⟩ := mem_present.mp inside
  have less := orderly.below i thread here
  rwa [orderly.id i thread here] at less

/-- A new thread comes behind all others. -/
theorem create_present (entry : Word) (block stack : Option Word)
    (inside : i ∈ (s.threadCreate entry block stack).present) :
    i ∈ s.present ∨ s.nextThreadId ≤ i.val := by
  rcases threadCreate_cases s entry block stack with ⟨count, -, same⟩ | ⟨room, base, -, created⟩
  · rw [same] at inside
    exact .inl inside
  · rw [created, mem_present] at inside
    obtain ⟨thread, here⟩ := inside
    by_cases new : i = ⟨s.nextThreadId, room⟩
    · rw [new]
      exact .inr le_rfl
    · have before := (Function.update_of_ne new _ s.threadList).symm.trans here
      exact .inl (mem_present.mpr ⟨thread, before⟩)

theorem Orderly.present_create (orderly : s.Orderly) (entry : Word) (block stack : Option Word)
    (inside : i ∈ s.present) : i ∈ (s.threadCreate entry block stack).present := by
  obtain ⟨thread, here⟩ := mem_present.mp inside
  obtain ⟨kept, after, -⟩ := (orderly.create entry block stack).2 i thread here
  exact mem_present.mpr ⟨kept, after⟩

theorem threadCreate_current (s : Threads) (entry : Word) (block stack : Option Word) :
    (s.threadCreate entry block stack).currentThreadId = s.currentThreadId := by
  rcases threadCreate_cases s entry block stack with ⟨count, -, same⟩ | ⟨room, base, -, created⟩
  · rw [same]
  · rw [created]

/-- The current thread is there. -/
theorem Orderly.current_present (orderly : s.Orderly) (current : s.currentThreadId = some i) :
    i ∈ s.present := by
  obtain ⟨thread, here, -⟩ := orderly.running i current
  exact mem_present.mpr ⟨thread, here⟩

/-- A switch neither brings nor takes a thread. -/
theorem present_switchTo (returnAddress : Word) {new : Thread} {next : Fin maxThreads}
    (differ : s.currentThreadId ≠ some next) (here : s.threadList next = some new) :
    i ∈ (s.switchTo returnAddress next new).2.present ↔ i ∈ s.present := by
  rw [mem_present, mem_present]
  constructor
  · rintro ⟨found, after⟩
    obtain ⟨thread, before, -⟩ := switchTo_found differ here after
    exact ⟨thread, before⟩
  · rintro ⟨thread, before⟩
    obtain ⟨kept, after, -⟩ := switchTo_keeps returnAddress differ here i thread before
    exact ⟨kept, after⟩

/-- Every event leaves at most one thread before the current one. -/
theorem AtFront.step (atFront : s.AtFront) (event : ThreadEvent) : (event.perform s).AtFront := by
  have orderly := atFront.toOrderly
  cases event with
  | compute m => exact ⟨orderly.compute m, atFront.front⟩
  | create entry block stack =>
      refine ⟨(orderly.create entry block stack).1, ?_⟩
      change ∀ i, (s.threadCreate entry block stack).currentThreadId = some i → _
      rw [threadCreate_current]
      intro i current j inside k inside' less less'
      have bound := orderly.val_lt (orderly.current_present current)
      -- A thread before the current one is an old one.
      have old : ∀ l ∈ (s.threadCreate entry block stack).present, l < i → l ∈ s.present := by
        intro l member below
        rcases create_present entry block stack member with old | new
        · exact old
        · have less : l.val < i.val := below
          omega
      exact atFront.front i current j (old j inside less) k (old k inside' less') less less'
  | yield returnAddress =>
      refine ⟨(orderly.yield returnAddress).1, ?_⟩
      change ∀ i, (s.threadYield returnAddress).currentThreadId = some i → _
      rcases s.threadYield_cases returnAddress with ⟨-, same⟩ | ⟨next, new, chosen, here, switched⟩
      · change ∀ i, _ → ∀ j ∈ (s.threadYield returnAddress).present,
          ∀ k ∈ (s.threadYield returnAddress).present, _
        rw [same]
        exact atFront.front
      · change ∀ i, _ → ∀ j ∈ (s.threadYield returnAddress).present,
          ∀ k ∈ (s.threadYield returnAddress).present, _
        rw [switched]
        obtain ⟨differ, -, before⟩ := nextThread_eq_some.mp chosen
        intro i current j inside k inside' less less'
        obtain rfl : next = i := Option.some.inj current
        -- What comes before the first thread that is ready is the old thread.
        have old : ∀ l ∈ s.present, l < next → s.currentThreadId = some l := by
          intro l member below
          by_contra other
          have ready := orderly.isReady_iff.mpr ⟨member, other⟩
          exact nomatch (before l below).symm.trans ready
        have first := old j ((present_switchTo returnAddress differ here).mp inside) less
        have second := old k ((present_switchTo returnAddress differ here).mp inside') less'
        exact Option.some.inj (first.symm.trans second)

theorem AtFront.run (atFront : s.AtFront) (run : Run ThreadCalls s events t) : t.AtFront :=
  run.invariant (fun _ event _ holds taken => by
    obtain rfl := taken
    exact holds.step event) atFront

/-! ## The first two threads -/

/-- The first two threads stay the first two. -/
theorem FirstTwo.step (two : s.FirstTwo lower upper) (orderly : s.Orderly) (event : ThreadEvent) :
    (event.perform s).FirstTwo lower upper := by
  cases event with
  | compute m => exact ⟨two.first, two.second, two.less, two.between⟩
  | create entry block stack =>
      refine ⟨orderly.present_create entry block stack two.first,
        orderly.present_create entry block stack two.second, two.less, fun i inside => ?_⟩
      rcases create_present entry block stack inside with old | new
      · exact two.between i old
      · have bound := orderly.val_lt two.second
        exact .inr (Fin.le_def.mpr (by omega))
  | yield returnAddress =>
      obtain ⟨-, -, -, -, -, two', -⟩ := orderly.yields two returnAddress
      exact two'

/-- Of the threads only the first two run. -/
theorem AtFront.current (atFront : s.AtFront) (two : s.FirstTwo lower upper)
    (current : s.currentThreadId = some i) : i = lower ∨ i = upper := by
  rcases two.between i (atFront.toOrderly.current_present current) with same | above
  · exact .inl same
  · by_contra neither
    have less : upper < i := lt_of_le_of_ne above fun equal => neither (.inr equal.symm)
    have equal := atFront.front i current lower two.first upper two.second (two.less.trans less) less
    exact two.less.ne equal

/-- A thread behind the first two is left as it is. -/
theorem AtFront.untouched (atFront : s.AtFront) (two : s.FirstTwo lower upper) {thread : Thread}
    (notLower : i ≠ lower) (notUpper : i ≠ upper) (here : s.threadList i = some thread)
    (event : ThreadEvent) : (event.perform s).threadList i = some thread := by
  have orderly := atFront.toOrderly
  cases event with
  | compute m => exact here
  | create entry block stack =>
      change (s.threadCreate entry block stack).threadList i = _
      rcases threadCreate_cases s entry block stack with ⟨count, -, same⟩ | ⟨room, base, -, created⟩
      · rw [same]
        exact here
      · have differ : i ≠ ⟨s.nextThreadId, room⟩ := by
          rintro rfl
          exact nomatch (orderly.free room).symm.trans here
        rw [created]
        exact (Function.update_of_ne differ _ _).trans here
  | yield returnAddress =>
      change (s.threadYield returnAddress).threadList i = _
      rcases s.threadYield_cases returnAddress with ⟨-, same⟩ | ⟨next, new, chosen, here', switched⟩
      · rw [same]
        exact here
      · obtain ⟨differ, -⟩ := nextThread_spec chosen
        have oneOf : next = lower ∨ next = upper := by
          rw [Option.some.inj (chosen.symm.trans (orderly.nextThread two))]
          split
          · exact .inr rfl
          · exact .inl rfl
        have notNext : i ≠ next := by
          rintro rfl
          exact oneOf.elim notLower notUpper
        have notCurrent : s.currentThreadId ≠ some i := fun current =>
          (atFront.current two current).elim notLower notUpper
        rw [switched, switchTo_threadList returnAddress new differ, if_neg notNext,
          if_neg notCurrent]
        exact here

/-! ## What is switched to -/

/-- The threads that the yields among some events switch to. -/
def switches : Threads → List ThreadEvent → List (Fin maxThreads)
  | _, [] => []
  | s, .yield returnAddress :: events =>
      (s.dispatch returnAddress).toList ++ switches (s.threadYield returnAddress) events
  | s, event :: events => switches (event.perform s) events

/-- The first two threads by turns. -/
def byTurns (first second : Fin maxThreads) : Nat → List (Fin maxThreads)
  | 0 => []
  | count + 1 => first :: byTurns second first count

/-- How often the threads yield. -/
def yields (events : List ThreadEvent) : Nat :=
  events.countP fun
    | .yield _ => true
    | _ => false

/-- The one of the first two threads that does not run. -/
def other (lower upper : Fin maxThreads) (s : Threads) : Fin maxThreads :=
  if s.currentThreadId = some lower then upper else lower

/-- The one of the first two threads that runs, or is the next but one to run. -/
def own (lower upper : Fin maxThreads) (s : Threads) : Fin maxThreads :=
  if s.currentThreadId = some lower then lower else upper

/-- The yields switch between the first two threads by turns. -/
theorem AtFront.switches_eq (events : List ThreadEvent) : ∀ {s : Threads}, s.AtFront →
    s.FirstTwo lower upper → s.switches events =
      byTurns (s.other lower upper) (s.own lower upper) (yields events) := by
  induction events with
  | nil => exact fun _ _ => rfl
  | cons event events ih =>
      intro s atFront two
      have later := ih (atFront.step event) (two.step atFront.toOrderly event)
      cases event with
      | compute m => exact later
      | create entry block stack =>
          unfold other own at later ⊢
          change switches (s.threadCreate entry block stack) events = _
          change switches (s.threadCreate entry block stack) events = byTurns
            (if (s.threadCreate entry block stack).currentThreadId = some lower then _ else _)
            (if (s.threadCreate entry block stack).currentThreadId = some lower then _ else _) _
            at later
          rw [threadCreate_current] at later
          exact later
      | yield returnAddress =>
          obtain ⟨next, chosen, differ, -, -, -, current⟩ :=
            atFront.toOrderly.yields two returnAddress
          have isOther : next = s.other lower upper := by
            rw [dispatch_eq] at chosen
            exact Option.some.inj (chosen.symm.trans (atFront.toOrderly.nextThread two))
          have count : yields (.yield returnAddress :: events) = yields events + 1 :=
            List.countP_cons_of_pos rfl
          change switches (s.threadYield returnAddress) events = byTurns
            ((s.threadYield returnAddress).other lower upper)
            ((s.threadYield returnAddress).own lower upper) _ at later
          have swapped : (s.threadYield returnAddress).other lower upper = s.own lower upper ∧
              (s.threadYield returnAddress).own lower upper = s.other lower upper := by
            unfold other at isOther
            unfold other own
            rw [current]
            by_cases first : s.currentThreadId = some lower
            · rw [if_pos first] at isOther ⊢
              have second : some next ≠ some lower := fun equal =>
                differ (first.trans equal.symm)
              rw [if_neg second, if_neg second, if_pos first]
              exact ⟨rfl, rfl⟩
            · rw [if_neg first] at isOther ⊢
              rw [isOther, if_pos rfl, if_pos rfl, if_neg first]
              exact ⟨rfl, rfl⟩
          change (s.dispatch returnAddress).toList ++
            switches (s.threadYield returnAddress) events = _
          rw [later, swapped.1, swapped.2, chosen, isOther, count]
          rfl

end Threads

/-- **Only the first two threads run.** After any calls from `thread_init` on that leave two
threads or more, all yields switch between the first two by turns, whatever is created meanwhile,
and the entries of all other threads, with the stack pointers they wait on, never change. -/
theorem only_firstTwo_run {m : Machine} {events later : List ThreadEvent} {s t : Threads}
    {lower upper : Fin maxThreads} (first : Run ThreadCalls (.init m) events s)
    (two : s.FirstTwo lower upper) (rest : Run ThreadCalls s later t) :
    s.switches later =
        Threads.byTurns (s.other lower upper) (s.own lower upper) (Threads.yields later) ∧
      ∀ i thread, i ≠ lower → i ≠ upper → s.threadList i = some thread →
        t.threadList i = some thread := by
  have atFront := (Threads.atFront_init m).run first
  refine ⟨Threads.AtFront.switches_eq later atFront two, fun i thread notLower notUpper here => ?_⟩
  have kept : t.AtFront ∧ t.FirstTwo lower upper ∧ t.threadList i = some thread := by
    refine @Run.invariant _ _ _ _ _ _ (fun t => t.AtFront ∧ t.FirstTwo lower upper ∧
      t.threadList i = some thread) ?_ rest ⟨atFront, two, here⟩
    rintro source event target ⟨atFront, two, here⟩ taken
    obtain rfl := taken
    exact ⟨atFront.step event, two.step atFront.toOrderly event,
      atFront.untouched two notLower notUpper here event⟩
  exact kept.2.2

/-- Yields, with a fourth thread created between them. -/
def yieldsAndCreation : List ThreadEvent :=
  [.yield 0x104000, .create 0x105000 (some 0x206100) (some 0x206140), .yield 0x104000,
    .yield 0x104000]

/-- The third thread still waits on its first stack pointer. -/
theorem only_firstTwo_run_three :
    (tableAfter threeThreads).switches yieldsAndCreation = [0, 1, 0] ∧
      (yieldsAndCreation.foldl ThreadEvent.perform (tableAfter threeThreads)).threadList 2 =
        some ⟨0x2040F0, 0x2060E8, .ready, 2, 0x103000⟩ := by
  have two : (tableAfter threeThreads).FirstTwo 0 1 := by
    refine ⟨by decide, by decide, by decide, fun i _ => ?_⟩
    rcases Fin.eq_zero_or_eq_succ i with same | ⟨j, rfl⟩
    · exact .inl same
    · exact .inr (by simp [Fin.le_def])
  obtain ⟨switches, kept⟩ := only_firstTwo_run (run_perform (.init shellMachine) threeThreads) two
    (run_perform (tableAfter threeThreads) yieldsAndCreation)
  exact ⟨switches, kept 2 _ (by decide) (by decide) rfl⟩

end NTux.Cpu
