import NTux.Cpu.ThreadRuns
import Mathlib.Data.Finset.Max
import Mathlib.Data.Fintype.Card

/-! # Scheduling

The thread table stays in order over all calls of `thread_create` and `thread_yield`, whatever
`kmalloc` returns and whatever runs between the calls (`threads_orderly`).

`scheduler` takes the first thread that is ready, from the start of the table. That is the next
one behind the current thread as long as nothing is ready behind it, or nothing up to it; with
three threads or more the first two take turns (`scheduler_roundRobin_iff`).
-/

namespace NTux.Cpu

open NTux.Foundation

namespace Threads

/-! ## Calls -/

/-- `thread_yield`, up to where the new context goes on. -/
def threadYield (returnAddress : Word) (s : Threads) : Threads :=
  (s.scheduler returnAddress).elim s Prod.snd

end Threads

/-- What an event does to the machine and the table. -/
def ThreadEvent.perform (s : Threads) : ThreadEvent → Threads
  | compute m => { s with toMachine := m }
  | create entry block stack => s.threadCreate entry block stack
  | yield returnAddress => s.threadYield returnAddress

/-- Calls, and whatever runs between them. -/
def ThreadCalls (s : Threads) (event : ThreadEvent) (t : Threads) : Prop := t = event.perform s

namespace Threads

variable {s t u : Threads} {i j next : Fin maxThreads}

/-- `thread_yield` does nothing, or it switches to the next thread. -/
theorem threadYield_cases (returnAddress : Word) (s : Threads) :
    s.nextThread = none ∧ s.threadYield returnAddress = s ∨
    ∃ next new, s.nextThread = some next ∧ s.threadList next = some new ∧
      s.threadYield returnAddress = (s.switchTo returnAddress next new).2 := by
  unfold threadYield scheduler
  cases chosen : s.nextThread with
  | none => exact .inl ⟨rfl, rfl⟩
  | some next =>
      obtain ⟨-, new, present, -⟩ := nextThread_spec chosen
      refine .inr ⟨next, new, rfl, present, ?_⟩
      rw [Option.bind_some, present]
      rfl

/-! ## The table -/

/-- **The thread table.** Every entry has its place as its id, below the number of the next
thread; the current thread is there and is the only one that runs, and all others are ready. -/
structure Orderly (s : Threads) : Prop where
  id : ∀ i thread, s.threadList i = some thread → thread.id = i
  below : ∀ i thread, s.threadList i = some thread → thread.id < s.nextThreadId
  count : s.nextThreadId ≤ maxThreads
  single : ∀ i j first second, s.threadList i = some first → s.threadList j = some second →
    first.state = .running → second.state = .running → i = j
  running : ∀ i, s.currentThreadId = some i →
    ∃ thread, s.threadList i = some thread ∧ thread.state = .running
  ready : ∀ i thread, s.threadList i = some thread → s.currentThreadId ≠ some i →
    thread.state = .ready

/-- The threads are still in the table, with their ids and their entry points. -/
def Keeps (s t : Threads) : Prop :=
  ∀ i thread, s.threadList i = some thread → ∃ kept, t.threadList i = some kept ∧
    kept.id = thread.id ∧ kept.entryPoint = thread.entryPoint

theorem Keeps.refl (s : Threads) : s.Keeps s := fun _ thread present => ⟨thread, present, rfl, rfl⟩

theorem Keeps.trans (first : s.Keeps t) (second : t.Keeps u) : s.Keeps u := by
  intro i thread present
  obtain ⟨middle, present', id, entryPoint⟩ := first i thread present
  obtain ⟨last, present'', id', entryPoint'⟩ := second i middle present'
  exact ⟨last, present'', id'.trans id, entryPoint'.trans entryPoint⟩

theorem orderly_init (m : Machine) : (init m).Orderly where
  id := nofun
  below := nofun
  count := Nat.zero_le _
  single := nofun
  running := nofun
  ready := nofun

/-- A number may be given away without a thread. -/
theorem Orderly.skip (orderly : s.Orderly) {count : Nat} (more : s.nextThreadId ≤ count)
    (bounded : count ≤ maxThreads) : Orderly { s with nextThreadId := count } where
  id := orderly.id
  below i thread present := (orderly.below i thread present).trans_le more
  count := bounded
  single := orderly.single
  running := orderly.running
  ready := orderly.ready

/-- The entry of the next number is free. -/
theorem Orderly.free (orderly : s.Orderly) (room : s.nextThreadId < maxThreads) :
    s.threadList ⟨s.nextThreadId, room⟩ = none := by
  by_contra present
  obtain ⟨thread, present⟩ := Option.ne_none_iff_exists'.mp present
  have equal := orderly.id _ _ present
  have less := orderly.below _ _ present
  rw [equal] at less
  exact absurd less (Nat.lt_irrefl _)

/-- A thread is entered under the next number. -/
theorem Orderly.enter (orderly : s.Orderly) (room : s.nextThreadId < maxThreads) (mem : Word → Byte)
    {thread : Thread} (id : thread.id = s.nextThreadId) (ready : thread.state = .ready) :
    Orderly { s with
      mem := mem
      nextThreadId := s.nextThreadId + 1
      threadList := Function.update s.threadList ⟨s.nextThreadId, room⟩ (some thread) } := by
  have free := orderly.free room
  generalize slot : (⟨s.nextThreadId, room⟩ : Fin maxThreads) = new at free ⊢
  have place : s.nextThreadId = new := congrArg Fin.val slot
  have entry : ∀ i found, Function.update s.threadList new (some thread) i = some found →
      i = new ∧ found = thread ∨ i ≠ new ∧ s.threadList i = some found := by
    intro i found present
    by_cases same : i = new
    · subst same
      rw [Function.update_self] at present
      exact .inl ⟨rfl, (Option.some.inj present).symm⟩
    · rw [Function.update_of_ne same] at present
      exact .inr ⟨same, present⟩
  have old : ∀ i found, s.threadList i = some found → i ≠ new := by
    rintro i found present rfl
    exact nomatch free.symm.trans present
  have notRunning : thread.state ≠ .running := by
    rw [ready]
    exact nofun
  refine ⟨?_, ?_, room, ?_, ?_, ?_⟩
  · intro i found present
    rcases entry i found present with ⟨rfl, rfl⟩ | ⟨-, present⟩
    · exact id.trans place
    · exact orderly.id i found present
  · intro i found present
    rcases entry i found present with ⟨rfl, rfl⟩ | ⟨-, present⟩
    · exact id.trans_lt (Nat.lt_succ_self _)
    · exact Nat.lt_succ_of_lt (orderly.below i found present)
  · intro i j first second present present' runs runs'
    rcases entry i first present with ⟨-, rfl⟩ | ⟨-, present⟩
    · exact absurd runs notRunning
    · rcases entry j second present' with ⟨-, rfl⟩ | ⟨-, present'⟩
      · exact absurd runs' notRunning
      · exact orderly.single i j first second present present' runs runs'
  · intro i current
    obtain ⟨found, present, runs⟩ := orderly.running i current
    refine ⟨found, ?_, runs⟩
    exact (Function.update_of_ne (old i found present) _ _).trans present
  · intro i found present current
    rcases entry i found present with ⟨-, rfl⟩ | ⟨-, present⟩
    · exact ready
    · exact orderly.ready i found present current

/-- `thread_create` keeps the table in order, and the threads that are there. -/
theorem Orderly.create (orderly : s.Orderly) (entry : Word) (block stack : Option Word) :
    (s.threadCreate entry block stack).Orderly ∧ s.Keeps (s.threadCreate entry block stack) := by
  unfold threadCreate
  split
  · next room =>
      cases block with
      | none => exact ⟨orderly, .refl s⟩
      | some block =>
          cases stack with
          | none => exact ⟨orderly.skip (Nat.le_succ _) room, .refl s⟩
          | some stack =>
              refine ⟨orderly.enter room _ rfl rfl, fun i thread present => ?_⟩
              have differ : i ≠ ⟨s.nextThreadId, room⟩ := by
                rintro rfl
                exact nomatch (orderly.free room).symm.trans present
              exact ⟨thread, (Function.update_of_ne differ _ _).trans present, rfl, rfl⟩
  · exact ⟨orderly, .refl s⟩

/-- An entry after a switch: the new thread runs, the old one is ready, and the others are as
they were. -/
theorem switchTo_found {returnAddress : Word} {new found : Thread}
    (differ : s.currentThreadId ≠ some next) (present : s.threadList next = some new)
    (after : (s.switchTo returnAddress next new).2.threadList i = some found) :
    ∃ thread, s.threadList i = some thread ∧ found.id = thread.id ∧
      found.entryPoint = thread.entryPoint ∧
      found.state = if i = next then .running
        else if s.currentThreadId = some i then .ready else thread.state := by
  rw [switchTo_threadList returnAddress new differ] at after
  split at after
  · next same =>
      subst same
      obtain rfl := Option.some.inj after
      exact ⟨new, present, rfl, rfl, (if_pos rfl).symm⟩
  · next other =>
      split at after
      · next old =>
          obtain ⟨thread, present', rfl⟩ := Option.map_eq_some_iff.mp after
          exact ⟨thread, present', rfl, rfl, by rw [if_neg other, if_pos old]⟩
      · next notOld => exact ⟨found, after, rfl, rfl, by rw [if_neg other, if_neg notOld]⟩

/-- A switch leaves every thread in the table. -/
theorem switchTo_keeps (returnAddress : Word) {new : Thread}
    (differ : s.currentThreadId ≠ some next) (present : s.threadList next = some new) :
    s.Keeps (s.switchTo returnAddress next new).2 := by
  intro i thread present'
  rw [switchTo_threadList returnAddress new differ]
  split
  · next same =>
      subst same
      obtain rfl := Option.some.inj (present.symm.trans present')
      exact ⟨_, rfl, rfl, rfl⟩
  · rw [present']
    split
    · exact ⟨_, rfl, rfl, rfl⟩
    · exact ⟨_, rfl, rfl, rfl⟩

/-- A switch keeps the table in order. -/
theorem Orderly.switch (orderly : s.Orderly) (returnAddress : Word) {new : Thread}
    (differ : s.currentThreadId ≠ some next) (present : s.threadList next = some new) :
    (s.switchTo returnAddress next new).2.Orderly := by
  have found := fun i found => @switchTo_found s i next returnAddress new found differ present
  have kept := switchTo_keeps returnAddress differ present
  have current : (s.switchTo returnAddress next new).2.currentThreadId = some next := rfl
  have count : (s.switchTo returnAddress next new).2.nextThreadId = s.nextThreadId := rfl
  generalize (s.switchTo returnAddress next new).2 = t at found kept current count ⊢
  -- the thread that was running is the old one, which is ready now
  have runs : ∀ i thread, t.threadList i = some thread → thread.state = .running → i = next := by
    intro i thread after running
    obtain ⟨before, present', -, -, state⟩ := found i thread after
    by_contra other
    rw [if_neg other, running] at state
    split at state
    · cases state
    · next notOld =>
        rw [orderly.ready i before present' notOld] at state
        cases state
  refine ⟨?_, ?_, count ▸ orderly.count, ?_, ?_, ?_⟩
  · intro i thread after
    obtain ⟨before, present', id, -⟩ := found i thread after
    exact id.trans (orderly.id i before present')
  · intro i thread after
    obtain ⟨before, present', id, -⟩ := found i thread after
    rw [id, count]
    exact orderly.below i before present'
  · intro i j first second present' present'' running running'
    exact (runs i first present' running).trans (runs j second present'' running').symm
  · intro i isCurrent
    obtain rfl := Option.some.inj (current.symm.trans isCurrent)
    obtain ⟨thread, after, -⟩ := kept next new present
    obtain ⟨_, -, -, -, state⟩ := found next thread after
    exact ⟨thread, after, state.trans (if_pos rfl)⟩
  · intro i thread after notCurrent
    obtain ⟨before, present', -, -, state⟩ := found i thread after
    have other : i ≠ next := fun same => notCurrent (same ▸ current)
    rw [state, if_neg other]
    split
    · rfl
    · next notOld => exact orderly.ready i before present' notOld

/-- `thread_yield` keeps the table in order, and the threads that are there. -/
theorem Orderly.yield (orderly : s.Orderly) (returnAddress : Word) :
    (s.threadYield returnAddress).Orderly ∧ s.Keeps (s.threadYield returnAddress) := by
  rcases s.threadYield_cases returnAddress with ⟨-, stays⟩ | ⟨next, new, chosen, present, switches⟩
  · rw [stays]
    exact ⟨orderly, .refl s⟩
  · obtain ⟨differ, -⟩ := nextThread_spec chosen
    rw [switches]
    exact ⟨orderly.switch returnAddress differ present, switchTo_keeps returnAddress differ present⟩

/-- What runs between the calls does not change the table. -/
theorem Orderly.compute (orderly : s.Orderly) (m : Machine) : Orderly { s with toMachine := m } where
  id := orderly.id
  below := orderly.below
  count := orderly.count
  single := orderly.single
  running := orderly.running
  ready := orderly.ready

/-- Every event keeps the table in order, and the threads that are there. -/
theorem Orderly.step (orderly : s.Orderly) {event : ThreadEvent} (step : ThreadCalls s event t) :
    t.Orderly ∧ s.Keeps t := by
  obtain rfl := step
  cases event with
  | compute m => exact ⟨orderly.compute m, .refl s⟩
  | create entry block stack => exact orderly.create entry block stack
  | yield returnAddress => exact orderly.yield returnAddress

theorem Orderly.run (orderly : s.Orderly) {events : List ThreadEvent}
    (run : Run ThreadCalls s events t) : t.Orderly ∧ s.Keeps t := by
  refine @Run.invariant _ _ _ _ _ _ (fun t => t.Orderly ∧ s.Keeps t) ?_ run ⟨orderly, .refl s⟩
  rintro source event target ⟨orderly, kept⟩ taken
  obtain ⟨orderly', kept'⟩ := orderly.step taken
  exact ⟨orderly', kept.trans kept'⟩

end Threads

/-- **The thread table.** From `thread_init` on, after any calls of `thread_create` and
`thread_yield`, the table is in order, and no later calls take a thread out of it or change its
id or entry point. -/
theorem threads_orderly {m : Machine} {events later : List ThreadEvent} {s t : Threads}
    (first : Run ThreadCalls (.init m) events s) (rest : Run ThreadCalls s later t) :
    s.Orderly ∧ s.Keeps t := by
  have orderly := ((Threads.orderly_init m).run first).1
  exact ⟨orderly, (orderly.run rest).2⟩

/-- A run of events, one after the other. -/
theorem run_perform (s : Threads) (events : List ThreadEvent) :
    Run ThreadCalls s events (events.foldl ThreadEvent.perform s) := by
  induction events generalizing s with
  | nil => exact .nil s
  | cons event events ih => exact .cons rfl (ih _)

/-- Two threads, with a number lost between them as there was no stack, and a switch. -/
def gapCalls : List ThreadEvent :=
  [.create 0x101000 (some 0x200010) (some 0x200050), .create 0x102000 (some 0x202060) none,
    .create 0x103000 (some 0x202060) (some 0x2020A0), .yield 0x104000]

/-- The table after some events on the shell's machine. -/
def tableAfter (events : List ThreadEvent) : Threads :=
  events.foldl ThreadEvent.perform (.init shellMachine)

theorem threads_orderly_gapCalls :
    (tableAfter gapCalls).Orderly ∧
      (tableAfter gapCalls).Keeps ((tableAfter gapCalls).threadYield 0x101010) :=
  threads_orderly (run_perform (.init shellMachine) gapCalls)
    (@Run.single _ _ ThreadCalls _ _ (.yield 0x101010) rfl)

/-! ## The order of the threads -/

namespace Threads

/-- The thread is there and ready. -/
def isReady (s : Threads) (i : Fin maxThreads) : Bool := (s.threadList i).any (·.state = .ready)

/-- The other threads in cyclic order, from the one behind the current thread on. -/
def cyclicOrder (s : Threads) : List (Fin maxThreads) :=
  match s.currentThreadId with
  | none => List.finRange maxThreads
  | some old => (List.finRange maxThreads).filter (old < ·) ++
      (List.finRange maxThreads).filter (· < old)

/-- The thread that round robin goes on with. -/
def roundRobin (s : Threads) : Option (Fin maxThreads) := s.cyclicOrder.find? s.isReady

/-- The thread that `scheduler` switches to. -/
def dispatch (returnAddress : Word) (s : Threads) : Option (Fin maxThreads) :=
  (s.scheduler returnAddress).bind fun switched => switched.2.currentThreadId

/-- No thread behind the current one is ready, or none in front of it or the current one. -/
def OneSided (s : Threads) : Prop :=
  ∀ old, s.currentThreadId = some old →
    (∀ i, old < i → s.isReady i = false) ∨ ∀ i ≤ old, s.isReady i = false

variable {s t : Threads} {i j : Fin maxThreads}

theorem dispatch_eq (returnAddress : Word) (s : Threads) :
    s.dispatch returnAddress = s.nextThread := by
  unfold dispatch scheduler
  cases chosen : s.nextThread with
  | none => rfl
  | some next =>
      obtain ⟨-, new, present, -⟩ := nextThread_spec chosen
      rw [Option.bind_some, present]
      rfl

/-- The first thread of the table that a condition holds of. -/
theorem find?_finRange {p : Fin maxThreads → Bool} :
    (List.finRange maxThreads).find? p = some i ↔ p i ∧ ∀ j < i, p j = false := by
  rw [← Fin.find?_eq_find?_finRange, Fin.find?_eq_some_iff]

theorem find?_finRange_none {p : Fin maxThreads → Bool} :
    (List.finRange maxThreads).find? p = none ↔ ∀ i, p i = false := by
  rw [← Fin.find?_eq_find?_finRange, Fin.find?_eq_none_iff]

/-- The first thread that is ready, unless the current one comes before it. -/
theorem nextThread_eq_some : s.nextThread = some i ↔
    s.currentThreadId ≠ some i ∧ s.isReady i ∧ ∀ j < i, s.isReady j = false := by
  have first := @find?_finRange i s.isReady
  unfold nextThread
  change (match (List.finRange maxThreads).find? s.isReady with
    | none => none
    | some next => if s.currentThreadId = some next then none else some next) = some i ↔ _
  rw [← first]
  cases (List.finRange maxThreads).find? s.isReady with
  | none => simp
  | some next =>
      simp only [Option.ite_none_left_eq_some, Option.some.injEq]
      constructor
      · rintro ⟨differ, rfl⟩
        exact ⟨differ, rfl⟩
      · rintro ⟨differ, rfl⟩
        exact ⟨differ, rfl⟩

/-- Behind the current thread, or else in front of it. -/
theorem roundRobin_eq {old : Fin maxThreads} (current : s.currentThreadId = some old) :
    s.roundRobin =
      ((List.finRange maxThreads).find? fun i => decide (old < i) && s.isReady i).or
        ((List.finRange maxThreads).find? fun i => decide (i < old) && s.isReady i) := by
  unfold roundRobin cyclicOrder
  rw [current]
  dsimp only
  rw [List.find?_append, List.find?_filter, List.find?_filter]
  simp only [Bool.decide_and, Bool.decide_eq_true]

theorem roundRobin_none (current : s.currentThreadId = none) : s.roundRobin = s.nextThread := by
  unfold roundRobin cyclicOrder
  rw [current]
  dsimp only
  ext i
  rw [find?_finRange, nextThread_eq_some, current]
  simp

/-- `scheduler` goes on with the next thread in cyclic order exactly if what is ready is on one
side of the current thread. -/
theorem dispatch_roundRobin_iff (returnAddress : Word) (s : Threads) :
    s.dispatch returnAddress = s.roundRobin ↔ s.OneSided := by
  rw [dispatch_eq]
  cases current : s.currentThreadId with
  | none =>
      refine iff_of_true (roundRobin_none current).symm ?_
      intro old isOld
      exact nomatch current.symm.trans isOld
  | some old =>
      have oneSided : s.OneSided ↔
          (∀ i, old < i → s.isReady i = false) ∨ ∀ i ≤ old, s.isReady i = false :=
        ⟨fun all => all old current, fun one other isOther => by
          obtain rfl := Option.some.inj (current.symm.trans isOther)
          exact one⟩
      rw [oneSided, roundRobin_eq current]
      constructor
      · intro equal
        by_contra both
        obtain ⟨above, below⟩ := not_or.mp both
        push Not at above below
        obtain ⟨i, behind, isReady⟩ := above
        obtain ⟨j, before, isReady'⟩ := below
        cases first : (List.finRange maxThreads).find? fun i => decide (old < i) && s.isReady i with
        | none =>
            have never := find?_finRange_none.mp first i
            simp [behind, isReady] at never
        | some next =>
            rw [first, Option.some_or, nextThread_eq_some] at equal
            obtain ⟨isBehind, -⟩ := find?_finRange.mp first
            rw [Bool.and_eq_true, decide_eq_true_eq] at isBehind
            exact isReady' (equal.2.2 j (before.trans_lt isBehind.1))
      · rintro (above | below)
        · have never : ((List.finRange maxThreads).find? fun i =>
              decide (old < i) && s.isReady i) = none := by
            rw [find?_finRange_none]
            intro i
            by_cases behind : old < i
            · simp [above i behind]
            · simp [behind]
          rw [never, Option.none_or]
          ext i
          rw [nextThread_eq_some, find?_finRange, current]
          constructor
          · rintro ⟨differ, isReady, least⟩
            have notBehind : ¬ old < i := fun behind => by
              rw [above i behind] at isReady
              cases isReady
            have before : i < old := lt_of_le_of_ne (not_lt.mp notBehind) fun equal =>
              differ (congrArg some equal.symm)
            exact ⟨by simp [before, isReady], fun j less => by simp [least j less]⟩
          · rintro ⟨isReady, least⟩
            rw [Bool.and_eq_true, decide_eq_true_eq] at isReady
            refine ⟨fun equal => isReady.1.ne (Option.some.inj equal).symm, isReady.2, ?_⟩
            intro j less
            simpa [less.trans isReady.1] using least j less
        · have never : ((List.finRange maxThreads).find? fun i =>
              decide (i < old) && s.isReady i) = none := by
            rw [find?_finRange_none]
            intro i
            by_cases before : i < old
            · simp [below i before.le]
            · simp [before]
          rw [never, Option.or_none]
          ext i
          rw [nextThread_eq_some, find?_finRange, current]
          constructor
          · rintro ⟨-, isReady, least⟩
            have behind : old < i := not_le.mp fun before => by
              rw [below i before] at isReady
              cases isReady
            exact ⟨by simp [behind, isReady], fun j less => by simp [least j less]⟩
          · rintro ⟨isReady, least⟩
            rw [Bool.and_eq_true, decide_eq_true_eq] at isReady
            refine ⟨fun equal => isReady.1.ne (Option.some.inj equal), isReady.2, ?_⟩
            intro j less
            by_cases before : j ≤ old
            · exact below j before
            · simpa [not_le.mp before] using least j less

/-! ## Successive yields -/

/-- The places of the table that have a thread. -/
def present (s : Threads) : Finset (Fin maxThreads) :=
  Finset.univ.filter fun i => (s.threadList i).isSome

/-- The threads that successive calls of `thread_yield` switch to; every call comes with the
machine on which it is made. -/
def dispatched : Threads → List (Word × Machine) → List (Fin maxThreads)
  | _, [] => []
  | s, (returnAddress, m) :: calls =>
    let called : Threads := { s with toMachine := m }
    (called.dispatch returnAddress).toList ++
      (called.threadYield returnAddress).dispatched calls

theorem mem_present : i ∈ s.present ↔ ∃ thread, s.threadList i = some thread := by
  rw [present, Finset.mem_filter, Option.isSome_iff_exists]
  exact and_iff_right (Finset.mem_univ i)

/-- In order, the threads that are ready are all but the current one. -/
theorem Orderly.isReady_iff (orderly : s.Orderly) :
    s.isReady i = true ↔ i ∈ s.present ∧ s.currentThreadId ≠ some i := by
  rw [isReady, Option.any_eq_true, mem_present]
  constructor
  · rintro ⟨thread, here, ready⟩
    refine ⟨⟨thread, here⟩, fun current => ?_⟩
    obtain ⟨found, here', runs⟩ := orderly.running i current
    obtain rfl := Option.some.inj (here.symm.trans here')
    rw [of_decide_eq_true ready] at runs
    cases runs
  · rintro ⟨⟨thread, here⟩, notCurrent⟩
    exact ⟨thread, here, decide_eq_true (orderly.ready i thread here notCurrent)⟩

/-- The first two threads of the table. -/
structure FirstTwo (s : Threads) (lower upper : Fin maxThreads) : Prop where
  first : lower ∈ s.present
  second : upper ∈ s.present
  less : lower < upper
  between : ∀ i ∈ s.present, i = lower ∨ upper ≤ i

theorem exists_firstTwo (several : 2 ≤ s.present.card) : ∃ lower upper, s.FirstTwo lower upper := by
  have nonempty : s.present.Nonempty := Finset.card_pos.mp (by omega)
  have rest : (s.present.erase (s.present.min' nonempty)).Nonempty := by
    apply Finset.card_pos.mp
    rw [Finset.card_erase_of_mem (Finset.min'_mem _ nonempty)]
    omega
  have member := Finset.mem_erase.mp (Finset.min'_mem _ rest)
  refine ⟨s.present.min' nonempty, (s.present.erase (s.present.min' nonempty)).min' rest,
    Finset.min'_mem _ nonempty, member.2, ?_, ?_⟩
  · exact lt_of_le_of_ne (Finset.min'_le _ _ member.2) member.1.symm
  · intro i inside
    by_cases same : i = s.present.min' nonempty
    · exact .inl same
    · exact .inr (Finset.min'_le _ _ (Finset.mem_erase.mpr ⟨same, inside⟩))

/-- The first two threads take turns. -/
theorem Orderly.nextThread (orderly : s.Orderly) {lower upper : Fin maxThreads}
    (two : s.FirstTwo lower upper) :
    s.nextThread = some (if s.currentThreadId = some lower then upper else lower) := by
  rw [nextThread_eq_some]
  have notReady : ∀ j < upper, j ≠ lower → s.isReady j = false := by
    intro j less differ
    rw [Bool.eq_false_iff]
    intro ready
    rcases two.between j (orderly.isReady_iff.mp ready).1 with same | above
    · exact differ same
    · exact absurd less (not_lt.mpr above)
  by_cases current : s.currentThreadId = some lower
  · rw [if_pos current]
    have differ : s.currentThreadId ≠ some upper := fun isSecond =>
      two.less.ne (Option.some.inj (current.symm.trans isSecond))
    refine ⟨differ, orderly.isReady_iff.mpr ⟨two.second, differ⟩, fun j less => ?_⟩
    by_cases same : j = lower
    · subst same
      rw [Bool.eq_false_iff]
      exact fun ready => (orderly.isReady_iff.mp ready).2 current
    · exact notReady j less same
  · rw [if_neg current]
    exact ⟨current, orderly.isReady_iff.mpr ⟨two.first, current⟩, fun j less =>
      notReady j (less.trans two.less) less.ne⟩

/-- A yield switches to the other one of the first two threads, or to the first one, and they
stay the first two. -/
theorem Orderly.yields (orderly : s.Orderly) {lower upper : Fin maxThreads}
    (two : s.FirstTwo lower upper) (returnAddress : Word) :
    ∃ next, s.dispatch returnAddress = some next ∧ s.currentThreadId ≠ some next ∧
      next ∈ [lower, upper] ∧ (s.threadYield returnAddress).Orderly ∧
      (s.threadYield returnAddress).FirstTwo lower upper ∧
      (s.threadYield returnAddress).currentThreadId = some next := by
  have chosen := orderly.nextThread two
  rcases s.threadYield_cases returnAddress with ⟨none, -⟩ | ⟨next, new, isNext, here, switches⟩
  · exact nomatch none.symm.trans chosen
  · obtain ⟨differ, -⟩ := nextThread_spec isNext
    have oneOf : next ∈ [lower, upper] := by
      rw [Option.some.inj (isNext.symm.trans chosen)]
      split <;> simp
    refine ⟨next, (dispatch_eq returnAddress s).trans isNext, differ, oneOf,
      (orderly.yield returnAddress).1, ?_⟩
    have same : ∀ i, i ∈ (s.threadYield returnAddress).present ↔ i ∈ s.present := by
      intro i
      rw [mem_present, mem_present, switches]
      constructor
      · rintro ⟨found, after⟩
        obtain ⟨thread, before, -⟩ := switchTo_found differ here after
        exact ⟨thread, before⟩
      · rintro ⟨thread, before⟩
        obtain ⟨kept, after, -⟩ := switchTo_keeps returnAddress differ here i thread before
        exact ⟨kept, after⟩
    refine ⟨⟨(same _).mpr two.first, (same _).mpr two.second, two.less, fun i inside =>
      two.between i ((same i).mp inside)⟩, ?_⟩
    rw [switches]
    rfl

/-- Every yield switches, to one of the first two threads. -/
theorem Orderly.dispatched (orderly : s.Orderly) {lower upper : Fin maxThreads}
    (two : s.FirstTwo lower upper) (calls : List (Word × Machine)) :
    (s.dispatched calls).length = calls.length ∧ s.dispatched calls ⊆ [lower, upper] := by
  induction calls generalizing s with
  | nil => exact ⟨rfl, List.nil_subset _⟩
  | cons call calls ih =>
      obtain ⟨returnAddress, m⟩ := call
      have two' : FirstTwo { s with toMachine := m } lower upper :=
        ⟨two.first, two.second, two.less, two.between⟩
      obtain ⟨next, chosen, -, oneOf, orderly', two'', -⟩ :=
        (orderly.compute m).yields two' returnAddress
      obtain ⟨length, subset⟩ := ih orderly' two''
      rw [Threads.dispatched, chosen, Option.toList_some, List.singleton_append, List.length_cons,
        length, List.length_cons, List.cons_subset]
      exact ⟨rfl, oneOf, subset⟩

end Threads

/-- **Round robin.** `scheduler` goes on with the next thread in cyclic order exactly if no thread
behind the current one is ready, or none in front of it. After any calls, as many yields as there
are threads, two or more, go to as many threads exactly if there are two. -/
theorem scheduler_roundRobin_iff (s : Threads) (returnAddress : Word) (m : Machine)
    (events : List ThreadEvent) (calls : List (Word × Machine)) :
    (s.dispatch returnAddress = s.roundRobin ↔ s.OneSided) ∧
    (Run ThreadCalls (.init m) events s → 2 ≤ s.present.card → calls.length = s.present.card →
      ((s.dispatched calls).Nodup ∧ (s.dispatched calls).length = s.present.card ↔
        s.present.card = 2)) := by
  refine ⟨s.dispatch_roundRobin_iff returnAddress, ?_⟩
  intro run several length
  have orderly := ((Threads.orderly_init m).run run).1
  obtain ⟨lower, upper, two⟩ := Threads.exists_firstTwo several
  obtain ⟨count, subset⟩ := orderly.dispatched two calls
  constructor
  · rintro ⟨distinct, -⟩
    have few := (distinct.subperm subset).length_le
    rw [count, length, List.length_cons, List.length_singleton] at few
    exact few.antisymm several
  · intro isTwo
    refine ⟨?_, count.trans length⟩
    obtain ⟨⟨returnAddress, m'⟩, ⟨returnAddress', m''⟩, rfl⟩ :=
      List.length_eq_two.mp (length.trans isTwo)
    have two' : Threads.FirstTwo { s with toMachine := m' } lower upper :=
      ⟨two.first, two.second, two.less, two.between⟩
    obtain ⟨next, chosen, -, -, orderly', again, current⟩ :=
      (orderly.compute m').yields two' returnAddress
    have two'' : Threads.FirstTwo
        { Threads.threadYield returnAddress { s with toMachine := m' } with toMachine := m'' }
        lower upper := ⟨again.first, again.second, again.less, again.between⟩
    obtain ⟨next', chosen', differ, -⟩ := (orderly'.compute m'').yields two'' returnAddress'
    have apart : next ≠ next' := fun equal => differ (current.trans (congrArg some equal))
    rw [Threads.dispatched, Threads.dispatched, Threads.dispatched, chosen, chosen']
    simpa using apart

/-- Three threads, of which the second one runs after two yields. -/
def threeThreads : List ThreadEvent :=
  [.create 0x101000 (some 0x200010) (some 0x200050),
    .create 0x102000 (some 0x202060) (some 0x2020A0),
    .create 0x103000 (some 0x2040B0) (some 0x2040F0)]

/-- As many yields as there are threads, on the shell's machine. -/
def yieldCalls (count : Nat) : List (Word × Machine) := List.replicate count (0x104000, shellMachine)

theorem scheduler_roundRobin_twoThreads :
    ((tableAfter (threeThreads.take 2)).dispatched (yieldCalls 2)).Nodup ∧
      ((tableAfter (threeThreads.take 2)).dispatched (yieldCalls 2)).length = 2 := by
  have two : (tableAfter (threeThreads.take 2)).present.card = 2 := by decide
  have law := (scheduler_roundRobin_iff (tableAfter (threeThreads.take 2)) 0 shellMachine
    (threeThreads.take 2) (yieldCalls 2)).2
    (run_perform (.init shellMachine) (threeThreads.take 2)) two.ge two.symm
  exact two ▸ law.mpr two

/-- The third thread is passed over. -/
theorem scheduler_passesOver_threeThreads :
    ¬ ((∀ (s : Threads) (returnAddress : Word), s.dispatch returnAddress = s.roundRobin) ∧
      ∀ (m : Machine) (events : List ThreadEvent) (s : Threads) (calls : List (Word × Machine)),
        Run ThreadCalls (.init m) events s → 2 ≤ s.present.card →
          calls.length = s.present.card →
            (s.dispatched calls).Nodup ∧ (s.dispatched calls).length = s.present.card) := by
  rintro ⟨-, claim⟩
  have three : (tableAfter threeThreads).present.card = 3 := by decide
  have run : Run ThreadCalls (.init shellMachine) threeThreads (tableAfter threeThreads) :=
    run_perform _ _
  have distinct := (claim _ _ _ (yieldCalls 3) run (three ▸ by decide) three.symm).1
  have turns : (tableAfter threeThreads).dispatched (yieldCalls 3) = [0, 1, 0] := by decide
  rw [turns] at distinct
  exact absurd distinct (by decide)

end NTux.Cpu
