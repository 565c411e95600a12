import NTux.Cpu.Thread

/-! # Context switches

The invariant of the thread runs: the stacks lie apart, and on the stack of every context
that has been switched away from its return address is still where the switch left it
(`ThreadHistory.Valid`). So a resumed thread always finds its stack pointer and its return
address. It finds the registers of the context that yielded to it, which
`switch_context` does not save (`switchContext_preserves_iff`).

Every thread that has been switched away from stays in `thread_list`, ready, with its
stack pointer. The code that booted the kernel does not, since its stack pointer went to a
local variable (`context_resumable_iff`).
-/

namespace NTux.Cpu

open NTux.Foundation

/-! ## The parts of a step -/

namespace Threads

variable {s : Threads} {next : Fin maxThreads}

theorem nextThread_spec (chosen : s.nextThread = some next) :
    s.currentThreadId ≠ some next ∧
      ∃ new, s.threadList next = some new ∧ new.state = .ready := by
  unfold nextThread at chosen
  split at chosen
  · cases chosen
  · next found =>
      split at chosen
      · cases chosen
      · next differ =>
          obtain rfl := Option.some.inj chosen
          have ready := List.find?_some found
          obtain ⟨new, present, state⟩ := (Option.any_eq_true _ _).mp ready
          exact ⟨differ, new, present, of_decide_eq_true state⟩

/-- A switch marks its two threads and stores the old one's stack pointer. -/
theorem switchTo_threadList (returnAddress : Word) (new : Thread)
    (differ : s.currentThreadId ≠ some next) (i : Fin maxThreads) :
    (s.switchTo returnAddress next new).2.threadList i =
      if i = next then some { new with state := .running }
      else if s.currentThreadId = some i then (s.threadList i).map fun thread =>
        { thread with state := .ready, rsp := s.sp - 8 }
      else s.threadList i := by
  cases current : s.currentThreadId with
  | none =>
      simp only [switchTo, current, Function.update_apply, reduceCtorEq, if_false]
  | some old =>
      have apart : old ≠ next := fun equal => differ (current.trans (congrArg some equal))
      simp only [switchTo, switchContext, current, Machine.pushWord_sp, Option.some.injEq]
      by_cases isNext : i = next
      · subst isNext
        rw [Function.update_of_ne (Ne.symm apart), Function.update_self, if_pos rfl]
      · rw [if_neg isNext]
        by_cases isOld : old = i
        · subst isOld
          rw [Function.update_self, Function.update_of_ne isNext, if_pos rfl]
        · rw [Function.update_of_ne (Ne.symm isOld), Function.update_of_ne isNext, if_neg isOld]

/-- A switch stores one word, the return address below the old stack pointer. -/
theorem switchTo_mem (returnAddress : Word) (new : Thread) :
    (s.switchTo returnAddress next new).2.mem = store64 s.mem (s.sp - 8) returnAddress := rfl

theorem switchTo_sp (returnAddress : Word) (new : Thread) :
    (s.switchTo returnAddress next new).2.sp = new.rsp + 8 :=
  (Machine.ret_sp _).trans (congrArg (· + 8) (Machine.setReg_self _ _ _))

/-- A switch goes on at the address on top of the new stack. -/
theorem switchTo_fst (returnAddress : Word) (new : Thread) :
    (s.switchTo returnAddress next new).1 =
      load64 (store64 s.mem (s.sp - 8) returnAddress) new.rsp :=
  congrArg (load64 _) (Machine.setReg_self _ _ _)

/-- A switch changes no register but the stack pointer. -/
theorem switchTo_reg (returnAddress : Word) (new : Thread) {register : Reg}
    (differ : register ≠ .rsp) :
    (s.switchTo returnAddress next new).2.reg register = s.reg register := by
  have popped := Machine.setReg_of_ne ((s.toMachine.pushWord returnAddress).setReg .rsp new.rsp)
    (((s.toMachine.pushWord returnAddress).setReg .rsp new.rsp).sp + 8) differ
  have loaded := Machine.setReg_of_ne (s.toMachine.pushWord returnAddress) new.rsp differ
  exact popped.trans (loaded.trans (s.toMachine.pushWord_reg returnAddress differ))

/-- `thread_create` changes nothing but the counter, or it fills the next entry. -/
theorem threadCreate_cases (s : Threads) (entry : Word) (block stack : Option Word) :
    (∃ count, s.nextThreadId ≤ count ∧
      s.threadCreate entry block stack = { s with nextThreadId := count }) ∨
    ∃ (room : s.nextThreadId < maxThreads) (base : Word), stack = some base ∧
      s.threadCreate entry block stack = { s with
        mem := store64 s.mem (base + BitVec.ofNat 64 stackSize - 8) entry
        nextThreadId := s.nextThreadId + 1
        threadList := Function.update s.threadList ⟨s.nextThreadId, room⟩ (some
          ⟨base, base + BitVec.ofNat 64 stackSize - 8, .ready, s.nextThreadId, entry⟩) } := by
  unfold threadCreate
  split
  · next room =>
      cases block with
      | none => exact .inl ⟨_, le_rfl, rfl⟩
      | some block =>
          cases stack with
          | none => exact .inl ⟨_, Nat.le_succ _, rfl⟩
          | some base => exact .inr ⟨room, base, rfl, rfl⟩
  · exact .inl ⟨_, le_rfl, rfl⟩

end Threads

namespace ThreadHistory

/-- `thread_yield` does nothing, or it switches to the next thread and notes how the current
context was left and, where the thread had been left before, how it is found. -/
theorem threadYield_cases (returnAddress : Word) (s : ThreadHistory) :
    s.nextThread = none ∧ s.threadYield returnAddress = s ∨
    ∃ next new, s.nextThread = some next ∧ s.threadList next = some new ∧
      s.threadYield returnAddress =
        { toThreads := (s.switchTo returnAddress next new).2
          suspended := Function.update (Function.update s.suspended s.currentThreadId
            (some (.capture returnAddress s.toMachine))) (some next) none
          resumed := s.resumed ++ ((s.suspended (some next)).map fun left => (left,
            Suspension.capture (s.switchTo returnAddress next new).1
              (s.switchTo returnAddress next new).2.toMachine)).toList } := by
  cases chosen : s.nextThread with
  | none =>
      left
      refine ⟨rfl, ?_⟩
      simp only [threadYield, Threads.scheduler, chosen, Option.bind_none]
  | some next =>
      obtain ⟨-, new, present, -⟩ := Threads.nextThread_spec chosen
      right
      refine ⟨next, new, rfl, present, ?_⟩
      simp only [threadYield, Threads.scheduler, chosen, Option.bind_some, present, Option.map_some]
      rfl

/-! ## The invariant -/

/-- A context that was switched away from: its return address is where its stack pointer
was, on its own stack, and the thread's entry holds the stack pointer. -/
structure Left (bootStack : Set Word) (s : ThreadHistory) (context : Context)
    (left : Suspension) : Prop where
  away : context ≠ s.currentThreadId
  inside : span (left.sp - 8) 8 ⊆ s.stackOf bootStack context
  returns : load64 s.mem (left.sp - 8) = left.returnAddress
  stored : ∀ i, context = some i → ∃ thread, s.threadList i = some thread ∧
    thread.rsp = left.sp - 8

/-- The stacks are apart, every thread is ready but the current one, and the contexts that
were switched away from can go on. -/
structure Valid (bootStack : Set Word) (s : ThreadHistory) : Prop where
  states : ∀ i thread, s.threadList i = some thread →
    thread.state = if s.currentThreadId = some i then .running else .ready
  current : ∀ i, s.currentThreadId = some i → s.threadList i ≠ none
  unused : ∀ i : Fin maxThreads, s.nextThreadId ≤ i → s.threadList i = none
  apart : Pairwise fun first second =>
    Disjoint (s.stackOf bootStack first) (s.stackOf bootStack second)
  inside : ∀ i thread, s.threadList i = some thread →
    span thread.rsp 8 ⊆ span thread.stack stackSize
  left : ∀ context left, s.suspended context = some left → s.Left bootStack context left

variable {bootStack : Set Word} {s : ThreadHistory}

theorem stackOf_some {i : Fin maxThreads} {thread : Thread}
    (present : s.threadList i = some thread) :
    s.stackOf bootStack (some i) = span thread.stack stackSize := by
  rw [stackOf, present, Option.elim_some]

/-- The stacks of the contexts are those of the entries. -/
theorem stackOf_congr {t : ThreadHistory}
    (same : ∀ i, (t.threadList i).map (·.stack) = (s.threadList i).map (·.stack))
    (context : Context) : t.stackOf bootStack context = s.stackOf bootStack context := by
  cases context with
  | none => rfl
  | some i =>
      have equal := congrArg (Option.elim · ∅ (span · stackSize)) (same i)
      rw [Option.elim_map, Option.elim_map] at equal
      exact equal

theorem valid_init (m : Machine) : (init m).Valid bootStack where
  states := fun _ _ present => nomatch present
  current := fun _ current => nomatch current
  unused := fun _ _ => rfl
  apart := by
    intro first second differ
    cases first with
    | none =>
        cases second with
        | none => exact absurd rfl differ
        | some second => exact disjoint_bot_right
    | some first => exact disjoint_bot_left
  inside := fun _ _ present => nomatch present
  left := fun _ _ suspended => nomatch suspended

/-- Code that leaves the stacks of the other contexts alone. -/
theorem Valid.compute (valid : s.Valid bootStack) {m : Machine}
    (fair : (ThreadEvent.compute m).Fair bootStack s) :
    Valid bootStack { s with toMachine := m } where
  states := valid.states
  current := valid.current
  unused := valid.unused
  apart := valid.apart
  inside := valid.inside
  left := by
    intro context left suspended
    have before := valid.left context left suspended
    refine ⟨before.away, before.inside, ?_, before.stored⟩
    have same : load64 m.mem (left.sp - 8) = load64 s.mem (left.sp - 8) :=
      load64_congr ((fair context before.away).mono before.inside)
    exact same.trans before.returns

/-- The entry word of a new stack lies in it. -/
theorem entry_inside (base : Word) :
    span (base + BitVec.ofNat 64 stackSize - 8) 8 ⊆ span base stackSize := by
  apply span_subset
  simp only [stackSize]
  bv_omega

/-- A new thread on a stack apart from all others. -/
theorem Valid.push (valid : s.Valid bootStack) (room : s.nextThreadId < maxThreads)
    {base : Word} (entry : Word)
    (fresh : ∀ context, Disjoint (span base stackSize) (s.stackOf bootStack context)) :
    Valid bootStack { s with
      mem := store64 s.mem (base + BitVec.ofNat 64 stackSize - 8) entry
      nextThreadId := s.nextThreadId + 1
      threadList := Function.update s.threadList ⟨s.nextThreadId, room⟩ (some
        ⟨base, base + BitVec.ofNat 64 stackSize - 8, .ready, s.nextThreadId, entry⟩) } := by
  generalize slot : (⟨s.nextThreadId, room⟩ : Fin maxThreads) = new
  have free : s.threadList new = none := valid.unused new (by rw [← slot])
  generalize created : (⟨base, base + BitVec.ofNat 64 stackSize - 8, .ready, s.nextThreadId,
    entry⟩ : Thread) = thread
  have stack : thread.stack = base := by rw [← created]
  have pointer : thread.rsp = base + BitVec.ofNat 64 stackSize - 8 := by rw [← created]
  generalize extended : Function.update s.threadList new (some thread) = list
  have self : list new = some thread := by
    rw [← extended]
    exact Function.update_self _ _ _
  have old : ∀ i, i ≠ new → list i = s.threadList i := by
    intro i differ
    rw [← extended]
    exact Function.update_of_ne differ _ _
  have notCurrent : s.currentThreadId ≠ some new := fun current => valid.current new current free
  generalize result : ({ s with
      mem := store64 s.mem (base + BitVec.ofNat 64 stackSize - 8) entry
      nextThreadId := s.nextThreadId + 1
      threadList := list } : ThreadHistory) = t
  have tList : t.threadList = list := by rw [← result]
  have tCurrent : t.currentThreadId = s.currentThreadId := by rw [← result]
  have stackNew : t.stackOf bootStack (some new) = span base stackSize := by
    rw [← stack]
    exact stackOf_some (by rw [tList, self])
  have stackOld : ∀ context, context ≠ some new →
      t.stackOf bootStack context = s.stackOf bootStack context := by
    intro context differ
    cases context with
    | none => rfl
    | some i => rw [stackOf, stackOf, tList, old i fun equal => differ (congrArg some equal)]
  refine ⟨?_, ?_, ?_, ?_, ?_, ?_⟩
  · intro i found present
    rw [tList] at present
    rw [tCurrent]
    by_cases isNew : i = new
    · subst isNew
      obtain rfl := Option.some.inj (self.symm.trans present)
      rw [if_neg notCurrent, ← created]
    · exact valid.states i found ((old i isNew).symm.trans present)
  · intro i current
    rw [tCurrent] at current
    rw [tList, old i fun equal => notCurrent (equal ▸ current)]
    exact valid.current i current
  · intro i beyond
    rw [← result] at beyond
    have before : s.nextThreadId ≤ i := Nat.le_of_succ_le beyond
    have notNew : i ≠ new := by
      rintro rfl
      rw [← slot] at beyond
      exact absurd beyond (Nat.not_succ_le_self _)
    rw [tList, old i notNew]
    exact valid.unused i before
  · intro first second differ
    by_cases isFirst : first = some new
    · subst isFirst
      rw [stackNew, stackOld second differ.symm]
      exact fresh second
    · by_cases isSecond : second = some new
      · subst isSecond
        rw [stackNew, stackOld first isFirst]
        exact (fresh first).symm
      · rw [stackOld first isFirst, stackOld second isSecond]
        exact valid.apart differ
  · intro i found present
    rw [tList] at present
    by_cases isNew : i = new
    · subst isNew
      obtain rfl := Option.some.inj (self.symm.trans present)
      rw [stack, pointer]
      exact entry_inside base
    · exact valid.inside i found ((old i isNew).symm.trans present)
  · intro context left suspended
    have before : s.suspended context = some left := by rw [← suspended, ← result]
    obtain ⟨away, inside, returns, stored⟩ := valid.left context left before
    have notNew : context ≠ some new := by
      rintro rfl
      obtain ⟨found, present, -⟩ := stored new rfl
      exact nomatch free.symm.trans present
    refine ⟨by rwa [tCurrent], by rwa [stackOld context notNew], ?_, ?_⟩
    · rw [← returns, ← result]
      apply load64_congr
      apply store64_eqOn
      exact Disjoint.mono inside (entry_inside base) (fresh context).symm
    · rintro i rfl
      obtain ⟨found, present, same⟩ := stored i rfl
      refine ⟨found, ?_, same⟩
      rw [tList, old i fun equal => notNew (congrArg some equal), present]

theorem Valid.create (valid : s.Valid bootStack) {entry : Word} {block stack : Option Word}
    (fair : (ThreadEvent.create entry block stack).Fair bootStack s) :
    Valid bootStack { s with toThreads := s.threadCreate entry block stack } := by
  rcases s.toThreads.threadCreate_cases entry block stack with
    ⟨count, more, created⟩ | ⟨room, base, given, created⟩
  · rw [created]
    exact ⟨valid.states, valid.current, fun i beyond => valid.unused i (more.trans beyond), valid.apart,
      valid.inside, fun context left suspended => by
        obtain ⟨away, inside, returns, stored⟩ := valid.left context left suspended
        exact ⟨away, inside, returns, stored⟩⟩
  · rw [created]
    exact valid.push room entry (fair base given)

/-- The threads after a switch, entry by entry. -/
theorem switchTo_entry {returnAddress : Word} {next : Fin maxThreads} {new : Thread}
    (differ : s.currentThreadId ≠ some next) {i : Fin maxThreads} {found : Thread}
    (after : (s.switchTo returnAddress next new).2.threadList i = some found) :
    i = next ∧ found = { new with state := .running } ∨
    i ≠ next ∧ ∃ thread, s.threadList i = some thread ∧
      (s.currentThreadId = some i ∧
        found = { thread with state := .ready, rsp := s.sp - 8 } ∨
      s.currentThreadId ≠ some i ∧ found = thread) := by
  rw [Threads.switchTo_threadList returnAddress new differ] at after
  by_cases isNext : i = next
  · rw [if_pos isNext] at after
    exact .inl ⟨isNext, (Option.some.inj after).symm⟩
  · rw [if_neg isNext] at after
    refine .inr ⟨isNext, ?_⟩
    by_cases isOld : s.currentThreadId = some i
    · rw [if_pos isOld] at after
      obtain ⟨thread, before, same⟩ := Option.map_eq_some_iff.mp after
      exact ⟨thread, before, .inl ⟨isOld, same.symm⟩⟩
    · rw [if_neg isOld] at after
      exact ⟨found, after, .inr ⟨isOld, rfl⟩⟩

/-- The switch of a context that is on its own stack. -/
theorem Valid.switch (valid : s.Valid bootStack) {returnAddress : Word} {next : Fin maxThreads}
    {new : Thread} (differ : s.currentThreadId ≠ some next)
    (present : s.threadList next = some new)
    (fair : (ThreadEvent.yield returnAddress).Fair bootStack s) (resumed : List _) :
    Valid bootStack
      { toThreads := (s.switchTo returnAddress next new).2
        suspended := Function.update (Function.update s.suspended s.currentThreadId
          (some (.capture returnAddress s.toMachine))) (some next) none
        resumed := resumed } := by
  have entry := Threads.switchTo_threadList (s := s.toThreads) returnAddress new differ
  have memory := @Threads.switchTo_mem s.toThreads next returnAddress new
  have cases := fun i found => @switchTo_entry s returnAddress next new differ i found
  have current : (s.switchTo returnAddress next new).2.currentThreadId = some next := rfl
  have count : (s.switchTo returnAddress next new).2.nextThreadId = s.nextThreadId := rfl
  generalize s.switchTo returnAddress next new = switched at entry memory cases current count
  have same : ∀ context, stackOf bootStack
      { toThreads := switched.2
        suspended := Function.update (Function.update s.suspended s.currentThreadId
          (some (.capture returnAddress s.toMachine))) (some next) none
        resumed := resumed } context = s.stackOf bootStack context := by
    apply stackOf_congr
    intro i
    change (switched.2.threadList i).map _ = _
    rw [entry i]
    by_cases isNext : i = next
    · rw [if_pos isNext, isNext, present]
      rfl
    · rw [if_neg isNext]
      by_cases isOld : s.currentThreadId = some i
      · rw [if_pos isOld, Option.map_map]
        rfl
      · rw [if_neg isOld]
  refine ⟨?_, ?_, ?_, ?_, ?_, ?_⟩
  · intro i found after
    rw [current]
    rcases cases i found after with
      ⟨rfl, rfl⟩ | ⟨isNext, thread, before, ⟨-, rfl⟩ | ⟨isOld, rfl⟩⟩
    · rw [if_pos rfl]
    · rw [if_neg fun equal => isNext (Option.some.inj equal).symm]
    · rw [if_neg fun equal => isNext (Option.some.inj equal).symm,
        valid.states i found before, if_neg isOld]
  · intro i equal
    obtain rfl := Option.some.inj (current.symm.trans equal)
    change switched.2.threadList next ≠ none
    rw [entry next, if_pos rfl]
    exact Option.some_ne_none _
  · intro i beyond
    rw [count] at beyond
    have none := valid.unused i beyond
    have isNext : i ≠ next := by
      rintro rfl
      exact nomatch none.symm.trans present
    change switched.2.threadList i = _
    rw [entry i, if_neg isNext, none]
    exact ite_self _
  · intro first second apart
    rw [same, same]
    exact valid.apart apart
  · intro i found after
    rcases cases i found after with
      ⟨rfl, rfl⟩ | ⟨-, thread, before, ⟨isOld, rfl⟩ | ⟨-, rfl⟩⟩
    · exact valid.inside i new present
    · have own : s.stackOf bootStack s.currentThreadId = span thread.stack stackSize := by
        rw [isOld, stackOf_some before]
      exact own ▸ fair
    · exact valid.inside i found before
  · intro context left suspended
    change Function.update (Function.update s.suspended s.currentThreadId _) (some next) none
      context = some left at suspended
    have notNext : context ≠ some next := by
      rintro rfl
      exact nomatch (Function.update_self _ _ _).symm.trans suspended
    rw [Function.update_of_ne notNext] at suspended
    by_cases isOld : context = s.currentThreadId
    · subst isOld
      rw [Function.update_self] at suspended
      obtain rfl := Option.some.inj suspended
      refine ⟨fun equal => notNext (equal.trans current), ?_, ?_, ?_⟩
      · rw [same]
        exact fair
      · change load64 switched.2.mem (s.sp - 8) = returnAddress
        rw [memory, load64_store64]
      · intro i isOld
        obtain ⟨thread, before⟩ := Option.ne_none_iff_exists'.mp (valid.current i isOld)
        have isNext : i ≠ next := fun equal => differ (equal ▸ isOld)
        refine ⟨{ thread with state := .ready, rsp := s.sp - 8 }, ?_, rfl⟩
        change switched.2.threadList i = _
        rw [entry i, if_neg isNext, if_pos isOld, before, Option.map_some]
    · rw [Function.update_of_ne isOld] at suspended
      obtain ⟨-, inside, returns, stored⟩ := valid.left context left suspended
      refine ⟨fun equal => notNext (equal.trans current), ?_, ?_, ?_⟩
      · rw [same]
        exact inside
      · change load64 switched.2.mem (left.sp - 8) = left.returnAddress
        rw [← returns, memory]
        apply load64_congr
        apply store64_eqOn
        exact Disjoint.mono inside fair (valid.apart isOld)
      · rintro i rfl
        obtain ⟨thread, before, pointer⟩ := stored i rfl
        refine ⟨thread, ?_, pointer⟩
        change switched.2.threadList i = _
        rw [entry i, if_neg fun equal => notNext (congrArg some equal),
          if_neg fun equal => isOld equal.symm, before]

theorem Valid.step (valid : s.Valid bootStack) {event : ThreadEvent} {t : ThreadHistory}
    (step : ThreadStep bootStack s event t) : t.Valid bootStack := by
  obtain ⟨fair, rfl⟩ := step
  cases event with
  | compute m => exact valid.compute fair
  | create entry block stack => exact valid.create fair
  | yield returnAddress =>
      change (s.threadYield returnAddress).Valid bootStack
      rcases threadYield_cases returnAddress s with
        ⟨-, stays⟩ | ⟨next, new, chosen, present, switches⟩
      · rw [stays]
        exact valid
      · obtain ⟨differ, -⟩ := Threads.nextThread_spec chosen
        rw [switches]
        exact valid.switch differ present fair _

theorem valid_run {m : Machine} {events : List ThreadEvent}
    (run : Run (ThreadStep bootStack) (init m) events s) : s.Valid bootStack :=
  run.invariant (fun _ _ _ valid step => Valid.step valid step) (valid_init m)

/-! ## What a resumed thread finds -/

/-- A thread that was switched away from is resumed with its stack pointer and at its
return address, and with the registers of the context that yields to it. -/
theorem Valid.resumes (valid : s.Valid bootStack) {returnAddress : Word} {next : Fin maxThreads}
    {new : Thread} (present : s.threadList next = some new)
    (fair : (ThreadEvent.yield returnAddress).Fair bootStack s) {left : Suspension}
    (suspended : s.suspended (some next) = some left) :
    Suspension.capture (s.switchTo returnAddress next new).1
        (s.switchTo returnAddress next new).2.toMachine =
      ⟨left.sp, left.returnAddress, calleeSaved.map s.reg⟩ := by
  obtain ⟨away, inside, returns, stored⟩ := valid.left _ left suspended
  obtain ⟨thread, found, pointer⟩ := stored next rfl
  obtain rfl := Option.some.inj (present.symm.trans found)
  have sp : (s.switchTo returnAddress next new).2.sp = left.sp := by
    rw [Threads.switchTo_sp, pointer]
    bv_omega
  have address : (s.switchTo returnAddress next new).1 = left.returnAddress := by
    rw [Threads.switchTo_fst, pointer, ← returns]
    apply load64_congr
    apply store64_eqOn
    exact Disjoint.mono inside fair (valid.apart away)
  have registers : calleeSaved.map (s.switchTo returnAddress next new).2.reg =
      calleeSaved.map s.reg := by
    apply List.map_congr_left
    intro register member
    apply Threads.switchTo_reg
    rintro rfl
    revert member
    decide
  rw [Suspension.capture, sp, address, registers]

end ThreadHistory

/-- Whoever yields to a thread that was switched away from has the registers that the
thread had then. -/
def ThreadEvent.ReturnsRegisters (s : ThreadHistory) : ThreadEvent → Prop
  | yield _ => ∀ next, s.nextThread = some next → ∀ left, s.suspended (some next) = some left →
      calleeSaved.map s.reg = left.registers
  | _ => True

/-- Every return so far found a context as it was left. -/
def ThreadHistory.Preserved (s : ThreadHistory) : Prop :=
  ∀ left found, (left, found) ∈ s.resumed → found = left

theorem preserved_append {s t : ThreadHistory} {left found : Suspension}
    (more : t.resumed = s.resumed ++ [(left, found)]) :
    t.Preserved ↔ s.Preserved ∧ found = left := by
  unfold ThreadHistory.Preserved
  rw [more]
  constructor
  · intro all
    exact ⟨fun left found member => all left found (List.mem_append_left _ member),
      all left found (List.mem_append_right _ (List.mem_singleton_self _))⟩
  · rintro ⟨all, same⟩ left' found' member
    rcases List.mem_append.mp member with earlier | last
    · exact all left' found' earlier
    · obtain ⟨rfl, rfl⟩ := Prod.mk.inj (List.mem_singleton.mp last)
      exact same

theorem preserved_step {bootStack : Set Word} {s t : ThreadHistory} {event : ThreadEvent}
    (valid : s.Valid bootStack) (step : ThreadStep bootStack s event t) :
    t.Preserved ↔ s.Preserved ∧ event.ReturnsRegisters s := by
  obtain ⟨fair, rfl⟩ := step
  cases event with
  | compute m => exact (and_iff_left trivial).symm
  | create entry block stack => exact (and_iff_left trivial).symm
  | yield returnAddress =>
      change (s.threadYield returnAddress).Preserved ↔ _
      rcases s.threadYield_cases returnAddress with
        ⟨stuck, stays⟩ | ⟨next, new, chosen, present, switches⟩
      · rw [stays]
        refine (and_iff_left ?_).symm
        intro next chosen
        exact nomatch stuck.symm.trans chosen
      · have returns : ThreadEvent.ReturnsRegisters s (.yield returnAddress) ↔
            ∀ left, s.suspended (some next) = some left → calleeSaved.map s.reg = left.registers :=
          ⟨fun all => all next chosen, fun one other chosen' => by
            obtain rfl := Option.some.inj (chosen.symm.trans chosen')
            exact one⟩
        rw [switches, returns]
        cases suspended : s.suspended (some next) with
        | none =>
            have same : s.resumed ++ [] = s.resumed := List.append_nil _
            rw [Option.map_none, Option.toList_none, same]
            exact (and_iff_left fun _ absent => nomatch absent).symm
        | some left =>
            have found := valid.resumes present fair suspended
            rw [Option.map_some, Option.toList_some, found]
            rw [preserved_append (s := s) rfl]
            apply and_congr_right'
            constructor
            · rintro same _ ⟨⟩
              exact congrArg Suspension.registers same
            · intro same
              rw [same left rfl]

/-- **Context switches.** In a run every return to a thread finds its stack pointer, its
return address and its callee-saved registers as they were at its call of
`switch_context`, exactly when whoever yields to the thread has put the registers back. -/
theorem switchContext_preserves_iff {bootStack : Set Word} {m : Machine}
    {events : List ThreadEvent} {s : ThreadHistory}
    (run : Run (ThreadStep bootStack) (.init m) events s) :
    s.Preserved ↔ Run (Guarded (fun s event => event.ReturnsRegisters s) (ThreadStep bootStack))
      (.init m) events s := by
  have initial : (ThreadHistory.init m).Preserved := fun _ _ member => nomatch member
  have function : ∀ source event target other, ThreadStep bootStack source event target →
      ThreadStep bootStack source event other → target = other :=
    fun _ _ _ _ first second => first.2.trans second.2.symm
  have guarded := run.guarded_iff function
    (fun _ _ _ valid step => ThreadHistory.Valid.step valid step)
    (fun _ _ _ => preserved_step) (ThreadHistory.valid_init m)
  exact guarded.trans (and_iff_right initial)

/-! ## What becomes of a context that is switched away from -/

/-- **No thread is lost.** A context that was switched away from has its stack pointer in
the entry of a thread that is ready exactly when it is a thread, and not the code that
booted the kernel. -/
theorem context_resumable_iff {bootStack : Set Word} {m : Machine} {events : List ThreadEvent}
    {s : ThreadHistory} (run : Run (ThreadStep bootStack) (.init m) events s)
    {context : Context} {left : Suspension} (suspended : s.suspended context = some left) :
    s.Resumable left ↔ context ≠ none := by
  have valid := ThreadHistory.valid_run run
  obtain ⟨away, inside, -, stored⟩ := valid.left context left suspended
  constructor
  · rintro ⟨i, thread, present, -, pointer⟩ rfl
    have threadStack : span (left.sp - 8) 8 ⊆ s.stackOf bootStack (some i) := by
      rw [ThreadHistory.stackOf_some present, ← pointer]
      exact valid.inside i thread present
    have apart := valid.apart (Option.some_ne_none i)
    have both : left.sp - 8 ∈ span (left.sp - 8) 8 := by
      rw [mem_span, BitVec.sub_self]
      decide
    exact Set.disjoint_left.mp apart (threadStack both) (inside both)
  · intro isThread
    obtain ⟨i, rfl⟩ := Option.ne_none_iff_exists'.mp isThread
    obtain ⟨thread, present, pointer⟩ := stored i rfl
    refine ⟨i, thread, present, ?_, pointer⟩
    rw [valid.states i thread present, if_neg fun equal => away equal.symm]

/-! ## The shell's thread test -/

/-- Events that are fair one after the other. -/
def FairAll (bootStack : Set Word) (s : ThreadHistory) : List ThreadEvent → Prop
  | [] => True
  | event :: events => event.Fair bootStack s ∧ FairAll bootStack (event.apply s) events

theorem run_of_fairAll {bootStack : Set Word} {events : List ThreadEvent} {s : ThreadHistory}
    (fair : FairAll bootStack s events) :
    Run (ThreadStep bootStack) s events (events.foldl ThreadEvent.apply s) := by
  induction events generalizing s with
  | nil => exact .nil s
  | cons event events ih => exact .cons ⟨fair.1, rfl⟩ (ih fair.2)

/-- A new stack apart from the boot code's and from those of all threads. -/
theorem fair_create {s : ThreadHistory} {bootStack : Set Word} {entry base : Word}
    {block : Option Word} (boot : Disjoint (span base stackSize) bootStack)
    (threads : ∀ i, ∀ thread ∈ s.threadList i, stackSize ≤ (thread.stack - base).toNat ∧
      stackSize ≤ (base - thread.stack).toNat) :
    (ThreadEvent.create entry block (some base)).Fair bootStack s := by
  rintro _ ⟨⟩ context
  cases context with
  | none => exact boot
  | some i =>
      cases present : s.threadList i with
      | none =>
          rw [ThreadHistory.stackOf, present]
          exact disjoint_bot_right
      | some thread =>
          obtain ⟨above, below⟩ := threads i thread present
          rw [ThreadHistory.stackOf_some present]
          exact span_disjoint above below

/-- A context on a thread's stack. -/
theorem fair_yield {s : ThreadHistory} {bootStack : Set Word} {returnAddress : Word}
    {i : Fin maxThreads} (current : s.currentThreadId = some i)
    (inside : ∃ thread ∈ s.threadList i, (s.sp - 8 - thread.stack).toNat + 8 ≤ stackSize) :
    (ThreadEvent.yield returnAddress).Fair bootStack s := by
  obtain ⟨thread, present, within⟩ := inside
  change span (s.sp - 8) 8 ⊆ s.stackOf bootStack s.currentThreadId
  rw [current, ThreadHistory.stackOf_some present]
  exact span_subset within

/-- The stack of the code that booted the kernel. -/
def shellStack : Set Word := span 0x80000 0x4000

/-- The machine when the shell runs a command. -/
def shellMachine : Machine where
  reg := fun register => if register = .rsp then 0x82000 else 0
  mem := fun _ => 0
  interrupts := true

/-- The shell after some events. -/
def shellAfter (events : List ThreadEvent) : ThreadHistory :=
  events.foldl ThreadEvent.apply (.init shellMachine)

/-- The shell's `thread_test`: two threads and a yield. -/
def threadTest : List ThreadEvent :=
  [.create 0x101000 (some 0x200010) (some 0x200050),
    .create 0x102000 (some 0x202060) (some 0x2020A0), .yield 0x103000]

/-- The thread test, after which the first thread yields to the second one. -/
def firstYields : List ThreadEvent := threadTest ++ [.yield 0x101010]

theorem fairAll_threadTest {events : List ThreadEvent}
    (later : FairAll shellStack (shellAfter threadTest) events) :
    FairAll shellStack (.init shellMachine) (threadTest ++ events) := by
  refine ⟨?_, ?_, ?_, later⟩
  · exact fair_create (span_disjoint (by decide) (by decide)) (by decide)
  · exact fair_create (span_disjoint (by decide) (by decide)) (by decide)
  · exact span_subset (by decide)

theorem fairAll_firstYields {events : List ThreadEvent}
    (later : FairAll shellStack (shellAfter firstYields) events) :
    FairAll shellStack (.init shellMachine) (firstYields ++ events) := by
  rw [firstYields, List.append_assoc]
  refine fairAll_threadTest ⟨?_, later⟩
  exact fair_yield (i := 0) (by decide) (by decide)

/-- A thread that yields can be resumed. -/
theorem context_resumable_firstYields :
    (shellAfter firstYields).Resumable ⟨0x202050, 0x101010, [0, 0, 0, 0, 0, 0]⟩ := by
  have fair : FairAll shellStack (.init shellMachine) (firstYields ++ []) :=
    fairAll_firstYields trivial
  have run := run_of_fairAll fair
  rw [List.append_nil] at run
  have suspended : (shellAfter firstYields).suspended (some 0) =
      some ⟨0x202050, 0x101010, [0, 0, 0, 0, 0, 0]⟩ := by decide
  exact (context_resumable_iff run suspended).mpr (by decide)

/-- The code that booted the kernel cannot, once the thread test has switched away from it. -/
theorem context_lost_threadTest :
    Run (ThreadStep shellStack) (.init shellMachine) threadTest (shellAfter threadTest) ∧
      ∃ left, (shellAfter threadTest).suspended none = some left ∧
        ¬ (shellAfter threadTest).Resumable left := by
  refine ⟨run_of_fairAll (fairAll_threadTest trivial), .capture 0x103000 shellMachine,
    by decide, ?_⟩
  unfold ThreadHistory.Resumable
  decide

/-- The second thread yields back with the registers as they were. -/
def secondYields : List ThreadEvent := [.yield 0x102010]

/-- The second thread yields back after it has used `rbx`. -/
def secondComputes : List ThreadEvent :=
  [.compute ((shellAfter firstYields).setReg .rbx 1), .yield 0x102010]

/-- A thread that is resumed with the registers as they were. -/
theorem switchContext_preserves_secondYields :
    Run (Guarded (fun s event => event.ReturnsRegisters s) (ThreadStep shellStack))
      (.init shellMachine) (firstYields ++ secondYields)
      (shellAfter (firstYields ++ secondYields)) := by
  have fair : FairAll shellStack (.init shellMachine) (firstYields ++ secondYields) :=
    fairAll_firstYields ⟨fair_yield (i := 1) (by decide) (by decide), trivial⟩
  apply (switchContext_preserves_iff (run_of_fairAll fair)).mp
  have log : (shellAfter (firstYields ++ secondYields)).resumed =
      [(⟨0x202050, 0x101010, [0, 0, 0, 0, 0, 0]⟩, ⟨0x202050, 0x101010, [0, 0, 0, 0, 0, 0]⟩)] := by
    decide
  intro left found member
  obtain ⟨rfl, rfl⟩ := Prod.mk.inj (List.mem_singleton.mp (log ▸ member))
  rfl

/-- A thread that is resumed with another thread's `rbx`. -/
theorem switchContext_clobbers_secondComputes :
    Run (ThreadStep shellStack) (.init shellMachine) (firstYields ++ secondComputes)
        (shellAfter (firstYields ++ secondComputes)) ∧
      ¬ (shellAfter (firstYields ++ secondComputes)).Preserved := by
  have yields : (ThreadEvent.yield 0x102010).Fair shellStack
      (ThreadEvent.apply (shellAfter firstYields)
        (.compute ((shellAfter firstYields).setReg .rbx 1))) :=
    fair_yield (i := 1) (by decide) (by decide)
  refine ⟨run_of_fairAll (fairAll_firstYields ⟨fun _ _ _ _ => rfl, yields, trivial⟩), ?_⟩
  intro preserved
  have log : (shellAfter (firstYields ++ secondComputes)).resumed =
      [(⟨0x202050, 0x101010, [0, 0, 0, 0, 0, 0]⟩, ⟨0x202050, 0x101010, [1, 0, 0, 0, 0, 0]⟩)] := by
    decide
  have same := preserved _ _ (log ▸ List.mem_singleton_self _)
  revert same
  decide

end NTux.Cpu
