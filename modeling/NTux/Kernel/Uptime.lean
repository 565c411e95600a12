import NTux.Console.Numerals

/-! # Sleeping and uptime

`interrupts/timer.c` and `info_cmd_uptime` of `kernel_lib/info.c`. Both convert the same tick
count: to sleep, a second has a hundred ticks, and to show the uptime it has a thousand. So
the time that is shown does not advance as far as was slept (`sleepS_uptime_iff`).
-/

namespace NTux.Kernel

open NTux.Foundation NTux.Console

/-! ## Sleeping -/

/-- `timer_handler`, on `tick_count`. -/
def timerHandler (tickCount : BitVec 64) : BitVec 64 := tickCount + 1

/-- The loop of `sleep` with as many turns as the list is long, in each of which the handler
runs so often before `hlt` is over. It gives the tick count when the loop ends after these
turns. -/
def sleepLoop (startTick : BitVec 64) (ticks : BitVec 32) : List Nat → BitVec 64 → Option (BitVec 64)
  | [], tickCount => if tickCount - startTick < ticks.setWidth 64 then none else some tickCount
  | runs :: turns, tickCount =>
      if tickCount - startTick < ticks.setWidth 64 then
        sleepLoop startTick ticks turns (timerHandler^[runs] tickCount)
      else none

/-- `sleep` -/
def sleep (ticks : BitVec 32) (turns : List Nat) (tickCount : BitVec 64) : Option (BitVec 64) :=
  sleepLoop tickCount ticks turns tickCount

/-- The ticks that `sleep_s` waits for. -/
def ticksOf (seconds : BitVec 32) : BitVec 32 := seconds * 100

/-- `sleep_s` -/
def sleepS (seconds : BitVec 32) (turns : List Nat) (tickCount : BitVec 64) : Option (BitVec 64) :=
  sleep (ticksOf seconds) turns tickCount

/-! ## Uptime -/

/-- The variables of `info_cmd_uptime`. -/
structure Uptime where
  hours : Nat
  minutes : Nat
  seconds : Nat
  ms : Nat

def uptime (tickCount : BitVec 64) : Uptime :=
  let totalMs := tickCount.toNat
  { hours := totalMs / 3600000
    minutes := totalMs % 3600000 / 60000
    seconds := totalMs % 60000 / 1000
    ms := totalMs % 1000 }

/-- `"Uptime     : "` -/
def uptimeLabel : List Byte :=
  [0x55, 0x70, 0x74, 0x69, 0x6D, 0x65, 0x20, 0x20, 0x20, 0x20, 0x20, 0x3A, 0x20]

/-- `kprint` of a text of the kernel. -/
def kprintText (color : Nat) (text : List Byte) : List Print := [⟨text ++ [0], color⟩]

/-- `info_cmd_uptime`; the color is the one of `g_printer`. -/
def infoCmdUptime (color : Nat) (tickCount : BitVec 64) : List Print :=
  let u := uptime tickCount
  let kprintUint (n : Nat) := kprintUint color (BitVec.ofNat 32 n)
  kprintText color uptimeLabel ++
    (if u.hours ≠ 0 then kprintUint u.hours ++ kprintText color [0x68, 0x20] else []) ++
    (if u.hours ≠ 0 ∨ u.minutes ≠ 0 then kprintUint u.minutes ++ kprintText color [0x6D, 0x20]
      else []) ++
    kprintUint u.seconds ++ kprintText color [0x2E] ++
    (if u.ms < 100 then kprintText color [0x30] else []) ++
    (if u.ms < 10 then kprintText color [0x30] else []) ++
    kprintUint u.ms ++ kprintText color [0x73, 0x0A]

/-- The milliseconds that are shown; `kprint_uint` shows the hours as an `int`. -/
def Uptime.shown (u : Uptime) : Int :=
  int u.hours * 3600000 + u.minutes * 60000 + u.seconds * 1000 + u.ms

/-- The parts behind the hours are shown as they are. -/
theorem uptime_shown (tickCount : BitVec 64) :
    (uptime tickCount).shown =
      int ((tickCount.toNat / 3600000 : Nat)) * 3600000 + (tickCount.toNat % 3600000 : Nat) := by
  simp only [Uptime.shown, uptime]
  omega

theorem uptime_parts (tickCount : BitVec 64) :
    (uptime tickCount).minutes < 60 ∧ (uptime tickCount).seconds < 60 ∧
      (uptime tickCount).ms < 1000 := by
  simp only [uptime]
  omega

/-- What `kprint_uint` prints of a number of 64 bits. -/
theorem printed_part (color n : Nat) :
    printedText (kprintUint color (BitVec.ofNat 32 n)) = itoa (int n) 10 := by
  have same : int (BitVec.ofNat 32 n).toNat = int n := by
    rw [BitVec.toNat_ofNat]
    unfold int
    omega
  rw [printed_uint, same]

theorem printed_small (color : Nat) {n : Nat} (small : n < 1000) :
    printedText (kprintUint color (BitVec.ofNat 32 n)) = numeralOf 10 n := by
  rw [printed_part, int_of_range (by omega) (by omega)]
  exact itoa_natCast (by decide) (by decide) (small.trans (by decide))

theorem printed_text (color : Nat) {text : List Byte} (chars : ∀ c ∈ text, c ≠ 0) :
    printedText (kprintText color text) = text := by
  rw [kprintText, printedText, List.flatMap_singleton, printed_chars chars]

theorem printedText_append (first second : List Print) :
    printedText (first ++ second) = printedText first ++ printedText second :=
  List.flatMap_append

theorem printedText_ite (condition : Prop) [Decidable condition] (prints : List Print) :
    printedText (if condition then prints else []) =
      if condition then printedText prints else [] := by
  split <;> rfl

/-- **The text of the uptime.** The hours as an `int`, and the rest as numerals. -/
theorem infoCmdUptime_text (color : Nat) (tickCount : BitVec 64) :
    printedText (infoCmdUptime color tickCount) =
      let u := uptime tickCount
      uptimeLabel ++ (if u.hours ≠ 0 then itoa (int u.hours) 10 ++ [0x68, 0x20] else []) ++
        (if u.hours ≠ 0 ∨ u.minutes ≠ 0 then numeralOf 10 u.minutes ++ [0x6D, 0x20] else []) ++
        numeralOf 10 u.seconds ++ [0x2E] ++ (if u.ms < 100 then [0x30] else []) ++
        (if u.ms < 10 then [0x30] else []) ++ numeralOf 10 u.ms ++ [0x73, 0x0A] := by
  obtain ⟨minutes, seconds, ms⟩ := uptime_parts tickCount
  dsimp only [infoCmdUptime]
  generalize uptime tickCount = u at minutes seconds ms
  simp only [printedText_append, printedText_ite, printed_part,
    printed_small color (show u.minutes < 1000 by omega),
    printed_small color (show u.seconds < 1000 by omega), printed_small color ms]
  rw [@printed_text color uptimeLabel (by decide), @printed_text color [0x68, 0x20] (by decide),
    @printed_text color [0x6D, 0x20] (by decide), @printed_text color [0x2E] (by decide),
    @printed_text color [0x30] (by decide), @printed_text color [0x73, 0x0A] (by decide)]

/-! ## Both together -/

theorem timerHandler_iterate (runs : Nat) (tickCount : BitVec 64) :
    timerHandler^[runs] tickCount = tickCount + BitVec.ofNat 64 runs := by
  induction runs with
  | zero => exact (BitVec.add_zero _).symm
  | succ runs ih =>
      rw [Function.iterate_succ_apply', ih, timerHandler, BitVec.add_assoc]
      congr 1
      apply BitVec.eq_of_toNat_eq
      simp [BitVec.toNat_add, BitVec.toNat_ofNat]

/-- Where the handler runs once in every turn, the loop ends after as many ticks as it waits
for. -/
theorem sleepLoop_ones (startTick : BitVec 64) (ticks : BitVec 32) (left : Nat)
    (some : left ≤ ticks.toNat) :
    sleepLoop startTick ticks (List.replicate left 1)
        (startTick + BitVec.ofNat 64 (ticks.toNat - left)) =
      Option.some (startTick + BitVec.ofNat 64 ticks.toNat) := by
  have bound := ticks.isLt
  have passed : ∀ n ≤ ticks.toNat,
      (startTick + BitVec.ofNat 64 n - startTick < ticks.setWidth 64 ↔ n < ticks.toNat) := by
    intro n inside
    have number : (BitVec.ofNat 64 n).toNat = n := by
      rw [BitVec.toNat_ofNat]
      omega
    have whole : (ticks.setWidth 64).toNat = ticks.toNat := by
      rw [BitVec.toNat_setWidth]
      omega
    rw [BitVec.add_comm, BitVec.add_sub_cancel, BitVec.lt_def, number, whole]
  induction left with
  | zero =>
      rw [List.replicate_zero, sleepLoop, Nat.sub_zero]
      exact if_neg fun less => absurd ((passed _ (le_refl _)).mp less) (lt_irrefl _)
  | succ left ih =>
      have next : timerHandler^[1] (startTick + BitVec.ofNat 64 (ticks.toNat - (left + 1))) =
          startTick + BitVec.ofNat 64 (ticks.toNat - left) := by
        rw [timerHandler_iterate, BitVec.add_assoc, ← BitVec.ofNat_add]
        congr 2
        omega
      rw [List.replicate_succ, sleepLoop, if_pos ((passed _ (Nat.sub_le _ _)).mpr (by omega)), next,
        ih (by omega)]

/-- A sleep that returns has made the time that is shown advance by its seconds at least, and
by no more if the handler has run for the ticks that were waited for only. -/
def SleepShown (seconds : BitVec 32) (startTick : BitVec 64) : Prop :=
  ∀ turns endTick, sleepS seconds turns startTick = some endTick →
    (uptime startTick).shown + 1000 * seconds.toNat ≤ (uptime endTick).shown ∧
      (turns.sum = (ticksOf seconds).toNat →
        (uptime endTick).shown = (uptime startTick).shown + 1000 * seconds.toNat)

/-- What is lost in an `int` does not get less. -/
theorem int_sub_le {m n : Nat} (le : m ≤ n) : int n - n ≤ int m - m := by
  unfold int
  omega

/-- Ticks that fit into 32 bits are shown as no more than so many milliseconds. -/
theorem shown_add_le (tickCount : BitVec 64) {ticks : Nat} (small : ticks < 2 ^ 32) :
    (uptime (tickCount + BitVec.ofNat 64 ticks)).shown ≤ (uptime tickCount).shown + ticks := by
  have bound := tickCount.isLt
  have number : (BitVec.ofNat 64 ticks).toNat = ticks := by
    rw [BitVec.toNat_ofNat]
    omega
  rw [uptime_shown, uptime_shown, BitVec.toNat_add, number]
  generalize tickCount.toNat = t at bound ⊢
  by_cases wraps : t + ticks < 2 ^ 64
  · rw [Nat.mod_eq_of_lt wraps]
    have later : t / 3600000 ≤ (t + ticks) / 3600000 := Nat.div_le_div_right (Nat.le_add_right _ _)
    have hours := int_sub_le later
    omega
  · -- where the counter wraps, the hours have wrapped 1193 times before
    have start : int (t / 3600000 : Nat) = (t / 3600000 : Nat) - 1193 * 0x100000000 := by
      unfold int
      omega
    rw [start, int_of_range (by omega) (by omega)]
    omega

/-- **Sleeping and uptime** agree on no time but none. -/
theorem sleepS_uptime_iff (seconds : BitVec 32) (startTick : BitVec 64) :
    SleepShown seconds startTick ↔ seconds = 0 := by
  constructor
  · intro shown
    have ran := sleepLoop_ones startTick (ticksOf seconds) (ticksOf seconds).toNat (le_refl _)
    rw [Nat.sub_self, BitVec.add_zero] at ran
    have advanced := (shown _ _ ran).1
    have most := shown_add_le startTick (ticksOf seconds).isLt
    have waits : (ticksOf seconds).toNat ≤ 100 * seconds.toNat := by
      rw [ticksOf, BitVec.toNat_mul, Nat.mul_comm]
      exact Nat.mod_le _ _
    apply BitVec.eq_of_toNat_eq
    change seconds.toNat = 0
    omega
  · rintro rfl turns endTick returned
    have none : ¬ startTick - startTick < (ticksOf 0).setWidth 64 := by
      rw [BitVec.sub_self]
      decide
    cases turns with
    | nil =>
        rw [sleepS, sleep, sleepLoop, if_neg none] at returned
        obtain rfl := Option.some.inj returned
        exact ⟨by simp, fun _ => by simp⟩
    | cons runs turns =>
        rw [sleepS, sleep, sleepLoop, if_neg none] at returned
        cases returned

/-- A second after the start of the system the uptime shows a tenth of it. -/
theorem sleepS_uptime_second : ¬ SleepShown 1 0 := by
  intro shown
  have ran : sleepS 1 (List.replicate 100 1) 0 = some 100 :=
    sleepLoop_ones 0 100 100 (le_refl _)
  have advanced := (shown _ _ ran).1
  revert advanced
  decide

end NTux.Kernel
