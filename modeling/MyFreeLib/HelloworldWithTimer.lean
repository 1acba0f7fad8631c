/-
`helloworld_with_timer.c`: a module that reports on its removal how many
seconds it was loaded.  It takes the seconds at both ends from `jiffies`, as
milliseconds in 32 bits, and subtracts them: the report is right exactly as
long as these milliseconds do not wrap in between.
-/
import MyFreeLib.LabelledRun
import MyFreeLib.PeriodCount
import Mathlib.Algebra.Order.Nonneg.Ring
import Mathlib.Data.Rat.Floor

namespace MyFreeLib

namespace HelloworldWithTimer

universe u

/-- `MSEC_PER_SEC / HZ`, the milliseconds between two ticks. -/
def tick (hz : ℕ) : ℕ := 1000 / hz

theorem tick_pos {hz : ℕ} (hhz : hz ∣ 1000) : 0 < tick hz :=
  Nat.div_pos (Nat.le_of_dvd (by norm_num) hhz)
    (Nat.pos_of_dvd_of_pos hhz (by norm_num))

/-- `jiffies_to_msecs`: the product has 32 bits. -/
def jiffiesToMsecs (hz : ℕ) (jiffies : UInt32) : UInt32 :=
  UInt32.ofNat (tick hz) * jiffies

/-- What `first_exit` prints. -/
structure Report where
  seconds : UInt32
  endTime : UInt32
deriving DecidableEq, Repr

/-- `first_init`; the result is `start_time`. -/
def firstInit (hz : ℕ) (jiffies : UInt32) : UInt32 :=
  jiffiesToMsecs hz jiffies / 1000

def firstExit (hz : ℕ) (jiffies startTime : UInt32) : Report :=
  let endTime := jiffiesToMsecs hz jiffies / 1000
  ⟨endTime - startTime, endTime⟩

/-- A line of the kernel log. -/
inductive Message
  | load (startTime : UInt32)
  | unload (report : Report)
deriving DecidableEq, Repr

section Runs

variable (hz : ℕ) (K : Type u) [Field K] [LinearOrder K]

/-- `jiffies`, and the milliseconds since the tick that set it. -/
@[ext] structure Clock where
  jiffies : UInt32
  sinceTick : K
  nonneg : 0 ≤ sinceTick
  lt : sinceTick < tick hz

/-- The clock when the module was loaded, and the milliseconds since then. -/
structure Load where
  clock : Clock hz K
  elapsed : {time : K // 0 ≤ time}

structure State where
  clock : Clock hz K
  startTime : UInt32
  loaded : Option (Load hz K)
  log : List Message

/-- Time passes, or the module is loaded or removed. -/
inductive Label
  | wait (time : {time : K // 0 ≤ time})
  | load
  | unload

variable {hz K}

def start (clock : Clock hz K) : State hz K where
  clock := clock
  startTime := 0
  loaded := none
  log := []

theorem Clock.tick_pos (clock : Clock hz K) : (0 : K) < tick hz :=
  clock.nonneg.trans_lt clock.lt

variable [IsStrictOrderedRing K] [FloorSemiring K]

/-- The ticks in the next milliseconds. -/
def Clock.ticks (clock : Clock hz K) (time : K) : ℕ :=
  ⌊(clock.sinceTick + time) / tick hz⌋₊

theorem Clock.periodCount (clock : Clock hz K) {time : K} (htime : 0 ≤ time) :
    PeriodCount (tick hz : K) (clock.sinceTick + time) (clock.ticks time) :=
  .floor clock.tick_pos (add_nonneg clock.nonneg htime)

def Clock.advance (clock : Clock hz K) (time : {time : K // 0 ≤ time}) :
    Clock hz K where
  jiffies := clock.jiffies + UInt32.ofNat (clock.ticks time)
  sinceTick := clock.sinceTick + time - tick hz * clock.ticks time
  nonneg := sub_nonneg.mpr (clock.periodCount time.2).le
  lt := by
    have hlt := (clock.periodCount time.2).lt
    linarith

def next (s : State hz K) : Label K → Option (State hz K)
  | .wait time => some { s with
      clock := s.clock.advance time
      loaded := s.loaded.map fun load =>
        { load with elapsed := load.elapsed + time } }
  | .load =>
      match s.loaded with
      | some _ => none
      | none =>
          let startTime := firstInit hz s.clock.jiffies
          some { s with
            startTime := startTime
            loaded := some ⟨s.clock, 0⟩
            log := s.log ++ [.load startTime] }
  | .unload =>
      match s.loaded with
      | none => none
      | some _ => some { s with
          loaded := none
          log := s.log ++
            [.unload (firstExit hz s.clock.jiffies s.startTime)] }

/-- A module that was loaded for less than `2 ^ 32` milliseconds reports the
seconds, give or take one. -/
def Right (s : State hz K) (label : Label K) (t : State hz K) : Prop :=
  match label, s.loaded with
  | .unload, some load => load.elapsed.1 < 2 ^ 32 →
      ∃ report, t.log = s.log ++ [.unload report] ∧
        |(report.seconds.toNat : K) - load.elapsed / 1000| ≤ 1
  | _, _ => True

/-- The milliseconds of `jiffies` when the module was loaded, and those ticked
since then, stay below `2 ^ 32`. -/
def Unwrapped (s : State hz K) (label : Label K) (_ : State hz K) : Prop :=
  match label, s.loaded with
  | .unload, some load => load.elapsed.1 < 2 ^ 32 →
      (jiffiesToMsecs hz load.clock.jiffies).toNat +
        tick hz * load.clock.ticks load.elapsed < 2 ^ 32
  | _, _ => True

/-! ### The clock -/

/-- `jiffies_to_msecs` of later `jiffies` goes on counting, modulo `2 ^ 32`. -/
theorem jiffiesToMsecs_add (hz : ℕ) (jiffies : UInt32) (ticks : ℕ) :
    (jiffiesToMsecs hz (jiffies + UInt32.ofNat ticks)).toNat =
      ((jiffiesToMsecs hz jiffies).toNat + tick hz * ticks) % 2 ^ 32 := by
  rw [jiffiesToMsecs, UInt32.mul_add, ← UInt32.ofNat_mul, UInt32.toNat_add,
    UInt32.toNat_ofNat', Nat.add_mod_mod, jiffiesToMsecs]

theorem Clock.ticks_add (clock : Clock hz K) (time : {time : K // 0 ≤ time})
    {later : K} (hlater : 0 ≤ later) :
    clock.ticks (time + later) =
      clock.ticks time + (clock.advance time).ticks later := by
  have hlong := clock.periodCount (add_nonneg time.2 hlater)
  have hrest := (clock.advance time).periodCount hlater
  rw [← PeriodCount.add_iff (m := clock.ticks time)] at hrest
  refine hlong.unique clock.tick_pos ?_
  convert hrest using 1
  simp only [advance]
  ring

theorem Clock.advance_add (clock : Clock hz K)
    (time later : {time : K // 0 ≤ time}) :
    (clock.advance time).advance later = clock.advance (time + later) := by
  have hticks := clock.ticks_add time later.2
  ext
  · simp only [advance, Nonneg.coe_add, hticks, UInt32.ofNat_add]
    exact congrArg UInt32.toNat (UInt32.add_assoc ..)
  · simp only [advance, Nonneg.coe_add, hticks, Nat.cast_add]
    ring

theorem Clock.advance_zero (clock : Clock hz K) : clock.advance 0 = clock := by
  have hnow : PeriodCount (tick hz : K) (clock.sinceTick + 0) 0 :=
    ⟨by simpa using clock.nonneg, by simpa using clock.lt⟩
  have hticks : clock.ticks 0 = 0 :=
    (clock.periodCount le_rfl).unique clock.tick_pos hnow
  ext
  · simp [advance, hticks]
  · simp [advance, hticks]

/-! ### One report -/

theorem firstExit_seconds (hz : ℕ) (jiffies : UInt32) (ticks : ℕ) :
    (firstExit hz (jiffies + UInt32.ofNat ticks)
        (firstInit hz jiffies)).seconds.toNat =
      (2 ^ 32 - (jiffiesToMsecs hz jiffies).toNat / 1000 +
        ((jiffiesToMsecs hz jiffies).toNat + tick hz * ticks) % 2 ^ 32 /
          1000) % 2 ^ 32 := by
  simp only [firstExit, firstInit, UInt32.toNat_sub, UInt32.toNat_div,
    jiffiesToMsecs_add]
  rfl

/-- Unsigned subtraction of the smaller number. -/
theorem wrapped_sub {m n : ℕ} (hle : m ≤ n) (hlt : n < 2 ^ 32) :
    (2 ^ 32 - m + n) % 2 ^ 32 = n - m := by
  rw [← Nat.add_sub_cancel' hle, ← Nat.add_assoc, Nat.sub_add_cancel
    (hle.trans hlt.le), Nat.add_mod_left, Nat.add_sub_cancel_left]
  exact Nat.mod_eq_of_lt ((Nat.sub_le n m).trans_lt hlt)

/-- Without a wrap the report is the difference of two counts of whole
seconds. -/
theorem abs_report_lt (hhz : hz ∣ 1000) (clock : Clock hz K) {time : K}
    (htime : 0 ≤ time) (msecs : ℕ) :
    |(((msecs + tick hz * clock.ticks time) / 1000 : ℕ) : K) -
      (msecs / 1000 : ℕ) - time / 1000| < 1 := by
  have htick : tick hz * hz = 1000 := Nat.div_mul_cancel hhz
  have hhz_pos : 0 < hz := Nat.pos_of_dvd_of_pos hhz (by norm_num)
  have hperiod : (tick hz : K) * hz = 1000 := by exact_mod_cast htick
  have hseconds (ticks : ℕ) : ticks / tick hz / hz = ticks / 1000 := by
    rw [Nat.div_div_eq_div_mul, htick]
  -- the milliseconds of `jiffies` begin with a whole number of ticks
  have hload : PeriodCount (tick hz : K)
      (tick hz * (msecs / tick hz : ℕ) + clock.sinceTick)
      (msecs / tick hz) := by
    refine ⟨?_, ?_⟩
    · linarith [clock.nonneg]
    · linarith [clock.lt]
  have hunload : PeriodCount (tick hz : K)
      (tick hz * (msecs / tick hz : ℕ) + (clock.sinceTick + time))
      ((msecs + tick hz * clock.ticks time) / tick hz) := by
    rw [Nat.add_mul_div_left _ _ (tick_pos hhz), PeriodCount.add_iff]
    exact clock.periodCount htime
  have hcoarse := hload.coarsen clock.tick_pos hhz_pos
  have hcoarse' := hunload.coarsen clock.tick_pos hhz_pos
  rw [hperiod, hseconds] at hcoarse hcoarse'
  have hdiff := hcoarse.abs_sub_lt (by norm_num) hcoarse'
  convert hdiff using 3
  ring

/-- After a wrap it is far from the time that has passed. -/
theorem one_lt_abs_report {since time : K} {msecs ticked seconds period : ℕ}
    (hmsecs : msecs < 2 ^ 32) (hperiod : period ≤ 1000)
    (hsince : since < period) (hticked : (ticked : K) ≤ since + time)
    (htime : time < 2 ^ 32) (hwraps : 2 ^ 32 ≤ msecs + ticked)
    (hseconds : seconds = (2 ^ 32 - msecs / 1000 +
      (msecs + ticked) % 2 ^ 32 / 1000) % 2 ^ 32) :
    1 < |(seconds : K) - time / 1000| := by
  have hle : (period : K) ≤ 1000 := by exact_mod_cast hperiod
  have hbound : ticked < 2 ^ 32 + 1000 := by
    have hlt : (ticked : K) < 2 ^ 32 + 1000 := by linarith
    exact_mod_cast hlt
  have hwrapped : (msecs + ticked) % 2 ^ 32 + 2 ^ 32 = msecs + ticked ∨
      (msecs + ticked) % 2 ^ 32 + 2 ^ 33 = msecs + ticked := by
    omega
  have hcases : seconds ≤ 1 ∧ 2 ^ 32 < ticked + 1000 ∨
      4290000000 < seconds := by
    generalize (msecs + ticked) % 2 ^ 32 = later at hwrapped hseconds
    rcases Nat.lt_or_ge (later / 1000) (msecs / 1000) with hlt | hge
    · rw [Nat.mod_eq_of_lt (by omega)] at hseconds
      right
      omega
    · rw [wrapped_sub hge (by omega)] at hseconds
      left
      omega
  rcases hcases with ⟨hsmall, hlong⟩ | hlarge
  · have hsmall : (seconds : K) ≤ 1 := by exact_mod_cast hsmall
    have hlong : (2 ^ 32 : K) < ticked + 1000 := by exact_mod_cast hlong
    rw [lt_abs]
    right
    linarith
  · have hlarge : (4290000000 : K) < seconds := by exact_mod_cast hlarge
    rw [lt_abs]
    left
    linarith

theorem within_one_iff (hhz : hz ∣ 1000) (clock : Clock hz K)
    (time : {time : K // 0 ≤ time}) (hlt : time.1 < 2 ^ 32) :
    |((firstExit hz (clock.advance time).jiffies
        (firstInit hz clock.jiffies)).seconds.toNat : K) - time / 1000| ≤ 1 ↔
      (jiffiesToMsecs hz clock.jiffies).toNat +
        tick hz * clock.ticks time < 2 ^ 32 := by
  have hmsecs := (jiffiesToMsecs hz clock.jiffies).toNat_lt
  have hseconds := firstExit_seconds hz clock.jiffies (clock.ticks time)
  simp only [Clock.advance]
  generalize (jiffiesToMsecs hz clock.jiffies).toNat = msecs at *
  constructor
  · intro hright
    by_contra hwraps
    have hle := (clock.periodCount time.2).le
    refine absurd hright (not_le.mpr (one_lt_abs_report hmsecs
      (Nat.div_le_self 1000 hz) clock.lt ?_ hlt (Nat.le_of_not_lt hwraps)
      hseconds))
    exact_mod_cast hle
  · intro hrange
    have hsub : msecs / 1000 ≤
        (msecs + tick hz * clock.ticks time) / 1000 :=
      Nat.div_le_div_right (Nat.le_add_right _ _)
    have hdiff := abs_report_lt hhz clock time.2 msecs
    rw [hseconds, Nat.mod_eq_of_lt hrange, wrapped_sub hsub (by omega),
      Nat.cast_sub hsub]
    exact hdiff.le

/-! ### After boot -/

/-- `INITIAL_JIFFIES`: `jiffies` wraps for the first time after five
minutes. -/
def initialJiffies (hz : ℕ) : UInt32 := -UInt32.ofNat (300 * hz)

def bootClock (hhz : hz ∣ 1000) : Clock hz K where
  jiffies := initialJiffies hz
  sinceTick := 0
  nonneg := le_rfl
  lt := Nat.cast_pos.mpr (tick_pos hhz)

theorem tick_mul (hhz : hz ∣ 1000) : tick hz * (300 * hz) = 300000 := by
  rw [Nat.mul_left_comm, tick, Nat.div_mul_cancel hhz]

theorem jiffiesToMsecs_initialJiffies (hhz : hz ∣ 1000) :
    (jiffiesToMsecs hz (initialJiffies hz)).toNat = 2 ^ 32 - 300000 := by
  rw [jiffiesToMsecs, initialJiffies, UInt32.mul_neg, ← UInt32.ofNat_mul,
    tick_mul hhz]
  rfl

/-- Five minutes after boot `jiffies` has ticked `300 * HZ` times. -/
theorem bootClock_ticks_lt_iff (hhz : hz ∣ 1000) {time : K}
    (htime : 0 ≤ time) :
    tick hz * (bootClock hhz).ticks time < 300000 ↔ time < 300000 := by
  have hcount := (bootClock hhz).periodCount htime
  have hlt := hcount.lt_iff (n := 300 * hz) (bootClock hhz).tick_pos
  have hminutes : (tick hz : K) * (300 * hz : ℕ) = 300000 := by
    exact_mod_cast tick_mul hhz
  rw [hminutes] at hlt
  rw [← tick_mul hhz, Nat.mul_lt_mul_left (tick_pos hhz), ← hlt]
  simp [bootClock]

/-- A module that is loaded within five minutes after boot has to be removed
within these five minutes. -/
theorem boot_unwrapped_iff (hhz : hz ∣ 1000)
    {early time : {time : K // 0 ≤ time}} (hearly : early.1 < 300000) :
    (jiffiesToMsecs hz ((bootClock hhz).advance early).jiffies).toNat +
        tick hz * ((bootClock hhz).advance early).ticks time < 2 ^ 32 ↔
      early.1 + time.1 < 300000 := by
  have hload := (bootClock_ticks_lt_iff hhz early.2).mpr hearly
  rw [← bootClock_ticks_lt_iff hhz (add_nonneg early.2 time.2),
    (bootClock hhz).ticks_add early time.2, Nat.mul_add]
  have hmsecs : (jiffiesToMsecs hz
      ((bootClock hhz).advance early).jiffies).toNat =
        2 ^ 32 - 300000 + tick hz * (bootClock hhz).ticks early.1 := by
    rw [Clock.advance, jiffiesToMsecs_add]
    simp only [bootClock] at hload ⊢
    rw [jiffiesToMsecs_initialJiffies hhz]
    exact Nat.mod_eq_of_lt (by omega)
  rw [hmsecs]
  omega

/-! ### Runs -/

/-- While the module is loaded, `start_time` is from the clock at its load. -/
def Inv (s : State hz K) : Prop :=
  ∀ load, s.loaded = some load →
    s.clock = load.clock.advance load.elapsed ∧
      s.startTime = firstInit hz load.clock.jiffies

theorem start_inv (clock : Clock hz K) : Inv (start clock) :=
  nofun

theorem next_inv (s : State hz K) (label : Label K) (t : State hz K)
    (hs : Inv s) (h : next s label = some t) : Inv t := by
  cases label with
  | wait time =>
      cases h
      intro load hload
      obtain ⟨old, hold, rfl⟩ := Option.map_eq_some_iff.mp hload
      obtain ⟨hclock, hstart⟩ := hs old hold
      refine ⟨?_, hstart⟩
      rw [hclock, old.clock.advance_add]
  | load =>
      simp only [next] at h
      split at h
      · cases h
      · cases h
        intro load hload
        cases hload
        exact ⟨s.clock.advance_zero.symm, rfl⟩
  | unload =>
      simp only [next] at h
      split at h
      · cases h
      · cases h
        exact nofun

theorem next_right_iff (hhz : hz ∣ 1000) (s : State hz K) (label : Label K)
    (t : State hz K) (hs : Inv s) (h : next s label = some t) :
    Right s label t ↔ Unwrapped s label t := by
  cases label with
  | wait time => exact Iff.rfl
  | load => exact Iff.rfl
  | unload =>
      cases hloaded : s.loaded with
      | none => simp [Right, Unwrapped, hloaded]
      | some load =>
          obtain ⟨hclock, hstart⟩ := hs load hloaded
          simp only [next, hloaded, Option.some.injEq] at h
          subst h
          simp only [Right, Unwrapped, hloaded]
          refine forall_congr' fun hlt => ?_
          rw [← within_one_iff hhz load.clock load.elapsed hlt, hclock,
            hstart]
          simp

/-- For every tick rate, from any clock: every module that was loaded for less
than `2 ^ 32` milliseconds reports the seconds, give or take one, exactly if
for each of them the milliseconds of `jiffies` did not wrap meanwhile. -/
theorem right_iff (hhz : hz ∣ 1000) (clock : Clock hz K)
    (labels : List (Label K)) :
    EachStep next Right (start clock) labels ↔
      EachStep next Unwrapped (start clock) labels :=
  eachStep_congr (fun s label t hs _ h => next_inv s label t hs h)
    (next_right_iff hhz) (start_inv clock) labels

end Runs

theorem hundred_dvd : 100 ∣ 1000 := by norm_num

/-- The clock of the vexpress board at boot: it ticks every ten
milliseconds. -/
def vexpressBoot : Clock 100 ℚ := bootClock hundred_dvd

def milliseconds (count : ℕ) : {time : ℚ // 0 ≤ time} :=
  ⟨count, Nat.cast_nonneg count⟩

/-- Loaded one minute after boot, removed after two more. -/
theorem right_threeMinutes :
    EachStep next Right (start vexpressBoot)
      [.wait (milliseconds 60000), .load, .wait (milliseconds 120000),
        .unload] := by
  refine (right_iff hundred_dvd vexpressBoot _).mpr ?_
  rw [eachStep_cons_iff rfl, eachStep_cons_iff rfl, eachStep_cons_iff rfl,
    eachStep_cons_iff rfl]
  refine ⟨trivial, trivial, trivial, fun _ => ?_, trivial⟩
  exact (boot_unwrapped_iff hundred_dvd (by norm_num [milliseconds])).mpr
    (by norm_num [milliseconds])

/-- Loaded one minute after boot, removed after ten more. -/
theorem not_right_elevenMinutes : ¬ ∀ labels,
    EachStep next Right (start vexpressBoot) labels := by
  intro h
  have hrun := h [.wait (milliseconds 60000), .load,
    .wait (milliseconds 600000), .unload]
  rw [eachStep_cons_iff rfl, eachStep_cons_iff rfl, eachStep_cons_iff rfl,
    eachStep_cons_iff rfl] at hrun
  obtain ⟨-, -, -, hright, -⟩ := hrun
  have hexec : exec next (start vexpressBoot)
      [.wait (milliseconds 60000), .load, .wait (milliseconds 600000)] =
        some _ := rfl
  have hloaded := exec_invariant next_inv (start_inv vexpressBoot) hexec
  have hunwrapped := (next_right_iff hundred_dvd _ _ _ hloaded rfl).mp
    hright
  have hminutes := (boot_unwrapped_iff hundred_dvd
    (by norm_num [milliseconds])).mp (hunwrapped (by norm_num [milliseconds]))
  norm_num [milliseconds] at hminutes

end HelloworldWithTimer

end MyFreeLib
