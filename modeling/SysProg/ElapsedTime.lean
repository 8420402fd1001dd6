import SysProg.Lib.Run
import SysProg.Lib.Decimal

/-!
# `print_elapsed_time` of ALSP/io_timerfd.c

The first call notes the time, and every call prints how much time has passed since then, in
seconds and milliseconds.  The difference of the nanoseconds borrows a second if it is negative,
and is then rounded to milliseconds.  The rounding does not carry back into the seconds: from
999500000 nanoseconds on, 1000 milliseconds are printed.

**Steps.** `elapsed` is the arithmetic, on values of type `int`; `none` stands for an overflow.
`step` is a call of `print_elapsed_time`, with the results of `clock_gettime` as the label.

**Results.** `elapsed_eq`: the numbers that are printed.  `rounded_iff`: they are the elapsed
time to the nearest millisecond, with at most 999 milliseconds, exactly if less than 999500000
nanoseconds are left over the full seconds, and the difference of the seconds is an `int`.
`lines_rounded`: the same for all lines of a process.
-/

namespace SysProg
namespace ElapsedTime

open Run Decimal

section Program

/-- A normalised `struct timespec`. -/
structure Timespec where
  tvSec : Int
  tvNsec : Int
  nsec_nonneg : 0 ≤ tvNsec
  nsec_lt : tvNsec < 1000000000
deriving DecidableEq, Repr

/-- The instant, in nanoseconds. -/
def Timespec.instant (ts : Timespec) : Int :=
  ts.tvSec * 1000000000 + ts.tvNsec

/-- The result of an operation on values of type `int`. -/
def checked (v : Int) : Option Int :=
  if IntFits v then some v else none

/-- The two numbers of a line. -/
structure Line where
  secs : Int
  msecs : Int
deriving DecidableEq, Repr

/-- `secs` and `nsecs` after the borrow. -/
def borrow (secs nsecs : Int) : Option (Int × Int) :=
  if nsecs < 0 then
    (checked (secs - 1)).bind fun less =>
      (checked (nsecs + 1000000000)).map fun more => (less, more)
  else some (secs, nsecs)

def elapsed (start curr : Timespec) : Option Line :=
  (borrow (toInt (curr.tvSec - start.tvSec)) (toInt (curr.tvNsec - start.tvNsec))).bind
    fun (secs, nsecs) =>
      (checked (nsecs + 500000)).map fun sum => ⟨secs, sum.tdiv 1000000⟩

/-- `%03d` -/
def printPadded (v : Int) : List UInt8 :=
  List.replicate (3 - (printInt v).length) (digit 0) ++ printInt v

/-- `"%d.%03d: "` -/
def Line.text (line : Line) : List UInt8 :=
  printInt line.secs ++ [46] ++ printPadded line.msecs ++ [58, 32]

inductive Status where
  | running
  /-- `handle_error` -/
  | exited
  | undefined
deriving DecidableEq, Repr

/-- The static variables, and the lines printed so far. -/
structure Process where
  status : Status
  start : Timespec
  firstCall : Bool
  lines : List Line
deriving DecidableEq, Repr

/-- What has been written to stdout. -/
def Process.output (s : Process) : List UInt8 :=
  s.lines.flatMap Line.text

/-- The results of `clock_gettime`; the first is used in the first call only. -/
structure Call where
  first : Option Timespec
  curr : Option Timespec
deriving DecidableEq, Repr

/-- `start`, once it is set. -/
def Process.startOf (s : Process) (call : Call) : Option Timespec :=
  if s.firstCall then call.first else some s.start

def step (s : Process) (call : Call) : Option Process :=
  match s.status with
  | .running =>
      match s.startOf call, call.curr with
      | none, _ => some { s with status := .exited, firstCall := false }
      | some start, none => some { s with status := .exited, start := start, firstCall := false }
      | some start, some curr =>
          match elapsed start curr with
          | none => some { s with status := .undefined, start := start, firstCall := false }
          | some line =>
              some { s with start := start, firstCall := false, lines := s.lines ++ [line] }
  | _ => none

/-- The static variables before the first call. -/
def begin : Process where
  status := .running
  start := ⟨0, 0, Int.le_refl 0, by decide⟩
  firstCall := true
  lines := []

end Program

section Rounding

/-- No other number of milliseconds is nearer to the time. -/
def Nearest (msecs time : Int) : Prop :=
  ∀ k : Int, (1000000 * msecs - time).natAbs ≤ (1000000 * k - time).natAbs

theorem nearest_of_le
    {msecs time : Int}
    (hlow : -500000 ≤ 1000000 * msecs - time)
    (hhigh : 1000000 * msecs - time ≤ 500000) :
    Nearest msecs time := by
  intro k
  rcases lt_trichotomy k msecs with hlt | rfl | hgt
  · omega
  · exact Nat.le_refl _
  · omega

/-- A line is right: less than a second of milliseconds, and the time to the nearest one. -/
structure Rounded (time : Int) (line : Line) : Prop where
  nonneg : 0 ≤ line.msecs
  le : line.msecs ≤ 999
  nearest : Nearest (1000 * line.secs + line.msecs) time

end Rounding

section Arithmetic

variable {start curr : Timespec}

theorem checked_of_fits
    {v : Int}
    (h : IntFits v) :
    checked v = some v := by
  rw [checked, if_pos h]

/-- The nanoseconds differ by less than a second. -/
theorem nsecs_bounds
    (start curr : Timespec) :
    -1000000000 < curr.tvNsec - start.tvNsec ∧ curr.tvNsec - start.tvNsec < 1000000000 := by
  have hstart := start.nsec_nonneg
  have hstart' := start.nsec_lt
  have hcurr := curr.nsec_nonneg
  have hcurr' := curr.nsec_lt
  constructor <;> omega

theorem instant_sub
    (start curr : Timespec) :
    curr.instant - start.instant =
      (curr.tvSec - start.tvSec) * 1000000000 + (curr.tvNsec - start.tvNsec) := by
  unfold Timespec.instant
  omega

/-- The differences of the nanoseconds are values of type `int`. -/
theorem toInt_nsecs
    (start curr : Timespec) :
    toInt (curr.tvNsec - start.tvNsec) = curr.tvNsec - start.tvNsec := by
  obtain ⟨hlow, hhigh⟩ := nsecs_bounds start curr
  apply toInt_of_fits
  constructor <;> omega

/-- After the borrow, these are the full seconds and the nanoseconds left over. -/
theorem borrow_eq
    (hle : start.instant ≤ curr.instant)
    (hfits : curr.tvSec - start.tvSec < 2 ^ 31) :
    borrow (toInt (curr.tvSec - start.tvSec)) (toInt (curr.tvNsec - start.tvNsec)) =
      some ((curr.instant - start.instant) / 1000000000,
        (curr.instant - start.instant) % 1000000000) := by
  obtain ⟨hlow, hhigh⟩ := nsecs_bounds start curr
  have hdiff := instant_sub start curr
  have hsecs : toInt (curr.tvSec - start.tvSec) = curr.tvSec - start.tvSec := by
    apply toInt_of_fits
    constructor <;> omega
  rw [hsecs, toInt_nsecs, borrow]
  split_ifs with hneg
  · have hless : IntFits (curr.tvSec - start.tvSec - 1) := by
      constructor <;> omega
    have hmore : IntFits (curr.tvNsec - start.tvNsec + 1000000000) := by
      constructor <;> omega
    rw [checked_of_fits hless, checked_of_fits hmore, Option.bind_some, Option.map_some]
    congr 2 <;> omega
  · congr 2 <;> omega

/-- The numbers that are printed. -/
theorem elapsed_eq
    (hle : start.instant ≤ curr.instant)
    (hfits : curr.tvSec - start.tvSec < 2 ^ 31) :
    elapsed start curr =
      some ⟨(curr.instant - start.instant) / 1000000000,
        ((curr.instant - start.instant) % 1000000000 + 500000) / 1000000⟩ := by
  have hsum : IntFits ((curr.instant - start.instant) % 1000000000 + 500000) := by
    constructor <;> omega
  have hdiv : ((curr.instant - start.instant) % 1000000000 + 500000).tdiv 1000000 =
      ((curr.instant - start.instant) % 1000000000 + 500000) / 1000000 :=
    Int.tdiv_eq_ediv_of_nonneg (by omega)
  rw [elapsed, borrow_eq hle hfits, Option.bind_some]
  simp only [checked_of_fits hsum, Option.map_some, hdiv]

/-- If the seconds differ by 2^31, the borrow overflows. -/
theorem elapsed_overflow
    (hfits : curr.instant - start.instant < 2 ^ 31 * 1000000000)
    (hsecs : ¬ curr.tvSec - start.tvSec < 2 ^ 31) :
    elapsed start curr = none := by
  obtain ⟨hlow, hhigh⟩ := nsecs_bounds start curr
  rw [instant_sub] at hfits
  have hdiff : curr.tvSec - start.tvSec = 2 ^ 31 := by omega
  have hneg : curr.tvNsec - start.tvNsec < 0 := by omega
  have hleast : toInt (2 ^ 31) = -2 ^ 31 := by rfl
  have hout : ¬ IntFits (-2 ^ 31 - 1) := by decide
  rw [elapsed, hdiff, hleast, toInt_nsecs, borrow, if_pos hneg, checked, if_neg hout]
  rfl

/-- The rounded time, with at most 1000 milliseconds. -/
theorem nearest_parts
    (time : Int) :
    Nearest (1000 * (time / 1000000000) + (time % 1000000000 + 500000) / 1000000) time := by
  apply nearest_of_le
  · omega
  · omega

/-- Below 999500000 nanoseconds there is nothing to carry. -/
theorem rounded_parts
    {time : Int}
    (hnsecs : time % 1000000000 < 999500000) :
    Rounded time ⟨time / 1000000000, (time % 1000000000 + 500000) / 1000000⟩ := by
  refine ⟨?_, ?_, nearest_parts time⟩
  · simp only
    omega
  · simp only
    omega

/--
For all normalised times in this order whose difference in seconds fits in an `int`: the line
gives the elapsed time, to the nearest millisecond and with 0 to 999 milliseconds, if and only
if the difference of the `tv_sec` fits as well and less than 999500000 nanoseconds are left over
the full seconds.
-/
theorem rounded_iff
    (hle : start.instant ≤ curr.instant)
    (hfits : curr.instant - start.instant < 2 ^ 31 * 1000000000) :
    (∃ line, elapsed start curr = some line ∧ Rounded (curr.instant - start.instant) line) ↔
      curr.tvSec - start.tvSec < 2 ^ 31 ∧
        (curr.instant - start.instant) % 1000000000 < 999500000 := by
  constructor
  · rintro ⟨line, hline, hrounded⟩
    by_cases hsecs : curr.tvSec - start.tvSec < 2 ^ 31
    · refine ⟨hsecs, ?_⟩
      rw [elapsed_eq hle hsecs, Option.some.injEq] at hline
      subst hline
      have hmsecs := hrounded.le
      simp only at hmsecs
      omega
    · rw [elapsed_overflow hfits hsecs] at hline
      cases hline
  · rintro ⟨hsecs, hnsecs⟩
    exact ⟨_, elapsed_eq hle hsecs, rounded_parts hnsecs⟩

/-- One and a quarter seconds, across a full second. -/
theorem rounded_quarter :
    ∃ line,
      elapsed ⟨5, 900000000, by decide, by decide⟩ ⟨7, 150000000, by decide, by decide⟩ =
        some line ∧
      Rounded 1250000000 line :=
  (@rounded_iff ⟨5, 900000000, by decide, by decide⟩ ⟨7, 150000000, by decide, by decide⟩
    (by decide) (by decide)).mpr (by decide)

/-- 0.9995 seconds are printed as 0 seconds and 1000 milliseconds. -/
theorem not_rounded_carry :
    elapsed ⟨5, 0, by decide, by decide⟩ ⟨5, 999500000, by decide, by decide⟩ =
      some ⟨0, 1000⟩ ∧
    ¬ Rounded 999500000 ⟨0, 1000⟩ := by
  refine ⟨rfl, ?_⟩
  intro hrounded
  exact absurd hrounded.le (by decide)

end Arithmetic

section Calls

variable {s s' : Process} {call : Call} {calls : List Call}

/-- Every line is for a time that was read, counted from the first one. -/
def Measured (readings : List Timespec) (s : Process) : Prop :=
  (s.firstCall = true → s.lines = []) ∧
    ∀ line ∈ s.lines, ∃ curr ∈ readings, elapsed s.start curr = some line

/-- The times that the calls read. -/
def readings (calls : List Call) : List Timespec :=
  calls.filterMap Call.curr

theorem startOf_eq
    {start : Timespec} {times : List Timespec}
    (h : Measured times s)
    (hstart : s.startOf call = some start) :
    ∀ line ∈ s.lines, ∃ curr ∈ times, elapsed start curr = some line := by
  unfold Process.startOf at hstart
  split_ifs at hstart with hfirst
  · rw [h.1 hfirst]
    simp
  · cases hstart
    exact h.2

theorem Measured.step
    {times : List Timespec}
    (h : Measured times s)
    (hcurr : ∀ curr, call.curr = some curr → curr ∈ times)
    (hstep : step s call = some s') :
    Measured times s' := by
  unfold ElapsedTime.step at hstep
  split at hstep
  · split at hstep
    case h_1 hstart =>
        cases hstep
        exact ⟨by simp, h.2⟩
    case h_2 start hstart hnone =>
        have hold := startOf_eq h hstart
        cases hstep
        exact ⟨by simp, hold⟩
    case h_3 start curr hstart hsome =>
        have hold := startOf_eq h hstart
        split at hstep
        · cases hstep
          exact ⟨by simp, hold⟩
        · rename_i line hline
          cases hstep
          refine ⟨by simp, ?_⟩
          intro line' hmem
          rcases List.mem_append.mp hmem with hbefore | hnew
          · exact hold line' hbefore
          · rw [List.mem_singleton.mp hnew]
            exact ⟨curr, hcurr curr hsome, hline⟩
  · cases hstep

/-- Over all calls of a process, the lines are for the times read, from the same start. -/
theorem measured_of_run
    (hrun : run step begin calls = some s) :
    Measured (readings calls) s := by
  have hcurr : ∀ call ∈ calls, ∀ curr, call.curr = some curr → curr ∈ readings calls := by
    intro call hcall curr hread
    exact List.mem_filterMap.mpr ⟨call, hcall, hread⟩
  refine run_invariant_along (fun _ _ _ h hG hstep => h.step hG hstep) ?_
    (along_of_forall_mem hcurr begin) hrun
  exact ⟨fun _ => rfl, by simp [begin]⟩

/-- All lines of a process are right if its times do not need a carry. -/
theorem lines_rounded
    (hrun : run step begin calls = some s)
    (htimes : ∀ curr ∈ readings calls,
      s.start.instant ≤ curr.instant ∧ curr.tvSec - s.start.tvSec < 2 ^ 31 ∧
        (curr.instant - s.start.instant) % 1000000000 < 999500000) :
    ∀ line ∈ s.lines, ∃ curr ∈ readings calls,
      Rounded (curr.instant - s.start.instant) line := by
  intro line hline
  obtain ⟨curr, hread, helapsed⟩ := (measured_of_run hrun).2 line hline
  obtain ⟨hle, hsecs, hnsecs⟩ := htimes curr hread
  refine ⟨curr, hread, ?_⟩
  rw [elapsed_eq hle hsecs, Option.some.injEq] at helapsed
  subst helapsed
  exact rounded_parts hnsecs

end Calls

end ElapsedTime
end SysProg
