import SysProg.Lib.Progress
import SysProg.Lib.Run
import Mathlib.Data.List.TakeWhile
import Mathlib.Tactic

/-!
# The counters of ALSP/io_eventfd.c and ALSP/io_timerfd.c

Both programs read a counter of the kernel, which a read sets back to zero and which makes a
read wait while it is zero.  In the first one a child adds the numbers of its arguments to the
counter, in the second one the counter has the expirations of a timer.

**Steps.**  Each `read` and `write`, and each expiration, is a step.  A `write` waits while the
sum would pass the greatest value; the greatest value of its type itself is refused with EINVAL,
which ends the child.  `strtoull` is not modelled: the arguments are its results.  The
expirations are numbers without a bound, as they do not come near `2 ^ 64`.

**Results.**  `sums_agree`: the parent prints nothing but positive numbers, whose sum with the
counter is the sum of what was written; the two processes never wait for each other in vain, and
in the end the whole sum is printed, up to the first argument that is refused.
`expirations_counted`: every total that is printed is the number of expirations up to then, and
the loop ends with the first one that reaches the limit, which a timer without an interval does
only for a limit of at most 1.
-/

namespace SysProg
namespace CounterReads

open Progress Run

section Eventfd

def ULLONG_MAX : Nat := 2 ^ 64 - 1

inductive Child where
  /-- in its loop -/
  | writing
  /-- after `exit(EXIT_SUCCESS)` -/
  | completed
  /-- after `handle_error` -/
  | failed
deriving DecidableEq, Repr

/-- The counter, the arguments to be written and the child; the rest is history. -/
structure Eventfd where
  counter : Nat
  args : List UInt64
  child : Child
  written : List UInt64
  printed : List Nat
deriving DecidableEq, Repr

def Eventfd.start (args : List UInt64) : Eventfd :=
  ⟨0, args, .writing, [], []⟩

inductive EventLabel where
  /-- a turn of the child's loop, or its end -/
  | write
  /-- a turn of the parent's loop -/
  | read
deriving DecidableEq, Repr

def writeStep (s : Eventfd) : Option Eventfd :=
  match s.child, s.args with
  | .writing, [] => some { s with child := .completed }
  | .writing, u :: args =>
      if u.toNat = ULLONG_MAX then some { s with child := .failed }
      else if s.counter + u.toNat < ULLONG_MAX then
        some { s with counter := s.counter + u.toNat, args := args, written := s.written ++ [u] }
      else none
  | _, _ => none

def readStep (s : Eventfd) : Option Eventfd :=
  if 0 < s.counter then some { s with counter := 0, printed := s.printed ++ [s.counter] } else none

def eventStep (s : Eventfd) : EventLabel → Option Eventfd
  | .write => writeStep s
  | .read => readStep s

/-- What a step can do. -/
inductive EventEffect (s : Eventfd) : Eventfd → Prop
  | completes
      (hchild : s.child = .writing)
      (hargs : s.args = []) :
      EventEffect s { s with child := .completed }
  | refused {u : UInt64} {args : List UInt64}
      (hchild : s.child = .writing)
      (hargs : s.args = u :: args)
      (hu : u.toNat = ULLONG_MAX) :
      EventEffect s { s with child := .failed }
  | writes {u : UInt64} {args : List UInt64}
      (hchild : s.child = .writing)
      (hargs : s.args = u :: args)
      (hu : u.toNat ≠ ULLONG_MAX)
      (hroom : s.counter + u.toNat < ULLONG_MAX) :
      EventEffect s
        { s with counter := s.counter + u.toNat, args := args, written := s.written ++ [u] }
  | reads
      (hpos : 0 < s.counter) :
      EventEffect s { s with counter := 0, printed := s.printed ++ [s.counter] }

variable {s s' : Eventfd} {l : EventLabel} {args : List UInt64}

theorem effect_of_eventStep
    (hstep : eventStep s l = some s') :
    EventEffect s s' := by
  cases l with
  | write =>
      simp only [eventStep, writeStep] at hstep
      split at hstep
      case h_1 hchild hargs =>
          cases hstep
          exact .completes hchild hargs
      case h_2 u args hchild hargs =>
          split_ifs at hstep with hu hroom
          · cases hstep
            exact .refused hchild hargs hu
          · cases hstep
            exact .writes hchild hargs hu hroom
      case h_3 =>
          cases hstep
  | read =>
      obtain ⟨hpos, hstep⟩ := Option.ite_none_right_eq_some.mp hstep
      cases hstep
      exact .reads hpos

/-- The sum of arguments. -/
def total (args : List UInt64) : Nat :=
  (args.map UInt64.toNat).sum

/-- The arguments before the first one that `write` refuses. -/
def beforeRefused (args : List UInt64) : List UInt64 :=
  args.takeWhile (fun u => u.toNat ≠ ULLONG_MAX)

structure EventInvariant (args : List UInt64) (s : Eventfd) : Prop where
  sum : s.printed.sum + s.counter = total s.written
  order : s.written ++ s.args = args
  accepted : ∀ u ∈ s.written, u.toNat ≠ ULLONG_MAX
  bound : s.counter < ULLONG_MAX
  positive : ∀ v ∈ s.printed, 0 < v ∧ v < ULLONG_MAX
  completed : s.child = .completed → s.args = []
  failed : s.child = .failed → ∃ u rest, s.args = u :: rest ∧ u.toNat = ULLONG_MAX

theorem eventInvariant_start :
    EventInvariant args (Eventfd.start args) := by
  constructor <;> simp [Eventfd.start, ULLONG_MAX, total]

theorem EventInvariant.step
    (h : EventInvariant args s)
    (hstep : eventStep s l = some s') :
    EventInvariant args s' := by
  cases effect_of_eventStep hstep with
  | completes hchild hargs =>
      refine ⟨h.sum, h.order, h.accepted, h.bound, h.positive, fun _ => hargs, ?_⟩
      intro hfailed
      cases hfailed
  | refused hchild hargs hu =>
      refine ⟨h.sum, h.order, h.accepted, h.bound, h.positive, ?_, fun _ => ⟨_, _, hargs, hu⟩⟩
      intro hcompleted
      cases hcompleted
  | @writes u rest hchild hargs hu hroom =>
      refine ⟨?_, ?_, ?_, hroom, h.positive, ?_, ?_⟩
      · have hsum := h.sum
        simp only [total, List.map_append, List.sum_append, List.map_cons, List.map_nil,
          List.sum_singleton] at hsum ⊢
        omega
      · have horder := h.order
        rw [hargs] at horder
        simp [← horder]
      · intro v hv
        rcases List.mem_append.mp hv with hold | hnew
        · exact h.accepted v hold
        · rw [List.mem_singleton.mp hnew]
          exact hu
      · intro hcompleted
        rw [hchild] at hcompleted
        cases hcompleted
      · intro hfailed
        rw [hchild] at hfailed
        cases hfailed
  | reads hpos =>
      refine ⟨?_, h.order, h.accepted, ?_, ?_, h.completed, h.failed⟩
      · simp [← h.sum]
      · exact Nat.zero_lt_of_lt h.bound
      · intro v hv
        rcases List.mem_append.mp hv with hold | hnew
        · exact h.positive v hold
        · rw [List.mem_singleton.mp hnew]
          exact ⟨hpos, h.bound⟩

/-- The arguments that are left, twice, because each of them may have to be read. -/
def Eventfd.left (s : Eventfd) : Nat :=
  2 * s.args.length + (if 0 < s.counter then 1 else 0) + (if s.child = .writing then 1 else 0)

theorem left_eventStep
    (hstep : eventStep s l = some s') :
    s'.left < s.left := by
  cases effect_of_eventStep hstep with
  | completes hchild hargs =>
      simp [Eventfd.left, hchild]
  | refused hchild hargs hu =>
      simp [Eventfd.left, hchild]
  | @writes u rest hchild hargs hu hroom =>
      simp only [Eventfd.left, hchild, hargs, List.length_cons]
      split_ifs <;> omega
  | reads hpos =>
      simp only [Eventfd.left, Nat.lt_irrefl, hpos, ↓reduceIte]
      omega

/-- The child goes on as long as there is room, and the parent makes room. -/
theorem child_of_halted
    (hend : ∀ l, eventStep s l = none) :
    s.counter = 0 ∧ s.child ≠ .writing := by
  have hzero : s.counter = 0 := by
    have hread := hend .read
    simp only [eventStep, readStep, ite_eq_right_iff, reduceCtorEq, imp_false] at hread
    omega
  refine ⟨hzero, ?_⟩
  intro hchild
  have hwrite := hend .write
  simp only [eventStep, writeStep, hchild] at hwrite
  cases hargs : s.args with
  | nil =>
      simp [hargs] at hwrite
  | cons u rest =>
      have hlt : u.toNat < 2 ^ 64 := u.toNat_lt
      simp only [hargs, hzero, Nat.zero_add] at hwrite
      split_ifs at hwrite with hu hroom
      simp only [ULLONG_MAX] at hu hroom
      omega

theorem EventInvariant.written_of_ended
    (h : EventInvariant args s)
    (hchild : s.child ≠ .writing) :
    s.written = beforeRefused args := by
  have hall : s.written.takeWhile (fun u => u.toNat ≠ ULLONG_MAX) = s.written := by
    rw [List.takeWhile_eq_self_iff]
    intro u hu
    simpa using h.accepted u hu
  rw [beforeRefused, ← h.order]
  cases hplace : s.child with
  | writing =>
      exact absurd hplace hchild
  | completed =>
      rw [h.completed hplace, List.append_nil, hall]
  | failed =>
      obtain ⟨u, rest, hargs, hu⟩ := h.failed hplace
      rw [hargs, List.takeWhile_append, hall, if_pos rfl, List.takeWhile_cons]
      simp [hu]

/--
In every run: the numbers that are printed are positive and their sum, with the counter, is the
sum of what was written.  A run has at most two steps for each argument and one more; when none
of the processes can go on, the child has ended and the sum of all accepted arguments has been
printed.
-/
theorem sums_agree
    {ls : List EventLabel}
    (hrun : run eventStep (Eventfd.start args) ls = some s) :
    s.printed.sum + s.counter = total s.written ∧
    (∀ v ∈ s.printed, 0 < v ∧ v < ULLONG_MAX) ∧
    s.written <+: beforeRefused args ∧
    ls.length ≤ 2 * args.length + 1 ∧
    ((∀ l, eventStep s l = none) →
      s.child ≠ .writing ∧ s.printed.sum = total (beforeRefused args)) := by
  have h : EventInvariant args s :=
    run_invariant (fun _ _ _ h hstep => h.step hstep) eventInvariant_start hrun
  have hlength := length_add_measure_le (P := fun _ => True) Eventfd.left
    (fun _ _ _ _ hstep => ⟨trivial, left_eventStep hstep⟩) trivial hrun
  refine ⟨h.sum, h.positive, ?_, ?_, ?_⟩
  · rw [beforeRefused, ← h.order, List.takeWhile_append_of_pos]
    · exact List.prefix_append _ _
    · intro u hu
      simpa using h.accepted u hu
  · have hstart : (Eventfd.start args).left = 2 * args.length + 1 := by
      simp [Eventfd.left, Eventfd.start]
    omega
  · intro hend
    obtain ⟨hzero, hchild⟩ := child_of_halted hend
    have hsum := h.sum
    rw [hzero, Nat.add_zero, h.written_of_ended hchild] at hsum
    exact ⟨hchild, hsum⟩

/-- Two numbers are read as one; the third argument is refused. -/
theorem sums_agree_refused :
    ∃ s,
      run eventStep (Eventfd.start [3, 4, 18446744073709551615, 5])
          [.write, .write, .read, .write] =
        some s ∧
      s.printed = [7] ∧
      s.child = .failed ∧
      s.printed.sum = total (beforeRefused [3, 4, 18446744073709551615, 5]) := by
  have hrun : run eventStep (Eventfd.start [3, 4, 18446744073709551615, 5])
      [.write, .write, .read, .write] = some _ := rfl
  refine ⟨_, hrun, rfl, rfl, ((sums_agree hrun).2.2.2.2 ?_).2⟩
  intro l
  cases l <;> rfl

end Eventfd

section Timerfd

/--
The timer and the loop in `main`: the expirations so far, those that have not been read,
`tot_exp`, and the lines with `exp` and `tot_exp`.
-/
structure Timer where
  expired : Nat
  pending : Nat
  totExp : Nat
  lines : List (Nat × Nat)
deriving DecidableEq, Repr

def Timer.start : Timer :=
  ⟨0, 0, 0, []⟩

inductive TimerLabel where
  | expire
  | read
deriving DecidableEq, Repr

/-- `max_exp` as the comparison with `tot_exp` takes it: an `int` is converted to `uint64_t`. -/
def limit (maxExp : Int) : Nat :=
  (maxExp % 2 ^ 64).toNat

/-- `interval` is `atoi(argv[2])`, or 0 without this argument. -/
def timerStep (interval : Nat) (maxExp : Int) (s : Timer) : TimerLabel → Option Timer
  | .expire =>
      if interval ≠ 0 ∨ s.expired = 0 then
        some { s with expired := s.expired + 1, pending := s.pending + 1 }
      else none
  | .read =>
      if s.totExp < limit maxExp ∧ 0 < s.pending then
        some { s with
          pending := 0
          totExp := s.totExp + s.pending
          lines := s.lines ++ [(s.pending, s.totExp + s.pending)] }
      else none

/-- The lines for numbers of expirations, after a total of `tot`. -/
def totals (tot : Nat) : List Nat → List (Nat × Nat)
  | [] => []
  | exp :: exps => (exp, tot + exp) :: totals (tot + exp) exps

theorem totals_append
    (tot : Nat)
    (exps exps' : List Nat) :
    totals tot (exps ++ exps') = totals tot exps ++ totals (tot + exps.sum) exps' := by
  induction exps generalizing tot with
  | nil => rfl
  | cons exp exps ih =>
      simp only [List.cons_append, totals, ih, List.sum_cons, Nat.add_assoc]

variable {interval : Nat} {maxExp : Int} {s s' : Timer} {l : TimerLabel}

/-- The numbers `exps` that were read, and what each of them found in `tot_exp`. -/
structure TimerInvariant (interval : Nat) (maxExp : Int) (s : Timer) (exps : List Nat) : Prop where
  lines : s.lines = totals 0 exps
  sum : exps.sum = s.totExp
  positive : ∀ exp ∈ exps, 0 < exp
  counted : s.totExp + s.pending = s.expired
  below : ∀ n < exps.length, (exps.take n).sum < limit maxExp
  once : interval = 0 → s.expired ≤ 1

theorem timerInvariant_start :
    TimerInvariant interval maxExp .start [] := by
  constructor <;> simp [Timer.start, totals]

theorem TimerInvariant.read
    {exps : List Nat}
    (h : TimerInvariant interval maxExp s exps)
    (hlimit : s.totExp < limit maxExp)
    (hpending : 0 < s.pending) :
    TimerInvariant interval maxExp
      { s with
        pending := 0
        totExp := s.totExp + s.pending
        lines := s.lines ++ [(s.pending, s.totExp + s.pending)] }
      (exps ++ [s.pending]) := by
  refine ⟨?_, ?_, ?_, h.counted, ?_, h.once⟩
  · rw [totals_append, ← h.lines, h.sum, Nat.zero_add]
    rfl
  · simp [h.sum]
  · intro exp hexp
    rcases List.mem_append.mp hexp with hold | hnew
    · exact h.positive exp hold
    · rwa [List.mem_singleton.mp hnew]
  · intro n hn
    rw [List.length_append, List.length_singleton] at hn
    rw [List.take_append_of_le_length (by omega)]
    rcases Nat.lt_or_ge n exps.length with hlt | hge
    · exact h.below n hlt
    · rwa [List.take_of_length_le hge, h.sum]

theorem TimerInvariant.step
    (h : ∃ exps, TimerInvariant interval maxExp s exps)
    (hstep : timerStep interval maxExp s l = some s') :
    ∃ exps, TimerInvariant interval maxExp s' exps := by
  obtain ⟨exps, h⟩ := h
  cases l with
  | expire =>
      obtain ⟨hperiodic, hstep⟩ := Option.ite_none_right_eq_some.mp hstep
      cases hstep
      have hcounted := h.counted
      refine ⟨exps, h.lines, h.sum, h.positive, ?_, h.below, ?_⟩
      · dsimp only
        omega
      · intro hinterval
        dsimp only
        omega
  | read =>
      obtain ⟨⟨hlimit, hpending⟩, hstep⟩ := Option.ite_none_right_eq_some.mp hstep
      cases hstep
      exact ⟨_, h.read hlimit hpending⟩

theorem length_le_sum
    {exps : List Nat}
    (hpos : ∀ exp ∈ exps, 0 < exp) :
    exps.length ≤ exps.sum := by
  simpa using List.card_nsmul_le_sum exps 1 hpos

theorem TimerInvariant.length_le
    {exps : List Nat}
    (h : TimerInvariant interval maxExp s exps) :
    exps.length ≤ limit maxExp := by
  cases hlength : exps.length with
  | zero => exact Nat.zero_le _
  | succ n =>
      have hbelow := h.below n (by omega)
      have hle : (exps.take n).length ≤ (exps.take n).sum :=
        length_le_sum fun exp hexp => h.positive exp (List.mem_of_mem_take hexp)
      rw [List.length_take] at hle
      omega

/-- A negative `max-exp` is a limit that no timer reaches. -/
theorem limit_of_neg
    (hneg : maxExp < 0)
    (hint : -2 ^ 31 ≤ maxExp) :
    2 ^ 64 - 2 ^ 31 ≤ limit maxExp := by
  rw [limit]
  omega

/--
In every run: the lines are those of the numbers `exps` that were read, each of them positive,
and what was printed with what is pending is the number of expirations.  Each read was made
below the limit, so there are at most that many.  A timer without an interval, or with a
negative limit, does not get to it: then `main` goes back to `read` as long as the timer has
expired less than `2 ^ 64 - 2 ^ 31` times.
-/
theorem expirations_counted
    {ls : List TimerLabel}
    (hrun : run (timerStep interval maxExp) .start ls = some s) :
    (∃ exps,
      s.lines = totals 0 exps ∧
      (∀ exp ∈ exps, 0 < exp) ∧
      exps.sum = s.totExp ∧
      (∀ n < exps.length, (exps.take n).sum < limit maxExp) ∧
      exps.length ≤ limit maxExp) ∧
    s.totExp + s.pending = s.expired ∧
    (interval = 0 → 2 ≤ limit maxExp → s.totExp < limit maxExp) ∧
    (maxExp < 0 → -2 ^ 31 ≤ maxExp → s.expired < 2 ^ 64 - 2 ^ 31 → s.totExp < limit maxExp) := by
  obtain ⟨exps, h⟩ : ∃ exps, TimerInvariant interval maxExp s exps :=
    run_invariant (fun _ _ _ h hstep => TimerInvariant.step h hstep) ⟨[], timerInvariant_start⟩ hrun
  have hcounted := h.counted
  refine ⟨⟨exps, h.lines, h.positive, h.sum, h.below, h.length_le⟩, hcounted, ?_, ?_⟩
  · intro hinterval hlimit
    have honce := h.once hinterval
    omega
  · intro hneg hint hexpired
    have hlimit := limit_of_neg hneg hint
    omega

/-- A timer that expires once, with a limit of 2. -/
theorem expirations_counted_once :
    ∃ s,
      run (timerStep 0 2) .start [.expire, .read] = some s ∧
      s.lines = [(1, 1)] ∧
      s.totExp < limit 2 := by
  have hrun : run (timerStep 0 2) .start [.expire, .read] = some _ := rfl
  exact ⟨_, hrun, rfl, (expirations_counted hrun).2.2.1 rfl (by decide)⟩

end Timerfd

end CounterReads
end SysProg
