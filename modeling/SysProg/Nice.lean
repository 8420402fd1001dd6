import SysProg.Lib.Run
import Mathlib.Order.Monotone.Basic

/-!
# The counting loop of APUE/nice.c

Parent and child count for ten seconds, to show what share of the processor each of them gets.
After every increment `checktime` asks for the time, and ends the process when the end time has
been reached.

`checktime` compares the seconds and the microseconds separately.  It never ends the loop early,
but a sample of a later second with fewer microseconds than the end time is passed over.

**Steps.** `turn` is one turn of the loop; the times that `gettimeofday` returns are a sequence
of samples.

**Results.** `exitsAt_iff`: the loop ends at the first sample that `checktime` accepts, unless
the counter wraps before.  `on_time_iff`: this is the first sample that is not earlier than the
end time, exactly if that one has as many microseconds as the end time and the counter has not
wrapped.
-/

namespace SysProg
namespace Nice

open Run

section Program

/-- `struct timeval` -/
structure Timeval where
  tvSec : Int
  tvUsec : Nat
  usec_lt : tvUsec < 1000000
deriving DecidableEq, Repr

/-- The instant, in microseconds. -/
def Timeval.instant (tv : Timeval) : Int :=
  tv.tvSec * 1000000 + tv.tvUsec

/-- `end`, from the time at which `main` begins. -/
def endTime (begun : Timeval) : Timeval :=
  { begun with tvSec := begun.tvSec + 10 }

/-- The comparison of `checktime`. -/
def checktime (finish tv : Timeval) : Bool :=
  decide (tv.tvSec ≥ finish.tvSec) && decide (tv.tvUsec ≥ finish.tvUsec)

inductive Status where
  | counting
  /-- `exit(0)` in `checktime` -/
  | exited
  /-- `err_quit` -/
  | wrapped
deriving DecidableEq, Repr

structure Counter where
  status : Status
  /-- an `unsigned long long` -/
  count : Nat
  /-- the number of samples taken -/
  taken : Nat
deriving DecidableEq, Repr

def turn (finish : Timeval) (samples : Nat → Timeval) (s : Counter) : Option Counter :=
  match s.status with
  | .counting =>
      let count := (s.count + 1) % 2 ^ 64
      if count = 0 then some ⟨.wrapped, count, s.taken⟩
      else if checktime finish (samples s.taken) then some ⟨.exited, count, s.taken + 1⟩
      else some ⟨.counting, count, s.taken + 1⟩
  | _ => none

def start : Counter := ⟨.counting, 0, 0⟩

/-- The process ends in `checktime`, at the sample `n`. -/
def ExitsAt (finish : Timeval) (samples : Nat → Timeval) (n : Nat) : Prop :=
  Reaches (turn finish samples) (fun s => s.status = .exited ∧ s.taken = n + 1) start

/-- `n` is the first sample that is not earlier than the end time. -/
def FirstDue (finish : Timeval) (samples : Nat → Timeval) (n : Nat) : Prop :=
  finish.instant ≤ (samples n).instant ∧ ∀ m < n, (samples m).instant < finish.instant

end Program

section Loop

variable {finish : Timeval} {samples : Nat → Timeval} {s t : Counter} {n : Nat}

/-- `n` is the first sample that `checktime` accepts. -/
structure FirstAccepted (finish : Timeval) (samples : Nat → Timeval) (n : Nat) : Prop where
  accepted : checktime finish (samples n) = true
  before : ∀ m < n, checktime finish (samples m) = false

/-- All samples so far were refused, or the last was the first to be accepted. -/
def Counted (finish : Timeval) (samples : Nat → Timeval) (s : Counter) : Prop :=
  match s.status with
  | .counting =>
      s.taken < 2 ^ 64 ∧ s.count = s.taken ∧
        ∀ m < s.taken, checktime finish (samples m) = false
  | .exited => s.taken < 2 ^ 64 ∧ ∀ n, s.taken = n + 1 → FirstAccepted finish samples n
  | .wrapped => True

theorem counted_turn
    (hs : Counted finish samples s)
    (h : turn finish samples s = some t) :
    Counted finish samples t := by
  obtain ⟨status, count, taken⟩ := s
  cases status with
  | exited =>
      cases h
  | wrapped =>
      cases h
  | counting =>
      obtain ⟨hlt, hcount, hbefore⟩ := hs
      simp only [turn] at h
      simp only at hlt hcount hbefore
      split_ifs at h with hwrap haccepted
      · cases h
        trivial
      · cases h
        refine ⟨by simp only; omega, ?_⟩
        intro n hn
        obtain rfl : taken = n := by simpa using hn
        exact ⟨haccepted, hbefore⟩
      · cases h
        refine ⟨by simp only; omega, by simp only; omega, ?_⟩
        intro m hm
        simp only at hm
        rcases Nat.lt_succ_iff_lt_or_eq.mp hm with hold | rfl
        · exact hbefore m hold
        · simpa using haccepted

/-- A turn that does not wrap the counter. -/
theorem turn_counting
    (finish : Timeval) (samples : Nat → Timeval)
    {k : Nat}
    (hk : k + 1 < 2 ^ 64) :
    turn finish samples ⟨.counting, k, k⟩ =
      some ⟨if checktime finish (samples k) then .exited else .counting, k + 1, k + 1⟩ := by
  simp only [turn, Nat.mod_eq_of_lt hk, Nat.succ_ne_zero, if_false]
  cases checktime finish (samples k) with
  | true =>
      rfl
  | false =>
      rfl

/-- From the sample `k` on, the loop comes to the first sample that is accepted. -/
theorem reaches_accepted
    (hn : n + 1 < 2 ^ 64)
    (hfirst : FirstAccepted finish samples n)
    {d k : Nat}
    (hk : k + d = n) :
    Reaches (turn finish samples) (fun s => s.status = .exited ∧ s.taken = n + 1)
      ⟨.counting, k, k⟩ := by
  induction d generalizing k with
  | zero =>
      obtain rfl : k = n := by omega
      refine reaches_of_turn (turn_counting finish samples hn) (reaches_now ⟨?_, rfl⟩)
      rw [hfirst.accepted]
      rfl
  | succ d ih =>
      refine reaches_of_turn (turn_counting finish samples (by omega)) ?_
      rw [hfirst.before k (by omega)]
      exact ih (by omega)

/-- The loop ends at the first sample that is accepted, unless the counter has wrapped. -/
theorem exitsAt_iff :
    ExitsAt finish samples n ↔ n + 1 < 2 ^ 64 ∧ FirstAccepted finish samples n := by
  constructor
  · rintro ⟨es, t, hrun, hexited, htaken⟩
    have hstart : Counted finish samples start := by
      refine ⟨by decide, rfl, ?_⟩
      intro m hm
      exact absurd hm (Nat.not_lt_zero m)
    have ht : Counted finish samples t :=
      run_invariant (fun _ _ _ hs hstep => counted_turn hs hstep) hstart hrun
    simp only [Counted, hexited] at ht
    exact ⟨htaken ▸ ht.1, ht.2 n htaken⟩
  · rintro ⟨hn, hfirst⟩
    exact reaches_accepted hn hfirst (Nat.zero_add n)

end Loop

section Times

variable {finish tv : Timeval} {samples : Nat → Timeval} {n : Nat}

/-- What `checktime` accepts is not earlier than the end time. -/
theorem instant_le_of_checktime
    (h : checktime finish tv = true) :
    finish.instant ≤ tv.instant := by
  simp only [checktime, Bool.and_eq_true, decide_eq_true_eq] at h
  obtain ⟨hsec, husec⟩ := h
  unfold Timeval.instant
  omega

/-- Of the samples that are not earlier, it accepts those with enough microseconds. -/
theorem checktime_iff_of_instant_le
    (h : finish.instant ≤ tv.instant) :
    checktime finish tv = true ↔ finish.tvUsec ≤ tv.tvUsec := by
  have hlt := tv.usec_lt
  simp only [checktime, Bool.and_eq_true, decide_eq_true_eq]
  unfold Timeval.instant at h
  constructor
  · exact And.right
  · intro husec
    exact ⟨by omega, husec⟩

/-- Samples before the end time are refused. -/
theorem checktime_eq_false_of_lt
    (h : tv.instant < finish.instant) :
    checktime finish tv = false := by
  by_contra haccepted
  have hle := instant_le_of_checktime (Bool.not_eq_false _ ▸ haccepted)
  omega

/-- If some sample is not earlier than the end time, one is the first. -/
theorem exists_firstDue
    (h : finish.instant ≤ (samples n).instant) :
    ∃ m ≤ n, FirstDue finish samples m := by
  induction n using Nat.strong_induction_on with
  | _ n ih =>
      by_cases hbefore : ∃ m < n, finish.instant ≤ (samples m).instant
      · obtain ⟨m, hm, hdue⟩ := hbefore
        obtain ⟨k, hk, hfirst⟩ := ih m hm hdue
        exact ⟨k, by omega, hfirst⟩
      · refine ⟨n, le_refl n, h, ?_⟩
        intro m hm
        by_contra hdue
        exact hbefore ⟨m, hm, by omega⟩

theorem firstAccepted_iff_of_firstDue
    (hdue : FirstDue finish samples n) :
    FirstAccepted finish samples n ↔ finish.tvUsec ≤ (samples n).tvUsec := by
  rw [← checktime_iff_of_instant_le hdue.1]
  constructor
  · exact FirstAccepted.accepted
  · intro haccepted
    exact ⟨haccepted, fun m hm => checktime_eq_false_of_lt (hdue.2 m hm)⟩

/--
For every end time and every sequence of samples: the loop ends at the first sample that is not
earlier than the end time and at no other, if and only if that sample has at least as many
microseconds as the end time, and is among the first 2^64 - 1.
-/
theorem on_time_iff
    (finish : Timeval) (samples : Nat → Timeval) :
    (∀ n, ExitsAt finish samples n ↔ FirstDue finish samples n) ↔
      ∀ n, FirstDue finish samples n →
        n + 1 < 2 ^ 64 ∧ finish.tvUsec ≤ (samples n).tvUsec := by
  constructor
  · intro honTime n hdue
    obtain ⟨hn, hfirst⟩ := exitsAt_iff.mp ((honTime n).mpr hdue)
    exact ⟨hn, (firstAccepted_iff_of_firstDue hdue).mp hfirst⟩
  · intro hall n
    rw [exitsAt_iff]
    constructor
    · rintro ⟨_, hfirst⟩
      -- the first sample that is due is accepted, so it is no other than this one
      obtain ⟨m, hm, hdue⟩ := exists_firstDue (instant_le_of_checktime hfirst.accepted)
      have haccepted := ((firstAccepted_iff_of_firstDue hdue).mpr (hall m hdue).2).accepted
      rcases Nat.lt_or_eq_of_le hm with hlt | rfl
      · rw [hfirst.before m hlt] at haccepted
        cases haccepted
      · exact hdue
    · intro hdue
      exact ⟨(hall n hdue).1, (firstAccepted_iff_of_firstDue hdue).mpr (hall n hdue).2⟩

/-- One sample at the start of each second. -/
def everySecond (n : Nat) : Timeval := ⟨n, 0, by decide⟩

/-- The end of a count that begins 0.9 seconds after the start of a second. -/
def lateEnd : Timeval := endTime ⟨0, 900000, by decide⟩

/-- Sample 11 is the first that is not earlier than 10.9 seconds, and it is passed over. -/
theorem not_on_time_everySecond :
    Monotone (fun n => (everySecond n).instant) ∧
    FirstDue lateEnd everySecond 11 ∧
    ¬ ∀ n, ExitsAt lateEnd everySecond n ↔ FirstDue lateEnd everySecond n := by
  have hdue : FirstDue lateEnd everySecond 11 := by
    refine ⟨by decide, ?_⟩
    intro m hm
    simp only [everySecond, lateEnd, endTime, Timeval.instant]
    omega
  refine ⟨?_, hdue, ?_⟩
  · intro m n hmn
    simp only [everySecond, Timeval.instant]
    omega
  · intro honTime
    obtain ⟨_, hfirst⟩ := exitsAt_iff.mp ((honTime 11).mpr hdue)
    exact absurd hfirst.accepted (by decide)

end Times
end Nice
end SysProg
