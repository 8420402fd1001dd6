import SysProg.Lib.Census
import SysProg.SysVSem.Create
import Mathlib.Tactic

/-!
# The critical sections of ALSP/sysv_sem.c

The parent creates one semaphore with the value 1 and starts `n` children.  Each child
calls `sysv_semwait`, works in its critical section and calls `sysv_sempost`; it does not
look at what the two functions return.

A child whose `semop` fails, interrupted by a signal for example, goes on as if it had
the semaphore, and later releases what it never took.  The children exclude each other
as long as a wait fails at most when the unit of the semaphore has been lost in a failed
post (`exclusive_of_takesUnit`).
-/

namespace SysProg
namespace SysVSem

open Run Census

namespace CriticalSection

section Program

/-- Where a child is in `handle_criticalsect`. -/
inductive Pc where
  /-- at `sysv_semwait` -/
  | wait
  /-- between the return of `sysv_semwait` and the call of `sysv_sempost` -/
  | inside
  /-- after `sysv_sempost` -/
  | exiting
deriving DecidableEq, Repr

def Pc.isInside : Pc → Bool
  | .inside => true
  | _ => false

/-- The children and the set with one semaphore. -/
structure State where
  semvals : Nat → Nat
  child : Nat → Pc

/-- The set as `sysv_semget(NULL, 0x12340001, 1, 1, 0660)` leaves it. -/
def State.start : State where
  semvals := fun _ => 1
  child := fun _ => .wait

inductive Label where
  | semwait (k : Nat)
  | semwaitFails (k : Nat)
  | sempost (k : Nat)
  | sempostFails (k : Nat)
deriving DecidableEq, Repr

/-- A step of one of `n` children. -/
def step (n : Nat) (s : State) : Label → Option State
  | .semwait k =>
      if k < n ∧ s.child k = .wait then
        (sysvSemwait s.semvals 0).map (fun semvals =>
          { semvals := semvals, child := Function.update s.child k .inside })
      else none
  | .semwaitFails k =>
      if k < n ∧ s.child k = .wait then
        some { s with child := Function.update s.child k .inside }
      else none
  | .sempost k =>
      if k < n ∧ s.child k = .inside then
        (sysvSempost s.semvals 0).map (fun semvals =>
          { semvals := semvals, child := Function.update s.child k .exiting })
      else none
  | .sempostFails k =>
      if k < n ∧ s.child k = .inside then
        some { s with child := Function.update s.child k .exiting }
      else none

end Program

section Exclusion

variable {n : Nat} {s s' : State} {l : Label} {es : List Label}

/-- The number of children in their critical sections. -/
def State.inside (n : Nat) (s : State) : Nat :=
  census Pc.isInside s.child n

/-- At most one child is in its critical section. -/
def Exclusive (n : Nat) (s : State) : Prop :=
  ∀ i j, i < n → j < n → s.child i = .inside → s.child j = .inside → i = j

/-- A wait fails at most when nobody holds the unit and the semaphore does not have it. -/
def TakesUnit (n : Nat) (s : State) : Label → Prop
  | .semwaitFails _ => s.semvals 0 = 0 ∧ s.inside n = 0
  | _ => True

instance (s : State) (l : Label) : Decidable (TakesUnit n s l) := by
  unfold TakesUnit
  split <;> infer_instance

/-- There is one unit at most, in the semaphore or with a child. -/
def OneUnit (n : Nat) (s : State) : Prop :=
  s.semvals 0 + s.inside n ≤ 1

theorem inside_enter
    {k : Nat}
    (hk : k < n)
    (hpc : s.child k = .wait) :
    census Pc.isInside (Function.update s.child k .inside) n = s.inside n + 1 := by
  have hcount := census_update (p := Pc.isInside) (f := s.child) .inside hk
  rw [hpc] at hcount
  exact hcount

theorem inside_leave
    {k : Nat}
    (hk : k < n)
    (hpc : s.child k = .inside) :
    census Pc.isInside (Function.update s.child k .exiting) n + 1 = s.inside n := by
  have hcount := census_update (p := Pc.isInside) (f := s.child) .exiting hk
  rw [hpc] at hcount
  exact hcount

theorem OneUnit.step
    (h : OneUnit n s)
    (htakes : TakesUnit n s l)
    (hstep : step n s l = some s') :
    OneUnit n s' := by
  unfold OneUnit at h ⊢
  cases l with
  | semwait k =>
      simp only [CriticalSection.step] at hstep
      split_ifs at hstep with hguard
      obtain ⟨semvals, hwait, rfl⟩ := Option.map_eq_some_iff.mp hstep
      obtain ⟨val, hval, rfl⟩ := sysvSemwait_spec hwait
      simp only [Function.update_self, State.inside, inside_enter hguard.1 hguard.2]
      simp only [State.inside] at h
      omega
  | semwaitFails k =>
      simp only [CriticalSection.step] at hstep
      split_ifs at hstep with hguard
      cases hstep
      obtain ⟨hzero, hnobody⟩ := htakes
      simp only [State.inside, inside_enter hguard.1 hguard.2, hzero]
      simp only [State.inside] at hnobody
      omega
  | sempost k =>
      simp only [CriticalSection.step] at hstep
      split_ifs at hstep with hguard
      obtain ⟨semvals, hpost, rfl⟩ := Option.map_eq_some_iff.mp hstep
      rw [sysvSempost_spec hpost]
      have hleave := inside_leave hguard.1 hguard.2
      simp only [Function.update_self, State.inside] at hleave h ⊢
      omega
  | sempostFails k =>
      simp only [CriticalSection.step] at hstep
      split_ifs at hstep with hguard
      cases hstep
      have hleave := inside_leave hguard.1 hguard.2
      simp only [State.inside] at hleave h ⊢
      omega

theorem oneUnit_start
    (n : Nat) :
    OneUnit n State.start := by
  have hnobody : census Pc.isInside (fun _ => .wait) n = 0 := by
    simp [census, Pc.isInside]
  simp [OneUnit, State.start, State.inside, hnobody]

theorem OneUnit.exclusive
    (h : OneUnit n s) :
    Exclusive n s := by
  intro i j hi hj hini hinj
  have hle : census Pc.isInside s.child n ≤ 1 := by
    unfold OneUnit State.inside at h
    omega
  exact eq_of_census_le_one hle hi hj (by rw [hini]; rfl) (by rw [hinj]; rfl)

/--
In every state that a run of `n` children reaches, at most one of them is in its critical
section, if no wait fails while the semaphore or a child has the unit.
-/
theorem exclusive_of_takesUnit
    (htakes : Along (step n) (TakesUnit n) State.start es)
    (hrun : run (step n) State.start es = some s) :
    Exclusive n s :=
  (run_invariant_along (P := OneUnit n)
    (fun _ _ _ h htakes hstep => h.step htakes hstep) (oneUnit_start n) htakes
    hrun).exclusive

/-- One child after the other, and a post that fails. -/
def turnsRun : List Label :=
  [.semwait 0, .sempost 0, .semwait 2, .sempostFails 2, .semwaitFails 1]

theorem exclusive_turnsRun :
    ∃ s, run (step 3) State.start turnsRun = some s ∧
      s.child 1 = .inside ∧
      Exclusive 3 s :=
  ⟨_, rfl, rfl, @exclusive_of_takesUnit 3 _ turnsRun (by decide) rfl⟩

/-- The wait of the second child is interrupted while the first is inside. -/
def interruptedRun : List Label :=
  [.semwait 0, .semwaitFails 1]

theorem interruptedRun_overlaps :
    ∃ s, run (step 2) State.start interruptedRun = some s ∧
      s.child 0 = .inside ∧ s.child 1 = .inside ∧
      ¬ Exclusive 2 s :=
  ⟨_, rfl, rfl, rfl, fun h => by
    have hsame := h 0 1 (by decide) (by decide) rfl rfl
    cases hsame⟩

/--
The condition is tight: behind a wait that fails while there is a unit, two children are
inside at once, or another one that waits can join.
-/
theorem overlap_of_not_takesUnit
    {k j : Nat}
    (hunit : s.semvals 0 + s.inside n = 1)
    (hstep : step n s (.semwaitFails k) = some s')
    (hj : j < n)
    (hother : s'.child j = .wait) :
    2 ≤ s'.inside n ∨
      ∃ s'', step n s' (.semwait j) = some s'' ∧ 2 ≤ s''.inside n := by
  simp only [CriticalSection.step] at hstep
  split_ifs at hstep with hguard
  cases hstep
  have henter := inside_enter hguard.1 hguard.2
  by_cases hvalue : s.semvals 0 = 0
  · left
    simp only [State.inside] at henter hunit ⊢
    omega
  · right
    have hone : s.semvals 0 = 1 := by omega
    have hwait : sysvSemwait s.semvals 0 = some (Function.update s.semvals 0 0) := by
      rw [sysvSemwait, hone]
      rfl
    refine ⟨_, (if_pos ⟨hj, hother⟩).trans (congrArg _ hwait), ?_⟩
    have hjoin := inside_enter hj hother
    simp only [State.inside] at henter hjoin ⊢
    omega

end Exclusion

end CriticalSection

end SysVSem
end SysProg
