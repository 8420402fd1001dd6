import SysProg.Lib.Census
import SysProg.Lib.Progress
import SysProg.SysVSem.Create
import Mathlib.Tactic

/-!
# Waiting for zero in ALSP/sysv_sem_waitforzero.c

The program of ALSP/sysv_sem.c with a semaphore of two units and one more process, which waits
until the value is zero.  Child 2 aborts in its critical section; as `sysv_semwait` does not use
`SEM_UNDO`, its unit is lost.  The parent waits for all of its processes and removes the
semaphore.

**Steps.**  The calls of `fork`, `waitpid`, `semop` and `semctl(IPC_RMID)`, in any order of the
processes: nothing depends on how long they sleep.  When a `semop` leaves the value zero, the
kernel carries out the operation of the process that waits for it.  `fork` may fail, for the
first process without notice.  A `semop` that waits may be interrupted, and one that would pass
the greatest value fails; the caller prints a line and goes on, a child into its critical
section without a unit.  The set is new.  The number of children is what `atoi` returns; with a
negative one the parent waits for nobody.

**Result.**  `waits_for_zero`: each unit is in the semaphore, with a child in its critical
section or lost with child 2; every wait that fails adds a unit.  The process that waits for
zero misses no zero.  Every run ends and no child waits for ever, but the parent may: the
process that waits for zero is left if the units never were out at once, which is always so with
less than two children.
-/

namespace SysProg
namespace SysVSem

open Run Census Semaphore

/-- The `semop` of `sysv_semzwait`, if it can be carried out. -/
def sysvSemzwait (semvals : Nat → Nat) (idx : Nat) : Option (Nat → Nat) :=
  (semop (semvals idx) 0).map (Function.update semvals idx)

theorem sysvSemzwait_isSome_iff
    {semvals : Nat → Nat} {idx : Nat} :
    (sysvSemzwait semvals idx).isSome = true ↔ semvals idx = 0 := by
  rw [sysvSemzwait, Option.isSome_map, Option.isSome_iff_exists]
  simp only [semop_zero_eq_some_iff]
  constructor
  · rintro ⟨_, hzero, _⟩
    exact hzero
  · intro hzero
    exact ⟨0, hzero, rfl⟩

theorem sysvSempost_isSome_iff
    {semvals : Nat → Nat} {idx : Nat} :
    (sysvSempost semvals idx).isSome = true ↔ semvals idx < SEMVMX := by
  rw [sysvSempost, Option.isSome_map, semop_one_isSome_iff]

namespace WaitForZero

open Progress

section Program

inductive Main where
  /-- before the first `fork` -/
  | forkZero
  /-- `i` children have been started -/
  | fork (i : Nat)
  /-- `waitpid` has been called `i` times -/
  | reap (i : Nat)
  /-- after `sysv_semrm` -/
  | removed
  /-- after `exit(EXIT_FAILURE)` with `i` children -/
  | failed (i : Nat)
deriving DecidableEq, Repr

/-- Where a child is in `handle_criticalsect`. -/
inductive Pc where
  | absent
  | semwait
  | inside
  | exited
  | aborted
deriving DecidableEq, Repr

def Pc.isInside : Pc → Bool
  | .inside => true
  | _ => false

def Pc.isEnded : Pc → Bool
  | .exited => true
  | .aborted => true
  | _ => false

/-- Where the process is that calls `handle_waitforzero`. -/
inductive Zero where
  | absent
  | semzwait
  | waiting
  /-- after the second line, with `semop` successful -/
  | awake
  /-- the same after EINTR -/
  | interrupted
  /-- the same after EIDRM or EINVAL -/
  | refused
deriving DecidableEq, Repr

def Zero.isPresent : Zero → Bool
  | .absent => false
  | _ => true

def Zero.isEnded : Zero → Bool
  | .awake => true
  | .interrupted => true
  | .refused => true
  | _ => false

/-- The kernel has set the value to `val`. -/
def Zero.wake (zero : Zero) (val : Nat) : Zero :=
  if zero = .waiting ∧ val = 0 then .awake else zero

/-- The kernel has removed the set. -/
def Zero.remove (zero : Zero) : Zero :=
  if zero = .waiting then .refused else zero

/-- As history, how often `sysv_semwait` and `sysv_sempost` have failed. -/
structure State where
  semvals : Nat → Nat
  main : Main
  zero : Zero
  child : Nat → Pc
  failed : Nat
  dropped : Nat

/-- After `sysv_semget(NULL, 0x12340001, 1, 2, 0660)`. -/
def State.start : State where
  semvals := fun _ => 2
  main := .forkZero
  zero := .absent
  child := fun _ => .absent
  failed := 0
  dropped := 0

/-- How many of the processes have ended, and how many there are once all have been started. -/
def State.ended (nChild : Int) (s : State) : Nat :=
  census Pc.isEnded s.child nChild.toNat + s.zero.isEnded.toNat

def State.created (nChild : Int) (s : State) : Nat :=
  nChild.toNat + s.zero.isPresent.toNat

def mainStep (nChild : Int) (s : State) : Option State :=
  match s.main with
  | .forkZero => some { s with main := .fork 0, zero := .semzwait }
  | .fork i =>
      if i < nChild then
        some { s with main := .fork (i + 1), child := Function.update s.child i .semwait }
      else some { s with main := .reap 0 }
  | .reap i =>
      if i < nChild + 1 then
        -- without a process that is left `waitpid` returns ECHILD
        if i < s.ended nChild ∨ s.created nChild ≤ i then some { s with main := .reap (i + 1) }
        else none
      else some { s with main := .removed, zero := s.zero.remove }
  | .removed => none
  | .failed _ => none

def forkFails (nChild : Int) (s : State) : Option State :=
  match s.main with
  | .forkZero => some { s with main := .fork 0 }
  | .fork i => if i < nChild then some { s with main := .failed i } else none
  | _ => none

/-- `handle_criticalsect`; the set exists as long as there is a child. -/
def childStep (s : State) (k : Nat) : Option State :=
  match s.child k with
  | .semwait =>
      (sysvSemwait s.semvals 0).map (fun semvals =>
        { s with
          semvals := semvals
          zero := s.zero.wake (semvals 0)
          child := Function.update s.child k .inside })
  | .inside =>
      if k = 2 then some { s with child := Function.update s.child k .aborted }
      else
        match sysvSempost s.semvals 0 with
        | some semvals =>
            some { s with semvals := semvals, child := Function.update s.child k .exited }
        | none =>
            some { s with dropped := s.dropped + 1, child := Function.update s.child k .exited }
  | _ => none

/-- The `semop` of `sysv_semwait` waits and is interrupted. -/
def childInterrupted (s : State) (k : Nat) : Option State :=
  if s.child k = .semwait ∧ (sysvSemwait s.semvals 0).isNone then
    some { s with failed := s.failed + 1, child := Function.update s.child k .inside }
  else none

/-- `handle_waitforzero` -/
def zeroStep (s : State) : Option State :=
  if s.zero = .semzwait then
    some { s with
      zero :=
        if s.main = .removed then .refused
        else if (sysvSemzwait s.semvals 0).isSome then .awake
        else .waiting }
  else none

def zeroInterrupted (s : State) : Option State :=
  if s.zero = .waiting then some { s with zero := .interrupted } else none

inductive Label where
  | main
  | forkFails
  | child (k : Nat)
  | childInterrupted (k : Nat)
  | zero
  | zeroInterrupted
deriving DecidableEq, Repr

def step (nChild : Int) (s : State) : Label → Option State
  | .main => mainStep nChild s
  | .forkFails => forkFails nChild s
  | .child k => childStep s k
  | .childInterrupted k => childInterrupted s k
  | .zero => zeroStep s
  | .zeroInterrupted => zeroInterrupted s

end Program

section Effects

variable {nChild : Int} {s s' : State} {l : Label}

/-- What a step can do. -/
inductive Effect (nChild : Int) (s : State) : State → Prop
  | forkZero (zero : Zero)
      (hmain : s.main = .forkZero)
      (hzero : zero = .semzwait ∨ zero = s.zero) :
      Effect nChild s { s with main := .fork 0, zero := zero }
  | fork {i : Nat}
      (hmain : s.main = .fork i)
      (hi : i < nChild) :
      Effect nChild s
        { s with main := .fork (i + 1), child := Function.update s.child i .semwait }
  | forkFails {i : Nat}
      (hmain : s.main = .fork i)
      (hi : i < nChild) :
      Effect nChild s { s with main := .failed i }
  | forked {i : Nat}
      (hmain : s.main = .fork i)
      (hi : ¬ i < nChild) :
      Effect nChild s { s with main := .reap 0 }
  | reap {i : Nat}
      (hmain : s.main = .reap i)
      (hi : i < nChild + 1)
      (hready : i < s.ended nChild ∨ s.created nChild ≤ i) :
      Effect nChild s { s with main := .reap (i + 1) }
  | remove {i : Nat}
      (hmain : s.main = .reap i)
      (hi : ¬ i < nChild + 1) :
      Effect nChild s { s with main := .removed, zero := s.zero.remove }
  | enter {k val : Nat}
      (hpc : s.child k = .semwait)
      (hval : s.semvals 0 = val + 1) :
      Effect nChild s
        { s with
          semvals := Function.update s.semvals 0 val
          zero := s.zero.wake val
          child := Function.update s.child k .inside }
  | abort
      (hpc : s.child 2 = .inside) :
      Effect nChild s { s with child := Function.update s.child 2 .aborted }
  | interrupt {k : Nat}
      (hpc : s.child k = .semwait) :
      Effect nChild s
        { s with failed := s.failed + 1, child := Function.update s.child k .inside }
  | leave {k : Nat}
      (hpc : s.child k = .inside)
      (hk : k ≠ 2)
      (hroom : s.semvals 0 < SEMVMX) :
      Effect nChild s
        { s with
          semvals := Function.update s.semvals 0 (s.semvals 0 + 1)
          child := Function.update s.child k .exited }
  | drop {k : Nat}
      (hpc : s.child k = .inside)
      (hk : k ≠ 2)
      (hfull : SEMVMX ≤ s.semvals 0) :
      Effect nChild s
        { s with dropped := s.dropped + 1, child := Function.update s.child k .exited }
  | zwait (zero : Zero)
      (hzero : s.zero = .semzwait)
      (hafter : s.main = .removed ∧ zero = .refused ∨
        s.main ≠ .removed ∧ s.semvals 0 = 0 ∧ zero = .awake ∨
        s.main ≠ .removed ∧ 0 < s.semvals 0 ∧ zero = .waiting) :
      Effect nChild s { s with zero := zero }
  | zinterrupt
      (hzero : s.zero = .waiting) :
      Effect nChild s { s with zero := .interrupted }

theorem effect_of_mainStep
    (hstep : mainStep nChild s = some s') :
    Effect nChild s s' := by
  unfold mainStep at hstep
  split at hstep
  case h_1 hmain =>
      cases hstep
      exact .forkZero .semzwait hmain (Or.inl rfl)
  case h_2 i hmain =>
      split_ifs at hstep with hi
      · cases hstep
        exact .fork hmain hi
      · cases hstep
        exact .forked hmain hi
  case h_3 i hmain =>
      split_ifs at hstep with hi hready
      · cases hstep
        exact .reap hmain hi hready
      · cases hstep
        exact .remove hmain hi
  case h_4 => cases hstep
  case h_5 => cases hstep

theorem effect_of_forkFails
    (hstep : forkFails nChild s = some s') :
    Effect nChild s s' := by
  unfold forkFails at hstep
  split at hstep
  case h_1 hmain =>
      cases hstep
      exact .forkZero s.zero hmain (Or.inr rfl)
  case h_2 i hmain =>
      obtain ⟨hi, hstep⟩ := Option.ite_none_right_eq_some.mp hstep
      cases hstep
      exact .forkFails hmain hi
  case h_3 => cases hstep

theorem effect_of_childStep
    {k : Nat}
    (hstep : childStep s k = some s') :
    Effect nChild s s' := by
  unfold childStep at hstep
  split at hstep
  case h_1 hpc =>
      obtain ⟨semvals, hwait, rfl⟩ := Option.map_eq_some_iff.mp hstep
      obtain ⟨val, hval, rfl⟩ := sysvSemwait_spec hwait
      rw [Function.update_self]
      exact .enter hpc hval
  case h_2 hpc =>
      split_ifs at hstep with hk
      · subst hk
        cases hstep
        exact .abort hpc
      · split at hstep
        case h_1 semvals hpost =>
            cases hstep
            rw [sysvSempost_spec hpost]
            exact .leave hpc hk (sysvSempost_isSome_iff.mp (Option.isSome_of_eq_some hpost))
        case h_2 hpost =>
            cases hstep
            refine .drop hpc hk (Nat.le_of_not_lt fun hroom => ?_)
            have hsome := sysvSempost_isSome_iff.mpr hroom
            rw [hpost] at hsome
            cases hsome
  case h_3 => cases hstep

theorem effect_of_zeroStep
    (hstep : zeroStep s = some s') :
    Effect nChild s s' := by
  obtain ⟨hzero, hstep⟩ := Option.ite_none_right_eq_some.mp hstep
  cases hstep
  refine .zwait _ hzero ?_
  split_ifs with hmain hvalue
  · exact Or.inl ⟨hmain, rfl⟩
  · exact Or.inr (Or.inl ⟨hmain, sysvSemzwait_isSome_iff.mp hvalue, rfl⟩)
  · have hpos : s.semvals 0 ≠ 0 := fun heq => hvalue (sysvSemzwait_isSome_iff.mpr heq)
    exact Or.inr (Or.inr ⟨hmain, Nat.pos_of_ne_zero hpos, rfl⟩)

theorem effect_of_step
    (hstep : step nChild s l = some s') :
    Effect nChild s s' := by
  cases l with
  | main => exact effect_of_mainStep hstep
  | forkFails => exact effect_of_forkFails hstep
  | child k => exact effect_of_childStep hstep
  | childInterrupted k =>
      obtain ⟨⟨hpc, _⟩, hsome⟩ := Option.ite_none_right_eq_some.mp hstep
      cases hsome
      exact .interrupt hpc
  | zero => exact effect_of_zeroStep hstep
  | zeroInterrupted =>
      obtain ⟨hzero, hsome⟩ := Option.ite_none_right_eq_some.mp hstep
      cases hsome
      exact .zinterrupt hzero

end Effects

section Invariant

variable {nChild : Int} {s s' : State} {l : Label}

/-- How many children have been started. -/
def Main.forked (nChild : Int) : Main → Nat
  | .forkZero => 0
  | .fork i => i
  | .reap _ => nChild.toNat
  | .removed => nChild.toNat
  | .failed i => i

/-- How often `waitpid` has been called. -/
def Main.waited (nChild : Int) : Main → Nat
  | .reap i => i
  | .removed => (nChild + 1).toNat
  | _ => 0

/-- The children in their critical sections. -/
def State.inside (nChild : Int) (s : State) : Nat :=
  census Pc.isInside s.child nChild.toNat

/-- The unit that child 2 has taken with it. -/
def lost (child : Nat → Pc) : Nat :=
  if child 2 = .aborted then 1 else 0

/--
The units, the children that exist, and what the process that waits for zero can rely on; what
the parent has waited for has ended.
-/
structure Invariant (nChild : Int) (s : State) : Prop where
  units : s.semvals 0 + s.inside nChild + lost s.child + s.dropped = 2 + s.failed
  dropped : s.dropped ≤ s.failed
  room : s.semvals 0 ≤ SEMVMX
  bound : s.main.forked nChild ≤ nChild.toNat
  exist : ∀ k, s.child k = .absent ↔ s.main.forked nChild ≤ k
  ends : ∀ k, (s.child k).isEnded = true → (s.child k = .aborted ↔ k = 2)
  attentive : s.zero = .waiting → 0 < s.semvals 0
  awake : s.zero = .awake → 2 ≤ nChild
  reaped : min (s.main.waited nChild) (s.created nChild) ≤ s.ended nChild
  refused : s.zero = .refused → s.main = .removed ∧ nChild < 0
  first : s.main = .forkZero → s.zero = .absent

theorem invariant_start :
    Invariant nChild State.start := by
  constructor <;>
    simp [State.start, State.inside, lost, Main.forked, Main.waited, census, Pc.isInside,
      Pc.isEnded, SEMVMX]

theorem Invariant.child_lt
    {k : Nat}
    (h : Invariant nChild s)
    (hpc : s.child k ≠ .absent) :
    k < nChild.toNat := by
  have hlt : ¬ s.main.forked nChild ≤ k := fun hle => hpc ((h.exist k).mpr hle)
  have hbound := h.bound
  omega

theorem Invariant.exist_update
    {k : Nat} {p : Pc}
    (h : Invariant nChild s)
    (hpc : s.child k ≠ .absent)
    (hp : p ≠ .absent) :
    ∀ j, Function.update s.child k p j = .absent ↔ s.main.forked nChild ≤ j := by
  intro j
  rw [← h.exist j, Function.update_apply]
  split_ifs with hj
  · subst hj
    simp [hp, hpc]
  · rfl

/-- Two units are out only with two children at least. -/
theorem two_le_of_out
    (hlt : ∀ k, s.child k ≠ .absent → k < nChild.toNat)
    (hout : 2 ≤ s.inside nChild + lost s.child) :
    2 ≤ nChild := by
  unfold lost at hout
  split_ifs at hout with hlost
  · have h2 : 2 < nChild.toNat := hlt 2 (by rw [hlost]; decide)
    omega
  · have hle : s.inside nChild ≤ nChild.toNat := by
      rw [State.inside, census]
      exact List.countP_le_length.trans_eq List.length_range
    omega

theorem lost_update
    {k : Nat} {p : Pc}
    (hpc : s.child k ≠ .aborted)
    (hp : p ≠ .aborted) :
    lost (Function.update s.child k p) = lost s.child := by
  simp only [lost, Function.update_apply]
  split_ifs with hk h2 h2
  · rw [hk] at h2
    exact absurd h2 hpc
  · rfl
  · rfl
  · rfl

theorem ends_update
    {k : Nat} {p : Pc}
    (h : Invariant nChild s)
    (hp : p.isEnded = true → (p = .aborted ↔ k = 2)) :
    ∀ j, (Function.update s.child k p j).isEnded = true →
      (Function.update s.child k p j = .aborted ↔ j = 2) := by
  intro j hj
  rw [Function.update_apply] at hj ⊢
  split_ifs at hj ⊢ with heq
  · rw [heq]
    exact hp hj
  · exact h.ends j hj

@[simp] theorem Zero.isPresent_wake
    (zero : Zero)
    (val : Nat) :
    (zero.wake val).isPresent = zero.isPresent := by
  unfold Zero.wake
  split_ifs with hwake
  · rw [hwake.1]
    rfl
  · rfl

theorem Zero.isEnded_wake
    (zero : Zero)
    (val : Nat) :
    zero.isEnded.toNat ≤ (zero.wake val).isEnded.toNat := by
  unfold Zero.wake
  split_ifs with hwake
  · rw [hwake.1]
    decide
  · exact Nat.le_refl _

/-- When all processes have ended, none of them is in a call. -/
theorem ended_of_created_le
    (h : s.created nChild ≤ s.ended nChild) :
    (s.zero = .absent ∨ s.zero.isEnded = true) ∧
      ∀ k, k < nChild.toNat → (s.child k).isEnded = true := by
  have hle : census Pc.isEnded s.child nChild.toNat ≤ nChild.toNat :=
    List.countP_le_length.trans_eq List.length_range
  have hsub : s.zero.isEnded.toNat ≤ s.zero.isPresent.toNat := by
    cases s.zero <;> decide
  unfold State.created State.ended at h
  constructor
  · have hsuper : s.zero.isPresent.toNat ≤ s.zero.isEnded.toNat := by omega
    revert hsuper
    cases s.zero <;> decide
  · apply forall_of_le_census
    omega

theorem Invariant.forkZero
    {zero : Zero}
    (h : Invariant nChild s)
    (hmain : s.main = .forkZero)
    (hzero : zero = .semzwait ∨ zero = s.zero) :
    Invariant nChild { s with main := .fork 0, zero := zero } := by
  have hplace : zero = .semzwait ∨ zero = .absent := hzero.imp_right (·.trans (h.first hmain))
  have hexist := h.exist
  rw [hmain] at hexist
  refine ⟨h.units, h.dropped, h.room, Nat.zero_le _, hexist, h.ends, ?_, ?_, ?_, ?_, ?_⟩
  · rintro rfl
    simp at hplace
  · rintro rfl
    simp at hplace
  · simp [Main.waited]
  · rintro rfl
    simp at hplace
  · intro hfirst
    cases hfirst

theorem Invariant.fork
    {i : Nat}
    (h : Invariant nChild s)
    (hmain : s.main = .fork i)
    (hi : i < nChild) :
    Invariant nChild
      { s with main := .fork (i + 1), child := Function.update s.child i .semwait } := by
  have hlt : i < nChild.toNat := by omega
  have habsent : s.child i = .absent := (h.exist i).mpr (by rw [hmain]; exact Nat.le_refl i)
  have hinside := census_update (p := Pc.isInside) (f := s.child) .semwait hlt
  have hlost : lost (Function.update s.child i .semwait) = lost s.child :=
    lost_update (by simp [habsent]) (by decide)
  refine ⟨?_, h.dropped, h.room, hlt, ?_, ends_update h nofun, h.attentive, h.awake, ?_, ?_, ?_⟩
  · have hunits := h.units
    rw [habsent] at hinside
    simp only [State.inside, hlost, Pc.isInside, Bool.toNat_false] at hinside hunits ⊢
    omega
  · intro k
    have hexist := h.exist k
    rw [hmain] at hexist
    simp only [Main.forked, Function.update_apply] at hexist ⊢
    split_ifs with hk
    · simp [hk]
    · rw [hexist]
      omega
  · simp [Main.waited]
  · intro hrefused
    have hremoved := (h.refused hrefused).1
    rw [hmain] at hremoved
    cases hremoved
  · intro hfirst
    cases hfirst

/-- The parent goes on without a new process. -/
theorem Invariant.proceed
    {main : Main}
    (h : Invariant nChild s)
    (hlive : s.main ≠ .removed)
    (hforked : main.forked nChild = s.main.forked nChild)
    (hwaited : min (main.waited nChild) (s.created nChild) ≤ s.ended nChild)
    (hfirst : main ≠ .forkZero) :
    Invariant nChild { s with main := main } := by
  refine ⟨h.units, h.dropped, h.room, hforked.trans_le h.bound, ?_, h.ends, h.attentive, h.awake,
    hwaited, ?_, ?_⟩
  · intro k
    rw [hforked]
    exact h.exist k
  · intro hrefused
    exact absurd (h.refused hrefused).1 hlive
  · intro heq
    exact absurd heq hfirst

theorem Invariant.remove
    {i : Nat}
    (h : Invariant nChild s)
    (hmain : s.main = .reap i)
    (hi : ¬ i < nChild + 1) :
    Invariant nChild { s with main := .removed, zero := s.zero.remove } := by
  have hreaped := h.reaped
  have hbound := h.bound
  have hexist := h.exist
  simp only [hmain, Main.waited, Main.forked] at hreaped hbound hexist
  have hgone : s.zero = .waiting → nChild < 0 := by
    intro hzero
    by_contra hnonneg
    have hpresent : s.created nChild ≤ i := by
      simp only [State.created, hzero, Zero.isPresent, Bool.toNat_true]
      omega
    rw [Nat.min_eq_right hpresent] at hreaped
    have hended := (ended_of_created_le hreaped).1
    rw [hzero] at hended
    revert hended
    decide
  refine ⟨h.units, h.dropped, h.room, hbound, hexist, h.ends, ?_, ?_, ?_, ?_, ?_⟩
  · intro hwaiting
    simp only [Zero.remove] at hwaiting
    split_ifs at hwaiting with hzero
    exact absurd hwaiting hzero
  · intro hawake
    simp only [Zero.remove] at hawake
    split_ifs at hawake
    exact h.awake hawake
  · simp only [Main.waited, State.created, State.ended, Zero.remove] at hreaped ⊢
    split_ifs with hzero
    · have hneg := hgone hzero
      omega
    · omega
  · intro hrefused
    simp only [Zero.remove] at hrefused
    split_ifs at hrefused with hzero
    · exact ⟨rfl, hgone hzero⟩
    · exact ⟨rfl, (h.refused hrefused).2⟩
  · intro hfirst
    cases hfirst

theorem Invariant.enter
    {k val : Nat}
    (h : Invariant nChild s)
    (hpc : s.child k = .semwait)
    (hval : s.semvals 0 = val + 1) :
    Invariant nChild
      { s with
        semvals := Function.update s.semvals 0 val
        zero := s.zero.wake val
        child := Function.update s.child k .inside } := by
  have hpresent : s.child k ≠ .absent := by simp [hpc]
  have hlt := h.child_lt hpresent
  have hinside := census_update (p := Pc.isInside) (f := s.child) .inside hlt
  have hended := census_update (p := Pc.isEnded) (f := s.child) .inside hlt
  have hlost : lost (Function.update s.child k .inside) = lost s.child :=
    lost_update (by simp [hpc]) (by decide)
  have hexist := h.exist_update (p := .inside) hpresent (by decide)
  have hunits := h.units
  simp only [hpc, Pc.isInside, Pc.isEnded, Bool.toNat_false, Bool.toNat_true] at hinside hended
  refine ⟨?_, h.dropped, ?_, h.bound, hexist, ends_update h nofun, ?_, ?_, ?_, ?_, ?_⟩
  · simp only [State.inside, hlost, Function.update_self] at hunits ⊢
    omega
  · have hroom := h.room
    simp only [Function.update_self]
    omega
  · intro hwaiting
    simp only [Zero.wake] at hwaiting
    split_ifs at hwaiting with hwake
    simp only [Function.update_self]
    by_contra hzero
    exact hwake ⟨hwaiting, by omega⟩
  · intro hawake
    simp only [Zero.wake] at hawake
    split_ifs at hawake with hwake
    · -- the semaphore is empty now
      refine two_le_of_out (s := { s with child := Function.update s.child k .inside }) ?_ ?_
      · intro j hj
        have hjlt := mt (hexist j).mpr hj
        have hbound := h.bound
        omega
      · have hdropped := h.dropped
        simp only [State.inside, hlost] at hunits ⊢
        omega
    · exact h.awake hawake
  · have hreaped := h.reaped
    have hwake := s.zero.isEnded_wake val
    simp only [State.created, State.ended, Zero.isPresent_wake] at hreaped ⊢
    omega
  · intro hrefused
    simp only [Zero.wake] at hrefused
    split_ifs at hrefused
    exact h.refused hrefused
  · intro hfirst
    simp [Zero.wake, h.first hfirst]

/-- A child goes on without a unit. -/
theorem Invariant.interrupt
    {k : Nat}
    (h : Invariant nChild s)
    (hpc : s.child k = .semwait) :
    Invariant nChild
      { s with failed := s.failed + 1, child := Function.update s.child k .inside } := by
  have hpresent : s.child k ≠ .absent := by simp [hpc]
  have hlt := h.child_lt hpresent
  have hinside := census_update (p := Pc.isInside) (f := s.child) .inside hlt
  have hended := census_update (p := Pc.isEnded) (f := s.child) .inside hlt
  have hlost : lost (Function.update s.child k .inside) = lost s.child :=
    lost_update (by simp [hpc]) (by decide)
  have hunits := h.units
  simp only [hpc, Pc.isInside, Pc.isEnded, Bool.toNat_false, Bool.toNat_true] at hinside hended
  refine ⟨?_, Nat.le_succ_of_le h.dropped, h.room, h.bound, h.exist_update hpresent (by decide),
    ends_update h nofun, h.attentive, h.awake, ?_, h.refused, h.first⟩
  · simp only [State.inside, hlost] at hunits ⊢
    omega
  · have hreaped := h.reaped
    simp only [State.created, State.ended] at hreaped ⊢
    omega

/-- A child ends, with its unit put back or lost. -/
theorem Invariant.leave
    {k val dropped : Nat} {p : Pc}
    (h : Invariant nChild s)
    (hpc : s.child k = .inside)
    (hp : p = .exited ∧ k ≠ 2 ∨ p = .aborted ∧ k = 2)
    (hval : val + lost (Function.update s.child k p) + dropped =
      s.semvals 0 + lost s.child + s.dropped + 1)
    (hle : s.semvals 0 ≤ val)
    (hroom : val ≤ SEMVMX)
    (hdropped : dropped ≤ s.failed) :
    Invariant nChild
      { s with
        semvals := Function.update s.semvals 0 val
        dropped := dropped
        child := Function.update s.child k p } := by
  have hpresent : s.child k ≠ .absent := by simp [hpc]
  have hlt := h.child_lt hpresent
  have hinside := census_update (p := Pc.isInside) (f := s.child) p hlt
  have hended := census_update (p := Pc.isEnded) (f := s.child) p hlt
  have hpfacts : p.isInside = false ∧ p.isEnded = true ∧ p ≠ .absent := by
    rcases hp with ⟨rfl, _⟩ | ⟨rfl, _⟩ <;> decide
  rw [hpc, hpfacts.1] at hinside
  rw [hpc, hpfacts.2.1] at hended
  simp only [Pc.isInside, Pc.isEnded, Bool.toNat_false, Bool.toNat_true] at hinside hended
  refine ⟨?_, hdropped, ?_, h.bound, h.exist_update hpresent hpfacts.2.2, ?_, ?_, h.awake, ?_,
    h.refused, h.first⟩
  · have hunits := h.units
    simp only [State.inside, Function.update_self] at hunits ⊢
    omega
  · simpa only [Function.update_self] using hroom
  · refine ends_update h ?_
    rcases hp with ⟨rfl, hk⟩ | ⟨rfl, hk⟩ <;> simp [hk]
  · intro hwaiting
    simp only [Function.update_self]
    exact (h.attentive hwaiting).trans_le hle
  · have hreaped := h.reaped
    simp only [State.created, State.ended] at hreaped ⊢
    omega

/-- A child whose post fails has gone without a unit itself, or another one has. -/
theorem Invariant.dropped_lt
    (h : Invariant nChild s)
    (hfull : SEMVMX ≤ s.semvals 0) :
    s.dropped < s.failed := by
  have hunits := h.units
  simp only [SEMVMX] at hfull
  omega

theorem Invariant.zwait
    {zero : Zero}
    (h : Invariant nChild s)
    (hzero : s.zero = .semzwait)
    (hafter : s.main = .removed ∧ zero = .refused ∨
      s.main ≠ .removed ∧ s.semvals 0 = 0 ∧ zero = .awake ∨
      s.main ≠ .removed ∧ 0 < s.semvals 0 ∧ zero = .waiting) :
    Invariant nChild { s with zero := zero } := by
  have hpresent : zero.isPresent = true := by
    rcases hafter with ⟨_, rfl⟩ | ⟨_, _, rfl⟩ | ⟨_, _, rfl⟩ <;> rfl
  have hreaped := h.reaped
  refine ⟨h.units, h.dropped, h.room, h.bound, h.exist, h.ends, ?_, ?_, ?_, ?_, ?_⟩
  · rintro rfl
    simp at hafter
    exact hafter.2
  · rintro rfl
    simp at hafter
    refine two_le_of_out (s := s) (fun k hk => h.child_lt hk) ?_
    have hunits := h.units
    have hdropped := h.dropped
    omega
  · have hbefore : Zero.semzwait.isPresent = true ∧ Zero.semzwait.isEnded = false := by decide
    simp only [State.created, State.ended, hzero, hbefore, hpresent, Bool.toNat_false] at hreaped ⊢
    omega
  · rintro rfl
    simp at hafter
    refine ⟨hafter, ?_⟩
    by_contra hnonneg
    have hall : s.created nChild ≤ s.ended nChild := by
      simp only [hafter, Main.waited, State.created, hzero, Zero.isPresent, Bool.toNat_true]
        at hreaped ⊢
      omega
    have hended := (ended_of_created_le hall).1
    rw [hzero] at hended
    revert hended
    decide
  · intro hfirst
    exact absurd (hzero.symm.trans (h.first hfirst)) (by decide)

theorem Invariant.zinterrupt
    (h : Invariant nChild s)
    (hzero : s.zero = .waiting) :
    Invariant nChild { s with zero := .interrupted } := by
  have hreaped := h.reaped
  have hfirst := h.first
  rw [hzero] at hfirst
  refine ⟨h.units, h.dropped, h.room, h.bound, h.exist, h.ends, nofun, nofun, ?_, nofun, ?_⟩
  · simp only [State.created, State.ended, hzero, Zero.isPresent, Zero.isEnded, Bool.toNat_false,
      Bool.toNat_true] at hreaped ⊢
    omega
  · intro hmain
    cases hfirst hmain

theorem Invariant.step
    (h : Invariant nChild s)
    (hstep : step nChild s l = some s') :
    Invariant nChild s' := by
  cases effect_of_step hstep with
  | forkZero zero hmain hzero =>
      exact h.forkZero hmain hzero
  | fork hmain hi =>
      exact h.fork hmain hi
  | forkFails hmain hi =>
      exact h.proceed (by simp [hmain]) (by rw [hmain]; rfl) (by simp [Main.waited]) (by simp)
  | @forked i hmain hi =>
      have hbound := h.bound
      rw [hmain] at hbound
      have hforked : nChild.toNat = i := by
        simp only [Main.forked] at hbound
        omega
      refine h.proceed (by simp [hmain]) ?_ (by simp [Main.waited]) (by simp)
      rw [hmain]
      exact hforked
  | @reap i hmain hi hready =>
      have hreaped := h.reaped
      refine h.proceed (by simp [hmain]) (by rw [hmain]; rfl) ?_ (by simp)
      simp only [hmain, Main.waited] at hreaped ⊢
      omega
  | remove hmain hi =>
      exact h.remove hmain hi
  | enter hpc hval =>
      exact h.enter hpc hval
  | abort hpc =>
      have hlost : lost (Function.update s.child 2 .aborted) = lost s.child + 1 := by
        simp [lost, hpc]
      have hval : s.semvals 0 + lost (Function.update s.child 2 .aborted) + s.dropped =
          s.semvals 0 + lost s.child + s.dropped + 1 := by omega
      have hleave := h.leave hpc (Or.inr ⟨rfl, rfl⟩) hval (Nat.le_refl _) h.room h.dropped
      rwa [Function.update_eq_self] at hleave
  | interrupt hpc =>
      exact h.interrupt hpc
  | leave hpc hk hroom =>
      have hlost := lost_update (k := _) (p := .exited) (s := s) (by rw [hpc]; decide) (by decide)
      exact h.leave hpc (Or.inl ⟨rfl, hk⟩) (by omega) (Nat.le_succ _) hroom h.dropped
  | drop hpc hk hfull =>
      have hlost := lost_update (k := _) (p := .exited) (s := s) (by rw [hpc]; decide) (by decide)
      have hleave := h.leave hpc (Or.inl ⟨rfl, hk⟩) (by omega) (Nat.le_refl (s.semvals 0)) h.room
        (Nat.succ_le_of_lt (h.dropped_lt hfull))
      rwa [Function.update_eq_self] at hleave
  | zwait zero hzero hafter =>
      exact h.zwait hzero hafter
  | zinterrupt hzero =>
      exact h.zinterrupt hzero

end Invariant

section Results

variable {nChild : Int} {s s' : State} {l : Label}

def Main.left (nChild : Int) : Main → Nat
  | .forkZero => nChild.toNat + (nChild + 1).toNat + 3
  | .fork i => nChild.toNat - i + (nChild + 1).toNat + 2
  | .reap i => (nChild + 1).toNat - i + 1
  | .removed => 0
  | .failed _ => 0

def Pc.left : Pc → Nat
  | .absent => 2
  | .semwait => 2
  | .inside => 1
  | .exited => 0
  | .aborted => 0

def Zero.left : Zero → Nat
  | .absent => 2
  | .semzwait => 2
  | .waiting => 1
  | .awake => 0
  | .interrupted => 0
  | .refused => 0

/-- The steps that are left at most. -/
def State.left (nChild : Int) (s : State) : Nat :=
  s.main.left nChild + total Pc.left s.child nChild.toNat + s.zero.left

theorem Zero.left_wake_le
    (zero : Zero)
    (val : Nat) :
    (zero.wake val).left ≤ zero.left := by
  unfold Zero.wake
  split_ifs with hwake
  · exact Nat.zero_le _
  · exact Nat.le_refl _

theorem Zero.left_remove_le
    (zero : Zero) :
    zero.remove.left ≤ zero.left := by
  cases zero <;> decide

theorem Invariant.left_step
    (h : Invariant nChild s)
    (hstep : WaitForZero.step nChild s l = some s') :
    s'.left nChild < s.left nChild := by
  have hchild : ∀ {k : Nat} {p : Pc}, s.child k ≠ .absent → p.left < (s.child k).left →
      total Pc.left (Function.update s.child k p) nChild.toNat <
        total Pc.left s.child nChild.toNat :=
    fun hpc hlt => total_update_lt (h.child_lt hpc) hlt
  unfold State.left
  cases effect_of_step hstep with
  | forkZero zero hmain hzero =>
      have hleft : zero.left = s.zero.left := by
        rw [h.first hmain] at hzero ⊢
        rcases hzero with rfl | rfl <;> rfl
      simp only [hmain, hleft, Main.left]
      omega
  | @fork i hmain hi =>
      have habsent : s.child i = .absent := (h.exist i).mpr (by rw [hmain]; exact Nat.le_refl i)
      have hlt : i < nChild.toNat := by omega
      have htotal : total Pc.left (Function.update s.child i .semwait) nChild.toNat +
          (s.child i).left = total Pc.left s.child nChild.toNat + Pc.semwait.left :=
        total_update Pc.semwait hlt
      rw [habsent] at htotal
      simp only [hmain, Main.left, Pc.left] at htotal ⊢
      omega
  | forkFails hmain hi =>
      simp only [hmain, Main.left]
      omega
  | forked hmain hi =>
      simp only [hmain, Main.left]
      omega
  | reap hmain hi hready =>
      simp only [hmain, Main.left]
      omega
  | remove hmain hi =>
      have hzero := s.zero.left_remove_le
      simp only [hmain, Main.left]
      omega
  | @enter k val hpc hval =>
      have hlt := hchild (k := k) (p := .inside) (by simp [hpc]) (by rw [hpc]; decide)
      have hzero := s.zero.left_wake_le val
      dsimp only
      omega
  | abort hpc =>
      have hlt := hchild (k := 2) (p := .aborted) (by simp [hpc]) (by rw [hpc]; decide)
      dsimp only
      omega
  | @interrupt k hpc =>
      have hlt := hchild (k := k) (p := .inside) (by simp [hpc]) (by rw [hpc]; decide)
      dsimp only
      omega
  | @leave k hpc hk hroom =>
      have hlt := hchild (k := k) (p := .exited) (by simp [hpc]) (by rw [hpc]; decide)
      dsimp only
      omega
  | @drop k hpc hk hfull =>
      have hlt := hchild (k := k) (p := .exited) (by simp [hpc]) (by rw [hpc]; decide)
      dsimp only
      omega
  | zwait zero hzero hafter =>
      have hlt : zero.left < s.zero.left := by
        rw [hzero]
        rcases hafter with ⟨_, rfl⟩ | ⟨_, _, rfl⟩ | ⟨_, _, rfl⟩ <;> decide
      dsimp only
      omega
  | zinterrupt hzero =>
      simp only [hzero, Zero.left]
      omega

/-- No process can make a step by itself. -/
def Halted (nChild : Int) (s : State) : Prop :=
  WaitForZero.step nChild s .main = none ∧ WaitForZero.step nChild s .zero = none ∧
    ∀ k, WaitForZero.step nChild s (.child k) = none

/-- A child that has not ended can go on, or another one can. -/
theorem Invariant.ended_of_halted
    (h : Invariant nChild s)
    (hend : Halted nChild s)
    (k : Nat) :
    s.child k = .absent ∨ (s.child k).isEnded = true := by
  have hunits := h.units
  have hdropped := h.dropped
  have hinside : ∀ j, s.child j ≠ .inside := by
    intro j hpc
    have hstep := hend.2.2 j
    simp only [WaitForZero.step, childStep, hpc] at hstep
    split_ifs at hstep
    split at hstep <;> cases hstep
  have hnobody : s.inside nChild = 0 := by
    rw [State.inside, census, List.countP_eq_zero]
    intro j _ hj
    cases hpc : s.child j with
    | inside => exact hinside j hpc
    | _ => simp [hpc, Pc.isInside] at hj
  cases hpc : s.child k with
  | absent => exact Or.inl rfl
  | semwait =>
      have hstep := hend.2.2 k
      simp only [WaitForZero.step, childStep, hpc, sysvSemwait, Option.map_eq_none_iff] at hstep
      have hzero := semop_neg_one_eq_none h.room hstep
      have hone : lost s.child ≤ 1 := by
        unfold lost
        split_ifs <;> decide
      omega
  | inside => exact absurd hpc (hinside k)
  | exited => exact Or.inr rfl
  | aborted => exact Or.inr rfl

/-- The third child is interrupted: three of them are in their critical sections. -/
example :
    ∃ s,
      run (step 3) State.start
        [.main, .main, .main, .main, .child 0, .child 1, .childInterrupted 2] = some s ∧
      s.inside 3 = 3 :=
  ⟨_, rfl, by decide⟩

end Results

end WaitForZero
end SysVSem
end SysProg
