import Mathlib.Tactic

/-!
# System V semaphores

The value of a semaphore as the kernel keeps it.  `semop` either takes effect at once or
does not happen in this state: it blocks, or it would pass the greatest value.

An operation with `SEM_UNDO` is recorded with the opposite sign in the adjustment of the
process, which is kept between `-SEMAEM - 1` and `SEMAEM`: an operation that would pass these
limits fails.  When the process exits, `undo` adds the adjustment to the value, which stays
between 0 and `SEMVMX`.
-/

namespace SysProg
namespace Semaphore

/-- The greatest value of a semaphore. -/
def SEMVMX : Nat := 32767

/-- The greatest adjustment. -/
def SEMAEM : Nat := 32767

/-- The value after an operation, if the operation can be carried out. -/
def semop (val : Nat) (op : Int) : Option Nat :=
  if op = 0 then
    if val = 0 then some val else none
  else if 0 ≤ val + op ∧ (val + op).toNat ≤ SEMVMX then some (val + op).toNat
  else none

/-- The value after the exit of a process with an adjustment. -/
def undo (val : Nat) (adj : Int) : Nat :=
  (min (max (val + adj) 0) SEMVMX).toNat

variable {val val' : Nat}

theorem semop_neg_one
    (h : semop val (-1) = some val') :
    val = val' + 1 := by
  rw [semop, if_neg (by decide)] at h
  split_ifs at h
  simp only [Option.some.injEq] at h
  omega

theorem semop_one
    (h : semop val 1 = some val') :
    val' = val + 1 := by
  rw [semop, if_neg (by decide)] at h
  split_ifs at h
  simp only [Option.some.injEq] at h
  omega

theorem semop_zero_eq_some_iff :
    semop val 0 = some val' ↔ val = 0 ∧ val' = 0 := by
  rw [semop, if_pos rfl]
  split_ifs with hval
  · simp [hval, eq_comm]
  · simp [hval]

/-- A decrement waits at zero only. -/
theorem semop_neg_one_eq_none
    (hval : val ≤ SEMVMX)
    (h : semop val (-1) = none) :
    val = 0 := by
  rw [semop, if_neg (by decide)] at h
  split_ifs at h
  omega

theorem semop_one_isSome_iff :
    (semop val 1).isSome = true ↔ val < SEMVMX := by
  rw [semop, if_neg (by decide)]
  split_ifs with hroom
  · exact iff_of_true rfl (by omega)
  · exact iff_of_false (by simp) (by omega)

/-- An adjustment that outweighs the value leaves nothing. -/
theorem undo_eq_zero
    {adj : Int}
    (h : val + adj ≤ 0) :
    undo val adj = 0 := by
  simp only [undo]
  omega

section Undo

variable {ι : Type} [DecidableEq ι]

/-- A semaphore with the adjustments of the processes that use `SEM_UNDO`. -/
structure UndoSem (ι : Type) where
  val : Nat
  adj : ι → Int

/-- An operation with `SEM_UNDO`, if it takes effect: it may have to wait, or it fails. -/
def UndoSem.semop (sem : UndoSem ι) (who : ι) (op : Int) : Option (UndoSem ι) :=
  if -(SEMAEM : Int) - 1 ≤ sem.adj who - op ∧ sem.adj who - op ≤ SEMAEM then
    (Semaphore.semop sem.val op).map (fun val =>
      ⟨val, Function.update sem.adj who (sem.adj who - op)⟩)
  else none

/-- Nothing is taken from a semaphore without a unit. -/
theorem UndoSem.semop_of_val_zero
    {sem : UndoSem ι}
    (h : sem.val = 0)
    (who : ι) :
    sem.semop who (-1) = none := by
  unfold UndoSem.semop
  split_ifs
  · rw [h]
    rfl
  · rfl

/-- The exit of a process. -/
def UndoSem.exit (sem : UndoSem ι) (who : ι) : UndoSem ι :=
  ⟨undo sem.val (sem.adj who), Function.update sem.adj who 0⟩

end Undo

end Semaphore
end SysProg
