import SysProg.Lib.Lock
import SysProg.Lib.Run
import Mathlib.Tactic

/-!
# Cancellation and the mutex of ALSP/cleanup_mutex.c

Each thread locks a mutex, pushes a cleanup handler that unlocks it, prints, sleeps four
times, pops the handler without running it and unlocks the mutex.  Thread 1 then asks for
the cancellation of thread 2.

**Steps.**  The calls of `start_thread` are single steps, and so are the calls that the
macro `pr_out` makes between `flockfile` and `funlockfile`.  The lock of `stdout` is counted
per thread.  `pthread_mutex_lock` on a mutex of the default type waits while the mutex has an
owner, and returns 0.

**Cancellation.**  A request may be made for any thread at any time, and is acted upon at a
cancellation point: at a `sleep`, or at a printing call.  The thread then runs the handler
if it is pushed, and ends.  It is not cancelled again on the way.  A thread that is
cancelled while it prints never releases its lock of `stdout`, so that other threads may
wait for that for ever; the mutex is not affected.

**Result.**  `never_orphaned`: the owner of the mutex has not ended, and the threads that
unlock it own it.
-/

namespace SysProg
namespace CleanupMutex

open Lock Run

section Program

/-- The calls of `pr_out`. -/
inductive Print where
  | flockfile
  /-- `fprintf` of the file, the function and the line -/
  | fprintf
  /-- `fprintf` of the arguments -/
  | fprintfArg
  | fputc
  | funlockfile
deriving DecidableEq, Repr

inductive Pc where
  /-- `sleep(t_arg->idx)` -/
  | sleepIdx
  | lock
  /-- `printf` of the error of `pthread_mutex_lock` -/
  | lockError
  | push
  | prOut (p : Print)
  /-- one of the four calls of `sleep(1)` -/
  | sleep (i : Fin 4)
  | pop
  | unlock
  /-- `pr_out`, `sleep` and `pthread_cancel` of thread 1 -/
  | report (p : Print)
  | reportSleep
  | cancel
  /-- `pr_out` of the handler `cleanup_mutex` -/
  | cleanup (p : Print)
  | cleanupUnlock
  | terminated
deriving DecidableEq, Repr

/-- The thread has a call of the printing functions or of `sleep` to make. -/
def Pc.cancellationPoint : Pc → Bool
  | .sleepIdx => true
  | .lockError => true
  | .prOut p => p != .flockfile && p != .funlockfile
  | .sleep _ => true
  | .report p => p != .flockfile && p != .funlockfile
  | .reportSleep => true
  | _ => false

/--
The places of the threads, whether their handler is pushed and whether a cancellation is
requested; the owner of the mutex; and the owner of the lock of `stdout` with its count.
-/
structure State where
  pc : Nat → Pc
  pushed : Nat → Bool
  pending : Nat → Bool
  mutex : Option Nat
  stdout : Option (Nat × Nat)

def State.start : State where
  pc := fun _ => .sleepIdx
  pushed := fun _ => false
  pending := fun _ => false
  mutex := none
  stdout := none

def State.goto (s : State) (k : Nat) (p : Pc) : State :=
  { s with pc := Function.update s.pc k p }

/-- `flockfile`, or nothing while another thread has the lock. -/
def flockfile (stdout : Option (Nat × Nat)) (k : Nat) : Option (Option (Nat × Nat)) :=
  match stdout with
  | none => some (some (k, 1))
  | some (owner, count) => if owner = k then some (some (k, count + 1)) else none

def funlockfile (stdout : Option (Nat × Nat)) : Option (Nat × Nat) :=
  match stdout with
  | none => none
  | some (owner, count) => if count ≤ 1 then none else some (owner, count - 1)

/-- A call of `pr_out`, at the places `place` and then on to `next`. -/
def State.print (s : State) (k : Nat) (place : Print → Pc) (next : Pc) :
    Print → Option State
  | .flockfile =>
      (flockfile s.stdout k).map (fun stdout =>
        { s with stdout := stdout }.goto k (place .fprintf))
  | .fprintf => some (s.goto k (place .fprintfArg))
  | .fprintfArg => some (s.goto k (place .fputc))
  | .fputc => some (s.goto k (place .funlockfile))
  | .funlockfile => some ({ s with stdout := funlockfile s.stdout }.goto k next)

/-- `pthread_mutex_lock`: the new owner and the result, or nothing while it waits. -/
def pthreadMutexLock (mutex : Option Nat) (k : Nat) : Option (Option Nat × Int) :=
  match mutex with
  | none => some (some k, 0)
  | some _ => none

/-- The next call of a thread, unless it waits or has ended. -/
def threadStep (s : State) (k : Nat) : Option State :=
  match s.pc k with
  | .sleepIdx => some (s.goto k .lock)
  | .lock =>
      (pthreadMutexLock s.mutex k).map (fun (mutex, ret) =>
        { s with mutex := mutex }.goto k (if ret = 0 then .push else .lockError))
  | .lockError => some (s.goto k .push)
  | .push =>
      some ({ s with pushed := Function.update s.pushed k true }.goto k (.prOut .flockfile))
  | .prOut p => s.print k .prOut (.sleep 0) p
  | .sleep i => some (s.goto k (if i = 3 then .pop else .sleep (i + 1)))
  | .pop => some ({ s with pushed := Function.update s.pushed k false }.goto k .unlock)
  | .unlock =>
      some ({ s with mutex := none }.goto k (if k = 1 then .report .flockfile else .terminated))
  | .report p => s.print k .report .reportSleep p
  | .reportSleep => some (s.goto k .cancel)
  | .cancel =>
      some ({ s with pending := Function.update s.pending (k + 1) true }.goto k .terminated)
  | .cleanup p => s.print k .cleanup .cleanupUnlock p
  | .cleanupUnlock => some ({ s with mutex := none }.goto k .terminated)
  | .terminated => none

/-- The thread acts upon a request. -/
def cancelStep (s : State) (k : Nat) : Option State :=
  if s.pending k = true ∧ (s.pc k).cancellationPoint = true then
    if s.pushed k then
      some ({ s with pushed := Function.update s.pushed k false }.goto k (.cleanup .flockfile))
    else some (s.goto k .terminated)
  else none

inductive Label where
  | thread (k : Nat)
  /-- somebody calls `pthread_cancel` for the thread -/
  | request (k : Nat)
  | cancel (k : Nat)
deriving DecidableEq, Repr

/-- The steps of `n` threads. -/
def step (n : Nat) (s : State) : Label → Option State
  | .thread k => if k < n then threadStep s k else none
  | .request k => some { s with pending := Function.update s.pending k true }
  | .cancel k => if k < n then cancelStep s k else none

end Program

section Ownership

variable {n k : Nat} {s s' : State} {l : Label}

/-- The places between the lock and the unlock, those of the handler included. -/
def Pc.owns : Pc → Bool
  | .push => true
  | .prOut _ => true
  | .sleep _ => true
  | .pop => true
  | .unlock => true
  | .cleanup _ => true
  | .cleanupUnlock => true
  | _ => false

/-- The places between the push and the pop of the handler. -/
def Pc.guarded : Pc → Bool
  | .prOut _ => true
  | .sleep _ => true
  | .pop => true
  | _ => false

/-- The thread is about to unlock the mutex. -/
def Pc.unlocks : Pc → Bool
  | .unlock => true
  | .cleanupUnlock => true
  | _ => false

structure Invariant (s : State) : Prop where
  owned : Owned Pc.owns s.mutex s.pc
  pushed : ∀ k, s.pushed k = (s.pc k).guarded
  noError : ∀ k, s.pc k ≠ .lockError

/-- What a step that brings a thread to the place `q` does. -/
structure Effect (s : State) (k : Nat) (q : Pc) (s' : State) : Prop where
  pc : s'.pc = Function.update s.pc k q
  noError : q ≠ .lockError
  pushed : s'.pushed k = q.guarded
  others : ∀ j, j ≠ k → s'.pushed j = s.pushed j
  mutex : Change Pc.owns s.mutex k (s.pc k) q s'.mutex

theorem Invariant.effect
    {q : Pc}
    (h : Invariant s)
    (heffect : Effect s k q s') :
    Invariant s' := by
  refine ⟨?_, ?_, ?_⟩ <;> rw [heffect.pc]
  · exact h.owned.change heffect.mutex
  · exact (Function.forall_update_iff s.pc (fun j p => s'.pushed j = p.guarded)).mpr
      ⟨heffect.pushed, fun j hj => (heffect.others j hj).trans (h.pushed j)⟩
  · exact (Function.forall_update_iff s.pc (fun _ p => p ≠ .lockError)).mpr
      ⟨heffect.noError, fun j _ => h.noError j⟩

/-- A step that touches neither the handler nor the mutex. -/
theorem Invariant.effect_goto
    {q : Pc}
    (h : Invariant s)
    (hpc : s'.pc = Function.update s.pc k q)
    (hpushed : s'.pushed = s.pushed)
    (hmutex : s'.mutex = s.mutex)
    (herror : q ≠ .lockError)
    (hguarded : q.guarded = (s.pc k).guarded)
    (howns : q.owns = (s.pc k).owns) :
    Effect s k q s' := by
  refine ⟨hpc, herror, ?_, fun j _ => ?_, .stay howns hmutex⟩
  · rw [hpushed, hguarded]
    exact h.pushed k
  · rw [hpushed]

/-- The calls of `pr_out` do not touch the handler and the mutex. -/
theorem Invariant.effect_print
    {place : Print → Pc} {next : Pc} {p : Print}
    (h : Invariant s)
    (hpc : s.pc k = place p)
    (hprint : s.print k place next p = some s')
    (herror : (∀ p', place p' ≠ .lockError) ∧ next ≠ .lockError)
    (hguarded : (∀ p', (place p').guarded = (place p).guarded) ∧
      next.guarded = (place p).guarded)
    (howns : (∀ p', (place p').owns = (place p).owns) ∧ next.owns = (place p).owns) :
    ∃ q, Effect s k q s' := by
  have hplace : ∀ p' (s₁ : State),
      s₁.pc = s.pc → s₁.pushed = s.pushed → s₁.mutex = s.mutex →
      Effect s k (place p') (s₁.goto k (place p')) := by
    intro p' s₁ hpc₁ hpushed₁ hmutex₁
    refine h.effect_goto (by rw [State.goto, hpc₁]) hpushed₁ hmutex₁ (herror.1 p') ?_ ?_
    · rw [hpc, hguarded.1]
    · rw [hpc, howns.1]
  cases p with
  | flockfile =>
      simp only [State.print, Option.map_eq_some_iff] at hprint
      obtain ⟨stdout, _, rfl⟩ := hprint
      exact ⟨_, hplace .fprintf _ rfl rfl rfl⟩
  | fprintf =>
      cases hprint
      exact ⟨_, hplace .fprintfArg _ rfl rfl rfl⟩
  | fprintfArg =>
      cases hprint
      exact ⟨_, hplace .fputc _ rfl rfl rfl⟩
  | fputc =>
      cases hprint
      exact ⟨_, hplace .funlockfile _ rfl rfl rfl⟩
  | funlockfile =>
      cases hprint
      refine ⟨next, h.effect_goto rfl rfl rfl herror.2 ?_ ?_⟩
      · rw [hpc, hguarded.2]
      · rw [hpc, howns.2]

/-- One case for each call of `start_thread` and of the handler. -/
theorem Invariant.threadStep
    (h : Invariant s)
    (hstep : threadStep s k = some s') :
    ∃ q, Effect s k q s' := by
  unfold CleanupMutex.threadStep at hstep
  cases hpc : s.pc k with
  | sleepIdx =>
      rw [hpc] at hstep
      cases hstep
      exact ⟨_, h.effect_goto rfl rfl rfl (by decide) (by rw [hpc]; rfl) (by rw [hpc]; rfl)⟩
  | lock =>
      rw [hpc] at hstep
      cases hmutex : s.mutex with
      | some j =>
          simp [pthreadMutexLock, hmutex] at hstep
      | none =>
          simp only [pthreadMutexLock, hmutex, Option.map_some] at hstep
          cases hstep
          refine ⟨.push, rfl, by decide, ?_, fun _ _ => rfl, .lock hmutex rfl rfl⟩
          exact (h.pushed k).trans (by rw [hpc]; rfl)
  | lockError =>
      exact absurd hpc (h.noError k)
  | push =>
      rw [hpc] at hstep
      cases hstep
      refine ⟨_, rfl, by decide, Function.update_self .., ?_, .stay (by rw [hpc]; rfl) rfl⟩
      exact fun j hj => Function.update_of_ne hj ..
  | prOut p =>
      rw [hpc] at hstep
      exact h.effect_print hpc hstep ⟨by simp, by decide⟩ ⟨fun _ => rfl, rfl⟩
        ⟨fun _ => rfl, rfl⟩
  | sleep i =>
      rw [hpc] at hstep
      cases hstep
      refine ⟨_, h.effect_goto rfl rfl rfl ?_ ?_ ?_⟩
      · split_ifs <;> simp
      · rw [hpc]
        split_ifs <;> rfl
      · rw [hpc]
        split_ifs <;> rfl
  | pop =>
      rw [hpc] at hstep
      cases hstep
      refine ⟨_, rfl, by decide, Function.update_self .., ?_, .stay (by rw [hpc]; rfl) rfl⟩
      exact fun j hj => Function.update_of_ne hj ..
  | unlock =>
      rw [hpc] at hstep
      cases hstep
      refine ⟨_, rfl, ?_, ?_, fun _ _ => rfl, .unlock (by rw [hpc]; rfl) ?_ rfl⟩
      · split_ifs <;> simp
      · refine (h.pushed k).trans ?_
        rw [hpc]
        split_ifs <;> rfl
      · split_ifs <;> rfl
  | report p =>
      rw [hpc] at hstep
      exact h.effect_print hpc hstep ⟨by simp, by decide⟩ ⟨fun _ => rfl, rfl⟩
        ⟨fun _ => rfl, rfl⟩
  | reportSleep =>
      rw [hpc] at hstep
      cases hstep
      exact ⟨_, h.effect_goto rfl rfl rfl (by decide) (by rw [hpc]; rfl) (by rw [hpc]; rfl)⟩
  | cancel =>
      rw [hpc] at hstep
      cases hstep
      exact ⟨_, h.effect_goto rfl rfl rfl (by decide) (by rw [hpc]; rfl) (by rw [hpc]; rfl)⟩
  | cleanup p =>
      rw [hpc] at hstep
      exact h.effect_print hpc hstep ⟨by simp, by decide⟩ ⟨fun _ => rfl, rfl⟩
        ⟨fun _ => rfl, rfl⟩
  | cleanupUnlock =>
      rw [hpc] at hstep
      cases hstep
      refine ⟨_, rfl, by decide, ?_, fun _ _ => rfl, .unlock (by rw [hpc]; rfl) rfl rfl⟩
      exact (h.pushed k).trans (by rw [hpc]; rfl)
  | terminated =>
      rw [hpc] at hstep
      cases hstep

/-- Where a thread can be cancelled, it owns the mutex exactly if the handler is pushed. -/
theorem owns_eq_guarded
    {p : Pc}
    (hpoint : p.cancellationPoint = true) :
    p.owns = p.guarded := by
  cases p <;> first | rfl | cases hpoint

theorem Invariant.cancelStep
    (h : Invariant s)
    (hstep : cancelStep s k = some s') :
    ∃ q, Effect s k q s' := by
  unfold CleanupMutex.cancelStep at hstep
  split_ifs at hstep with hguard hpushed
  · cases hstep
    have howns := owns_eq_guarded hguard.2
    rw [← h.pushed k, hpushed] at howns
    refine ⟨_, rfl, by decide, Function.update_self .., ?_, .stay howns.symm rfl⟩
    exact fun j hj => Function.update_of_ne hj ..
  · cases hstep
    have howns := owns_eq_guarded hguard.2
    rw [← h.pushed k, eq_false_of_ne_true hpushed] at howns
    refine ⟨_, rfl, by decide, eq_false_of_ne_true hpushed, fun _ _ => rfl, ?_⟩
    exact .stay howns.symm rfl

theorem start_invariant :
    Invariant State.start :=
  ⟨owned_start (fun _ => rfl), fun _ => rfl, fun _ => by simp [State.start]⟩

theorem invariant_step
    (h : Invariant s)
    (hstep : step n s l = some s') :
    Invariant s' := by
  cases l with
  | thread k =>
      simp only [step] at hstep
      split_ifs at hstep
      obtain ⟨q, heffect⟩ := h.threadStep hstep
      exact h.effect heffect
  | request k =>
      cases hstep
      exact ⟨h.owned, h.pushed, h.noError⟩
  | cancel k =>
      simp only [step] at hstep
      split_ifs at hstep
      obtain ⟨q, heffect⟩ := h.cancelStep hstep
      exact h.effect heffect

/--
In every run of any number of threads, with requests at any time, the owner of the mutex has
not ended, and every thread that is about to unlock the mutex owns it.
-/
theorem never_orphaned
    (n : Nat) {es : List Label} {t : State}
    (hrun : run (step n) State.start es = some t) :
    (∀ k, t.mutex = some k → t.pc k ≠ .terminated) ∧
      (∀ k, (t.pc k).unlocks = true → t.mutex = some k) := by
  have hinv := run_invariant (fun _ _ _ => invariant_step) start_invariant hrun
  refine ⟨fun k howner hend => ?_, fun k hunlocks => ?_⟩
  · have howns := (hinv.owned k).mp howner
    rw [hend] at howns
    cases howns
  · refine (hinv.owned k).mpr ?_
    cases hpc : t.pc k <;> rw [hpc] at hunlocks <;> first | rfl | cases hunlocks

end Ownership

section Example

/--
Thread 0 is cancelled in its first `sleep(1)` and runs the handler; thread 1 waits for the
mutex and gets it.
-/
def cancelRun : List Label :=
  [.thread 0, .thread 1, .thread 0, .thread 0, .thread 0, .thread 0, .thread 0, .thread 0,
    .thread 0, .request 0, .cancel 0, .thread 0, .thread 0, .thread 0, .thread 0, .thread 0,
    .thread 0, .thread 1]

theorem never_orphaned_cancelRun :
    ∃ t, run (step 2) State.start cancelRun = some t ∧
      t.pc 0 = .terminated ∧
      t.mutex = some 1 ∧
      (∀ k, t.mutex = some k → t.pc k ≠ .terminated) ∧
      (∀ k, (t.pc k).unlocks = true → t.mutex = some k) :=
  ⟨_, rfl, rfl, rfl, @never_orphaned 2 cancelRun _ rfl⟩

end Example

end CleanupMutex
end SysProg
