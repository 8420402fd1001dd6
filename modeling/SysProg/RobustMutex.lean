import SysProg.CleanupMutex
import SysProg.Lib.PosixMutex
import SysProg.Lib.Run
import Mathlib.Tactic

/-!
# Cancellation and the robust mutex of ALSP/mutex_robust.c

The threads of ALSP/cleanup_mutex.c without its cleanup handler: a thread that is cancelled
while it owns the mutex ends as its owner.  The mutex is robust, and a thread that is told of
the death of the owner calls `pthread_mutex_consistent` and goes on.

**Steps.**  As in `CleanupMutex`, whose `pr_out` with the lock of `stdout` is used here: each
call of `start_thread` is a step, the cancellation of any thread may be requested at any time
and is acted upon at a cancellation point.  The call of `printf` before
`pthread_mutex_consistent` is such a point: a thread may be cancelled after it has inherited the
mutex and before it has marked it.

**Result.**  `recovers`: the mutex is never lost, its owner is always a thread that has not
ended and waits for nothing but the lock of `stdout`, and each death of an owner is told to
exactly one thread, the next one that locks the mutex.  The lock of `stdout` is lost with a
thread that is cancelled in `pr_out`; the owner may then wait for it for ever.
-/

namespace SysProg
namespace RobustMutex

open PosixMutex Run
open CleanupMutex (Print flockfile funlockfile)

section Program

inductive Pc where
  /-- `sleep(t_arg->idx)` -/
  | sleepIdx
  | lock
  /-- `printf` of `EOWNERDEAD` -/
  | printDead
  | consistent
  /-- `printf` of another error -/
  | printError
  | prOut (p : Print)
  /-- one of the four calls of `sleep(1)`, after `i` of them -/
  | sleep (i : Nat)
  | unlock
  /-- `pr_out`, `sleep` and `pthread_cancel` of thread 1 -/
  | report (p : Print)
  | reportSleep
  | cancel
  | terminated
deriving DecidableEq, Repr

def Pc.cancellationPoint : Pc → Bool
  | .sleepIdx => true
  | .printDead => true
  | .printError => true
  | .prOut p => p != .flockfile && p != .funlockfile
  | .sleep _ => true
  | .report p => p != .flockfile && p != .funlockfile
  | .reportSleep => true
  | _ => false

/--
The places of the threads, the requests for cancellation, the mutex and the lock of `stdout`.
The last two fields are history: how many threads have ended as the owner of the mutex, and how
many have been told so.
-/
structure State where
  pc : Nat → Pc
  pending : Nat → Bool
  mutex : Mutex Nat
  stdout : Option (Nat × Nat)
  died : Nat
  detected : Nat

def State.start : State where
  pc := fun _ => .sleepIdx
  pending := fun _ => false
  mutex := { kind := .normal, robust := true, own := .free }
  stdout := none
  died := 0
  detected := 0

def State.goto (s : State) (k : Nat) (p : Pc) : State :=
  { s with pc := Function.update s.pc k p }

/-- A call of `pr_out`, at the places `place` and then on to `next`. -/
def State.print (s : State) (k : Nat) (place : Print → Pc) (next : Pc) :
    Print → Option State
  | .flockfile =>
      (flockfile s.stdout k).map (fun stdout =>
        { s with stdout := stdout }.goto k (place .fprintf))
  | .fprintf => some (s.goto k (place .fprintfArg))
  | .fprintfArg => some (s.goto k (place .fputc))
  | .fputc => some (s.goto k (place .funlockfile))
  | .funlockfile => some ({ s with stdout := funlockfile s.stdout }.goto k next)

/-- A single `printf`, which waits while another thread has locked `stdout`. -/
def State.printf (s : State) (k : Nat) (next : Pc) : Option State :=
  (flockfile s.stdout k).map (fun _ => s.goto k next)

/-- What follows `pthread_mutex_lock`. -/
def State.locked (s : State) (k : Nat) (ret : Ret) (mutex : Mutex Nat) : State :=
  { s with
    mutex := mutex
    detected := if ret = Ret.eownerdead then s.detected + 1 else s.detected }.goto k
      (match ret with
        | .ok => .prOut .flockfile
        | .eownerdead => .printDead
        | _ => .printError)

/-- The next call of a thread, unless it waits or has ended. -/
def threadStep (s : State) (k : Nat) : Option State :=
  match s.pc k with
  | .sleepIdx => some (s.goto k .lock)
  | .lock => (s.mutex.lock k).map (fun r => s.locked k r.1 r.2)
  | .printDead => s.printf k .consistent
  | .consistent =>
      some ({ s with mutex := s.mutex.markConsistent k }.goto k (.prOut .flockfile))
  | .printError => s.printf k (.prOut .flockfile)
  | .prOut p => s.print k .prOut (.sleep 0) p
  | .sleep i => some (s.goto k (if i = 3 then .unlock else .sleep (i + 1)))
  | .unlock =>
      (s.mutex.unlock k).map (fun r =>
        { s with mutex := r.2 }.goto k (if k = 1 then .report .flockfile else .terminated))
  | .report p => s.print k .report .reportSleep p
  | .reportSleep => some (s.goto k .cancel)
  | .cancel =>
      some ({ s with pending := Function.update s.pending (k + 1) true }.goto k .terminated)
  | .terminated => none

/-- The thread acts upon a request, and ends. -/
def cancelStep (s : State) (k : Nat) : Option State :=
  if s.pending k = true ∧ (s.pc k).cancellationPoint = true then
    some ({ s with
      mutex := s.mutex.die k
      died := if s.mutex.own.view k = none then s.died else s.died + 1 }.goto k .terminated)
  else none

inductive Label where
  | thread (k : Nat)
  /-- somebody calls `pthread_cancel` for the thread -/
  | request (k : Nat)
  | cancel (k : Nat)
deriving DecidableEq, Repr

/-- The steps of `n` threads. -/
def step (n : Nat) (s : State) : Label → Option State
  | .thread k => if k < n then threadStep s k else none
  | .request k => some { s with pending := Function.update s.pending k true }
  | .cancel k => if k < n then cancelStep s k else none

end Program

section Ownership

variable {n k : Nat} {s s' : State} {l : Label}

/-- What the place of a thread says about the mutex. -/
def Pc.view : Pc → Option (Nat × Bool)
  | .printDead => some (1, false)
  | .consistent => some (1, false)
  | .prOut _ => some (1, true)
  | .sleep _ => some (1, true)
  | .unlock => some (1, true)
  | _ => none

/-- The deaths that nobody has been told of yet. -/
def untold (own : Own Nat) : Nat :=
  if own = .ownerDead then 1 else 0

@[simp] theorem untold_held
    {count : Nat} {consistent : Bool} :
    untold (.held k count consistent) = 0 := by
  simp [untold]

structure Invariant (n : Nat) (s : State) : Prop where
  robust : s.mutex.robust = true
  agrees : Agrees (fun _ => Pc.view) s.mutex.own s.pc
  recoverable : s.mutex.own ≠ .notRecoverable
  noError : ∀ k, s.pc k ≠ .printError
  told : s.died = s.detected + untold s.mutex.own
  exist : ∀ k, n ≤ k → s.pc k = .sleepIdx

theorem invariant_start :
    Invariant n State.start :=
  ⟨rfl, agrees_start (fun _ => rfl), by simp [State.start], by simp [State.start], rfl,
    fun _ _ => rfl⟩

/-- What a step that brings a thread to the place `q` does. -/
structure Effect (s : State) (k : Nat) (q : Pc) (s' : State) : Prop where
  pc : s'.pc = Function.update s.pc k q
  noError : q ≠ .printError
  robust : s'.mutex.robust = true
  others : ∀ j, j ≠ k → s'.mutex.own.view j = s.mutex.own.view j
  own : s'.mutex.own.view k = q.view
  recoverable : s'.mutex.own ≠ .notRecoverable
  told : s'.died = s'.detected + untold s'.mutex.own

theorem Invariant.effect
    {q : Pc}
    (h : Invariant n s)
    (hk : k < n)
    (heffect : Effect s k q s') :
    Invariant n s' := by
  refine ⟨heffect.robust, ?_, heffect.recoverable, ?_, heffect.told, ?_⟩
  · rw [heffect.pc]
    exact h.agrees.move heffect.others heffect.own
  · rw [heffect.pc]
    exact (Function.forall_update_iff s.pc (fun _ p => p ≠ .printError)).mpr
      ⟨heffect.noError, fun j _ => h.noError j⟩
  · intro j hj
    rw [heffect.pc, Function.update_of_ne (by omega)]
    exact h.exist j hj

/-- A step that does not touch the mutex. -/
theorem Invariant.effect_goto
    {q : Pc}
    (h : Invariant n s)
    (hpc : s'.pc = Function.update s.pc k q)
    (hmutex : s'.mutex = s.mutex)
    (hdied : s'.died = s.died)
    (hdetected : s'.detected = s.detected)
    (herror : q ≠ .printError)
    (hview : q.view = (s.pc k).view) :
    Effect s k q s' := by
  refine ⟨hpc, herror, ?_, ?_, ?_, ?_, ?_⟩
  · rw [hmutex]
    exact h.robust
  · rw [hmutex]
    exact fun _ _ => rfl
  · rw [hmutex, hview]
    exact h.agrees k
  · rw [hmutex]
    exact h.recoverable
  · rw [hmutex, hdied, hdetected]
    exact h.told

theorem Invariant.effect_print
    {place : Print → Pc} {next : Pc} {p : Print}
    (h : Invariant n s)
    (hpc : s.pc k = place p)
    (hprint : s.print k place next p = some s')
    (herror : (∀ p', place p' ≠ .printError) ∧ next ≠ .printError)
    (hview : (∀ p', (place p').view = (place p).view) ∧ next.view = (place p).view) :
    ∃ q, Effect s k q s' := by
  have hplace : ∀ p' (s₁ : State),
      s₁.pc = s.pc → s₁.mutex = s.mutex → s₁.died = s.died → s₁.detected = s.detected →
      Effect s k (place p') (s₁.goto k (place p')) := by
    intro p' s₁ hpc₁ hmutex₁ hdied₁ hdetected₁
    refine h.effect_goto (by rw [State.goto, hpc₁]) hmutex₁ hdied₁ hdetected₁ (herror.1 p') ?_
    rw [hpc, hview.1]
  cases p with
  | flockfile =>
      simp only [State.print, Option.map_eq_some_iff] at hprint
      obtain ⟨stdout, _, rfl⟩ := hprint
      exact ⟨_, hplace .fprintf _ rfl rfl rfl rfl⟩
  | fprintf =>
      cases hprint
      exact ⟨_, hplace .fprintfArg _ rfl rfl rfl rfl⟩
  | fprintfArg =>
      cases hprint
      exact ⟨_, hplace .fputc _ rfl rfl rfl rfl⟩
  | fputc =>
      cases hprint
      exact ⟨_, hplace .funlockfile _ rfl rfl rfl rfl⟩
  | funlockfile =>
      cases hprint
      refine ⟨next, h.effect_goto rfl rfl rfl rfl herror.2 ?_⟩
      rw [hpc, hview.2]

/-- The thread takes the free mutex, or inherits it from a dead owner. -/
theorem Invariant.effect_lock
    {ret : Ret} {mutex : Mutex Nat}
    (h : Invariant n s)
    (hpc : s.pc k = .lock)
    (hlock : s.mutex.lock k = some (ret, mutex)) :
    ∃ q, Effect s k q (s.locked k ret mutex) := by
  have hothers : ∀ j, j ≠ k → mutex.own.view j = s.mutex.own.view j :=
    fun j hj => lock_view_of_ne hlock hj
  have hview : s.mutex.own.view k = none := by
    rw [h.agrees k, hpc]
    rfl
  have htold := h.told
  cases lock_spec hlock with
  | first hown =>
      rw [hown] at htold
      exact ⟨_, rfl, by simp, h.robust, hothers, view_held_self, by simp [State.locked, State.goto],
        by simpa [State.locked, State.goto, untold] using htold⟩
  | relock hown hkind =>
      rw [hown, view_held_self] at hview
      cases hview
  | deadlock hown hkind =>
      rw [hown, view_held_self] at hview
      cases hview
  | inherit hown =>
      rw [hown] at htold
      exact ⟨_, rfl, by simp, h.robust, hothers, view_held_self, by simp [State.locked, State.goto],
        by simpa [State.locked, State.goto, untold] using htold⟩
  | lost hown =>
      exact absurd hown h.recoverable

/-- The thread owns the mutex once, and its data is consistent. -/
theorem Invariant.effect_unlock
    {ret : Ret} {mutex : Mutex Nat}
    (h : Invariant n s)
    (hpc : s.pc k = .unlock)
    (hunlock : s.mutex.unlock k = some (ret, mutex)) :
    ∃ q, Effect s k q
      ({ s with mutex := mutex }.goto k (if k = 1 then .report .flockfile else .terminated)) := by
  have hview : s.mutex.own.view k = some (1, true) := by
    rw [h.agrees k, hpc]
    rfl
  have htold := h.told
  rw [view_eq_some_iff.mp hview] at htold
  rw [unlock_last hview] at hunlock
  cases hunlock
  refine ⟨_, rfl, ?_, h.robust, fun j hj => unlock_last_view_of_ne hview hj, ?_,
    by simp [State.goto], htold⟩
  · split_ifs <;> simp
  · split_ifs <;> rfl

/-- One case for each call of `start_thread`. -/
theorem Invariant.threadStep
    (h : Invariant n s)
    (hstep : threadStep s k = some s') :
    ∃ q, Effect s k q s' := by
  unfold RobustMutex.threadStep at hstep
  cases hpc : s.pc k with
  | sleepIdx =>
      rw [hpc] at hstep
      cases hstep
      exact ⟨_, h.effect_goto rfl rfl rfl rfl (by decide) (by rw [hpc]; rfl)⟩
  | lock =>
      simp only [hpc, Option.map_eq_some_iff] at hstep
      obtain ⟨⟨ret, mutex⟩, hlock, rfl⟩ := hstep
      exact h.effect_lock hpc hlock
  | printDead =>
      simp only [hpc, State.printf, Option.map_eq_some_iff] at hstep
      obtain ⟨_, _, rfl⟩ := hstep
      exact ⟨_, h.effect_goto rfl rfl rfl rfl (by decide) (by rw [hpc]; rfl)⟩
  | consistent =>
      rw [hpc] at hstep
      cases hstep
      have hview : s.mutex.own.view k = some (1, false) := by
        rw [h.agrees k, hpc]
        rfl
      have hown := view_eq_some_iff.mp (markConsistent_view hview)
      have htold := h.told
      rw [view_eq_some_iff.mp hview] at htold
      refine ⟨_, rfl, by simp, ?_, fun j hj => markConsistent_view_of_ne hj,
        markConsistent_view hview, by simp [State.goto, hown],
        by simpa [State.goto, hown] using htold⟩
      simpa [State.goto, Mutex.markConsistent, view_eq_some_iff.mp hview] using h.robust
  | printError =>
      exact absurd hpc (h.noError k)
  | prOut p =>
      rw [hpc] at hstep
      exact h.effect_print hpc hstep ⟨by simp, by decide⟩ ⟨fun _ => rfl, rfl⟩
  | sleep i =>
      rw [hpc] at hstep
      cases hstep
      refine ⟨_, h.effect_goto rfl rfl rfl rfl ?_ ?_⟩
      · split_ifs <;> simp
      · rw [hpc]
        split_ifs <;> rfl
  | unlock =>
      simp only [hpc, Option.map_eq_some_iff] at hstep
      obtain ⟨⟨ret, mutex⟩, hunlock, rfl⟩ := hstep
      exact h.effect_unlock hpc hunlock
  | report p =>
      rw [hpc] at hstep
      exact h.effect_print hpc hstep ⟨by simp, by decide⟩ ⟨fun _ => rfl, rfl⟩
  | reportSleep =>
      rw [hpc] at hstep
      cases hstep
      exact ⟨_, h.effect_goto rfl rfl rfl rfl (by decide) (by rw [hpc]; rfl)⟩
  | cancel =>
      rw [hpc] at hstep
      cases hstep
      exact ⟨_, h.effect_goto rfl rfl rfl rfl (by decide) (by rw [hpc]; rfl)⟩
  | terminated =>
      rw [hpc] at hstep
      cases hstep

theorem Invariant.cancelStep
    (h : Invariant n s)
    (hstep : cancelStep s k = some s') :
    Effect s k .terminated s' := by
  obtain ⟨_, hsome⟩ := Option.ite_none_right_eq_some.mp hstep
  cases hsome
  have hothers : ∀ j, j ≠ k → (s.mutex.die k).own.view j = s.mutex.own.view j :=
    fun j hj => die_view_of_ne hj
  have htold := h.told
  cases hview : s.mutex.own.view k with
  | none =>
      -- the thread does not own the mutex
      have hdie : s.mutex.die k = s.mutex := by
        unfold Mutex.die
        split
        case h_1 j count consistent hown =>
            rw [if_neg]
            rintro ⟨rfl, _⟩
            rw [hown, view_held_self] at hview
            cases hview
        case h_2 =>
            rfl
      refine ⟨rfl, by decide, ?_, hothers, ?_, ?_, ?_⟩
      · simpa [State.goto, hdie] using h.robust
      · simpa [State.goto, hdie, Pc.view] using hview
      · simpa [State.goto, hdie] using h.recoverable
      · simpa [State.goto, hdie] using htold
  | some seen =>
      obtain ⟨count, consistent⟩ := seen
      have hown := view_eq_some_iff.mp hview
      have hdie : s.mutex.die k = { s.mutex with own := .ownerDead } := by
        simp [Mutex.die, hown, h.robust]
      rw [hown] at htold
      refine ⟨rfl, by decide, ?_, hothers, ?_, ?_, ?_⟩
      · simpa [State.goto, hdie] using h.robust
      · simp [State.goto, hdie, Own.view, Pc.view]
      · simp [State.goto, hdie]
      · simpa [State.goto, hdie, untold] using htold

theorem Invariant.step
    (h : Invariant n s)
    (hstep : step n s l = some s') :
    Invariant n s' := by
  cases l with
  | thread k =>
      obtain ⟨hk, hthread⟩ := Option.ite_none_right_eq_some.mp hstep
      obtain ⟨q, heffect⟩ := h.threadStep hthread
      exact h.effect hk heffect
  | request k =>
      cases hstep
      exact ⟨h.robust, h.agrees, h.recoverable, h.noError, h.told, h.exist⟩
  | cancel k =>
      obtain ⟨hk, hcancel⟩ := Option.ite_none_right_eq_some.mp hstep
      exact h.effect hk (h.cancelStep hcancel)

end Ownership

section Recovery

variable {n : Nat} {s : State}

/-- What the robust mutex gives the program. -/
structure Recovered (n : Nat) (s : State) : Prop where
  /-- no thread has unlocked it without marking it -/
  recoverable : s.mutex.own ≠ .notRecoverable
  /-- the owner has not ended, and is the only thread between its lock and its unlock -/
  exclusive :
    ∀ k, (s.pc k).view ≠ none ↔ ∃ count consistent, s.mutex.own = .held k count consistent
  /-- a thread waits only for another one that has the mutex -/
  waits :
    ∀ k, s.pc k = .lock → threadStep s k = none → ∃ j, j < n ∧ j ≠ k ∧ (s.pc j).view ≠ none
  /-- and the owner goes on, unless another thread has the lock of `stdout` -/
  goesOn :
    ∀ k, (s.pc k).view ≠ none → threadStep s k = none →
      ∃ j count, s.stdout = some (j, count) ∧ j ≠ k
  /-- each death of an owner is told once -/
  told : s.died = s.detected + if s.mutex.own = .ownerDead then 1 else 0
  /-- no other error is printed -/
  noError : ∀ k, s.pc k ≠ .printError

theorem flockfile_eq_none
    {stdout : Option (Nat × Nat)} {k : Nat}
    (h : flockfile stdout k = none) :
    ∃ j count, stdout = some (j, count) ∧ j ≠ k := by
  unfold flockfile at h
  split at h
  case h_1 =>
      cases h
  case h_2 owner count =>
      split_ifs at h with hne
      exact ⟨owner, count, rfl, hne⟩

/-- The owner can wait for nothing but the lock of `stdout`. -/
theorem Invariant.goesOn
    {k : Nat}
    (h : Invariant n s)
    (hview : (s.pc k).view ≠ none)
    (hwaits : RobustMutex.threadStep s k = none) :
    ∃ j count, s.stdout = some (j, count) ∧ j ≠ k := by
  unfold RobustMutex.threadStep at hwaits
  cases hpc : s.pc k with
  | printDead =>
      simp only [hpc, State.printf, Option.map_eq_none_iff] at hwaits
      exact flockfile_eq_none hwaits
  | prOut p =>
      cases p with
      | flockfile =>
          simp only [hpc, State.print, Option.map_eq_none_iff] at hwaits
          exact flockfile_eq_none hwaits
      | _ => simp [hpc, State.print] at hwaits
  | unlock =>
      have hown : s.mutex.own.view k = some (1, true) := by
        rw [h.agrees k, hpc]
        rfl
      simp [hpc, unlock_last hown] at hwaits
  | consistent => simp [hpc] at hwaits
  | sleep i => simp [hpc] at hwaits
  | _ => simp [hpc, Pc.view] at hview

theorem Invariant.recovered
    (h : Invariant n s) :
    Recovered n s := by
  have hexclusive : ∀ k, (s.pc k).view ≠ none ↔
      ∃ count consistent, s.mutex.own = .held k count consistent := by
    intro k
    have hview : s.mutex.own.view k = (s.pc k).view := h.agrees k
    rw [← hview, Option.ne_none_iff_exists']
    simp only [Prod.exists, view_eq_some_iff]
  refine ⟨h.recoverable, hexclusive, ?_, fun _ => h.goesOn, h.told, h.noError⟩
  intro k hpc hwaits
  simp only [RobustMutex.threadStep, hpc, Option.map_eq_none_iff] at hwaits
  obtain ⟨j, count, consistent, hown, _⟩ := lock_eq_none_iff.mp hwaits
  have hj := (hexclusive j).mpr ⟨count, consistent, hown⟩
  refine ⟨j, ?_, ?_, hj⟩
  · by_contra hle
    rw [h.exist j (by omega)] at hj
    exact hj rfl
  · intro heq
    rw [heq, hpc] at hj
    exact hj rfl

/--
Whichever threads are cancelled and wherever: the robust mutex is never lost, only the lock of
`stdout` can keep its owner from going on, and the next thread to lock the mutex is told of the
death of its owner.
-/
theorem recovers
    {ls : List Label}
    (hrun : run (step n) State.start ls = some s) :
    Recovered n s :=
  (run_invariant (fun _ _ _ (h : Invariant n _) hstep => h.step hstep) invariant_start
    hrun).recovered

/--
Thread 2 is cancelled in its `sleep`; thread 3 inherits the mutex and is cancelled in `printf`.
-/
def inheritedTwice : List Label :=
  [.thread 2, .thread 2, .thread 2, .thread 2, .thread 2, .thread 2, .thread 2, .request 2,
    .cancel 2, .thread 3, .thread 3, .request 3, .cancel 3, .thread 4, .thread 4]

theorem recovered_inheritedTwice :
    ∃ s,
      run (step 7) State.start inheritedTwice = some s ∧
      s.pc 4 = .printDead ∧
      s.detected = 2 ∧
      Recovered 7 s := by
  have hrun : run (step 7) State.start inheritedTwice = some _ := rfl
  exact ⟨_, hrun, rfl, rfl, recovers hrun⟩

/--
Thread 1 is cancelled in `pr_out` with the lock of `stdout`; thread 2 owns the mutex and waits.
-/
example :
    ∃ s,
      run (step 7) State.start
        [.thread 1, .thread 1, .thread 1, .request 1, .cancel 1, .thread 2, .thread 2] = some s ∧
      s.pc 2 = .printDead ∧ threadStep s 2 = none ∧ s.pc 1 = .terminated :=
  ⟨_, rfl, rfl, rfl, rfl⟩

end Recovery

end RobustMutex
end SysProg
