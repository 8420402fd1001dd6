import SysProg.Lib.Refinement
import SysProg.WorkQueue.Program
import Mathlib.Tactic

/-!
# The notifications of ALSP/cond_var_rts.c

The program has the queue, the producer and the consumers of ALSP/cond_var.c.  After each job a
consumer queues the signal SIGRTMIN with a pointer to its own argument, and a further thread
takes these signals with `sigwaitinfo` and prints from which thread they come.

**Steps.**  Those of `WorkQueue`, where the end of a job is now the call of `sigqueue` that
follows it.  The signal is blocked in all threads, so that it stays pending until `sigwaitinfo`
takes it; the signals of one number are queued in their order.  A `sigqueue` that fails ends the
process.

**Result.**  `one_notification_each`: the lines of the signal thread and the signals that are
still pending are, in this order, the jobs that were done, each thread with one for each item
that it has popped except the one at hand.  Without the signals, a run is one of
ALSP/cond_var.c.
-/

namespace SysProg
namespace WorkQueue
namespace Notify

open Refinement Run

section Program

/--
The program of ALSP/cond_var.c with the pending signals, the lines of the signal thread and the
end of the process by a failed `sigqueue`.  `taken` and `done` are history: the consumers in the
order in which they have popped an item and finished a job.
-/
structure State where
  base : WorkQueue.State
  /-- the consumers between `process_job` and `sigqueue` -/
  processed : Nat → Bool
  pending : List Nat
  lines : List Nat
  exited : Bool
  taken : List Nat
  done : List Nat

def State.start : State where
  base := .start
  processed := fun _ => false
  pending := []
  lines := []
  exited := false
  taken := []
  done := []

def isJob : ConsumerPc → Bool
  | .processJob _ => true
  | _ => false

inductive Label where
  /-- a step of the producer, of `pop_item` or of a wakeup -/
  | base (l : WorkQueue.Label)
  /-- `process_job` returns -/
  | processJob (k : Nat)
  | sigqueue (k : Nat)
  | sigqueueFails (k : Nat)
  /-- `sigwaitinfo` returns a signal, and its line is printed -/
  | sigwaitinfo
deriving DecidableEq, Repr

/-- The end of a job is a step of its own here. -/
def endsJob : WorkQueue.Label → Bool
  | .jobDone _ => true
  | _ => false

/-- The consumer has popped an item in this step. -/
def State.takes (s : State) (base : WorkQueue.State) : WorkQueue.Label → List Nat
  | .popItem k => if isJob (base.consumer k) then s.taken ++ [k] else s.taken
  | _ => s.taken

def step (s : State) (l : Label) : Option State :=
  if s.exited then none
  else
    match l with
    | .base l =>
        if endsJob l then none
        else
          (WorkQueue.step s.base l).map (fun base =>
            { s with base := base, taken := s.takes base l })
    | .processJob k =>
        if isJob (s.base.consumer k) = true ∧ s.base.producer ≠ .exited ∧ s.processed k = false then
          some { s with processed := Function.update s.processed k true }
        else none
    | .sigqueue k =>
        if s.processed k then
          (WorkQueue.step s.base (.jobDone k)).map (fun base =>
            { s with
              base := base
              processed := Function.update s.processed k false
              pending := s.pending ++ [k]
              done := s.done ++ [k] })
        else none
    | .sigqueueFails k => if s.processed k then some { s with exited := true } else none
    | .sigwaitinfo =>
        if s.base.producer = .exited then none
        else
          match s.pending with
          | [] => none
          | k :: pending => some { s with pending := pending, lines := s.lines ++ [k] }

end Program

section Notifications

variable {s s' : State} {l : Label}

/-- How many items the consumer is working on. -/
def busy (pc : ConsumerPc) : Nat :=
  if isJob pc then 1 else 0

structure Invariant (s : State) : Prop where
  fifo : s.lines ++ s.pending = s.done
  each : ∀ k, s.taken.count k = s.done.count k + busy (s.base.consumer k)
  items : s.taken.length = s.base.popped.length
  bounded : Bounded s.base.wq

theorem invariant_start :
    Invariant State.start :=
  ⟨rfl, fun _ => rfl, rfl, bounded_zero⟩

/-- The steps of the queue that neither take an item nor finish a job. -/
theorem Invariant.quiet
    {base : WorkQueue.State}
    (h : Invariant s)
    (hbusy : ∀ k, busy (base.consumer k) = busy (s.base.consumer k))
    (hpopped : base.popped = s.base.popped)
    (hbounded : Bounded base.wq) :
    Invariant { s with base := base } := by
  refine ⟨h.fifo, ?_, ?_, hbounded⟩
  · intro k
    rw [hbusy k]
    exact h.each k
  · rw [hpopped]
    exact h.items

theorem busy_wakeAll
    (consumer : Nat → ConsumerPc) (k : Nat) :
    busy (wakeAll consumer k) = busy (consumer k) := by
  unfold wakeAll
  cases hpc : consumer k <;> rfl

theorem busy_update
    {consumer : Nat → ConsumerPc} {i : Nat} {pc : ConsumerPc}
    (hpc : busy pc = busy (consumer i))
    (k : Nat) :
    busy (Function.update consumer i pc k) = busy (consumer k) := by
  by_cases hk : k = i
  · rw [hk, Function.update_self, hpc]
  · rw [Function.update_of_ne hk]

/-- A consumer that was not working has popped an item. -/
theorem Invariant.pops
    {wq : Workqueue} {i : Nat} {item : Int}
    (h : Invariant s)
    (hlock : s.base.consumer i = .lock)
    (hbounded : Bounded wq) :
    Invariant
      { s with
        base :=
          { s.base with
            wq := wq
            consumer := Function.update s.base.consumer i (.processJob item)
            popped := s.base.popped ++ [item] }
        taken := s.taken ++ [i] } := by
  refine ⟨h.fifo, ?_, ?_, hbounded⟩
  · intro k
    have heach := h.each k
    rw [List.count_append]
    by_cases hk : k = i
    · rw [hk, hlock] at heach
      simp [hk, heach, busy, isJob]
    · simp [hk, Ne.symm hk, heach]
  · simp [h.items]

theorem takes_of_job
    {base : WorkQueue.State} {i : Nat}
    (h : isJob (base.consumer i) = true) :
    s.takes base (.popItem i) = s.taken ++ [i] :=
  if_pos h

theorem takes_of_not_job
    {base : WorkQueue.State} {i : Nat}
    (h : isJob (base.consumer i) = false) :
    s.takes base (.popItem i) = s.taken :=
  if_neg (by simp [h])

theorem Invariant.base
    {base : WorkQueue.State} {l : WorkQueue.Label}
    (h : Invariant s)
    (hl : ¬ endsJob l = true)
    (hbase : WorkQueue.step s.base l = some base) :
    Invariant { s with base := base, taken := s.takes base l } := by
  have heffect := step_effect h.bounded hbase
  have hbounded := bounded_step h.bounded heffect
  cases l with
  | read bytes =>
      obtain ⟨_, hsome⟩ := Option.ite_none_right_eq_some.mp hbase
      cases hsome
      exact h.quiet (fun _ => rfl) rfl hbounded
  | readFails =>
      obtain ⟨_, hsome⟩ := Option.ite_none_right_eq_some.mp hbase
      cases hsome
      exact h.quiet (fun _ => rfl) rfl hbounded
  | pushItem =>
      cases heffect with
      | pushed hpc hbound hitems =>
          exact h.quiet (fun _ => rfl) rfl hbounded
      | resumes hl' =>
          exact absurd rfl hl'
  | broadcast =>
      obtain ⟨_, hsome⟩ := Option.ite_none_right_eq_some.mp hbase
      cases hsome
      exact h.quiet (busy_wakeAll s.base.consumer) rfl hbounded
  | popItem i =>
      obtain ⟨⟨_, hlock⟩, hpop⟩ := Option.ite_none_right_eq_some.mp hbase
      unfold WorkQueue.State.popItem at hpop
      split at hpop
      case h_1 =>
          cases hpop
      case h_2 item wq hwq =>
          cases hpop
          rw [takes_of_job (by simp [isJob])]
          exact h.pops hlock hbounded
      case h_3 hwq =>
          cases hpop
          rw [takes_of_not_job (by simp [isJob])]
          exact h.quiet (busy_update (by rw [hlock]; rfl)) rfl hbounded
  | spuriousWakeup i =>
      obtain ⟨⟨_, hwaits⟩, hsome⟩ := Option.ite_none_right_eq_some.mp hbase
      cases hsome
      exact h.quiet (busy_update (by rw [hwaits]; rfl)) rfl hbounded
  | jobDone k =>
      exact absurd rfl hl

/-- The end of a job and its signal. -/
theorem Invariant.sigqueue
    {base : WorkQueue.State} {i : Nat}
    (h : Invariant s)
    (hbase : WorkQueue.step s.base (.jobDone i) = some base) :
    Invariant
      { s with
        base := base
        processed := Function.update s.processed i false
        pending := s.pending ++ [i]
        done := s.done ++ [i] } := by
  have hbounded := bounded_step h.bounded (step_effect h.bounded hbase)
  obtain ⟨_, hjob⟩ := Option.ite_none_right_eq_some.mp hbase
  split at hjob
  case h_1 item hpc =>
      cases hjob
      refine ⟨?_, ?_, h.items, hbounded⟩
      · rw [← List.append_assoc, h.fifo]
      · intro k
        have heach := h.each k
        rw [List.count_append]
        by_cases hk : k = i
        · rw [hk, hpc] at heach
          simp [hk, heach, busy, isJob]
        · simp [hk, Ne.symm hk, heach]
  case h_2 =>
      cases hjob

theorem Invariant.step
    (h : Invariant s)
    (hstep : step s l = some s') :
    Invariant s' := by
  obtain ⟨_, hstep⟩ := Option.ite_none_left_eq_some.mp hstep
  cases l with
  | base l =>
      obtain ⟨hl, hsome⟩ := Option.ite_none_left_eq_some.mp hstep
      obtain ⟨base, hbase, rfl⟩ := Option.map_eq_some_iff.mp hsome
      exact h.base hl hbase
  | processJob k =>
      obtain ⟨_, hsome⟩ := Option.ite_none_right_eq_some.mp hstep
      cases hsome
      exact ⟨h.fifo, h.each, h.items, h.bounded⟩
  | sigqueue k =>
      obtain ⟨_, hsome⟩ := Option.ite_none_right_eq_some.mp hstep
      obtain ⟨base, hbase, rfl⟩ := Option.map_eq_some_iff.mp hsome
      exact h.sigqueue hbase
  | sigqueueFails k =>
      obtain ⟨_, hsome⟩ := Option.ite_none_right_eq_some.mp hstep
      cases hsome
      exact ⟨h.fifo, h.each, h.items, h.bounded⟩
  | sigwaitinfo =>
      obtain ⟨_, hstep⟩ := Option.ite_none_left_eq_some.mp hstep
      cases hpending : s.pending with
      | nil =>
          simp [hpending] at hstep
      | cons k pending =>
          simp only [hpending, Option.some.injEq] at hstep
          subst hstep
          have hfifo := h.fifo
          rw [hpending] at hfifo
          exact ⟨by simpa using hfifo, h.each, h.items, h.bounded⟩

/-- What a step is in ALSP/cond_var.c, where jobs end without a signal. -/
theorem simulates :
    Simulates Notify.step WorkQueue.step State.base := by
  intro s l s' hstep
  obtain ⟨_, hstep⟩ := Option.ite_none_left_eq_some.mp hstep
  cases l with
  | base l =>
      obtain ⟨_, hsome⟩ := Option.ite_none_left_eq_some.mp hstep
      obtain ⟨base, hbase, rfl⟩ := Option.map_eq_some_iff.mp hsome
      exact Or.inr ⟨l, hbase⟩
  | processJob k =>
      obtain ⟨_, hsome⟩ := Option.ite_none_right_eq_some.mp hstep
      cases hsome
      exact Or.inl rfl
  | sigqueue k =>
      obtain ⟨_, hsome⟩ := Option.ite_none_right_eq_some.mp hstep
      obtain ⟨base, hbase, rfl⟩ := Option.map_eq_some_iff.mp hsome
      exact Or.inr ⟨.jobDone k, hbase⟩
  | sigqueueFails k =>
      obtain ⟨_, hsome⟩ := Option.ite_none_right_eq_some.mp hstep
      cases hsome
      exact Or.inl rfl
  | sigwaitinfo =>
      obtain ⟨_, hstep⟩ := Option.ite_none_left_eq_some.mp hstep
      cases hpending : s.pending with
      | nil =>
          simp [hpending] at hstep
      | cons k pending =>
          simp only [hpending, Option.some.injEq] at hstep
          subst hstep
          exact Or.inl rfl

/--
No notification is lost, doubled or given to another thread: the lines and the pending signals
are the finished jobs in their order, and a consumer has finished every job that it has taken,
or all but the one that it is working on.
-/
theorem one_notification_each
    {ls : List Label}
    (hrun : run Notify.step State.start ls = some s) :
    s.lines ++ s.pending = s.done ∧
      (∀ k, s.taken.count k = (s.lines ++ s.pending).count k + busy (s.base.consumer k)) ∧
        s.taken.length = s.base.popped.length ∧
          ∃ ls', run WorkQueue.step .start ls' = some s.base := by
  have h : Invariant s := run_invariant (fun _ _ _ h hstep => h.step hstep) invariant_start hrun
  refine ⟨h.fifo, ?_, h.items, simulates.exists_run hrun⟩
  intro k
  rw [h.fifo]
  exact h.each k

/-- Two consumers take an item each and finish in the other order. -/
def otherOrder : List Label :=
  [.base (.read [97, 98]), .base .pushItem, .base .broadcast, .base (.popItem 1),
    .base (.popItem 2), .processJob 2, .sigqueue 2, .processJob 1, .sigqueue 1, .sigwaitinfo]

theorem notifications_otherOrder :
    ∃ s,
      run Notify.step State.start otherOrder = some s ∧
      s.lines = [2] ∧
      s.lines ++ s.pending = s.done := by
  have hrun : run Notify.step State.start otherOrder = some _ := rfl
  exact ⟨_, hrun, rfl, (one_notification_each hrun).1⟩

end Notifications

end Notify
end WorkQueue
end SysProg
