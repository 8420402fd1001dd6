import SysProg.Lib.Run
import SysProg.Lib.Semaphore
import Mathlib.Tactic

/-!
# The hand-off through shared memory of test/shm_write.c and test/shm_read.c

The writer stores 0, 1, 2, … in a shared cell and the reader prints the cell.  Two
semaphores pass the turn: the writer waits for `write_semid` (at first 1) and posts
`read_semid` (at first 0), the reader the other way round.  Both use `SEM_UNDO`.

**Steps.**  Each process makes its calls of `p` and `v` and its accesses to the cell one
by one, `n` times instead of 10 times.  `p` takes effect when the value allows it.  `v`
never waits; it ignores the error when its `semop` fails.  When the writer exits, the
kernel undoes its operations; the reader removes the semaphores when it is through.

`p` ignores the error as well.  Its `semop` fails when a signal interrupts it while it
waits, be it that the process was stopped and continued, and when the adjustment of the
process has come to its limit.  The process then goes on as if it had the turn
(`Event.pFails`).

**Results.**

* `handoff_in_order`: as long as nobody exits and no `p` fails, the reader prints 0, 1, 2, …
  in order, and the writer is one value ahead at most.  `interruptedRun_repeats`: a reader
  that is interrupted prints a value twice.  `exists_outOfRange`: with more than `SEMAEM`
  turns the writer's `p` fails without any signal.
* `notStranded_iff_exitsLast`: the exit of the writer takes back its posts to the reader.
  If no `p` fails, the reader is left waiting for a value that has been stored exactly if
  the writer exits before the reader has taken the last one.
-/

namespace SysProg
namespace ShmHandoff

open Run Semaphore

section Program

inductive Proc where
  | writer
  | reader
deriving DecidableEq, Repr

/-- `p` takes effect, or its `semop` waits or fails. -/
def p (sem : UndoSem Proc) (who : Proc) : Option (UndoSem Proc) :=
  sem.semop who (-1)

/-- `v` takes effect, or its `semop` fails. -/
def v (sem : UndoSem Proc) (who : Proc) : UndoSem Proc :=
  (sem.semop who 1).getD sem

inductive WriterPc where
  /-- the head of the loop and the call of `p` -/
  | p
  | store
  | v
  | exited
deriving DecidableEq, Repr

inductive ReaderPc where
  /-- the head of the loop and the call of `p` -/
  | p
  | load
  | v
  | exited
deriving DecidableEq, Repr

/--
Both processes with their loop counters, and the shared memory.  `stored` and `printed`
are the values stored and printed so far.
-/
structure State where
  readSem : UndoSem Proc
  writeSem : UndoSem Proc
  shm : Int
  writer : WriterPc
  i : Nat
  reader : ReaderPc
  j : Nat
  stored : List Int
  printed : List Int
  removed : Bool

/-- Both semaphores are initialised, and nothing else has happened. -/
def State.start (shm : Int) : State where
  readSem := ⟨0, fun _ => 0⟩
  writeSem := ⟨1, fun _ => 0⟩
  shm := shm
  writer := .p
  i := 0
  reader := .p
  j := 0
  stored := []
  printed := []
  removed := false

inductive Label where
  | writerP
  | store
  | writerV
  | writerExit
  | readerP
  | load
  | readerV
  | readerExit
deriving DecidableEq, Repr

/-- A step of one of the processes, with loops of `n` turns, in which no `p` fails. -/
def step (n : Nat) (s : State) : Label → Option State
  | .writerP =>
      if s.writer = .p ∧ s.i < n ∧ s.removed = false then
        (p s.writeSem .writer).map (fun sem => { s with writeSem := sem, writer := .store })
      else none
  | .store =>
      if s.writer = .store then
        some { s with shm := s.i, stored := s.stored ++ [(s.i : Int)], writer := .v }
      else none
  | .writerV =>
      if s.writer = .v then
        some { s with readSem := v s.readSem .writer, i := s.i + 1, writer := .p }
      else none
  | .writerExit =>
      if s.writer = .p ∧ n ≤ s.i then
        if s.removed then some { s with writer := .exited }
        else
          some
            { s with
              readSem := s.readSem.exit .writer
              writeSem := s.writeSem.exit .writer
              writer := .exited }
      else none
  | .readerP =>
      if s.reader = .p ∧ s.j < n then
        (p s.readSem .reader).map (fun sem => { s with readSem := sem, reader := .load })
      else none
  | .load =>
      if s.reader = .load then
        some { s with printed := s.printed ++ [s.shm], reader := .v }
      else none
  | .readerV =>
      if s.reader = .v then
        some { s with writeSem := v s.writeSem .reader, j := s.j + 1, reader := .p }
      else none
  | .readerExit =>
      if s.reader = .p ∧ n ≤ s.j then
        some { s with reader := .exited, removed := true }
      else none

inductive Event where
  | call (l : Label)
  /-- the `semop` of `p` fails -/
  | pFails (who : Proc)
deriving DecidableEq, Repr

/--
A step of one of the processes.  A `p` that could take effect does not fail; on a set that
has been removed every `p` fails.
-/
def eventStep (n : Nat) (s : State) : Event → Option State
  | .call l => step n s l
  | .pFails .writer =>
      if s.writer = .p ∧ s.i < n ∧ (s.removed = true ∨ (p s.writeSem .writer).isNone) then
        some { s with writer := .store }
      else none
  | .pFails .reader =>
      if s.reader = .p ∧ s.j < n ∧ (p s.readSem .reader).isNone then
        some { s with reader := .load }
      else none

end Program

section Turns

variable {n : Nat} {s s' : State} {l : Label}

/-- The first `k` values. -/
def upTo (k : Nat) : List Int :=
  (List.range k).map (fun x => (x : Int))

theorem upTo_succ
    (k : Nat) :
    upTo (k + 1) = upTo k ++ [(k : Int)] := by
  simp [upTo, List.range_succ]

@[simp] theorem length_upTo
    (k : Nat) :
    (upTo k).length = k := by
  simp [upTo]

/-- A semaphore with its value and the adjustments of the two processes. -/
def sem (val : Nat) (writer reader : Int) : UndoSem Proc where
  val := val
  adj
    | .writer => writer
    | .reader => reader

theorem update_adj_writer
    (val val' : Nat) (a a' b : Int) :
    (⟨val', Function.update (sem val a b).adj .writer a'⟩ : UndoSem Proc) = sem val' a' b := by
  simp only [sem, UndoSem.mk.injEq, true_and]
  funext who
  cases who <;> rfl

theorem update_adj_reader
    (val val' : Nat) (a b b' : Int) :
    (⟨val', Function.update (sem val a b).adj .reader b'⟩ : UndoSem Proc) = sem val' a b' := by
  simp only [sem, UndoSem.mk.injEq, true_and]
  funext who
  cases who <;> rfl

@[simp] theorem p_sem_zero
    (a b : Int) (who : Proc) :
    p (sem 0 a b) who = none :=
  UndoSem.semop_of_val_zero rfl who

/-- A process takes its turn as long as its adjustment has room. -/
theorem p_sem_writer
    {k : Nat} {b : Int} :
    p (sem 1 k b) .writer = if k < SEMAEM then some (sem 0 ((k + 1 : Nat) : Int) b) else none := by
  have hadj : (sem 1 k b).adj .writer = k := rfl
  have hval : semop (sem 1 k b).val (-1) = some 0 := rfl
  simp only [p, UndoSem.semop, hadj, hval, Option.map_some, update_adj_writer]
  split_ifs with hroom hlimit hlimit
  · simp
  · omega
  · omega
  · rfl

theorem p_sem_reader
    {k : Nat} {a : Int} :
    p (sem 1 a k) .reader = if k < SEMAEM then some (sem 0 a ((k + 1 : Nat) : Int)) else none := by
  have hadj : (sem 1 a k).adj .reader = k := rfl
  have hval : semop (sem 1 a k).val (-1) = some 0 := rfl
  simp only [p, UndoSem.semop, hadj, hval, Option.map_some, update_adj_reader]
  split_ifs with hroom hlimit hlimit
  · simp
  · omega
  · omega
  · rfl

theorem v_sem_writer
    {k : Nat} {b : Int}
    (hk : k ≤ SEMAEM) :
    v (sem 0 (-(k : Int)) b) .writer = sem 1 (-((k + 1 : Nat) : Int)) b := by
  have hadj : (sem 0 (-(k : Int)) b).adj .writer = -(k : Int) := rfl
  have hval : semop (sem 0 (-(k : Int)) b).val 1 = some 1 := rfl
  have hnew : -(k : Int) - 1 = -((k + 1 : Nat) : Int) := by omega
  simp only [v, UndoSem.semop, hadj, hval, Option.map_some, update_adj_writer, hnew]
  rw [if_pos (by omega), Option.getD_some]

theorem v_sem_reader
    {k : Nat} {a : Int}
    (hk : k ≤ SEMAEM) :
    v (sem 0 a (-(k : Int))) .reader = sem 1 a (-((k + 1 : Nat) : Int)) := by
  have hadj : (sem 0 a (-(k : Int))).adj .reader = -(k : Int) := rfl
  have hval : semop (sem 0 a (-(k : Int))).val 1 = some 1 := rfl
  have hnew : -(k : Int) - 1 = -((k + 1 : Nat) : Int) := by omega
  simp only [v, UndoSem.semop, hadj, hval, Option.map_some, update_adj_reader, hnew]
  rw [if_pos (by omega), Option.getD_some]

/--
Before anybody exits, and as long as no `p` fails, the turn is in one of six places; `k`
values have gone all the way.  The calls of both processes are recorded in the adjustments.
-/
inductive Turn (n : Nat) : State → Prop
  | free {k : Nat} {shm : Int}
      (hk : k ≤ n)
      (hlimit : k ≤ SEMAEM) :
      Turn n
        { readSem := sem 0 (-(k : Int)) k, writeSem := sem 1 k (-(k : Int)), shm := shm
          writer := .p, i := k, reader := .p, j := k
          stored := upTo k, printed := upTo k, removed := false }
  | storing {k : Nat} {shm : Int}
      (hk : k < n)
      (hlimit : k < SEMAEM) :
      Turn n
        { readSem := sem 0 (-(k : Int)) k
          writeSem := sem 0 ((k + 1 : Nat) : Int) (-(k : Int)), shm := shm
          writer := .store, i := k, reader := .p, j := k
          stored := upTo k, printed := upTo k, removed := false }
  | stored {k : Nat}
      (hk : k < n)
      (hlimit : k < SEMAEM) :
      Turn n
        { readSem := sem 0 (-(k : Int)) k
          writeSem := sem 0 ((k + 1 : Nat) : Int) (-(k : Int)), shm := k
          writer := .v, i := k, reader := .p, j := k
          stored := upTo (k + 1), printed := upTo k, removed := false }
  | passed {k : Nat}
      (hk : k < n)
      (hlimit : k < SEMAEM) :
      Turn n
        { readSem := sem 1 (-((k + 1 : Nat) : Int)) k
          writeSem := sem 0 ((k + 1 : Nat) : Int) (-(k : Int)), shm := k
          writer := .p, i := k + 1, reader := .p, j := k
          stored := upTo (k + 1), printed := upTo k, removed := false }
  | loading {k : Nat}
      (hk : k < n)
      (hlimit : k < SEMAEM) :
      Turn n
        { readSem := sem 0 (-((k + 1 : Nat) : Int)) ((k + 1 : Nat) : Int)
          writeSem := sem 0 ((k + 1 : Nat) : Int) (-(k : Int)), shm := k
          writer := .p, i := k + 1, reader := .load, j := k
          stored := upTo (k + 1), printed := upTo k, removed := false }
  | printed {k : Nat}
      (hk : k < n)
      (hlimit : k < SEMAEM) :
      Turn n
        { readSem := sem 0 (-((k + 1 : Nat) : Int)) ((k + 1 : Nat) : Int)
          writeSem := sem 0 ((k + 1 : Nat) : Int) (-(k : Int)), shm := k
          writer := .p, i := k + 1, reader := .v, j := k
          stored := upTo (k + 1), printed := upTo (k + 1), removed := false }

theorem sem_start
    (val : Nat) :
    (⟨val, fun _ => 0⟩ : UndoSem Proc) = sem val 0 0 := by
  simp only [sem, UndoSem.mk.injEq, true_and]
  funext who
  cases who <;> rfl

theorem turn_start
    (shm : Int) :
    Turn n (State.start shm) := by
  unfold State.start
  rw [sem_start, sem_start]
  exact .free (k := 0) (Nat.zero_le n) (Nat.zero_le _)

/-- The step of a process that does not exit. -/
def Stays (l : Label) : Prop :=
  l ≠ .writerExit ∧ l ≠ .readerExit

instance (l : Label) : Decidable (Stays l) :=
  inferInstanceAs (Decidable (_ ∧ _))

/-- In every place of the turn one process can move, and it moves the turn on. -/
theorem Turn.step
    (h : Turn n s)
    (hstays : Stays l)
    (hstep : step n s l = some s') :
    Turn n s' := by
  cases h with
  | @free k _ hk hlimit =>
      cases l with
      | writerP =>
          obtain ⟨hguard, hstep⟩ := Option.ite_none_right_eq_some.mp hstep
          obtain ⟨sem, htake, rfl⟩ := Option.map_eq_some_iff.mp hstep
          rw [p_sem_writer] at htake
          obtain ⟨hroom, htake⟩ := Option.ite_none_right_eq_some.mp htake
          cases htake
          exact .storing hguard.2.1 hroom
      | _ =>
          simp [ShmHandoff.step, Stays] at hstep hstays
  | storing hk hlimit =>
      cases l with
      | store =>
          cases hstep
          rw [← upTo_succ]
          exact .stored hk hlimit
      | _ =>
          simp [ShmHandoff.step, Stays] at hstep hstays
  | stored hk hlimit =>
      cases l with
      | writerV =>
          cases hstep
          rw [v_sem_writer (Nat.le_of_lt hlimit)]
          exact .passed hk hlimit
      | _ =>
          simp [ShmHandoff.step, Stays] at hstep hstays
  | passed hk hlimit =>
      cases l with
      | readerP =>
          obtain ⟨_, hstep⟩ := Option.ite_none_right_eq_some.mp hstep
          rw [p_sem_reader, if_pos hlimit] at hstep
          cases hstep
          exact .loading hk hlimit
      | _ =>
          simp [ShmHandoff.step, Stays] at hstep hstays
  | loading hk hlimit =>
      cases l with
      | load =>
          cases hstep
          rw [← upTo_succ]
          exact .printed hk hlimit
      | _ =>
          simp [ShmHandoff.step, Stays] at hstep hstays
  | printed hk hlimit =>
      cases l with
      | readerV =>
          cases hstep
          rw [v_sem_reader (Nat.le_of_lt hlimit)]
          exact .free hk hlimit
      | _ =>
          simp [ShmHandoff.step, Stays] at hstep hstays

/--
The values printed and those stored are beginnings of 0, 1, 2, …, and the writer is one value
ahead at most.
-/
def InOrder (s : State) : Prop :=
  s.printed = upTo s.printed.length ∧
    s.stored = upTo s.stored.length ∧
    s.stored.length ≤ s.printed.length + 1

theorem Turn.in_order
    (h : Turn n s) :
    InOrder s := by
  cases h <;> simp [InOrder]

end Turns

section Order

variable {n : Nat} {s : State} {es : List Event}

/-- No process exits. -/
def Event.Stays (e : Event) : Prop :=
  e ≠ .call .writerExit ∧ e ≠ .call .readerExit

instance (e : Event) : Decidable e.Stays :=
  inferInstanceAs (Decidable (_ ∧ _))

/-- No `p` fails. -/
def Event.Completes (e : Event) : Prop :=
  e ≠ .pFails .writer ∧ e ≠ .pFails .reader

instance (e : Event) : Decidable e.Completes :=
  inferInstanceAs (Decidable (_ ∧ _))

theorem Turn.eventStep
    {e : Event} {s' : State}
    (h : Turn n s)
    (hevent : e.Stays ∧ e.Completes)
    (hstep : eventStep n s e = some s') :
    Turn n s' := by
  cases e with
  | call l =>
      refine h.step ⟨?_, ?_⟩ hstep
      · rintro rfl
        exact hevent.1.1 rfl
      · rintro rfl
        exact hevent.1.2 rfl
  | pFails who =>
      cases who with
      | writer => exact absurd rfl hevent.2.1
      | reader => exact absurd rfl hevent.2.2

/--
Before anybody exits and as long as no `p` fails, the reader has printed 0, 1, 2, … without
a gap, and the writer has stored one value more at most.
-/
theorem handoff_in_order
    {shm : Int}
    (hstays : ∀ e ∈ es, e.Stays)
    (hcompletes : ∀ e ∈ es, e.Completes)
    (hrun : run (eventStep n) (State.start shm) es = some s) :
    InOrder s := by
  have hevents : ∀ e ∈ es, e.Stays ∧ e.Completes := fun e he => ⟨hstays e he, hcompletes e he⟩
  have hturn : Turn n s :=
    run_invariant_along (P := Turn n) (fun _ _ _ h he hstep => h.eventStep he hstep)
      (turn_start shm) (along_of_forall_mem hevents _) hrun
  exact hturn.in_order

/-- One value goes over, and the next one is stored. -/
def twoValues : List Event :=
  [.call .writerP, .call .store, .call .writerV, .call .readerP, .call .load, .call .readerV,
    .call .writerP, .call .store]

theorem handoff_twoValues :
    ∃ s, run (eventStep 10) (State.start 7) twoValues = some s ∧
      s.printed = [0] ∧ s.stored = [0, 1] ∧ InOrder s :=
  ⟨_, rfl, rfl, rfl, @handoff_in_order 10 _ twoValues 7 (by decide) (by decide) rfl⟩

/-- One value goes over; the reader waits for the next one, is stopped and goes on. -/
def interruptedRun : List Event :=
  [.call .writerP, .call .store, .call .writerV, .call .readerP, .call .load, .call .readerV,
    .pFails .reader, .call .load]

/-- The reader prints the value again. -/
theorem interruptedRun_repeats :
    (∀ e ∈ interruptedRun, e.Stays) ∧
    ∃ s, run (eventStep 10) (State.start 7) interruptedRun = some s ∧
      s.printed = [0, 0] ∧ ¬ InOrder s := by
  refine ⟨by decide, _, rfl, rfl, ?_⟩
  intro h
  exact absurd h.1 (by decide)

end Order

section Limit

variable {n : Nat}

/-- A value goes over. -/
def oneTurn : List Label :=
  [.writerP, .store, .writerV, .readerP, .load, .readerV]

theorem stays_oneTurn :
    ∀ l ∈ oneTurn, Stays l := by
  decide

/-- As long as the adjustments have room, all values so far can go over. -/
theorem exists_free
    (shm : Int)
    {k : Nat}
    (hk : k ≤ n)
    (hlimit : k ≤ SEMAEM) :
    ∃ shm', run (step n) (State.start shm) (List.replicate k oneTurn).flatten =
      some
        { readSem := sem 0 (-(k : Int)) k, writeSem := sem 1 k (-(k : Int)), shm := shm'
          writer := .p, i := k, reader := .p, j := k
          stored := upTo k, printed := upTo k, removed := false } := by
  induction k with
  | zero =>
      refine ⟨shm, ?_⟩
      simp only [State.start, sem_start]
      rfl
  | succ k ih =>
      obtain ⟨shm', hrun⟩ := ih (by omega) (by omega)
      refine ⟨k, ?_⟩
      have hroom : k < SEMAEM := hlimit
      have hturn : k < n := hk
      rw [List.replicate_succ', List.flatten_append, run_append, hrun]
      simp [oneTurn, step, hturn, p_sem_writer, p_sem_reader, v_sem_writer (Nat.le_of_lt hroom),
        v_sem_reader (Nat.le_of_lt hroom), hroom, upTo_succ]

/--
With more than `SEMAEM` turns the writer comes to a `p` that fails without a signal: it has the
turn, and its adjustment has come to the limit.
-/
theorem exists_outOfRange
    (shm : Int)
    (hn : SEMAEM < n) :
    ∃ ls s, (∀ l ∈ ls, Stays l) ∧ run (step n) (State.start shm) ls = some s ∧
      s.writeSem.val = 1 ∧
      eventStep n s (.call .writerP) = none ∧
      eventStep n s (.pFails .writer) = some { s with writer := .store } := by
  obtain ⟨shm', hrun⟩ := exists_free shm (Nat.le_of_lt hn) (Nat.le_refl _)
  have hfails : p (sem 1 (SEMAEM : Nat) (-((SEMAEM : Nat) : Int))) .writer = none := by
    rw [p_sem_writer, if_neg (Nat.lt_irrefl _)]
  refine ⟨_, _, ?_, hrun, rfl, ?_, ?_⟩
  · intro l hl
    obtain ⟨ls, hls, hl⟩ := List.mem_flatten.mp hl
    rw [(List.mem_replicate.mp hls).2] at hl
    exact stays_oneTurn l hl
  · simp [eventStep, step, hfails]
  · simp [eventStep, hfails, hn]

end Limit

section Completion

variable {n : Nat} {s s' : State} {l : Label} {es : List Label}

/-- The writer has stored everything and is gone, and the reader waits for more. -/
structure Stranded (n : Nat) (s : State) : Prop where
  exited : s.writer = .exited
  allStored : s.stored = upTo n
  waiting : s.reader = .p
  inLoop : s.j < n
  blocked : p s.readSem .reader = none
  unprinted : s.printed.length < n

/-- When the writer exits, the reader has taken the last value. -/
def ExitsLast (s : State) (l : Label) : Prop :=
  l = .writerExit → s.readSem.val = 0

instance (s : State) (l : Label) : Decidable (ExitsLast s l) :=
  inferInstanceAs (Decidable (_ → _))

/-- The writer is gone, and the reader is past its last `p`. -/
structure Served (n : Nat) (s : State) : Prop where
  exited : s.writer = .exited
  through : s.reader = .p → n ≤ s.j
  last : s.reader = .load ∨ s.reader = .v → n ≤ s.j + 1

/-- The reader is gone, and the writer is at the end of its loop. -/
structure ReaderGone (n : Nat) (s : State) : Prop where
  exited : s.reader = .exited
  waiting : s.writer = .p
  through : n ≤ s.i
  taken : s.readSem.val = 0

/-- The states in which no value is lost. -/
inductive Sound (n : Nat) (s : State) : Prop
  | turn (h : Turn n s)
  | served (h : Served n s)
  | readerGone (h : ReaderGone n s)

theorem Sound.not_stranded
    (h : Sound n s) :
    ¬ Stranded n s := by
  intro hstranded
  cases h with
  | turn h =>
      cases h <;> cases hstranded.exited
  | served h =>
      have := h.through hstranded.waiting
      have := hstranded.inLoop
      omega
  | readerGone h =>
      have hpc := hstranded.waiting
      rw [h.exited] at hpc
      cases hpc

/-- The exit of the writer takes its posts back, one of them too many. -/
theorem undo_posts
    (k : Nat) (b : Int) :
    ((sem 1 (-((k + 1 : Nat) : Int)) b).exit .writer).val = 0 := by
  simp only [UndoSem.exit, sem]
  exact undo_eq_zero (by omega)

theorem step_writerExit
    (hstep : step n s .writerExit = some s')
    (hkept : s.removed = false) :
    (s.writer = .p ∧ n ≤ s.i) ∧
      s' =
        { s with
          readSem := s.readSem.exit .writer
          writeSem := s.writeSem.exit .writer
          writer := .exited } := by
  simp only [step] at hstep
  split_ifs at hstep with hguard hremoved
  · rw [hkept] at hremoved
    cases hremoved
  · cases hstep
    exact ⟨hguard, rfl⟩

/-- The exit of the writer, in time or too early. -/
theorem writerExit_of_turn
    (h : Turn n s)
    (hstep : step n s .writerExit = some s') :
    (s.readSem.val = 0 ∧ Served n s') ∨ (s.readSem.val ≠ 0 ∧ Stranded n s') := by
  have hkept : s.removed = false := by cases h <;> rfl
  obtain ⟨⟨hpc, hi⟩, rfl⟩ := step_writerExit hstep hkept
  cases h with
  | free hk hlimit =>
      exact Or.inl ⟨rfl, rfl, fun _ => hi, by simp⟩
  | storing hk hlimit =>
      cases hpc
  | stored hk hlimit =>
      cases hpc
  | @passed k hk hlimit =>
      obtain rfl : n = k + 1 := Nat.le_antisymm hi hk
      exact Or.inr ⟨by simp [sem], rfl, rfl, rfl, hk,
        UndoSem.semop_of_val_zero (undo_posts k k) .reader, by simp⟩
  | loading hk hlimit =>
      exact Or.inl ⟨rfl, rfl, by simp, fun _ => hi⟩
  | printed hk hlimit =>
      exact Or.inl ⟨rfl, rfl, by simp, fun _ => hi⟩

theorem readerExit_of_turn
    (h : Turn n s)
    (hstep : step n s .readerExit = some s') :
    ReaderGone n s' := by
  simp only [step] at hstep
  split_ifs at hstep with hguard
  cases hstep
  cases h with
  | free hk hlimit =>
      exact ⟨rfl, rfl, hguard.2, rfl⟩
  | loading hk hlimit =>
      cases hguard.1
  | printed hk hlimit =>
      cases hguard.1
  | _ hk =>
      exact absurd hguard.2 (Nat.not_le.mpr hk)

/-- The reader finishes its last turn without the writer. -/
theorem served_of_served
    (h : Served n s)
    (hstep : step n s l = some s') :
    Served n s' := by
  have hexited := h.exited
  cases l with
  | readerP =>
      simp only [step] at hstep
      split_ifs at hstep with hguard
      have := h.through hguard.1
      omega
  | load =>
      simp only [step] at hstep
      split_ifs at hstep with hpc
      cases hstep
      exact ⟨hexited, by simp, fun _ => h.last (Or.inl hpc)⟩
  | readerV =>
      simp only [step] at hstep
      split_ifs at hstep with hpc
      cases hstep
      exact ⟨hexited, fun _ => h.last (Or.inr hpc), by simp⟩
  | readerExit =>
      simp only [step] at hstep
      split_ifs at hstep
      cases hstep
      exact ⟨hexited, by simp, by simp⟩
  | _ =>
      simp [step, hexited] at hstep

theorem served_of_readerGone
    (h : ReaderGone n s)
    (hstep : step n s l = some s') :
    Served n s' := by
  have hexited := h.exited
  have hwriter := h.waiting
  have hi := Nat.not_lt.mpr h.through
  cases l with
  | writerExit =>
      simp only [step] at hstep
      split_ifs at hstep <;> cases hstep <;> exact ⟨rfl, by simp [hexited], by simp [hexited]⟩
  | _ =>
      simp [step, hexited, hwriter, hi] at hstep

/-- A reader that is left behind stays where it is. -/
theorem Stranded.stuck
    (h : Stranded n s)
    (l : Label) :
    step n s l = none := by
  have hexited := h.exited
  have hreader := h.waiting
  have hj := Nat.not_le.mpr h.inLoop
  cases l <;> simp [step, hexited, hreader, hj, h.blocked]

theorem Sound.step
    (h : Sound n s)
    (hlast : ExitsLast s l)
    (hstep : step n s l = some s') :
    Sound n s' := by
  cases h with
  | turn h =>
      cases l with
      | writerExit =>
          rcases writerExit_of_turn h hstep with ⟨_, hserved⟩ | ⟨hnot, _⟩
          · exact .served hserved
          · exact absurd (hlast rfl) hnot
      | readerExit =>
          exact .readerGone (readerExit_of_turn h hstep)
      | _ =>
          refine .turn (h.step ?_ hstep)
          exact ⟨nofun, nofun⟩
  | served h =>
      exact .served (served_of_served h hstep)
  | readerGone h =>
      exact .served (served_of_readerGone h hstep)

theorem Sound.stranded
    (h : Sound n s)
    (hlast : ¬ ExitsLast s l)
    (hstep : ShmHandoff.step n s l = some s') :
    Stranded n s' := by
  cases l with
  | writerExit =>
      cases h with
      | turn h =>
          rcases writerExit_of_turn h hstep with ⟨hzero, _⟩ | ⟨_, hstranded⟩
          · exact absurd (fun _ => hzero) hlast
          · exact hstranded
      | served h =>
          simp [ShmHandoff.step, h.exited] at hstep
      | readerGone h =>
          exact absurd (fun _ => h.taken) hlast
  | _ =>
      exact absurd nofun hlast

/--
No run leaves the reader waiting for a value that has been stored if and only if the
reader has taken the last value before the writer exits.
-/
theorem notStranded_iff_exitsLast
    {shm : Int}
    (hrun : run (step n) (State.start shm) es = some s) :
    ¬ Stranded n s ↔ Along (step n) ExitsLast (State.start shm) es := by
  have hstart : Sound n (State.start shm) := .turn (turn_start shm)
  have hstuck : ∀ a b c, Stranded n a → step n a b = some c → Stranded n c := by
    intro a b c ha hstep
    rw [ha.stuck b] at hstep
    cases hstep
  rcases good_or_bad (fun _ _ _ h hlast hstep => h.step hlast hstep)
      (fun _ _ _ h hlast hstep => h.stranded hlast hstep) hstuck hstart hrun with
    ⟨halong, hsound⟩ | ⟨hlast, hstranded⟩
  · exact iff_of_true hsound.not_stranded halong
  · exact iff_of_false (not_not_intro hstranded) hlast

/-- With ten values, the writer exits while the reader prints the last one. -/
def patientRun : List Label :=
  (List.replicate 9 oneTurn).flatten ++
    [.writerP, .store, .writerV, .readerP, .writerExit, .load, .readerV, .readerExit]

theorem notStranded_patientRun :
    ∃ s, run (step 10) (State.start 7) patientRun = some s ∧
      s.printed = upTo 10 ∧
      ¬ Stranded 10 s :=
  ⟨_, rfl, rfl, (@notStranded_iff_exitsLast 10 _ patientRun 7 rfl).mpr (by decide)⟩

/-- The writer exits before the reader has taken the last value. -/
def hastyRun : List Label :=
  (List.replicate 9 oneTurn).flatten ++ [.writerP, .store, .writerV, .writerExit]

theorem hastyRun_strands :
    ∃ s, run (step 10) (State.start 7) hastyRun = some s ∧
      Stranded 10 s :=
  ⟨_, rfl, rfl, rfl, rfl, by decide, rfl, by decide⟩

end Completion

end ShmHandoff
end SysProg
