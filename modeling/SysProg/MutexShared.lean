import SysProg.Lib.PosixMutex
import SysProg.Lib.Run
import Mathlib.Data.List.Chain
import Mathlib.Tactic

/-!
# The shared segment of ALSP/mutex_pshared.c

Any number of processes map one segment with a mutex and the process and index of the thread
that owned it last.  Each of their threads locks the mutex once, prints who owned it before,
sleeps, and writes its own process and index into the segment, field by field.

**Steps.**  The segment exists and one process has initialised it.  Each read and each write of
a field of the segment is a step of a thread, between the calls on the mutex, whose results the
code ignores.  A process may be killed at any time, and all its threads with it: the mutex is
not robust, so that a mutex that one of them owns stays locked.

**Result.**  `lines_linked`: in the order in which the lines are printed, each of them names the
thread of the line before it, the first one `[0,0]`, and no thread prints twice.
-/

namespace SysProg
namespace MutexShared

open PosixMutex Run

section Program

def NUM_THREADS : Nat := 6

/-- A thread, by the process and by its index there. -/
abbrev Thread := Int × Nat

inductive Pc where
  /-- `sleep(t_arg->idx)` -/
  | sleepIdx
  | lock
  /-- the arguments of `pr_out` are read one after the other -/
  | readPid
  | readIdx (pid : Int)
  | sleep
  | writePid
  | writeIdx
  | unlock
  | exited
deriving DecidableEq, Repr

/-- The segment, the places of the threads, the processes that live, and the lines printed. -/
structure State where
  prevPid : Int
  prevIdx : Nat
  mutex : Mutex Thread
  pc : Thread → Pc
  alive : Int → Bool
  lines : List (Thread × Thread)

/-- The segment as `memset` and `pthread_mutex_init` leave it. -/
def State.start : State where
  prevPid := 0
  prevIdx := 0
  mutex := { kind := .errorcheck, robust := false, own := .free }
  pc := fun _ => .sleepIdx
  alive := fun _ => true
  lines := []

def State.goto (s : State) (k : Thread) (p : Pc) : State :=
  { s with pc := Function.update s.pc k p }

/-- The next call or access of a thread, unless it waits or has ended. -/
def threadStep (s : State) (k : Thread) : Option State :=
  match s.pc k with
  | .sleepIdx => some (s.goto k .lock)
  | .lock => (s.mutex.lock k).map (fun (_, mutex) => { s with mutex := mutex }.goto k .readPid)
  | .readPid => some (s.goto k (.readIdx s.prevPid))
  | .readIdx pid => some ({ s with lines := s.lines ++ [((pid, s.prevIdx), k)] }.goto k .sleep)
  | .sleep => some (s.goto k .writePid)
  | .writePid => some ({ s with prevPid := k.1 }.goto k .writeIdx)
  | .writeIdx => some ({ s with prevIdx := k.2 }.goto k .unlock)
  | .unlock => (s.mutex.unlock k).map (fun (_, mutex) => { s with mutex := mutex }.goto k .exited)
  | .exited => none

inductive Label where
  | thread (k : Thread)
  | kill (pid : Int)
deriving DecidableEq, Repr

def step (s : State) : Label → Option State
  | .thread k => if k.2 < NUM_THREADS ∧ s.alive k.1 = true then threadStep s k else none
  | .kill pid => some { s with alive := Function.update s.alive pid false }

end Program

section Segment

variable {s s' : State} {k : Thread} {l : Label}

/-- What the place of a thread says about the mutex. -/
def Pc.view : Pc → Option (Nat × Bool)
  | .sleepIdx => none
  | .lock => none
  | .exited => none
  | _ => some (1, true)

/-- The thread has printed its line. -/
def Pc.printed : Pc → Bool
  | .sleep => true
  | .writePid => true
  | .writeIdx => true
  | .unlock => true
  | .exited => true
  | _ => false

/-- Stands before the first line. -/
def noLine : Thread × Thread := ((0, 0), (0, 0))

/-- The thread of the last line. -/
def State.last (s : State) : Thread :=
  (s.lines.getLast?.getD noLine).2

/-- What the owner of the mutex knows of the segment, by its place. -/
def Fits (prev last k : Thread) : Pc → Prop
  | .readPid => prev = last
  | .readIdx pid => pid = last.1 ∧ prev = last
  | .sleep => last = k
  | .writePid => last = k
  | .writeIdx => last = k ∧ prev.1 = k.1
  | .unlock => last = k ∧ prev = k
  | _ => True

/-- The segment, with the thread of the last line. -/
def State.data (s : State) : Thread × Thread :=
  ((s.prevPid, s.prevIdx), s.last)

structure Invariant (s : State) : Prop where
  protects :
    Protects (fun _ => Pc.view) (fun d => d.1 = d.2) (fun k p d => Fits d.1 d.2 k p)
      s.mutex.own s.pc s.data
  linked : List.IsChain (fun before line => line.1 = before.2) (noLine :: s.lines)
  printed : ∀ k, k ∈ s.lines.map Prod.snd ↔ (s.pc k).printed = true
  once : (s.lines.map Prod.snd).Nodup

theorem invariant_start :
    Invariant State.start := by
  refine ⟨protects_start (fun _ => rfl) rfl, List.isChain_singleton _, ?_, List.nodup_nil⟩
  intro k
  simp [State.start, Pc.printed]

/-- A step that prints nothing. -/
theorem Invariant.silent
    {q : Pc}
    (h : Invariant s)
    (hlines : s'.lines = s.lines)
    (hpc : s'.pc = Function.update s.pc k q)
    (hprinted : q.printed = (s.pc k).printed)
    (hprotects :
      Protects (fun _ => Pc.view) (fun d => d.1 = d.2) (fun k p d => Fits d.1 d.2 k p)
        s'.mutex.own s'.pc s'.data) :
    Invariant s' := by
  refine ⟨hprotects, ?_, ?_, ?_⟩
  · rw [hlines]
    exact h.linked
  · rw [hlines, hpc]
    refine (Function.forall_update_iff s.pc
      (fun j p => j ∈ s.lines.map Prod.snd ↔ p.printed = true)).mpr ⟨?_, fun j _ => h.printed j⟩
    rw [hprinted]
    exact h.printed k
  · rw [hlines]
    exact h.once

/-- `pr_out`: the fields that were read are those of the last line. -/
theorem Invariant.prOut
    {pid : Int}
    (h : Invariant s)
    (hpc : s.pc k = .readIdx pid) :
    Invariant ({ s with lines := s.lines ++ [((pid, s.prevIdx), k)] }.goto k .sleep) := by
  obtain ⟨hpid, hprev⟩ : pid = s.last.1 ∧ (s.prevPid, s.prevIdx) = s.last := by
    have hfits := h.protects.held k (by rw [hpc]; simp [Pc.view])
    rwa [hpc] at hfits
  have hread : (pid, s.prevIdx) = s.last := by
    rw [hpid, ← hprev]
  refine ⟨?_, ?_, ?_, ?_⟩
  · refine h.protects.access (by rw [hpc]; rfl) rfl ?_
    intro _
    simp [Fits, State.data, State.last, State.goto]
  · rw [State.goto, ← List.cons_append]
    refine h.linked.append (List.isChain_singleton _) ?_
    intro before hbefore line hline
    rw [List.getLast?_cons, Option.mem_some_iff] at hbefore
    rw [List.head?_singleton, Option.mem_some_iff] at hline
    rw [← hbefore, ← hline]
    exact hread
  · refine (Function.forall_update_iff s.pc
      (fun j p => j ∈ (s.lines ++ [((pid, s.prevIdx), k)]).map Prod.snd ↔ p.printed = true)).mpr
      ⟨by simp [Pc.printed], ?_⟩
    intro j hj
    rw [← h.printed j, List.map_append, List.mem_append]
    exact or_iff_left (by simpa using hj)
  · have hnew : k ∉ s.lines.map Prod.snd := by
      rw [h.printed k, hpc]
      simp [Pc.printed]
    rw [State.goto, List.map_append]
    exact List.nodup_append_comm.mp (List.nodup_cons.mpr ⟨hnew, h.once⟩)

theorem Invariant.threadStep
    (h : Invariant s)
    (hstep : threadStep s k = some s') :
    Invariant s' := by
  unfold MutexShared.threadStep at hstep
  have hprotects := h.protects
  cases hpc : s.pc k with
  | sleepIdx =>
      rw [hpc] at hstep
      cases hstep
      exact h.silent rfl rfl (by rw [hpc]; rfl) (hprotects.outside (by rw [hpc]; rfl) rfl)
  | lock =>
      simp only [hpc, Option.map_eq_some_iff] at hstep
      obtain ⟨⟨ret, mutex⟩, hlock, rfl⟩ := hstep
      refine h.silent rfl rfl (by rw [hpc]; rfl) ?_
      exact (hprotects.lock (by rw [hpc]; rfl) rfl hlock id).2
  | readPid =>
      rw [hpc] at hstep
      cases hstep
      refine h.silent rfl rfl (by rw [hpc]; rfl) (hprotects.access (by rw [hpc]; rfl) rfl ?_)
      rw [hpc]
      exact fun hfits => ⟨congrArg Prod.fst hfits, hfits⟩
  | readIdx pid =>
      rw [hpc] at hstep
      cases hstep
      exact h.prOut hpc
  | sleep =>
      rw [hpc] at hstep
      cases hstep
      refine h.silent rfl rfl (by rw [hpc]; rfl) (hprotects.access (by rw [hpc]; rfl) rfl ?_)
      rw [hpc]
      exact id
  | writePid =>
      rw [hpc] at hstep
      cases hstep
      refine h.silent rfl rfl (by rw [hpc]; rfl) (hprotects.access (by rw [hpc]; rfl) rfl ?_)
      rw [hpc]
      exact fun hfits => ⟨hfits, rfl⟩
  | writeIdx =>
      rw [hpc] at hstep
      cases hstep
      refine h.silent rfl rfl (by rw [hpc]; rfl) (hprotects.access (by rw [hpc]; rfl) rfl ?_)
      rw [hpc]
      exact fun hfits => ⟨hfits.1, Prod.ext hfits.2 rfl⟩
  | unlock =>
      simp only [hpc, Option.map_eq_some_iff] at hstep
      obtain ⟨⟨ret, mutex⟩, hunlock, rfl⟩ := hstep
      refine h.silent rfl rfl (by rw [hpc]; rfl) ?_
      refine (hprotects.unlock (by rw [hpc]; rfl) rfl hunlock ?_).2
      rw [hpc]
      exact fun hfits => hfits.2.trans hfits.1.symm
  | exited =>
      rw [hpc] at hstep
      cases hstep

theorem Invariant.step
    (h : Invariant s)
    (hstep : step s l = some s') :
    Invariant s' := by
  cases l with
  | thread k =>
      obtain ⟨_, hthread⟩ := Option.ite_none_right_eq_some.mp hstep
      exact h.threadStep hthread
  | kill pid =>
      cases hstep
      exact ⟨h.protects, h.linked, h.printed, h.once⟩

/--
However the threads of the processes take turns and whichever processes are killed: each line
names the thread of the line before it, and no thread prints two lines.
-/
theorem lines_linked
    {ls : List Label}
    (hrun : run MutexShared.step State.start ls = some s) :
    List.IsChain (fun before line => line.1 = before.2) (noLine :: s.lines) ∧
      (s.lines.map Prod.snd).Nodup := by
  have h : Invariant s := run_invariant (fun _ _ _ h hstep => h.step hstep) invariant_start hrun
  exact ⟨h.linked, h.once⟩

/-- Thread 0 of process 10 and thread 2 of process 11, which is killed before it has written. -/
theorem lines_linked_killed :
    ∃ s,
      run MutexShared.step State.start
        [.thread (11, 2), .thread (10, 0), .thread (10, 0), .thread (10, 0), .thread (10, 0),
          .thread (10, 0), .thread (10, 0), .thread (10, 0), .thread (10, 0), .thread (11, 2),
          .thread (11, 2), .thread (11, 2), .kill 11] = some s ∧
      s.lines = [((0, 0), (10, 0)), ((10, 0), (11, 2))] ∧
      List.IsChain (fun before line => line.1 = before.2) (noLine :: s.lines) := by
  have hrun : run MutexShared.step State.start
      [.thread (11, 2), .thread (10, 0), .thread (10, 0), .thread (10, 0), .thread (10, 0),
        .thread (10, 0), .thread (10, 0), .thread (10, 0), .thread (10, 0), .thread (11, 2),
        .thread (11, 2), .thread (11, 2), .kill 11] = some _ := rfl
  exact ⟨_, hrun, rfl, (lines_linked hrun).1⟩

end Segment

end MutexShared
end SysProg
