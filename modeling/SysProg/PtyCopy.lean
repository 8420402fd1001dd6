import SysProg.Lib.Refinement
import SysProg.PtyLoop
import SysProg.ReadnWriten
import Mathlib.Tactic

/-!
# The bytes that `loop` in APUE/loop.c copies

The two processes of `PtyLoop` with their data: the child reads standard input and gives what it
has read to `writen` on the master of the pseudo terminal, the parent reads the master and gives
what it has read to `writen` on standard output.  `writen` is the one of `ReadnWriten`, with any
results of its calls of `write`.

**Steps.**  Those of `PtyLoop`, each with the bytes it moves: a step here is a step there, with
the number of bytes for the bytes and the comparison `writen(...) != nread` for the results of
`write`.  SIGTERM may end the child within `writen`, after a part of its calls.

**Result.**  `copies_streams`: however the processes and the signals take turns, the terminal is
given a beginning of what was read from standard input and standard output a beginning of what
was read from the terminal.  Nothing is left out except in a `writen` that fails or is
interrupted: the child that has seen the end of its input has passed on all of it, and `loop`
returns after it has passed on all that it has read.  What the terminal puts out after a SIGTERM
has ended the `read` is not read.
-/

namespace SysProg
namespace PtyCopy

open PtyLoop (BUFFSIZE)
open ReadnWriten (Kernel Request)
open Refinement Run

section Program

/-- What one `read` returns. -/
abbrev Chunk := { bytes : List UInt8 // (bytes.length : Int) ≤ BUFFSIZE }

/--
One direction: the bytes in `buf`, and as history what has been read and what has been written
so far.
-/
structure Copy where
  buf : Chunk
  consumed : List UInt8
  sink : List UInt8

def Copy.start : Copy where
  buf := ⟨[], by decide⟩
  consumed := []
  sink := []

def Copy.read (c : Copy) (chunk : Chunk) : Copy :=
  { c with buf := chunk, consumed := c.consumed ++ chunk.val }

/-- The arguments of `writen`. -/
def Copy.request (c : Copy) : Request where
  buf := c.buf.val
  n := c.buf.val.length
  n_le := Nat.le_refl _
  length_lt := by
    have hle := c.buf.property
    simp only [BUFFSIZE] at hle
    omega

def Copy.writen (c : Copy) (kernel : Kernel) : Copy :=
  { c with sink := c.sink ++ (ReadnWriten.writen kernel c.request).device }

/-- `writen(...) != nread` is false. -/
def Copy.complete (c : Copy) (kernel : Kernel) : Bool :=
  (ReadnWriten.writen kernel c.request).ret = c.buf.val.length

/-- Both processes with their data; `eof` is history: the child has seen the end of its input. -/
structure State where
  base : PtyLoop.State
  input : Copy
  output : Copy
  eof : Bool

def State.start (ignoreeof : Bool) : State where
  base := .start ignoreeof
  input := .start
  output := .start
  eof := false

inductive Label where
  /-- the result of `read`, nothing for -1 -/
  | childRead (ret : Option Chunk)
  | childWriten (kernel : Kernel)
  | childKill
  | signalIntr (ok : Bool)
  | parentRead (ret : Option Chunk)
  | parentWriten (kernel : Kernel)
  | parentTest
  | parentExit
  | deliver (waiting : Bool)
  /-- with the calls of `write` that the child has still made -/
  | deliverChild (kernel : Kernel)

/-- `nread` -/
def nread : Option Chunk → Int
  | none => -1
  | some chunk => chunk.val.length

/-- The step without its data. -/
def Label.base (s : State) : Label → PtyLoop.Label
  | .childRead ret => .childRead (nread ret)
  | .childWriten kernel => .childWriten (s.input.complete kernel)
  | .childKill => .childKill
  | .signalIntr ok => .signalIntr ok
  | .parentRead ret => .parentRead (nread ret)
  | .parentWriten kernel => .parentWriten (s.output.complete kernel)
  | .parentTest => .parentTest
  | .parentExit => .parentExit
  | .deliver waiting => .deliver waiting
  | .deliverChild _ => .deliverChild

/-- What the step does to the data. -/
def State.data (s : State) : Label → State
  | .childRead none => s
  | .childRead (some chunk) =>
      { s with input := s.input.read chunk, eof := s.eof || chunk.val.isEmpty }
  | .childWriten kernel => { s with input := s.input.writen kernel }
  | .parentRead none => s
  | .parentRead (some chunk) => { s with output := s.output.read chunk }
  | .parentWriten kernel => { s with output := s.output.writen kernel }
  | .deliverChild kernel =>
      if s.base.child = .writen then { s with input := s.input.writen kernel } else s
  | _ => s

def step (s : State) (l : Label) : Option State :=
  (PtyLoop.step s.base (l.base s)).map (fun base => { s.data l with base := base })

end Program

section OneDirection

variable {c : Copy} {kernel : Kernel}

/-- Everything that was read has been written. -/
def Copy.Even (c : Copy) : Prop :=
  c.sink = c.consumed

/-- What is in `buf` is still to be written. -/
def Copy.Full (c : Copy) : Prop :=
  c.sink ++ c.buf.val = c.consumed

def Copy.Begun (c : Copy) : Prop :=
  c.sink <+: c.consumed

theorem Copy.Even.begun
    (h : c.Even) :
    c.Begun := by
  rw [Copy.Begun, show c.sink = c.consumed from h]

theorem Copy.Full.begun
    (h : c.Full) :
    c.Begun :=
  ⟨c.buf.val, h⟩

theorem Copy.Even.read
    (h : c.Even)
    (chunk : Chunk) :
    (c.read chunk).Full := by
  rw [Copy.Full, Copy.read, show c.sink = c.consumed from h]

theorem Copy.Even.read_nil
    (h : c.Even)
    {chunk : Chunk}
    (hnil : chunk.val = []) :
    (c.read chunk).Even := by
  rw [Copy.Even, Copy.read, hnil, List.append_nil]
  exact h

theorem writen_correct
    (c : Copy) (kernel : Kernel) :
    ReadnWriten.Correct kernel c.request.n (fun m => c.request.buf.take m)
      (ReadnWriten.writen kernel c.request) := by
  refine ReadnWriten.transfer_correct ?_ (ReadnWriten.moves_write c.request)
  exact c.request.length_lt

/-- `writen` puts out a beginning of the buffer. -/
theorem writen_device
    (c : Copy) (kernel : Kernel) :
    ∃ m, (ReadnWriten.writen kernel c.request).device = c.buf.val.take m := by
  have hcorrect := writen_correct c kernel
  by_cases hfailed : (ReadnWriten.writen kernel c.request).ret = -1
  · exact ⟨0, hcorrect.failed hfailed⟩
  · obtain ⟨m, _, _, hdevice, _⟩ := hcorrect.transferred hfailed
    exact ⟨m, hdevice⟩

theorem Copy.Full.writen_begun
    (h : c.Full)
    (kernel : Kernel) :
    (c.writen kernel).Begun := by
  obtain ⟨m, hdevice⟩ := writen_device c kernel
  refine ⟨c.buf.val.drop m, ?_⟩
  rw [Copy.writen, hdevice, List.append_assoc, List.take_append_drop]
  exact h

/-- A `writen` that returns `nread` has put out the whole buffer. -/
theorem Copy.Full.writen_even
    (h : c.Full)
    (hcomplete : c.complete kernel = true) :
    (c.writen kernel).Even := by
  have hret : (ReadnWriten.writen kernel c.request).ret = c.buf.val.length :=
    of_decide_eq_true hcomplete
  have hne : (ReadnWriten.writen kernel c.request).ret ≠ -1 := by
    omega
  obtain ⟨m, _, hm, hdevice, _⟩ := (writen_correct c kernel).transferred hne
  have hall : m = c.buf.val.length := by
    omega
  rw [Copy.Even, Copy.writen, hdevice, hall]
  exact (congrArg (c.sink ++ ·) List.take_length).trans h

end OneDirection

section Runs

variable {s s' : State} {l : Label}

/-- What the place of the child says about its direction. -/
def ChildFits (c : Copy) : PtyLoop.ChildPc → Prop
  | .read => c.Even
  | .writen => c.Full
  | .kill => c.Even
  | .exited => c.Begun
  | .terminated => c.Begun

def ParentFits (c : Copy) : PtyLoop.ParentPc → Prop
  | .signalIntr => c.Even
  | .read => c.Even
  | .writen => c.Full
  | .test => c.Even
  | .returned => c.Even
  | .exited => c.Begun
  | .terminated => c.Begun

structure Invariant (s : State) : Prop where
  input : ChildFits s.input s.base.child
  output : ParentFits s.output s.base.parent
  eof : s.eof = true → s.input.Even ∧ s.base.child ≠ .read ∧ s.base.child ≠ .writen

theorem ChildFits.begun
    {c : Copy} {p : PtyLoop.ChildPc}
    (h : ChildFits c p) :
    c.Begun := by
  cases p with
  | read => exact Copy.Even.begun h
  | writen => exact Copy.Full.begun h
  | kill => exact Copy.Even.begun h
  | exited => exact h
  | terminated => exact h

theorem ParentFits.begun
    {c : Copy} {p : PtyLoop.ParentPc}
    (h : ParentFits c p) :
    c.Begun := by
  cases p with
  | signalIntr => exact Copy.Even.begun h
  | read => exact Copy.Even.begun h
  | writen => exact Copy.Full.begun h
  | test => exact Copy.Even.begun h
  | returned => exact Copy.Even.begun h
  | exited => exact h
  | terminated => exact h

theorem invariant_start
    (ignoreeof : Bool) :
    Invariant (State.start ignoreeof) :=
  ⟨rfl, rfl, by simp [State.start]⟩

theorem Invariant.childRead
    {ret : Option Chunk} {base : PtyLoop.State}
    (h : Invariant s)
    (hbase : PtyLoop.step s.base (.childRead (nread ret)) = some base) :
    Invariant { s.data (.childRead ret) with base := base } := by
  simp only [PtyLoop.step, PtyLoop.childStep] at hbase
  obtain ⟨⟨hpc, _⟩, hbase⟩ := Option.ite_none_right_eq_some.mp hbase
  have hinput := h.input
  rw [hpc] at hinput
  have heven : s.input.Even := hinput
  have heof : s.eof = false := by
    by_contra hne
    exact (h.eof (by simpa using hne)).2.1 hpc
  cases ret with
  | none =>
      rw [nread, if_pos (by decide)] at hbase
      cases hbase
      exact ⟨heven.begun, h.output, by simp [State.data, heof]⟩
  | some chunk =>
      have hnonneg : ¬ nread (some chunk) < 0 := by
        simp [nread]
      rw [if_neg hnonneg] at hbase
      by_cases hnil : chunk.val = []
      · have hzero : nread (some chunk) = 0 := by
          simp [nread, hnil]
        rw [if_pos hzero] at hbase
        cases hbase
        have hread := heven.read_nil hnil
        unfold PtyLoop.State.childEof
        split_ifs
        · exact ⟨hread.begun, h.output, fun _ => ⟨hread, by simp, by simp⟩⟩
        · exact ⟨hread, h.output, fun _ => ⟨hread, by simp, by simp⟩⟩
      · have hpos : nread (some chunk) ≠ 0 := by
          simpa [nread] using hnil
        rw [if_neg hpos] at hbase
        cases hbase
        refine ⟨heven.read chunk, h.output, ?_⟩
        simp [State.data, heof, hnil]

theorem Invariant.childWriten
    {kernel : Kernel} {base : PtyLoop.State}
    (h : Invariant s)
    (hbase : PtyLoop.step s.base (.childWriten (s.input.complete kernel)) = some base) :
    Invariant { s.data (.childWriten kernel) with base := base } := by
  simp only [PtyLoop.step, PtyLoop.childStep] at hbase
  obtain ⟨hpc, hbase⟩ := Option.ite_none_right_eq_some.mp hbase
  cases hbase
  have hinput := h.input
  rw [hpc] at hinput
  have heof : s.eof = true → False := fun heof => (h.eof heof).2.2 hpc
  refine ⟨?_, h.output, fun he => (heof he).elim⟩
  cases hcomplete : s.input.complete kernel with
  | true =>
      exact Copy.Full.writen_even hinput hcomplete
  | false =>
      exact Copy.Full.writen_begun hinput kernel

theorem Invariant.parentRead
    {ret : Option Chunk} {base : PtyLoop.State}
    (h : Invariant s)
    (hbase : PtyLoop.step s.base (.parentRead (nread ret)) = some base) :
    Invariant { s.data (.parentRead ret) with base := base } := by
  simp only [PtyLoop.step, PtyLoop.parentStep] at hbase
  obtain ⟨⟨hpc, _⟩, hbase⟩ := Option.ite_none_right_eq_some.mp hbase
  have houtput := h.output
  rw [hpc] at houtput
  have heven : s.output.Even := houtput
  cases ret with
  | none =>
      cases hbase
      exact ⟨h.input, heven, h.eof⟩
  | some chunk =>
      by_cases hnil : chunk.val = []
      · have hzero : nread (some chunk) ≤ 0 := by
          simp [nread, hnil]
        rw [if_pos hzero] at hbase
        cases hbase
        exact ⟨h.input, heven.read_nil hnil, h.eof⟩
      · have hpos : ¬ nread (some chunk) ≤ 0 := by
          have hlength := List.length_pos_iff.mpr hnil
          simp only [nread]
          omega
        rw [if_neg hpos] at hbase
        cases hbase
        exact ⟨h.input, heven.read chunk, h.eof⟩

theorem Invariant.parentWriten
    {kernel : Kernel} {base : PtyLoop.State}
    (h : Invariant s)
    (hbase : PtyLoop.step s.base (.parentWriten (s.output.complete kernel)) = some base) :
    Invariant { s.data (.parentWriten kernel) with base := base } := by
  simp only [PtyLoop.step, PtyLoop.parentStep] at hbase
  obtain ⟨hpc, hbase⟩ := Option.ite_none_right_eq_some.mp hbase
  cases hbase
  have houtput := h.output
  rw [hpc] at houtput
  refine ⟨h.input, ?_, h.eof⟩
  cases hcomplete : s.output.complete kernel with
  | true =>
      exact Copy.Full.writen_even houtput hcomplete
  | false =>
      exact Copy.Full.writen_begun houtput kernel

/-- The handler or the default action, while no bytes are moved. -/
theorem Invariant.deliver
    (h : Invariant s)
    (waiting : Bool) :
    Invariant { s with base := s.base.deliver waiting } := by
  unfold PtyLoop.State.deliver
  split_ifs with hgone hinstalled hread
  · exact ⟨h.input, h.output, h.eof⟩
  · have houtput := h.output
    rw [hread.1] at houtput
    exact ⟨h.input, houtput, h.eof⟩
  · exact ⟨h.input, h.output, h.eof⟩
  · exact ⟨h.input, h.output.begun, h.eof⟩

/-- The child is ended wherever it is. -/
theorem Invariant.deliverChild
    (h : Invariant s)
    (kernel : Kernel) :
    Invariant { s.data (.deliverChild kernel) with base := s.base.deliverChild } := by
  have hdata : (s.data (.deliverChild kernel)).input.Begun ∧
      (s.eof = true → (s.data (.deliverChild kernel)).input.Even) := by
    simp only [State.data]
    split_ifs with hwriting
    · have hinput := h.input
      rw [hwriting] at hinput
      exact ⟨Copy.Full.writen_begun hinput kernel, fun he => absurd hwriting (h.eof he).2.2⟩
    · exact ⟨h.input.begun, fun he => (h.eof he).1⟩
  have houtput : (s.data (.deliverChild kernel)).output = s.output := by
    simp only [State.data]
    split_ifs <;> rfl
  have heof : (s.data (.deliverChild kernel)).eof = s.eof := by
    simp only [State.data]
    split_ifs <;> rfl
  refine ⟨?_, ?_, ?_⟩
  · simp only [PtyLoop.State.deliverChild]
    split_ifs
    · exact hdata.1
    · exact hdata.1
  · simp only [houtput, PtyLoop.State.deliverChild]
    exact h.output
  · intro he
    rw [heof] at he
    refine ⟨hdata.2 he, ?_, ?_⟩ <;>
      · simp only [PtyLoop.State.deliverChild]
        split_ifs <;> simp

theorem Invariant.step
    (h : Invariant s)
    (hstep : step s l = some s') :
    Invariant s' := by
  obtain ⟨base, hbase, rfl⟩ := Option.map_eq_some_iff.mp hstep
  cases l with
  | childRead ret =>
      exact h.childRead hbase
  | childWriten kernel =>
      exact h.childWriten hbase
  | childKill =>
      simp only [Label.base, PtyLoop.step, PtyLoop.childStep] at hbase
      obtain ⟨hpc, hbase⟩ := Option.ite_none_right_eq_some.mp hbase
      cases hbase
      exact ⟨h.input.begun, h.output, fun he => ⟨(h.eof he).1, by simp, by simp⟩⟩
  | signalIntr ok =>
      simp only [Label.base, PtyLoop.step, PtyLoop.parentStep] at hbase
      split_ifs at hbase with hpc hok
      · cases hbase
        have houtput := h.output
        rw [hpc] at houtput
        exact ⟨h.input, houtput, h.eof⟩
      · cases hbase
        exact ⟨h.input, h.output.begun, h.eof⟩
  | parentRead ret =>
      exact h.parentRead hbase
  | parentWriten kernel =>
      exact h.parentWriten hbase
  | parentTest =>
      simp only [Label.base, PtyLoop.step, PtyLoop.parentStep] at hbase
      split_ifs at hbase with hpc hcaught
      · cases hbase
        have houtput := h.output
        rw [hpc] at houtput
        exact ⟨h.input, houtput, h.eof⟩
      · cases hbase
        have houtput := h.output
        rw [hpc] at houtput
        exact ⟨h.input, houtput, h.eof⟩
  | parentExit =>
      simp only [Label.base, PtyLoop.step, PtyLoop.parentStep] at hbase
      obtain ⟨_, hbase⟩ := Option.ite_none_right_eq_some.mp hbase
      cases hbase
      exact ⟨h.input, h.output.begun, h.eof⟩
  | deliver waiting =>
      simp only [Label.base, PtyLoop.step] at hbase
      obtain ⟨_, hbase⟩ := Option.ite_none_right_eq_some.mp hbase
      cases hbase
      exact h.deliver waiting
  | deliverChild kernel =>
      simp only [Label.base, PtyLoop.step] at hbase
      obtain ⟨_, hbase⟩ := Option.ite_none_right_eq_some.mp hbase
      cases hbase
      exact h.deliverChild kernel

/-- A step with data is a step of the two processes. -/
theorem simulates :
    Simulates PtyCopy.step PtyLoop.step State.base := by
  intro s l s' hstep
  obtain ⟨base, hbase, rfl⟩ := Option.map_eq_some_iff.mp hstep
  exact Or.inr ⟨l.base s, hbase⟩

/--
Over every run of the two processes: what the terminal was given is a beginning of what was read
from standard input, and standard output shows a beginning of what was read from the terminal.
The child has passed on everything when it waits for input and when it has seen the end, the
parent when it waits for the terminal and when `loop` returns.
-/
theorem copies_streams
    {ignoreeof : Bool} {ls : List Label}
    (hrun : run PtyCopy.step (State.start ignoreeof) ls = some s) :
    (s.input.sink <+: s.input.consumed ∧
      (s.base.child = .read ∨ s.eof = true → s.input.sink = s.input.consumed)) ∧
    (s.output.sink <+: s.output.consumed ∧
      (s.base.parent = .read ∨ s.base.parent = .returned → s.output.sink = s.output.consumed)) ∧
    ∃ ls', run PtyLoop.step (.start ignoreeof) ls' = some s.base := by
  have h : Invariant s :=
    run_invariant (fun _ _ _ h hstep => h.step hstep) (invariant_start ignoreeof) hrun
  have hinput := h.input
  have houtput := h.output
  refine ⟨⟨hinput.begun, ?_⟩, ⟨houtput.begun, ?_⟩, simulates.exists_run hrun⟩
  · rintro (hpc | heof)
    · rw [hpc] at hinput
      exact hinput
    · exact (h.eof heof).1
  · rintro (hpc | hpc)
    · rw [hpc] at houtput
      exact houtput
    · rw [hpc] at houtput
      exact houtput

/-- Every `write` takes all bytes. -/
def wholeWrites : Kernel :=
  fun _ nleft => some (Fin.last nleft)

theorem complete_wholeWrites
    (c : Copy) :
    c.complete wholeWrites = true := by
  have hcorrect := writen_correct c wholeWrites
  have hne : (ReadnWriten.writen wholeWrites c.request).ret ≠ -1 := by
    intro hfailed
    cases (hcorrect.failed_iff.mp hfailed).2
  obtain ⟨m, hm, hret, _, hcut⟩ := hcorrect.transferred hne
  refine decide_eq_true (hret.trans (congrArg Nat.cast (Nat.le_antisymm hm ?_)))
  by_contra hlt
  obtain ⟨_, _, hnone | hzero⟩ := hcut (Nat.lt_of_not_le hlt)
  · cases hnone
  · have hlast : c.request.n - m = 0 := congrArg Fin.val (Option.some.inj hzero)
    exact hlt (Nat.le_of_sub_eq_zero hlast)

/-- One byte each way; then the terminal is closed, and `loop` returns. -/
def bothWays : List Label :=
  [.signalIntr true, .childRead (some ⟨[97], by decide⟩), .childWriten wholeWrites,
    .parentRead (some ⟨[98], by decide⟩), .parentWriten wholeWrites, .parentRead none, .parentTest]

theorem copies_streams_bothWays :
    ∃ s,
      run PtyCopy.step (State.start false) bothWays = some s ∧
      s.input.sink = [97] ∧
      s.output.sink = [98] := by
  obtain ⟨s, hrun, hread, hreturned, hinput, houtput⟩ : ∃ s,
      run PtyCopy.step (State.start false) bothWays = some s ∧
      s.base.child = .read ∧ s.base.parent = .returned ∧
      s.input.consumed = [97] ∧ s.output.consumed = [98] := by
    simp [bothWays, run_cons, PtyCopy.step, Label.base, nread, complete_wholeWrites, State.start,
      PtyLoop.State.start, PtyLoop.step, PtyLoop.childStep, PtyLoop.parentStep, State.data,
      Copy.start, Copy.read, Copy.writen, BUFFSIZE]
  have hcopied := copies_streams hrun
  exact ⟨s, hrun, (hcopied.1.2 (Or.inl hread)).trans hinput,
    (hcopied.2.1.2 (Or.inr hreturned)).trans houtput⟩

end Runs

end PtyCopy
end SysProg
