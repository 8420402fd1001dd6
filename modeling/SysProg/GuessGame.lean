import SysProg.Lib.CString
import SysProg.Lib.Run
import Mathlib.Tactic

/-!
# The guessing game over two FIFOs of sp/ipc/ipc.c

The parent reads a line, writes the first three bytes of `getline`'s buffer to the request
FIFO and reads a verdict from the response FIFO; the child reads a request, checks it and
writes the verdict.  Both return 0 on the verdict `CORRECT`.

**Steps.**  The model starts when both FIFOs are open and empty.  A label is one call of
`getline`, `read` or `write` with what the code does until the next one.  The three bytes
of a request and the four of a verdict are written at once.  A `read` takes what there is;
from an empty FIFO it waits, or returns 0 if the other process is gone.  A `write` to a
process that is gone raises SIGPIPE.

**The buffer.**  `getline` writes the line and a zero over the beginning of its buffer and
leaves the bytes behind as they are, so a short line is sent with bytes of an older one.
The zero keeps such a request from being "385" (`request_eq_goal_iff`).

**Result.**  `lockstep_of_run`: the two processes take turns, so that requests and
verdicts stay aligned and both return 0 on the first line that starts with "385".
-/

namespace SysProg
namespace GuessGame

open CString Run

section Program

def CORRECT : Int := 1
def WRONG : Int := 0

/-- "385" -/
def goal : List UInt8 := [51, 56, 53]

/-- `check`, for a buffer that is zero behind the given bytes. -/
def check (buf : List UInt8) : Int :=
  if strncmpEq buf goal 3 then CORRECT else WRONG

inductive ParentPc where
  | getline
  | write
  | read
  /-- after `return 0` -/
  | returned
  /-- after `exit(EXIT_FAILURE)` -/
  | exited
  /-- ended by SIGPIPE -/
  | killed
deriving DecidableEq, Repr

inductive ChildPc where
  | read
  | write (res : Int)
  | returned
  | killed
deriving DecidableEq, Repr

/-- The process has no FIFO open any more. -/
def ParentPc.gone : ParentPc → Bool
  | .returned => true
  | .exited => true
  | .killed => true
  | _ => false

def ChildPc.gone : ChildPc → Bool
  | .returned => true
  | .killed => true
  | _ => false

/--
Both processes and the FIFOs, with the buffer `line` and the variable `res` of the parent.
The last three fields are history: the lines that `getline` returned, the requests written
and the verdicts read by the parent.
-/
structure State where
  line : Nat → UInt8
  res : Int
  parent : ParentPc
  child : ChildPc
  reqFifo : List UInt8
  resFifo : List Int
  lines : List (List UInt8)
  requests : List (List UInt8)
  verdicts : List Int

/-- The FIFOs are open and empty; the buffer and `res` have any contents. -/
def State.start (line : Nat → UInt8) (res : Int) : State where
  line := line
  res := res
  parent := .getline
  child := .read
  reqFifo := []
  resFifo := []
  lines := []
  requests := []
  verdicts := []

/-- What `getline` leaves in its buffer. -/
def fill (line : Nat → UInt8) (input : List UInt8) (k : Nat) : UInt8 :=
  if k < input.length then input.getD k 0
  else if k = input.length then 0
  else line k

/-- The three bytes that the parent writes. -/
def request (line : Nat → UInt8) : List UInt8 :=
  [line 0, line 1, line 2]

/-- Where the parent goes after `write` has returned `ret`. -/
def parentWrote (ret : Nat) : ParentPc :=
  if ret ≠ 3 then .getline else .read

/-- Where the parent goes after `read`, with the value of `res`. -/
def parentRead (res : Int) : ParentPc :=
  if res = CORRECT then .returned else .getline

/-- Where the child goes after `read` has returned the bytes. -/
def childRead (bytes : List UInt8) : ChildPc :=
  if bytes.length ≠ 3 then .read else .write (check bytes)

/-- Where the child goes after it has written a verdict. -/
def childWrote (res : Int) : ChildPc :=
  if res = CORRECT then .returned else .read

end Program

section System

inductive Label where
  | getline (input : List UInt8)
  | getlineFails
  | parentWrite
  | parentRead
  | childRead
  | childWrite
deriving DecidableEq, Repr

def step (s : State) : Label → Option State
  | .getline input =>
      if s.parent = .getline ∧ input ≠ [] then
        some
          { s with
            line := fill s.line input
            lines := s.lines ++ [input]
            parent := .write }
      else none
  | .getlineFails =>
      if s.parent = .getline then some { s with parent := .exited } else none
  | .parentWrite =>
      if s.parent = .write then
        if s.child.gone then some { s with parent := .killed }
        else
          some
            { s with
              reqFifo := s.reqFifo ++ request s.line
              requests := s.requests ++ [request s.line]
              parent := parentWrote (request s.line).length }
      else none
  | .parentRead =>
      if s.parent = .read then
        match s.resFifo with
        | verdict :: rest =>
            some
              { s with
                res := verdict
                resFifo := rest
                verdicts := s.verdicts ++ [verdict]
                parent := parentRead verdict }
        | [] =>
            if s.child.gone then some { s with parent := parentRead s.res } else none
      else none
  | .childRead =>
      if s.child = .read then
        if s.reqFifo = [] then
          if s.parent.gone then some { s with child := childRead [] } else none
        else
          some
            { s with
              reqFifo := s.reqFifo.drop BUFSIZ
              child := childRead (s.reqFifo.take BUFSIZ) }
      else none
  | .childWrite =>
      match s.child with
      | .write res =>
          if s.parent.gone then some { s with child := .killed }
          else some { s with resFifo := s.resFifo ++ [res], child := childWrote res }
      | _ => none

end System

section Requests

/-- The line starts with "385". -/
def Hit (input : List UInt8) : Prop :=
  input.take 3 = goal

instance (input : List UInt8) : Decidable (Hit input) :=
  inferInstanceAs (Decidable (_ = _))

theorem check_eq_correct_iff
    (buf : List UInt8) :
    check buf = CORRECT ↔ buf.take 3 = goal := by
  have hword : 0 ∉ goal := by decide
  have hcompare := strncmpEq_iff hword buf
  unfold check
  split_ifs with h
  · exact iff_of_true rfl (hcompare.mp h)
  · exact iff_of_false (by decide) (fun heq => h (hcompare.mpr heq))

/-- A request is "385" only if the line starts so, whatever else is in the buffer. -/
theorem request_eq_goal_iff
    (line : Nat → UInt8) (input : List UInt8) :
    request (fill line input) = goal ↔ Hit input := by
  match input with
  | [] =>
      simp [request, fill, goal, Hit]
  | [a] =>
      simp [request, fill, goal, Hit]
  | [a, b] =>
      simp [request, fill, goal, Hit]
  | a :: b :: c :: rest =>
      simp [request, fill, goal, Hit]

theorem check_request_iff
    (line : Nat → UInt8) (input : List UInt8) :
    check (request (fill line input)) = CORRECT ↔ Hit input := by
  rw [check_eq_correct_iff]
  exact request_eq_goal_iff line input

end Requests

section LockStep

variable {s s' : State} {l : Label} {es : List Label}

def NoHit (lines : List (List UInt8)) : Prop :=
  ∀ input ∈ lines, ¬ Hit input

/-- The last line is the first one that starts with "385". -/
def EndsWithHit (lines : List (List UInt8)) : Prop :=
  ∃ before input, lines = before ++ [input] ∧ NoHit before ∧ Hit input

/-- The places of the turn; `past` are the requests that have been answered. -/
inductive Phase : State → Prop
  | idle {line : Nat → UInt8} {res : Int} {lines past : List (List UInt8)}
      (hno : NoHit lines) :
      Phase
        { line := line, res := res, parent := .getline, child := .read
          reqFifo := [], resFifo := [], lines := lines
          requests := past, verdicts := past.map check }
  | typed {line : Nat → UInt8} {res : Int} {before past : List (List UInt8)}
      {input : List UInt8}
      (hno : NoHit before)
      (hcheck : check (request line) = CORRECT ↔ Hit input) :
      Phase
        { line := line, res := res, parent := .write, child := .read
          reqFifo := [], resFifo := [], lines := before ++ [input]
          requests := past, verdicts := past.map check }
  | sent {line : Nat → UInt8} {res : Int} {before past : List (List UInt8)}
      {input : List UInt8}
      (hno : NoHit before)
      (hcheck : check (request line) = CORRECT ↔ Hit input) :
      Phase
        { line := line, res := res, parent := .read, child := .read
          reqFifo := request line, resFifo := [], lines := before ++ [input]
          requests := past ++ [request line], verdicts := past.map check }
  | judged {line : Nat → UInt8} {res : Int} {before past : List (List UInt8)}
      {input : List UInt8}
      (hno : NoHit before)
      (hcheck : check (request line) = CORRECT ↔ Hit input) :
      Phase
        { line := line, res := res, parent := .read, child := .write (check (request line))
          reqFifo := [], resFifo := [], lines := before ++ [input]
          requests := past ++ [request line], verdicts := past.map check }
  | answered {line : Nat → UInt8} {res : Int} {before past : List (List UInt8)}
      {input : List UInt8}
      (hno : NoHit before)
      (hcheck : check (request line) = CORRECT ↔ Hit input) :
      Phase
        { line := line, res := res, parent := .read
          child := childWrote (check (request line))
          reqFifo := [], resFifo := [check (request line)], lines := before ++ [input]
          requests := past ++ [request line], verdicts := past.map check }
  | finished {line : Nat → UInt8} {res : Int} {before past : List (List UInt8)}
      {input : List UInt8}
      (hno : NoHit before)
      (hhit : Hit input) :
      Phase
        { line := line, res := res, parent := .returned, child := .returned
          reqFifo := [], resFifo := [], lines := before ++ [input]
          requests := past, verdicts := past.map check }
  /-- the input has ended, and the child is left reading -/
  | abandoned {line : Nat → UInt8} {res : Int} {lines past : List (List UInt8)}
      (hno : NoHit lines) :
      Phase
        { line := line, res := res, parent := .exited, child := .read
          reqFifo := [], resFifo := [], lines := lines
          requests := past, verdicts := past.map check }

theorem phase_start
    (line : Nat → UInt8) (res : Int) :
    Phase (State.start line res) :=
  @Phase.idle line res [] [] (by simp [NoHit])

theorem noHit_append
    {lines : List (List UInt8)} {input : List UInt8}
    (hno : NoHit lines)
    (hmiss : ¬ Hit input) :
    NoHit (lines ++ [input]) := by
  intro l hl
  rcases List.mem_append.mp hl with hl | hl
  · exact hno l hl
  · rw [List.mem_singleton.mp hl]
    exact hmiss

/-- A verdict that is not `CORRECT` sends both processes back to their loops. -/
theorem phase_answered
    {line : Nat → UInt8} {before past : List (List UInt8)} {input : List UInt8}
    (hno : NoHit before)
    (hcheck : check (request line) = CORRECT ↔ Hit input) :
    Phase
      { line := line, res := check (request line)
        parent := parentRead (check (request line))
        child := childWrote (check (request line))
        reqFifo := [], resFifo := [], lines := before ++ [input]
        requests := past ++ [request line]
        verdicts := past.map check ++ [check (request line)] } := by
  have hmap : past.map check ++ [check (request line)] =
      (past ++ [request line]).map check := by
    simp
  rw [hmap, parentRead, childWrote]
  by_cases hhit : check (request line) = CORRECT
  · rw [if_pos hhit, if_pos hhit]
    exact .finished hno (hcheck.mp hhit)
  · rw [if_neg hhit, if_neg hhit]
    exact .idle (noHit_append hno (fun h => hhit (hcheck.mpr h)))

theorem not_endsWithHit
    {lines : List (List UInt8)}
    (hno : NoHit lines) :
    ¬ EndsWithHit lines := by
  rintro ⟨before, input, rfl, _, hhit⟩
  exact hno input (by simp) hhit

/-- The steps left until the parent has the verdict. -/
def State.remaining (s : State) : Nat :=
  match s.parent with
  | .write => 4
  | .read => if s.reqFifo ≠ [] then 3 else if s.resFifo = [] then 2 else 1
  | _ => 0

theorem remaining_parentRead
    {s : State} {res : Int}
    (h : s.parent = parentRead res) :
    s.remaining = 0 := by
  unfold State.remaining parentRead at *
  rw [h]
  split_ifs <;> rfl

/--
The turn moves on, and in each place only one of the processes can move.  With a line that
starts with "385" the way is short and no other line is read on it.
-/
theorem Phase.step
    (h : Phase s)
    (hstep : step s l = some s') :
    Phase s' ∧
      (EndsWithHit s.lines → s'.lines = s.lines ∧ s'.remaining < s.remaining) := by
  cases h with
  | idle hno =>
      refine ⟨?_, fun hhit => absurd hhit (not_endsWithHit hno)⟩
      cases l with
      | getline input =>
          simp only [GuessGame.step] at hstep
          split_ifs at hstep
          cases hstep
          exact .typed hno (check_request_iff _ input)
      | getlineFails =>
          cases hstep
          exact .abandoned hno
      | _ =>
          simp [GuessGame.step, ParentPc.gone] at hstep
  | typed hno hcheck =>
      cases l with
      | parentWrite =>
          cases hstep
          exact ⟨.sent hno hcheck, fun _ => ⟨rfl, Nat.lt_succ_self 3⟩⟩
      | _ =>
          simp [GuessGame.step, ParentPc.gone] at hstep
  | sent hno hcheck =>
      cases l with
      | childRead =>
          cases hstep
          exact ⟨.judged hno hcheck, fun _ => ⟨rfl, Nat.lt_succ_self 2⟩⟩
      | _ =>
          simp [GuessGame.step, ChildPc.gone] at hstep
  | judged hno hcheck =>
      cases l with
      | childWrite =>
          cases hstep
          exact ⟨.answered hno hcheck, fun _ => ⟨rfl, Nat.lt_succ_self 1⟩⟩
      | _ =>
          simp [GuessGame.step, ChildPc.gone] at hstep
  | @answered line res before past input hno hcheck =>
      cases l with
      | parentRead =>
          cases hstep
          refine ⟨phase_answered hno hcheck, fun _ => ⟨rfl, ?_⟩⟩
          rw [remaining_parentRead rfl]
          exact Nat.zero_lt_one
      | _ =>
          by_cases hhit : check (request line) = CORRECT <;>
            simp [GuessGame.step, childWrote, hhit, ParentPc.gone] at hstep
  | finished hno hhit =>
      cases l <;> simp [GuessGame.step] at hstep
  | abandoned hno =>
      refine ⟨?_, fun hhit => absurd hhit (not_endsWithHit hno)⟩
      cases l with
      | childRead =>
          cases hstep
          exact .abandoned hno
      | _ =>
          simp [GuessGame.step] at hstep

/-- If nobody can move behind a line that starts with "385", both have returned 0. -/
theorem Phase.returned_of_stuck
    (h : Phase s)
    (hhit : EndsWithHit s.lines)
    (hstuck : ∀ l, GuessGame.step s l = none) :
    s.parent = .returned ∧ s.child = .returned := by
  cases h with
  | idle hno =>
      exact absurd hhit (not_endsWithHit hno)
  | typed hno hcheck =>
      cases hstuck .parentWrite
  | sent hno hcheck =>
      cases hstuck .childRead
  | judged hno hcheck =>
      cases hstuck .childWrite
  | answered hno hcheck =>
      cases hstuck .parentRead
  | finished hno hhit =>
      exact ⟨rfl, rfl⟩
  | abandoned hno =>
      exact absurd hhit (not_endsWithHit hno)

/-- The run behind a line that starts with "385". -/
theorem Phase.run_of_hit
    (h : Phase s)
    (hhit : EndsWithHit s.lines)
    (hrun : run GuessGame.step s es = some s') :
    Phase s' ∧ s'.lines = s.lines ∧ es.length + s'.remaining ≤ s.remaining := by
  induction es generalizing s with
  | nil =>
      cases hrun
      exact ⟨h, rfl, by simp⟩
  | cons l es ih =>
      obtain ⟨m, hstep, hrest⟩ := run_cons_success hrun
      obtain ⟨hm, hnext⟩ := h.step hstep
      obtain ⟨hlines, hless⟩ := hnext hhit
      obtain ⟨hs', hlines', hlength⟩ := ih hm (hlines ▸ hhit) hrest
      refine ⟨hs', hlines'.trans hlines, ?_⟩
      simp only [List.length_cons]
      omega

theorem remaining_le
    (s : State) :
    s.remaining ≤ 4 := by
  unfold State.remaining
  split
  · rfl
  · split_ifs <;> decide
  · decide

/-- Requests and verdicts are aligned, and the game ends for both on the right line. -/
structure LockStep (s : State) : Prop where
  oneInFlight : s.requests.length ≤ s.verdicts.length + 1
  oneMessage : (s.reqFifo.length ≤ 3 ∧ s.resFifo = []) ∨
    (s.reqFifo = [] ∧ s.resFifo.length ≤ 1)
  aligned : s.verdicts = (s.requests.take s.verdicts.length).map check
  firstHit : NoHit s.lines ∨ EndsWithHit s.lines
  parentReturns : s.parent = .returned → EndsWithHit s.lines ∧ s.child = .returned
  childReturns : s.child = .returned → EndsWithHit s.lines
  completes : EndsWithHit s.lines → ∀ es s', run step s es = some s' →
    s'.lines = s.lines ∧ es.length ≤ 4 ∧
      ((∀ l, step s' l = none) → s'.parent = .returned ∧ s'.child = .returned)

theorem Phase.completes
    (h : Phase s)
    (hhit : EndsWithHit s.lines)
    (hrun : run GuessGame.step s es = some s') :
    s'.lines = s.lines ∧ es.length ≤ 4 ∧
      ((∀ l, GuessGame.step s' l = none) →
        s'.parent = .returned ∧ s'.child = .returned) := by
  obtain ⟨hs', hlines, hlength⟩ := h.run_of_hit hhit hrun
  have hle := remaining_le s
  refine ⟨hlines, by omega, fun hstuck => ?_⟩
  exact hs'.returned_of_stuck (hlines ▸ hhit) hstuck

theorem noHit_or_endsWithHit
    {before : List (List UInt8)}
    (hno : NoHit before)
    (input : List UInt8) :
    NoHit (before ++ [input]) ∨ EndsWithHit (before ++ [input]) := by
  by_cases hhit : Hit input
  · exact Or.inr ⟨before, input, rfl, hno, hhit⟩
  · exact Or.inl (noHit_append hno hhit)

theorem Phase.firstHit
    (h : Phase s) :
    NoHit s.lines ∨ EndsWithHit s.lines := by
  cases h with
  | idle hno =>
      exact Or.inl hno
  | abandoned hno =>
      exact Or.inl hno
  | finished hno hhit =>
      exact noHit_or_endsWithHit hno _
  | _ hno =>
      exact noHit_or_endsWithHit hno _

theorem Phase.parentReturns
    (h : Phase s)
    (hpc : s.parent = .returned) :
    EndsWithHit s.lines ∧ s.child = .returned := by
  cases h with
  | finished hno hhit =>
      exact ⟨⟨_, _, rfl, hno, hhit⟩, rfl⟩
  | _ =>
      cases hpc

theorem Phase.childReturns
    (h : Phase s)
    (hpc : s.child = .returned) :
    EndsWithHit s.lines := by
  cases h with
  | finished hno hhit =>
      exact ⟨_, _, rfl, hno, hhit⟩
  | answered hno hcheck =>
      simp only [childWrote] at hpc
      split_ifs at hpc with hcorrect
      exact ⟨_, _, rfl, hno, hcheck.mp hcorrect⟩
  | _ =>
      cases hpc

theorem Phase.lockStep
    (h : Phase s) :
    LockStep s := by
  refine ⟨?_, ?_, ?_, h.firstHit, h.parentReturns, h.childReturns,
    fun hhit es s' hrun => h.completes hhit hrun⟩
  · cases h <;> simp
  · cases h <;> simp [request]
  · cases h <;> simp

/-- Every run of the two processes is in lock-step, whatever is typed. -/
theorem lockstep_of_run
    {line : Nat → UInt8} {res : Int}
    (hrun : run step (State.start line res) es = some s) :
    LockStep s := by
  have hphase : Phase s :=
    run_invariant (P := Phase) (fun _ _ _ h hstep => (h.step hstep).1)
      (phase_start line res) hrun
  exact hphase.lockStep

/-- The lines "85\n", "\n" and "385\n"; the second is sent with a byte of the first. -/
def threeLines : List Label :=
  [.getline [56, 53, 10], .parentWrite, .childRead, .childWrite, .parentRead,
    .getline [10], .parentWrite, .childRead, .childWrite, .parentRead,
    .getline [51, 56, 53, 10], .parentWrite, .childRead, .childWrite, .parentRead]

theorem lockstep_threeLines :
    ∃ s, run step (State.start (fun _ => 255) 7) threeLines = some s ∧
      s.requests = [[56, 53, 10], [10, 0, 10], goal] ∧
      s.verdicts = [WRONG, WRONG, CORRECT] ∧
      s.parent = .returned ∧
      LockStep s :=
  ⟨_, rfl, rfl, rfl, rfl, @lockstep_of_run _ threeLines (fun _ => 255) 7 rfl⟩

end LockStep

end GuessGame
end SysProg
