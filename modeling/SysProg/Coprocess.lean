import SysProg.Lib.CString
import SysProg.Lib.Decimal
import SysProg.Lib.Lines
import SysProg.Lib.Run
import Mathlib.Tactic

/-!
# The coprocess of APUE/filter.c and APUE/add2.c

The filter reads its input with `fgets`, writes each chunk to a pipe and waits for the
answer in a second pipe, which it prints.  The coprocess add2 reads from the first pipe,
adds the two numbers it finds and writes the sum, or "invalid args", to the second one.

**Steps.**  A label is one step of one of the two processes, up to its next call.  The
model starts when add2 runs, with its standard input and output connected to the pipes.  A
`write` puts its bytes into the pipe at once: there are at most 4095 of them, which is not
more than PIPE_BUF.  A `read` takes what there is, up to MAXLINE bytes; from an empty pipe it
waits, or returns 0 if the other process has ended.  Other errors of the calls are left out.

**Result.**  Nothing in the pipes marks the end of a message, and both processes store a
zero behind what they have read.  `lockstep`: the two take turns, so that each `read` gets
one message, the answers are printed in the order of the chunks, and all zeros are stored
within the array `line`.  After a chunk that starts with a zero byte both wait for ever.
-/

namespace SysProg
namespace Coprocess

open CString Decimal Lines Run

section Program

def MAXLINE : Nat := 4096

/-- "invalid args" and a newline -/
def invalidArgs : List UInt8 :=
  [105, 110, 118, 97, 108, 105, 100, 32, 97, 114, 103, 115, 10]

/-- "SIGPIPE caught" and a newline -/
def sigPipeCaught : List UInt8 :=
  [83, 73, 71, 80, 73, 80, 69, 32, 99, 97, 117, 103, 104, 116, 10]

/-- What add2 writes for a line. -/
def answer (line : List UInt8) : List UInt8 :=
  match scanTwo line with
  | some (int1, int2) => printInt (addInt int1 int2) ++ [newline]
  | none => invalidArgs

/-- The chunk that `fgets` stores, and the rest of the input. -/
def fgets (stdin : List UInt8) : List UInt8 × List UInt8 :=
  cutLine newline (MAXLINE - 1) stdin

inductive FilterPc where
  | fgets
  | write (line : List UInt8)
  | read
  | fputs (line : List UInt8)
  | exited
deriving DecidableEq, Repr

inductive Add2Pc where
  | read
  | write (line : List UInt8)
  | exited
deriving DecidableEq, Repr

/--
Both processes, the input of the filter and the two pipes.  The last two fields are history:
the texts that the filter has printed, and the indices of the stores `line[n] = 0` of both.
-/
structure State where
  filter : FilterPc
  add2 : Add2Pc
  stdin : List UInt8
  pipe1 : List UInt8
  pipe2 : List UInt8
  printed : List (List UInt8)
  stores : List Nat
deriving DecidableEq, Repr

def State.start (stdin : List UInt8) : State where
  filter := .fgets
  add2 := .read
  stdin := stdin
  pipe1 := []
  pipe2 := []
  printed := []
  stores := []

/-- The step of the filter; without a reader, its `write` raises SIGPIPE. -/
def filterStep (s : State) : Option State :=
  match s.filter with
  | .fgets =>
      if s.stdin = [] then some { s with filter := .exited }
      else
        some { s with
          stdin := (fgets s.stdin).2
          filter := .write (cstr (fgets s.stdin).1) }
  | .write line =>
      if s.add2 = .exited then
        some { s with printed := s.printed ++ [sigPipeCaught], filter := .exited }
      else some { s with pipe1 := s.pipe1 ++ line, filter := .read }
  | .read =>
      if s.pipe2 = [] then
        if s.add2 = .exited then some { s with filter := .exited } else none
      else
        some { s with
          pipe2 := s.pipe2.drop MAXLINE
          stores := s.stores ++ [(s.pipe2.take MAXLINE).length]
          filter := .fputs (cstr (s.pipe2.take MAXLINE)) }
  | .fputs line => some { s with printed := s.printed ++ [line], filter := .fgets }
  | .exited => none

/-- The step of add2; without a reader, its `write` ends it by SIGPIPE. -/
def add2Step (s : State) : Option State :=
  match s.add2 with
  | .read =>
      if s.pipe1 = [] then
        if s.filter = .exited then some { s with add2 := .exited } else none
      else
        some { s with
          pipe1 := s.pipe1.drop MAXLINE
          stores := s.stores ++ [(s.pipe1.take MAXLINE).length]
          add2 := .write (answer (cstr (s.pipe1.take MAXLINE))) }
  | .write line =>
      if s.filter = .exited then some { s with add2 := .exited }
      else some { s with pipe2 := s.pipe2 ++ line, add2 := .read }
  | .exited => none

inductive Proc where
  | filter
  | add2
deriving DecidableEq, Repr

def step (s : State) : Proc → Option State
  | .filter => filterStep s
  | .add2 => add2Step s

/-- What add2 answers to the chunks of an input, each cut at its first zero byte. -/
def answers (stdin : List UInt8) : List (List UInt8) :=
  (chunks newline (MAXLINE - 1) stdin).map (fun chunk => answer (cstr chunk))

end Program

section Messages

variable {stdin line : List UInt8}

theorem answers_of_ne_nil
    (hne : stdin ≠ []) :
    answers stdin = answer (cstr (fgets stdin).1) :: answers (fgets stdin).2 := by
  rw [answers, show MAXLINE - 1 = 4094 + 1 from rfl, chunks_of_ne_nil hne]
  rfl

/-- A chunk without its zero bytes: it fits into `line` with a zero behind it. -/
structure IsChunk (line : List UInt8) : Prop where
  short : line.length < MAXLINE
  noZero : 0 ∉ line

theorem isChunk_fgets
    (stdin : List UInt8) :
    IsChunk (cstr (fgets stdin).1) := by
  refine ⟨?_, zero_not_mem_cstr _⟩
  have hle : (fgets stdin).1.length ≤ MAXLINE - 1 := length_cutLine_le newline _ stdin
  have hcstr := cstr_length_le (fgets stdin).1
  simp only [MAXLINE] at hle ⊢
  omega

/-- An answer is not empty, and is a chunk too. -/
theorem isChunk_answer
    (line : List UInt8) :
    answer line ≠ [] ∧ IsChunk (answer line) := by
  unfold answer
  split
  · rename_i int1 int2 _
    have hlen := length_printInt_le (toInt_fits (int1 + int2))
    refine ⟨by simp, ?_, ?_⟩
    · simp only [List.length_append, List.length_singleton, MAXLINE, addInt]
      omega
    · rw [List.mem_append, not_or]
      exact ⟨zero_not_mem_printInt _, by decide⟩
  · exact ⟨by decide, by decide, by decide⟩

/-- A `read` takes all of a chunk. -/
theorem IsChunk.take_eq
    (h : IsChunk line) :
    line.take MAXLINE = line ∧ line.drop MAXLINE = [] ∧ cstr line = line :=
  ⟨List.take_of_length_le (Nat.le_of_lt h.short), List.drop_of_length_le (Nat.le_of_lt h.short),
    cstr_eq_self h.noZero⟩

end Messages

section Lockstep

variable {all : List (List UInt8)} {s s' : State} {who : Proc}

/-- The turns that the two processes take; `all` are the answers to the whole input. -/
inductive Phase (all : List (List UInt8)) : State → Prop
  | idle {stdin : List UInt8} {printed : List (List UInt8)} {stores : List Nat}
      (hall : printed ++ answers stdin = all) :
      Phase all
        { filter := .fgets, add2 := .read, stdin := stdin, pipe1 := [], pipe2 := []
          printed := printed, stores := stores }
  | typed {stdin line : List UInt8} {printed : List (List UInt8)} {stores : List Nat}
      (hall : printed ++ answer line :: answers stdin = all)
      (hline : IsChunk line) :
      Phase all
        { filter := .write line, add2 := .read, stdin := stdin, pipe1 := [], pipe2 := []
          printed := printed, stores := stores }
  | sent {stdin line : List UInt8} {printed : List (List UInt8)} {stores : List Nat}
      (hall : printed ++ answer line :: answers stdin = all)
      (hline : IsChunk line) :
      Phase all
        { filter := .read, add2 := .read, stdin := stdin, pipe1 := line, pipe2 := []
          printed := printed, stores := stores }
  | added {stdin line : List UInt8} {printed : List (List UInt8)} {stores : List Nat}
      (hall : printed ++ answer line :: answers stdin = all) :
      Phase all
        { filter := .read, add2 := .write (answer line), stdin := stdin
          pipe1 := [], pipe2 := [], printed := printed, stores := stores }
  | answered {stdin line : List UInt8} {printed : List (List UInt8)} {stores : List Nat}
      (hall : printed ++ answer line :: answers stdin = all) :
      Phase all
        { filter := .read, add2 := .read, stdin := stdin
          pipe1 := [], pipe2 := answer line, printed := printed, stores := stores }
  | received {stdin line : List UInt8} {printed : List (List UInt8)} {stores : List Nat}
      (hall : printed ++ answer line :: answers stdin = all) :
      Phase all
        { filter := .fputs (answer line), add2 := .read, stdin := stdin
          pipe1 := [], pipe2 := [], printed := printed, stores := stores }
  | finished {stdin : List UInt8} {printed : List (List UInt8)} {stores : List Nat} {pc : Add2Pc}
      (hall : printed <+: all)
      (hpc : pc = .read ∨ pc = .exited) :
      Phase all
        { filter := .exited, add2 := pc, stdin := stdin, pipe1 := [], pipe2 := []
          printed := printed, stores := stores }

theorem Phase.printed_prefix
    (h : Phase all s) :
    s.printed <+: all := by
  cases h with
  | idle hall =>
      exact ⟨_, hall⟩
  | typed hall _ =>
      exact ⟨_, hall⟩
  | sent hall _ =>
      exact ⟨_, hall⟩
  | added hall =>
      exact ⟨_, hall⟩
  | answered hall =>
      exact ⟨_, hall⟩
  | received hall =>
      exact ⟨_, hall⟩
  | finished hall _ =>
      exact hall

/-- A step goes on to the next turn, and stores at most behind a chunk. -/
theorem Phase.step
    (h : Phase all s)
    (hstep : step s who = some s') :
    Phase all s' ∧ (s'.stores = s.stores ∨ ∃ n < MAXLINE, s'.stores = s.stores ++ [n]) := by
  cases h with
  | @idle stdin printed stores hall =>
      cases who with
      | filter =>
          simp only [Coprocess.step, filterStep] at hstep
          split_ifs at hstep with hend
          · cases hstep
            exact ⟨.finished ⟨_, hall⟩ (Or.inl rfl), Or.inl rfl⟩
          · cases hstep
            rw [answers_of_ne_nil hend] at hall
            exact ⟨.typed hall (isChunk_fgets stdin), Or.inl rfl⟩
      | add2 =>
          simp [Coprocess.step, add2Step] at hstep
  | @typed stdin line printed stores hall hline =>
      cases who with
      | filter =>
          simp only [Coprocess.step, filterStep, reduceCtorEq, if_false] at hstep
          cases hstep
          exact ⟨.sent hall hline, Or.inl rfl⟩
      | add2 =>
          simp [Coprocess.step, add2Step] at hstep
  | @sent stdin line printed stores hall hline =>
      cases who with
      | filter =>
          simp [Coprocess.step, filterStep] at hstep
      | add2 =>
          obtain ⟨htake, hdrop, hcstr⟩ := hline.take_eq
          simp only [Coprocess.step, add2Step, htake, hdrop, hcstr, reduceCtorEq, if_false] at hstep
          -- an empty chunk is waited for
          split_ifs at hstep with hempty
          cases hstep
          exact ⟨.added hall, Or.inr ⟨line.length, hline.short, rfl⟩⟩
  | @added stdin line printed stores hall =>
      cases who with
      | filter =>
          simp [Coprocess.step, filterStep] at hstep
      | add2 =>
          simp only [Coprocess.step, add2Step, reduceCtorEq, if_false] at hstep
          cases hstep
          exact ⟨.answered hall, Or.inl rfl⟩
  | @answered stdin line printed stores hall =>
      obtain ⟨hne, hchunk⟩ := isChunk_answer line
      obtain ⟨htake, hdrop, hcstr⟩ := hchunk.take_eq
      cases who with
      | filter =>
          simp only [Coprocess.step, filterStep, htake, hdrop, hcstr, if_neg hne] at hstep
          cases hstep
          exact ⟨.received hall, Or.inr ⟨_, hchunk.short, rfl⟩⟩
      | add2 =>
          simp [Coprocess.step, add2Step] at hstep
  | @received stdin line printed stores hall =>
      cases who with
      | filter =>
          simp only [Coprocess.step, filterStep] at hstep
          cases hstep
          refine ⟨.idle ?_, Or.inl rfl⟩
          rw [List.append_assoc]
          exact hall
      | add2 =>
          simp [Coprocess.step, add2Step] at hstep
  | finished hall hpc =>
      cases who with
      | filter =>
          simp [Coprocess.step, filterStep] at hstep
      | add2 =>
          rcases hpc with rfl | rfl
          · simp only [Coprocess.step, add2Step, if_true] at hstep
            cases hstep
            exact ⟨.finished hall (Or.inr rfl), Or.inl rfl⟩
          · simp [Coprocess.step, add2Step] at hstep

theorem inBounds_step
    (h : Phase all s ∧ ∀ n ∈ s.stores, n < MAXLINE)
    (hstep : step s who = some s') :
    Phase all s' ∧ ∀ n ∈ s'.stores, n < MAXLINE := by
  obtain ⟨hphase, hstores⟩ := h
  obtain ⟨hphase', hsame | ⟨m, hm, hstore⟩⟩ := hphase.step hstep
  · rw [hsame]
    exact ⟨hphase', hstores⟩
  · rw [hstore, List.forall_mem_append, List.forall_mem_singleton]
    exact ⟨hphase', hstores, hm⟩

/--
For every input and every interleaving, the k-th text that the filter has printed is the
answer to its k-th chunk, and all zeros are stored within `line`.
-/
theorem lockstep
    (stdin : List UInt8) {es : List Proc} {t : State}
    (hrun : run step (State.start stdin) es = some t) :
    t.printed <+: answers stdin ∧
      t.printed.flatten <+: (answers stdin).flatten ∧
      ∀ n ∈ t.stores, n < MAXLINE := by
  have hstart : Phase (answers stdin) (State.start stdin) ∧
      ∀ n ∈ (State.start stdin).stores, n < MAXLINE :=
    ⟨.idle rfl, by simp [State.start]⟩
  obtain ⟨hphase, hstores⟩ := run_invariant (fun _ _ _ => inBounds_step) hstart hrun
  obtain ⟨rest, hrest⟩ := hphase.printed_prefix
  refine ⟨⟨rest, hrest⟩, ⟨rest.flatten, ?_⟩, hstores⟩
  rw [← List.flatten_append, hrest]

end Lockstep

section Example

/-- "1 2" and "x", two lines -/
def twoLines : List UInt8 :=
  [49, 32, 50, 10, 120, 10]

/-- Both processes take their turns for the two lines. -/
def twoTurns : List Proc :=
  [.filter, .filter, .add2, .add2, .filter, .filter,
    .filter, .filter, .add2, .add2, .filter, .filter]

theorem lockstep_twoLines :
    ∃ t, run step (State.start twoLines) twoTurns = some t ∧
      t.printed = [[51, 10], invalidArgs] ∧
      t.printed <+: answers twoLines ∧
      t.printed.flatten <+: (answers twoLines).flatten ∧
      ∀ n ∈ t.stores, n < MAXLINE :=
  ⟨_, rfl, by decide, @lockstep twoLines twoTurns _ rfl⟩

end Example

end Coprocess
end SysProg
