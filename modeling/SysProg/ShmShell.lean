import SysProg.Lib.CString
import SysProg.Lib.Memory
import SysProg.Lib.Run
import Mathlib.Tactic

/-!
# The shells over shared memory, ALSP/posix_shm.c and ALSP/sysv_shm.c

Both programs read lines.  A line that starts with '.' ends the program, one that starts with
'*' prints the string in the shared segment, and any other line is stored at the start of the
segment; ALSP/sysv_shm.c has '?' besides.  The text is stored without a terminator, so that
the end of a longer text that was there before stays behind it.

**Steps.** One definition for both loops, with the commands as a parameter.  A label is a line
as `getline` returns it, newline included; the texts that were entered are history.

**Results.** `prints_iff`: over any lines, what the '*' commands print are the texts entered
last, exactly if at each of them no text entered before was longer than the last one.
-/

namespace SysProg
namespace ShmShell

open CString Memory Run

section Program

def SZ_SHM_SEGMENT : Nat := 4096

def dot : UInt8 := 46
def question : UInt8 := 63
def star : UInt8 := 42

/-- Whether '?' is a command. -/
structure Shell where
  hasInfo : Bool

/-- ALSP/posix_shm.c -/
def posixShm : Shell where
  hasInfo := false

/-- ALSP/sysv_shm.c -/
def sysvShm : Shell where
  hasInfo := true

/-- A line of the input, without its newline. -/
structure Line where
  text : List UInt8
  newline_not_mem : newline ∉ text
  zero_not_mem : 0 ∉ text
  fits : text.length ≤ SZ_SHM_SEGMENT

/-- What `getline` stores in `p_input`. -/
def Line.input (line : Line) : List UInt8 :=
  line.text ++ [newline]

inductive Command where
  | exit
  | info
  | print
  | enter
deriving DecidableEq, Repr

/-- The tests of `p_input[0]`. -/
def Shell.command (sh : Shell) (input : List UInt8) : Command :=
  let first := input.headD 0
  if first = dot then .exit
  else if sh.hasInfo = true ∧ first = question then .info
  else if first = star then .print
  else .enter

/-- The segment, whether the loop goes on, and as history the texts that were entered. -/
structure State where
  segment : List UInt8
  running : Bool
  texts : List (List UInt8)

/-- The loop reads the line, and it is the command '*'. -/
def State.prints (s : State) (sh : Shell) (line : Line) : Bool :=
  s.running && sh.command line.input == .print

/-- One line. -/
def step (sh : Shell) (s : State) (line : Line) : Option State :=
  if s.running then
    match sh.command line.input with
    | .exit => some { s with running := false }
    | .info => some s
    | .print => some s
    | .enter =>
        -- `memcpy(shm_ptr, p_input, n_read - 1)`
        some
          { s with
            segment := poke s.segment 0 (line.input.take (line.input.length - 1))
            texts := s.texts ++ [line.text] }
  else none

/-- What `printf` shows of the segment between the quotes. -/
def shown (sh : Shell) (s : State) (line : Line) : List (List UInt8) :=
  if s.prints sh line then [cstr (s.segment.take SZ_SHM_SEGMENT)] else []

/-- The text that was entered last. -/
def State.last (s : State) : List UInt8 :=
  s.texts.getLastD []

/-- What should be shown. -/
def wanted (sh : Shell) (s : State) (line : Line) : List (List UInt8) :=
  if s.prints sh line then [s.last] else []

/-- The loop starts with a segment that is filled with zeros. -/
def State.start : State where
  segment := List.replicate SZ_SHM_SEGMENT 0
  running := true
  texts := []

/-- At a '*', no text was longer than the last one. -/
def LastIsLongest (sh : Shell) (s : State) (line : Line) : Prop :=
  s.prints sh line = true → ∀ text ∈ s.texts, text.length ≤ s.last.length

instance (sh : Shell) (s : State) (line : Line) : Decidable (LastIsLongest sh s line) :=
  inferInstanceAs (Decidable (_ → _))

end Program

section Invariant

variable {sh : Shell} {s s' : State} {line : Line}

/--
The segment holds a string and zeros behind it.  The string begins with the last text and is as
long as the longest one.
-/
structure Holds (content : List UInt8) (s : State) : Prop where
  segment : s.segment = content ++ List.replicate (SZ_SHM_SEGMENT - content.length) 0
  fits : content.length ≤ SZ_SHM_SEGMENT
  zero_not_mem : 0 ∉ content
  last : s.last <+: content
  longest : ∀ text ∈ s.texts, text.length ≤ content.length
  reached : content = [] ∨ ∃ text ∈ s.texts, text.length = content.length

theorem holds_start :
    Holds [] State.start := by
  refine ⟨rfl, Nat.zero_le _, by simp, by simp [State.last, State.start], ?_, Or.inl rfl⟩
  simp [State.start]

theorem Line.take_input
    (line : Line) :
    line.input.take (line.input.length - 1) = line.text := by
  simp [Line.input]

/-- A text is written over the start of the string. -/
theorem poke_content
    {content text : List UInt8}
    (htext : text.length ≤ SZ_SHM_SEGMENT) :
    poke (content ++ List.replicate (SZ_SHM_SEGMENT - content.length) 0) 0 text =
      text ++ content.drop text.length ++
        List.replicate (SZ_SHM_SEGMENT - (text ++ content.drop text.length).length) 0 := by
  have hcount : SZ_SHM_SEGMENT - content.length - (text.length - content.length) =
      SZ_SHM_SEGMENT - (text ++ content.drop text.length).length := by
    rw [List.length_append, List.length_drop]
    omega
  rw [poke, List.take_zero, List.nil_append, Nat.zero_add, List.drop_append,
    List.drop_replicate, hcount, List.append_assoc]

theorem Holds.enter
    {content : List UInt8}
    (h : Holds content s)
    (line : Line) :
    Holds (line.text ++ content.drop line.text.length)
      { s with
        segment := poke s.segment 0 (line.input.take (line.input.length - 1))
        texts := s.texts ++ [line.text] } := by
  have hfits := h.fits
  have hline := line.fits
  have hlength : (line.text ++ content.drop line.text.length).length =
      line.text.length + (content.length - line.text.length) := by
    rw [List.length_append, List.length_drop]
  refine ⟨?_, by omega, ?_, ?_, ?_, ?_⟩
  · rw [line.take_input, h.segment]
    exact poke_content line.fits
  · rw [List.mem_append, not_or]
    exact ⟨line.zero_not_mem, fun hmem => h.zero_not_mem (List.mem_of_mem_drop hmem)⟩
  · simp [State.last]
  · intro text htext
    rw [hlength]
    rcases List.mem_append.mp htext with hold | hnew
    · have := h.longest text hold
      omega
    · rw [List.mem_singleton] at hnew
      rw [hnew]
      omega
  · right
    rw [hlength]
    by_cases hlong : content.length ≤ line.text.length
    · exact ⟨line.text, by simp, by omega⟩
    · -- the old string goes on behind the text, and its length was reached before
      rcases h.reached with rfl | ⟨text, htext, heq⟩
      · exact absurd (Nat.zero_le _) hlong
      · exact ⟨text, by simp [htext], by omega⟩

theorem holds_step
    (h : ∃ content, Holds content s)
    (hstep : step sh s line = some s') :
    ∃ content, Holds content s' := by
  obtain ⟨content, h⟩ := h
  obtain ⟨-, heq⟩ := Option.ite_none_right_eq_some.mp hstep
  cases hcommand : sh.command line.input with
  | exit =>
      rw [hcommand] at heq
      cases heq
      exact ⟨content, { h with }⟩
  | info =>
      rw [hcommand] at heq
      cases heq
      exact ⟨content, h⟩
  | print =>
      rw [hcommand] at heq
      cases heq
      exact ⟨content, h⟩
  | enter =>
      rw [hcommand] at heq
      cases heq
      exact ⟨_, h.enter line⟩

theorem Holds.cstr_segment
    {content : List UInt8}
    (h : Holds content s) :
    cstr (s.segment.take SZ_SHM_SEGMENT) = content := by
  have hfits := h.fits
  have hzeros : cstr (List.replicate (SZ_SHM_SEGMENT - content.length) 0) = [] := by
    cases SZ_SHM_SEGMENT - content.length with
    | zero =>
        rfl
    | succ n =>
        rfl
  have hlength : (content ++ List.replicate (SZ_SHM_SEGMENT - content.length) (0 : UInt8)).length
      ≤ SZ_SHM_SEGMENT := by
    rw [List.length_append, List.length_replicate]
    omega
  rw [h.segment, List.take_of_length_le hlength, cstr_append h.zero_not_mem, hzeros,
    List.append_nil]

/-- A '*' prints the last text exactly if it is the longest. -/
theorem shown_eq_wanted_iff
    (h : ∃ content, Holds content s) :
    shown sh s line = wanted sh s line ↔ LastIsLongest sh s line := by
  obtain ⟨content, h⟩ := h
  unfold shown wanted LastIsLongest
  by_cases hprints : s.prints sh line = true
  · simp only [hprints, if_true, h.cstr_segment, List.cons.injEq, and_true, true_imp_iff]
    constructor
    · rintro rfl
      exact h.longest
    · intro hlongest
      have hle := h.last.length_le
      refine (h.last.eq_of_length ?_).symm
      rcases h.reached with hnil | ⟨text, htext, heq⟩
      · rw [hnil, List.length_nil] at hle ⊢
        omega
      · have := hlongest text htext
        omega
  · simp [hprints]

end Invariant

section Results

/--
Over any lines, each '*' prints the text that was entered last, exactly if at each of them no
text before was longer than the last one.
-/
theorem prints_iff
    (sh : Shell) (lines : List Line) :
    outputs (step sh) (shown sh) State.start lines =
        outputs (step sh) (wanted sh) State.start lines ↔
      Along (step sh) (LastIsLongest sh) State.start lines := by
  have hlength : ∀ s line, (shown sh s line).length = (wanted sh s line).length := by
    intro s line
    unfold shown wanted
    split_ifs <;> rfl
  rw [outputs_eq_iff hlength]
  exact along_congr (P := fun s => ∃ content, Holds content s)
    (fun s line t h hstep => holds_step h hstep) (fun s line h => shown_eq_wanted_iff h)
    ⟨[], holds_start⟩ lines

end Results

section Example

def textLine (text : List UInt8)
    (h : newline ∉ text ∧ 0 ∉ text ∧ text.length ≤ SZ_SHM_SEGMENT) : Line where
  text := text
  newline_not_mem := h.1
  zero_not_mem := h.2.1
  fits := h.2.2

/-- "hello", "hi" and '*': both programs print "hillo". -/
def shorterText : List Line :=
  [textLine [104, 101, 108, 108, 111] (by decide), textLine [104, 105] (by decide),
    textLine [42] (by decide)]

theorem prints_old_tail :
    outputs (step posixShm) (shown posixShm) State.start shorterText =
      [[104, 105, 108, 108, 111]] ∧
    outputs (step posixShm) (wanted posixShm) State.start shorterText = [[104, 105]] ∧
    outputs (step sysvShm) (shown sysvShm) State.start shorterText =
      [[104, 105, 108, 108, 111]] ∧
    outputs (step sysvShm) (wanted sysvShm) State.start shorterText = [[104, 105]] := by
  refine ⟨?_, rfl, ?_, rfl⟩
  · rfl
  · rfl

end Example
end ShmShell
end SysProg
