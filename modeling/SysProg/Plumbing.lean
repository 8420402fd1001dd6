import SysProg.Lib.DescriptorTable
import Mathlib.Tactic

/-!
# The descriptors behind standard input and output

The programs APUE/filter.c, APUE/pty.c (with `pty_fork` and `do_driver`) and test/pipe.c connect
two processes: one opens a pipe, a socket pair or a pseudo terminal, and each process moves its
end to the numbers 0, 1 or 2 before it calls `exec` or goes on.  The numbers that the ends get
first depend on what is open when the program is started: they may themselves be 0, 1 or 2.

**Model.**  A function here takes the table with which the program is started and gives the
table of a process when it has finished, or nothing if it has called `err_sys` on the way.  The
system calls succeed, except for a `dup2` or a `close` of a number that is not open.  `fd_pipe`
is only declared in apue.h; it is a parameter, and `FdPipe` says what its callers expect of it.

**Results.**  `filter_tables`: whatever is open at the start, parent and child end up with
exactly their ends, and with everything else as it was.  `pty_tables`: so do `pty_fork` and
`do_driver` each for itself, but `do_driver` puts its socket over the master of the terminal if
that was given the number 0 or 1.  `pipe_tables`: the two processes of test/pipe.c are connected
exactly if 0 and 1 were open at the start.
-/

namespace SysProg
namespace Plumbing

open DescriptorTable

universe u

variable {φ : Type u}

section Programs

/-- The child of APUE/filter.c up to `execl`. -/
def filterChild (t : Table φ) (r₁ w₁ r₂ w₂ : φ) : Option (Table φ) :=
  let fd1 := t.pipe r₁ w₁
  let fd2 := fd1.table.pipe r₂ w₂
  (((fd2.table.close fd1.wr).close fd2.rd).redirect fd1.rd 0).bind (fun t => t.redirect fd2.wr 1)

/-- Its parent in the loop. -/
def filterParent (t : Table φ) (r₁ w₁ r₂ w₂ : φ) : Table φ :=
  let fd1 := t.pipe r₁ w₁
  let fd2 := fd1.table.pipe r₂ w₂
  (fd2.table.close fd1.rd).close fd2.wr

/-- The child of `pty_fork`, which opens the other side of the terminal. -/
def ptyForkChild (t : Table φ) (master slave : φ) : Option (Table φ) :=
  let fdm := t.free
  let t₁ := t.openFile master
  let fds := t₁.free
  ((t₁.openFile slave).close fdm).takeOver fds [0, 1, 2]

/--
`fd_pipe`, with the files that it opens and -1 as `none`.  When it succeeds, it has opened the
two ends of a connection at free numbers.
-/
structure FdPipe (φ : Type u) where
  call : Table φ → φ → φ → Option (Pipe φ)
  opens : ∀ {t near far p}, call t near far = some p → p.Opens t near far

/-- The child of `do_driver` up to `execlp`. -/
def doDriverChild (fdPipe : FdPipe φ) (t : Table φ) (near far : φ) : Option (Table φ) :=
  (fdPipe.call t near far).bind (fun pipe =>
    (pipe.table.close pipe.wr).takeOver pipe.rd [0, 1])

def doDriverParent (fdPipe : FdPipe φ) (t : Table φ) (near far : φ) : Option (Table φ) :=
  (fdPipe.call t near far).bind (fun pipe =>
    (pipe.table.close pipe.rd).takeOver pipe.wr [0, 1])

/-- `main` of APUE/pty.c with the option -d, when it calls `loop`. -/
def ptyMain (fdPipe : FdPipe φ) (t : Table φ) (master near far : φ) : Option (Table φ) :=
  doDriverParent fdPipe (t.openFile master) near far

/-- `close(fd) == -1` -/
def closeChecked (t : Table φ) (fd : Nat) : Option (Table φ) :=
  if t.entry fd = none then none else some (t.close fd)

/-- A process of test/pipe.c up to `execl`, with the end `fd` and its target. -/
def pipeProcess (p : Pipe φ) (fd target : Nat) : Option (Table φ) :=
  (p.table.dup2 fd target).bind (fun t =>
    (closeChecked t p.rd).bind (fun t => closeChecked t p.wr))

def pipeChild (t : Table φ) (r w : φ) : Option (Table φ) :=
  let fd := t.pipe r w
  pipeProcess fd fd.wr 1

def pipeParent (t : Table φ) (r w : φ) : Option (Table φ) :=
  let fd := t.pipe r w
  pipeProcess fd fd.rd 0

end Programs

section Careful

variable {t : Table φ}

/-- What is known of the four numbers of APUE/filter.c. -/
theorem filter_numbers
    (t : Table φ) (r₁ w₁ r₂ w₂ : φ) :
    let fd1 := t.pipe r₁ w₁
    let fd2 := fd1.table.pipe r₂ w₂
    t.entry fd1.rd = none ∧ t.entry fd2.rd = none ∧ t.entry fd2.wr = none ∧
      fd1.rd < fd2.rd ∧ fd2.rd < fd2.wr ∧ fd1.wr ≠ fd2.rd ∧ fd1.wr ≠ fd2.wr := by
  intro fd1 fd2
  obtain ⟨hlt₁, hrd₁, hwr₁⟩ := pipe_spec t r₁ w₁
  obtain ⟨hlt₂, hrd₂, hwr₂⟩ := pipe_spec fd1.table r₂ w₂
  -- a number that is free in the table with the first pipe is not one of its ends
  have hold : ∀ fd, fd1.table.entry fd = none → fd ≠ fd1.rd ∧ fd ≠ fd1.wr ∧ t.entry fd = none := by
    intro fd hfd
    rw [table_pipe, entry_set, entry_set] at hfd
    split_ifs at hfd with hw hr
    exact ⟨hr, hw, hfd⟩
  obtain ⟨hne, hnew, hrd⟩ := hold fd2.rd hrd₂
  obtain ⟨_, hnew', hwr⟩ := hold fd2.wr hwr₂
  have hle : fd1.rd ≤ fd2.rd := free_le hrd
  exact ⟨hrd₁, hrd, hwr, by omega, hlt₂, Ne.symm hnew, Ne.symm hnew'⟩

theorem filterChild_eq
    {r₁ w₁ r₂ w₂ : φ} :
    filterChild t r₁ w₁ r₂ w₂ = some ((t.set 0 (some r₁)).set 1 (some w₂)) := by
  obtain ⟨hrd₁, _, hwr₂, hlt, hlt₂, hne, hne'⟩ := filter_numbers t r₁ w₁ r₂ w₂
  simp only [filterChild]
  generalize hfd2 : (t.pipe r₁ w₁).table.pipe r₂ w₂ = fd2 at *
  -- the two other ends are closed
  have hclosed : (fd2.table.close (t.pipe r₁ w₁).wr).close fd2.rd =
      (t.set (t.pipe r₁ w₁).rd (some r₁)).set fd2.wr (some w₂) := by
    rw [Table.close, Table.close, set_comm hne]
    have hrd := (pipe_opens (t.pipe r₁ w₁).table r₂ w₂).close_rd
    rw [hfd2, Table.close] at hrd
    rw [hrd, set_comm (Ne.symm hne')]
    exact congrArg (fun t => t.set fd2.wr (some w₂)) (pipe_opens t r₁ w₁).close_wr
  have hentry : ((t.set (t.pipe r₁ w₁).rd (some r₁)).set fd2.wr (some w₂)).entry
      (t.pipe r₁ w₁).rd = some r₁ := by
    rw [entry_set_of_ne (by omega), entry_set_self]
  have hfirst : ((t.set (t.pipe r₁ w₁).rd (some r₁)).set fd2.wr (some w₂)).close
      (t.pipe r₁ w₁).rd = t.set fd2.wr (some w₂) := by
    rw [set_comm (by omega)]
    refine close_set ?_
    rw [entry_set_of_ne (by omega), hrd₁]
  -- the write end is not at 0, where `dup2` would have closed it
  have hpos : fd2.wr ≠ 0 := by omega
  rw [hclosed, redirect_eq hentry, hfirst, Option.bind_some, set_comm hpos,
    redirect_eq entry_set_self]
  have hfree : (t.set 0 (some r₁)).entry fd2.wr = none := by
    rw [entry_set_of_ne hpos, hwr₂]
  rw [close_set hfree]

theorem filterParent_eq
    {r₁ w₁ r₂ w₂ : φ} :
    filterParent t r₁ w₁ r₂ w₂ =
      (t.set (t.pipe r₁ w₁).wr (some w₁)).set ((t.pipe r₁ w₁).table.pipe r₂ w₂).rd (some r₂) := by
  obtain ⟨_, _, _, hlt, hlt₂, _, _⟩ := filter_numbers t r₁ w₁ r₂ w₂
  simp only [filterParent]
  have hwr := (pipe_opens (t.pipe r₁ w₁).table r₂ w₂).close_wr
  rw [Table.close] at hwr
  rw [Table.close, Table.close, set_comm (by omega), hwr, set_comm (by omega)]
  exact congrArg (fun t' => t'.set ((t.pipe r₁ w₁).table.pipe r₂ w₂).rd (some r₂))
    (pipe_opens t r₁ w₁).close_rd

/--
Whatever is open when APUE/filter.c is started: its child runs `add2` with the two pipes as
standard input and output and otherwise with the files of the start, no end of a pipe left over;
its parent has its two ends in addition to these files.
-/
theorem filter_tables
    (t : Table φ) (r₁ w₁ r₂ w₂ : φ) :
    filterChild t r₁ w₁ r₂ w₂ = some ((t.set 0 (some r₁)).set 1 (some w₂)) ∧
    ∃ fd₁ fd₂, fd₁ ≠ fd₂ ∧ t.entry fd₁ = none ∧ t.entry fd₂ = none ∧
      filterParent t r₁ w₁ r₂ w₂ = (t.set fd₁ (some w₁)).set fd₂ (some r₂) := by
  obtain ⟨_, hrd₂, _, _, _, hne, _⟩ := filter_numbers t r₁ w₁ r₂ w₂
  exact ⟨filterChild_eq, _, _, hne, (pipe_spec t r₁ w₁).2.2, hrd₂, filterParent_eq⟩

end Careful

section Terminal

variable {t : Table φ}

/-- The child of `pty_fork` has the terminal three times, and nothing else that is new. -/
theorem ptyForkChild_eq
    {master slave : φ} :
    ptyForkChild t master slave = some (t.setAll [0, 1, 2] slave) := by
  have hfree := entry_free (t.openFile master)
  have hne : (t.openFile master).free ≠ t.free := by
    intro heq
    rw [heq, Table.openFile, entry_set_self] at hfree
    cases hfree
  have hfds : t.entry (t.openFile master).free = none := (entry_set_of_ne hne).symm.trans hfree
  have hclosed : ((t.openFile master).openFile slave).close t.free =
      t.set (t.openFile master).free (some slave) := by
    have hopen : (t.openFile master).openFile slave =
        (t.set t.free (some master)).set (t.openFile master).free (some slave) := rfl
    rw [hopen, set_comm (Ne.symm hne)]
    refine close_set ?_
    rw [entry_set_of_ne (Ne.symm hne), entry_free]
  simp only [ptyForkChild]
  rw [hclosed, takeOver_eq entry_set_self, close_set hfds]

theorem doDriverChild_eq
    {fdPipe : FdPipe φ} {near far : φ} {pipe : Pipe φ}
    (hpipe : fdPipe.call t near far = some pipe) :
    doDriverChild fdPipe t near far = some (t.setAll [0, 1] near) := by
  have hopens := fdPipe.opens hpipe
  rw [doDriverChild, hpipe, Option.bind_some, hopens.close_wr, takeOver_eq entry_set_self,
    close_set hopens.rd]

theorem doDriverParent_eq
    {fdPipe : FdPipe φ} {near far : φ} {pipe : Pipe φ}
    (hpipe : fdPipe.call t near far = some pipe) :
    doDriverParent fdPipe t near far = some (t.setAll [0, 1] far) := by
  have hopens := fdPipe.opens hpipe
  rw [doDriverParent, hpipe, Option.bind_some, hopens.close_rd, takeOver_eq entry_set_self,
    close_set hopens.wr]

/-- The first free number is above 1 if and only if 0 and 1 are in use. -/
theorem free_mem_iff :
    t.free ∈ [0, 1] ↔ ¬ (t.entry 0 ≠ none ∧ t.entry 1 ≠ none) := by
  have hfree := entry_free t
  constructor
  · intro hmem hopen
    simp only [List.mem_cons, List.not_mem_nil, or_false] at hmem
    rcases hmem with hzero | hone
    · rw [hzero] at hfree
      exact hopen.1 hfree
    · rw [hone] at hfree
      exact hopen.2 hfree
  · intro hclosed
    have hle : t.free ≤ 1 := by
      rcases not_and_or.mp hclosed with hzero | hone
      · exact (free_le (not_not.mp hzero)).trans (Nat.zero_le 1)
      · exact free_le (not_not.mp hone)
    have hcases : t.free = 0 ∨ t.free = 1 := by omega
    simpa using hcases

/--
The tables of APUE/pty.c with a driver, if `fd_pipe` succeeds: the program in the terminal has
it as 0, 1 and 2, the driver and `loop` have the ends of `fd_pipe` as 0 and 1.  `loop` is called
with the number of the master, and finds it there exactly if 0 and 1 were open at the start.
-/
theorem pty_tables
    (fdPipe : FdPipe φ) (t : Table φ) (master slave near far : φ) {pipe : Pipe φ}
    (hfar : master ≠ far)
    (hpipe : fdPipe.call (t.openFile master) near far = some pipe) :
    ptyForkChild t master slave = some (t.setAll [0, 1, 2] slave) ∧
    doDriverChild fdPipe (t.openFile master) near far =
      some ((t.openFile master).setAll [0, 1] near) ∧
    ∃ table, ptyMain fdPipe t master near far = some table ∧
      table.entry 0 = some far ∧ table.entry 1 = some far ∧
      (table.entry t.free = some master ↔ t.entry 0 ≠ none ∧ t.entry 1 ≠ none) := by
  refine ⟨ptyForkChild_eq, doDriverChild_eq hpipe, _, doDriverParent_eq hpipe, ?_, ?_, ?_⟩
  · rw [entry_setAll, if_pos (by simp)]
  · rw [entry_setAll, if_pos (by simp)]
  · rw [entry_setAll]
    split_ifs with hmem
    · refine iff_of_false ?_ (free_mem_iff.mp hmem)
      simpa using Ne.symm hfar
    · refine iff_of_true ?_ (not_not.mp (mt free_mem_iff.mpr hmem))
      rw [Table.openFile, entry_set_self]

/-- A start with standard input closed. -/
def onlyOutput : Table Nat where
  entry := fun fd => if fd = 1 ∨ fd = 2 then some 7 else none
  bounded := by
    refine ⟨3, ?_⟩
    intro fd hfd
    rw [if_neg (by omega)]

/-- The lowest free numbers, as for `pipe`. -/
def lowestNumbers : FdPipe Nat where
  call := fun t near far => some (t.pipe near far)
  opens := by
    intro t near far p hcall
    cases hcall
    exact pipe_opens t near far

/-- The master gets the number 0 and is lost. -/
theorem pty_tables_onlyOutput :
    ∃ table, ptyMain lowestNumbers onlyOutput 10 11 12 = some table ∧
      table.entry 0 = some 12 := by
  obtain ⟨_, _, table, hmain, hzero, _, _⟩ := pty_tables
    lowestNumbers onlyOutput 10 13 11 12 (by decide) rfl
  exact ⟨table, hmain, hzero⟩

end Terminal

section Careless

variable {t : Table φ} {r w : φ}

theorem entry_pipe_rd
    (t : Table φ) (r w : φ) :
    (t.pipe r w).table.entry (t.pipe r w).rd = some r := by
  obtain ⟨hlt, _, _⟩ := pipe_spec t r w
  rw [table_pipe, entry_set_of_ne (by omega), entry_set_self]

theorem entry_pipe_wr
    (t : Table φ) (r w : φ) :
    (t.pipe r w).table.entry (t.pipe r w).wr = some w := by
  rw [table_pipe, entry_set_self]

/--
Both ends are closed after `dup2`.  If one of them had the number of the target, then the
process is left with what it was started with.
-/
theorem pipeProcess_eq
    {fd target : Nat} {file : φ}
    (hfile : (t.pipe r w).table.entry fd = some file) :
    pipeProcess (t.pipe r w) fd target =
      some (if target = (t.pipe r w).rd ∨ target = (t.pipe r w).wr then t
        else t.set target (some file)) := by
  obtain ⟨hlt, hrd, hwr⟩ := pipe_spec t r w
  have hdup : (t.pipe r w).table.dup2 fd target =
      some ((t.pipe r w).table.set target (some file)) := by
    rw [Table.dup2, hfile, Option.map_some]
  -- an end stays open under `dup2`, whether it is the target or not
  have hopen : ∀ k, (t.pipe r w).table.entry k ≠ none →
      ((t.pipe r w).table.set target (some file)).entry k ≠ none := by
    intro k hk
    rw [entry_set]
    split_ifs
    · exact Option.some_ne_none file
    · exact hk
  have hopenRd := hopen (t.pipe r w).rd (by rw [entry_pipe_rd]; exact Option.some_ne_none r)
  have hopenWr := hopen (t.pipe r w).wr (by rw [entry_pipe_wr]; exact Option.some_ne_none w)
  have hstill : (((t.pipe r w).table.set target (some file)).close (t.pipe r w).rd).entry
      (t.pipe r w).wr ≠ none := by
    rw [Table.close, entry_set_of_ne (by omega)]
    exact hopenWr
  rw [pipeProcess, hdup, Option.bind_some, closeChecked, if_neg hopenRd, Option.bind_some,
    closeChecked, if_neg hstill]
  refine congrArg some (Table.ext (funext fun k => ?_))
  rw [Table.close, Table.close, table_pipe]
  by_cases hends : k = (t.pipe r w).rd ∨ k = (t.pipe r w).wr
  · have hfree : t.entry k = none := by
      rcases hends with rfl | rfl
      · exact hrd
      · exact hwr
    have hclosed : ∀ t' : Table φ,
        ((t'.set (t.pipe r w).rd none).set (t.pipe r w).wr none).entry k = none := by
      intro t'
      rw [entry_set, entry_set]
      rcases hends with hk | hk <;> simp [hk]
    rw [hclosed]
    split_ifs with htarget
    · exact hfree.symm
    · have hne : k ≠ target := by
        rintro rfl
        exact htarget hends
      rw [entry_set_of_ne hne, hfree]
  · obtain ⟨hneRd, hneWr⟩ := not_or.mp hends
    rw [entry_set_of_ne hneWr, entry_set_of_ne hneRd, entry_set]
    split_ifs with hk htarget htarget
    · exact absurd (hk ▸ htarget) hends
    · rw [hk, entry_set_self]
    · rw [entry_set_of_ne hneWr, entry_set_of_ne hneRd]
    · rw [entry_set_of_ne hneWr, entry_set_of_ne hneRd, entry_set_of_ne hk]

theorem zero_mem_pipe_iff :
    (0 = (t.pipe r w).rd ∨ 0 = (t.pipe r w).wr) ↔ t.entry 0 = none := by
  obtain ⟨hlt, hrd, _⟩ := pipe_spec t r w
  constructor
  · rintro (hzero | hzero)
    · rw [hzero, hrd]
    · omega
  · intro hfree
    have hle : (t.pipe r w).rd ≤ 0 := free_le hfree
    exact Or.inl (by omega)

/--
If 1 is free then one of the ends is there: the read end, or the write end when 0 is free too.
-/
theorem one_mem_pipe_iff :
    (1 = (t.pipe r w).rd ∨ 1 = (t.pipe r w).wr) ↔ t.entry 1 = none := by
  obtain ⟨hlt, hrd, hwr⟩ := pipe_spec t r w
  constructor
  · rintro (hone | hone)
    · rw [hone, hrd]
    · rw [hone, hwr]
  · intro hfree
    by_cases hone : 1 = (t.pipe r w).rd
    · exact Or.inl hone
    · have hstill : (t.openFile r).entry 1 = none := (entry_set_of_ne hone).trans hfree
      have hle : (t.pipe r w).wr ≤ 1 := free_le hstill
      exact Or.inr (by omega)

/--
The two processes of test/pipe.c do not compare the numbers before they close them.  So `ls`
writes to the pipe only if 1 was open at the start, and `sort` reads from it only if 0 was;
otherwise they run without standard output or input.
-/
theorem pipe_tables
    (t : Table φ) (r w : φ) :
    pipeChild t r w = some (if t.entry 1 = none then t else t.set 1 (some w)) ∧
    pipeParent t r w = some (if t.entry 0 = none then t else t.set 0 (some r)) := by
  constructor
  · refine (pipeProcess_eq (entry_pipe_wr t r w)).trans ?_
    simp only [one_mem_pipe_iff]
  · refine (pipeProcess_eq (entry_pipe_rd t r w)).trans ?_
    simp only [zero_mem_pipe_iff]

end Careless

end Plumbing
end SysProg
