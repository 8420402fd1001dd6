import Mathlib.Data.Nat.Find
import Mathlib.Data.Finset.Insert
import Mathlib.Data.Set.Finite.Basic
import Mathlib.Tactic

/-!
# `daemonize` of APUE/daemonize.c

`daemonize` forks twice, closes all descriptors below the limit on their number, and opens
/dev/null three times; since the lowest free number is taken, these are 0, 1 and 2, and the
function ends the process if they are not.

The limit is meant to be replaced by 1024 when it is infinite, but the test is an assignment.
It replaces every limit by 1024, and the descriptors from 1024 on stay open.

**Results.** `standard_only_iff`: when `daemonize` returns, the open descriptors below the limit
are 0, 1 and 2, exactly if none from 1024 on was open at entry.  `daemonize_returns`: it returns
if no system call fails.
-/

namespace SysProg
namespace Daemonize

section Program

def RLIM_INFINITY : Nat := 2 ^ 64 - 1

/-- `struct rlimit` -/
structure Rlimit where
  rlimCur : Nat
  rlimMax : Nat
deriving DecidableEq, Repr

inductive Fork where
  | error
  | child
  | parent
deriving DecidableEq, Repr

/-- The results of the system calls; a `Bool` says whether the call succeeds. -/
structure Kernel where
  getrlimit : Option Rlimit
  fork : Fork
  sigaction : Bool
  secondFork : Fork
  chdir : Bool
  openNull : Bool
  firstDup : Bool
  secondDup : Bool

inductive Outcome where
  | exited (status : Nat)
  /-- `daemonize` returns, with these descriptors open -/
  | returned (fds : Finset Nat)
deriving DecidableEq

/-- The lowest number that is not in use. -/
def lowest (fds : Finset Nat) : Nat :=
  Nat.find (Infinite.exists_notMem_finset fds)

/-- `open`: the number, or -1, and the open descriptors. -/
def openFd (ok : Bool) (fds : Finset Nat) : Int × Finset Nat :=
  if ok then (lowest fds, insert (lowest fds) fds) else (-1, fds)

/-- `dup(0)` -/
def dupZero (ok : Bool) (fds : Finset Nat) : Int × Finset Nat :=
  if 0 ∈ fds then openFd ok fds else (-1, fds)

/-- `if (rl.rlim_max = RLIM_INFINITY) rl.rlim_max = 1024;` -/
def replaceInfinity (rl : Rlimit) : Rlimit :=
  let assigned := { rl with rlimMax := RLIM_INFINITY }
  if assigned.rlimMax ≠ 0 then { assigned with rlimMax := 1024 } else assigned

/-- The loop that closes the descriptors below `n`. -/
def closeBelow : Nat → Finset Nat → Finset Nat
  | 0, fds => fds
  | n + 1, fds => (closeBelow n fds).erase n

/-- The three standard descriptors are opened, and their numbers compared. -/
def openStandard (k : Kernel) (closed : Finset Nat) : Outcome :=
  let (fd0, fds₀) := openFd k.openNull closed
  let (fd1, fds₁) := dupZero k.firstDup fds₀
  let (fd2, fds₂) := dupZero k.secondDup fds₁
  if fd0 ≠ 0 ∨ fd1 ≠ 1 ∨ fd2 ≠ 2 then .exited 1 else .returned fds₂

def daemonize (k : Kernel) (fds : Finset Nat) : Outcome :=
  match k.getrlimit with
  | none => .exited 1
  | some rl =>
      match k.fork with
      | .error => .exited 1
      | .parent => .exited 0
      | .child =>
          if k.sigaction then
            match k.secondFork with
            | .error => .exited 1
            | .parent => .exited 0
            | .child =>
                if k.chdir then openStandard k (closeBelow (replaceInfinity rl).rlimMax fds)
                else .exited 1
          else .exited 1

end Program

section Closing

variable {fds fds' : Finset Nat}

theorem mem_closeBelow
    (n fd : Nat) (fds : Finset Nat) :
    fd ∈ closeBelow n fds ↔ fd ∈ fds ∧ n ≤ fd := by
  induction n with
  | zero =>
      simp [closeBelow]
  | succ n ih =>
      rw [closeBelow, Finset.mem_erase, ih]
      constructor
      · rintro ⟨hne, hmem, hle⟩
        exact ⟨hmem, by omega⟩
      · rintro ⟨hmem, hle⟩
        exact ⟨by omega, hmem, by omega⟩

/-- The limit of the loop, for every limit of the process. -/
theorem rlimMax_replaceInfinity
    (rl : Rlimit) :
    (replaceInfinity rl).rlimMax = 1024 := by
  rfl

theorem lowest_eq
    {n : Nat}
    (hfree : n ∉ fds)
    (hused : ∀ m < n, m ∈ fds) :
    lowest fds = n :=
  (Nat.find_eq_iff _).mpr ⟨hfree, fun m hm hnot => hnot (hused m hm)⟩

end Closing

section Results

variable {k : Kernel} {rl : Rlimit} {fds fds' : Finset Nat}

/-- A call that returns a given number has taken it. -/
theorem openFd_eq
    {ok : Bool} {n : Nat} {fds fds' : Finset Nat}
    (h : openFd ok fds = ((n : Int), fds')) :
    fds' = insert n fds := by
  unfold openFd at h
  split_ifs at h
  · simp only [Prod.mk.injEq, Nat.cast_inj] at h
    rw [← h.2, h.1]
  · simp only [Prod.mk.injEq] at h
    omega

theorem dupZero_eq
    {ok : Bool} {n : Nat} {fds fds' : Finset Nat}
    (h : dupZero ok fds = ((n : Int), fds')) :
    fds' = insert n fds := by
  unfold dupZero at h
  split_ifs at h
  · exact openFd_eq h
  · simp only [Prod.mk.injEq] at h
    omega

/-- If the three numbers are right, these are the descriptors in the end. -/
theorem openStandard_returned
    {closed : Finset Nat}
    (h : openStandard k closed = .returned fds') :
    fds' = insert 2 (insert 1 (insert 0 closed)) := by
  unfold openStandard at h
  cases hopen : openFd k.openNull closed with
  | mk fd0 fds₀ =>
      cases hfirst : dupZero k.firstDup fds₀ with
      | mk fd1 fds₁ =>
          cases hsecond : dupZero k.secondDup fds₁ with
          | mk fd2 fds₂ =>
              simp only [hopen, hfirst, hsecond] at h
              split_ifs at h with hwrong
              cases h
              simp only [not_or, not_not] at hwrong
              obtain ⟨rfl, rfl, rfl⟩ := hwrong
              have h0 := openFd_eq (n := 0) hopen
              have h1 := dupZero_eq (n := 1) hfirst
              have h2 := dupZero_eq (n := 2) hsecond
              rw [h2, h1, h0]

theorem daemonize_returned
    (hlimit : k.getrlimit = some rl)
    (h : daemonize k fds = .returned fds') :
    fds' = insert 2 (insert 1 (insert 0 (closeBelow 1024 fds))) := by
  unfold daemonize at h
  rw [hlimit] at h
  simp only at h
  split at h
  · cases h
  · cases h
  · split at h
    · split at h
      · cases h
      · cases h
      · split at h
        · exact openStandard_returned h
        · cases h
    · cases h

/-- A descriptor is open in the end if it is a standard one, or was not closed. -/
theorem mem_of_returned
    (hlimit : k.getrlimit = some rl)
    (h : daemonize k fds = .returned fds')
    (fd : Nat) :
    fd ∈ fds' ↔ (fd = 0 ∨ fd = 1 ∨ fd = 2) ∨ fd ∈ fds ∧ 1024 ≤ fd := by
  rw [daemonize_returned hlimit h, Finset.mem_insert, Finset.mem_insert, Finset.mem_insert,
    mem_closeBelow]
  tauto

/--
With only descriptors below the limit open at entry: when `daemonize` returns, exactly 0, 1 and
2 are open below the limit, if and only if no descriptor from 1024 on was open.
-/
theorem standard_only_iff
    (hlimit : k.getrlimit = some rl)
    (hbelow : ∀ fd ∈ fds, fd < rl.rlimMax)
    (hreturned : daemonize k fds = .returned fds') :
    (∀ fd < rl.rlimMax, fd ∈ fds' ↔ fd = 0 ∨ fd = 1 ∨ fd = 2) ↔ ∀ fd ∈ fds, fd < 1024 := by
  constructor
  · intro hstandard fd hfd
    by_contra hhigh
    have hopen : fd ∈ fds' := (mem_of_returned hlimit hreturned fd).mpr (Or.inr ⟨hfd, by omega⟩)
    rcases (hstandard fd (hbelow fd hfd)).mp hopen with h | h | h
    · omega
    · omega
    · omega
  · intro hlow fd _
    rw [mem_of_returned hlimit hreturned fd]
    constructor
    · rintro (hstandard | ⟨hfd, hhigh⟩)
      · exact hstandard
      · have := hlow fd hfd
        omega
    · exact Or.inl

/-- Every system call succeeds, in the process that goes on. -/
structure Succeeds (k : Kernel) (rl : Rlimit) : Prop where
  getrlimit : k.getrlimit = some rl
  fork : k.fork = .child
  sigaction : k.sigaction = true
  secondFork : k.secondFork = .child
  chdir : k.chdir = true
  openNull : k.openNull = true
  firstDup : k.firstDup = true
  secondDup : k.secondDup = true

theorem openFd_true
    {n : Nat}
    (hfree : n ∉ fds)
    (hused : ∀ m < n, m ∈ fds) :
    openFd true fds = ((n : Int), insert n fds) := by
  rw [openFd, if_pos rfl, lowest_eq hfree hused]

theorem dupZero_true
    {n : Nat}
    (hzero : 0 ∈ fds)
    (hfree : n ∉ fds)
    (hused : ∀ m < n, m ∈ fds) :
    dupZero true fds = ((n : Int), insert n fds) := by
  rw [dupZero, if_pos hzero, openFd_true hfree hused]

theorem openStandard_returns
    (h : Succeeds k rl)
    {closed : Finset Nat}
    (hclosed : ∀ n < 3, n ∉ closed) :
    openStandard k closed = .returned (insert 2 (insert 1 (insert 0 closed))) := by
  have hopen : openFd true closed = (((0 : Nat) : Int), insert 0 closed) :=
    openFd_true (hclosed 0 (by omega)) (fun m hm => absurd hm (Nat.not_lt_zero m))
  have hfirst :
      dupZero true (insert 0 closed) = (((1 : Nat) : Int), insert 1 (insert 0 closed)) := by
    refine dupZero_true (Finset.mem_insert_self 0 closed) ?_ ?_
    · simp [hclosed 1]
    · intro m hm
      obtain rfl : m = 0 := by omega
      exact Finset.mem_insert_self 0 closed
  have hsecond : dupZero true (insert 1 (insert 0 closed)) =
      (((2 : Nat) : Int), insert 2 (insert 1 (insert 0 closed))) := by
    refine dupZero_true (Finset.mem_insert_of_mem (Finset.mem_insert_self 0 closed)) ?_ ?_
    · simp [hclosed 2]
    · intro m hm
      obtain rfl | rfl : m = 0 ∨ m = 1 := by omega
      · simp
      · simp
  simp [openStandard, h.openNull, h.firstDup, h.secondDup, hopen, hfirst, hsecond]

theorem daemonize_returns
    (h : Succeeds k rl)
    (fds : Finset Nat) :
    daemonize k fds = .returned (insert 2 (insert 1 (insert 0 (closeBelow 1024 fds)))) := by
  have hclosed : ∀ n < 3, n ∉ closeBelow 1024 fds := by
    intro n hn
    rw [mem_closeBelow]
    rintro ⟨_, hhigh⟩
    omega
  simp only [daemonize, h.getrlimit, h.fork, h.sigaction, h.secondFork, h.chdir, if_true,
    rlimMax_replaceInfinity]
  exact openStandard_returns h hclosed

end Results

section Example

/-- A limit of 4096 descriptors. -/
def rlimit4096 : Rlimit := ⟨1024, 4096⟩

def quietKernel : Kernel where
  getrlimit := some rlimit4096
  fork := .child
  sigaction := true
  secondFork := .child
  chdir := true
  openNull := true
  firstDup := true
  secondDup := true

theorem succeeds_quietKernel :
    Succeeds quietKernel rlimit4096 :=
  ⟨rfl, rfl, rfl, rfl, rfl, rfl, rfl, rfl⟩

theorem standard_only_low :
    ∃ fds',
      daemonize quietKernel {0, 1, 2, 5, 1023} = .returned fds' ∧
      ∀ fd < 4096, fd ∈ fds' ↔ fd = 0 ∨ fd = 1 ∨ fd = 2 :=
  ⟨_, daemonize_returns succeeds_quietKernel _,
    (@standard_only_iff quietKernel rlimit4096 {0, 1, 2, 5, 1023} _ rfl (by decide)
      (daemonize_returns succeeds_quietKernel _)).mpr (by decide)⟩

/-- Descriptor 2000 is inherited and stays open. -/
theorem not_standard_only_high :
    ∃ fds',
      daemonize quietKernel {0, 1, 2, 2000} = .returned fds' ∧
      2000 ∈ fds' ∧
      ¬ ∀ fd < 4096, fd ∈ fds' ↔ fd = 0 ∨ fd = 1 ∨ fd = 2 := by
  obtain ⟨fds', hreturned⟩ : ∃ fds', daemonize quietKernel {0, 1, 2, 2000} = .returned fds' :=
    ⟨_, daemonize_returns succeeds_quietKernel _⟩
  have hopen : 2000 ∈ fds' :=
    (mem_of_returned succeeds_quietKernel.getrlimit hreturned 2000).mpr
      (Or.inr ⟨by simp, by omega⟩)
  refine ⟨fds', hreturned, hopen, ?_⟩
  intro hstandard
  rcases (hstandard 2000 (by omega)).mp hopen with h | h | h
  · omega
  · omega
  · omega

end Example
end Daemonize
end SysProg
