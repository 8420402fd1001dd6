import SysProg.Lib.PosixMutex
import SysProg.Lib.Progress
import Mathlib.Tactic

/-!
# The counter of test/pthread_mutex.c

Two threads increment a number five times each, and print it each time.  The mutex is locked
around the increment and the print.  The main thread waits for both and prints the number.

**Steps.**  `number++` is a read and a write, and the call of `printf` reads the number again;
each of them is a step of its thread, in any order with those of the others.  The theorems hold
for any number of threads.

**Result.**  `counts_up`: the lines show 1, 2, 3, … without a gap, a thread prints at most five
of them, every run ends, and it ends with the sum of all rounds in the last line and in the
final one.
-/

namespace SysProg
namespace MutexCounter

open PosixMutex Progress Run

section Program

/-- The turns of the `for`. -/
def rounds : Nat := 5

inductive Pc where
  | lock (i : Nat)
  | load (i : Nat)
  | store (i : Nat) (value : Nat)
  | print (i : Nat)
  | unlock (i : Nat)
  | returned
deriving DecidableEq, Repr

/--
The number, the mutex, the places of the threads and the lines printed; how many threads the
main thread has joined, and its line.
-/
structure State where
  number : Nat
  mutex : Mutex Nat
  pc : Nat → Pc
  lines : List (Nat × Nat)
  joined : Nat
  final : Option Nat

def State.start : State where
  number := 0
  mutex := { kind := .normal, robust := false, own := .free }
  pc := fun _ => .lock 0
  lines := []
  joined := 0
  final := none

def State.goto (s : State) (k : Nat) (p : Pc) : State :=
  { s with pc := Function.update s.pc k p }

/-- A step of `thread_inc`, unless it waits or has returned. -/
def threadStep (s : State) (k : Nat) : Option State :=
  match s.pc k with
  | .lock i => (s.mutex.lock k).map (fun (_, mutex) => { s with mutex := mutex }.goto k (.load i))
  | .load i => some (s.goto k (.store i s.number))
  | .store i value => some ({ s with number := value + 1 }.goto k (.print i))
  | .print i => some ({ s with lines := s.lines ++ [(k, s.number)] }.goto k (.unlock i))
  | .unlock i =>
      (s.mutex.unlock k).map (fun (_, mutex) =>
        { s with mutex := mutex }.goto k (if i + 1 < rounds then .lock (i + 1) else .returned))
  | .returned => none

inductive Label where
  | thread (k : Nat)
  /-- `pthread_join` of the next thread -/
  | join
  /-- the last `printf` of `main` -/
  | printFinal
deriving DecidableEq, Repr

def step (n : Nat) (s : State) : Label → Option State
  | .thread k => if k < n then threadStep s k else none
  | .join =>
      if s.joined < n ∧ s.pc s.joined = .returned then some { s with joined := s.joined + 1 }
      else none
  | .printFinal =>
      if s.joined = n ∧ s.final = none then some { s with final := some s.number } else none

end Program

section Counting

variable {n k : Nat} {s s' : State} {l : Label}

/-- What the place of a thread says about the mutex. -/
def Pc.view : Pc → Option (Nat × Bool)
  | .lock _ => none
  | .returned => none
  | _ => some (1, true)

/-- How many lines the thread has printed. -/
def Pc.done : Pc → Nat
  | .lock i => i
  | .load i => i
  | .store i _ => i
  | .print i => i
  | .unlock i => i + 1
  | .returned => rounds

/-- The turn exists. -/
def Pc.Valid : Pc → Prop
  | .lock i => i < rounds
  | .load i => i < rounds
  | .store i _ => i < rounds
  | .print i => i < rounds
  | .unlock i => i < rounds
  | .returned => True

/-- What the owner of the mutex knows of the number and the count of lines, by its place. -/
def Fits (number count : Nat) : Pc → Prop
  | .store _ value => value = count ∧ number = count
  | .print _ => number = count + 1
  | _ => number = count

structure Invariant (n : Nat) (s : State) : Prop where
  protects :
    Protects (fun _ => Pc.view) (fun d => d.1 = d.2) (fun _ p d => Fits d.1 d.2 p)
      s.mutex.own s.pc (s.number, s.lines.length)
  numbers : s.lines.map Prod.snd = List.range' 1 s.lines.length
  valid : ∀ k, (s.pc k).Valid
  each : ∀ k, s.lines.countP (fun line => line.1 = k) = (s.pc k).done
  length : s.lines.length = total Pc.done s.pc n
  absent : ∀ k, n ≤ k → s.pc k = .lock 0
  joined : s.joined ≤ n ∧ ∀ k, k < s.joined → s.pc k = .returned
  final : ∀ v, s.final = some v → s.joined = n ∧ v = n * rounds

theorem invariant_start :
    Invariant n State.start := by
  refine ⟨protects_start (fun _ => rfl) rfl, rfl, fun _ => Nat.zero_lt_succ 4, fun _ => rfl, ?_,
    fun _ _ => rfl, ⟨Nat.zero_le n, ?_⟩, ?_⟩
  · have hzero : total Pc.done State.start.pc n = n * 0 := total_const (fun _ _ => rfl)
    rw [hzero]
    rfl
  · intro k hk
    exact absurd hk (Nat.not_lt_zero k)
  · intro v hv
    cases hv

/-- When all threads have been joined, each of them has printed all its lines. -/
theorem Invariant.length_eq
    (h : Invariant n s)
    (hjoined : s.joined = n) :
    s.lines.length = n * rounds := by
  rw [h.length]
  refine total_const ?_
  intro k hk
  rw [h.joined.2 k (by omega)]
  rfl

/-- What a thread does at a step that prints nothing. -/
theorem Invariant.silent
    {q : Pc}
    (h : Invariant n s)
    (hk : k < n)
    (hrunning : s.pc k ≠ .returned)
    (hlines : s'.lines = s.lines)
    (hpc : s'.pc = Function.update s.pc k q)
    (hmain : s'.joined = s.joined ∧ s'.final = s.final)
    (hdone : q.done = (s.pc k).done)
    (hvalid : q.Valid)
    (hprotects :
      Protects (fun _ => Pc.view) (fun d => d.1 = d.2) (fun _ p d => Fits d.1 d.2 p)
        s'.mutex.own s'.pc (s'.number, s'.lines.length)) :
    Invariant n s' := by
  have htotal : total Pc.done s'.pc n = total Pc.done s.pc n := by
    have hupdate : total Pc.done (Function.update s.pc k q) n + (s.pc k).done =
        total Pc.done s.pc n + q.done := total_update q hk
    rw [hpc]
    omega
  refine ⟨hprotects, ?_, ?_, ?_, ?_, ?_, ?_, ?_⟩
  · rw [hlines]
    exact h.numbers
  · rw [hpc]
    exact (Function.forall_update_iff s.pc (fun _ p => p.Valid)).mpr
      ⟨hvalid, fun j _ => h.valid j⟩
  · rw [hlines, hpc]
    exact (Function.forall_update_iff s.pc
      (fun j p => s.lines.countP (fun line => line.1 = j) = p.done)).mpr
      ⟨(h.each k).trans hdone.symm, fun j _ => h.each j⟩
  · rw [hlines, htotal]
    exact h.length
  · intro j hj
    rw [hpc, Function.update_of_ne (by omega)]
    exact h.absent j hj
  · rw [hmain.1, hpc]
    refine ⟨h.joined.1, ?_⟩
    intro j hj
    have hne : j ≠ k := by
      rintro rfl
      exact hrunning (h.joined.2 j hj)
    rw [Function.update_of_ne hne]
    exact h.joined.2 j hj
  · rw [hmain.1, hmain.2]
    exact h.final

/-- `printf`: the number is the count of the lines with this one. -/
theorem Invariant.print
    {i : Nat}
    (h : Invariant n s)
    (hk : k < n)
    (hpc : s.pc k = .print i) :
    Invariant n ({ s with lines := s.lines ++ [(k, s.number)] }.goto k (.unlock i)) := by
  have hnumber : s.number = s.lines.length + 1 := by
    have hfits := h.protects.held k (by rw [hpc]; simp [Pc.view])
    rwa [hpc] at hfits
  have hvalid : i < rounds := by
    have hvalid := h.valid k
    rwa [hpc] at hvalid
  have hlength : (s.lines ++ [(k, s.number)]).length = s.lines.length + 1 := by
    simp
  have htotal : total Pc.done (Function.update s.pc k (.unlock i)) n + (s.pc k).done =
      total Pc.done s.pc n + (i + 1) := total_update _ hk
  rw [hpc, Pc.done] at htotal
  refine ⟨?_, ?_, ?_, ?_, ?_, ?_, ⟨h.joined.1, ?_⟩, h.final⟩
  · refine h.protects.access (by rw [hpc]; rfl) rfl ?_
    intro _
    exact hnumber.trans hlength.symm
  · rw [State.goto, hlength, List.map_append, h.numbers, List.range'_concat, hnumber]
    simp [Nat.add_comm]
  · exact (Function.forall_update_iff s.pc (fun _ p => p.Valid)).mpr
      ⟨hvalid, fun j _ => h.valid j⟩
  · refine (Function.forall_update_iff s.pc (fun j p =>
      (s.lines ++ [(k, s.number)]).countP (fun line => line.1 = j) = p.done)).mpr ⟨?_, ?_⟩
    · have heach := h.each k
      rw [hpc] at heach
      simp [heach, Pc.done]
    · intro j hj
      simp [h.each j, Ne.symm hj]
  · have hold := h.length
    refine hlength.trans ?_
    simp only [State.goto]
    omega
  · intro j hj
    have hne : j ≠ k := by omega
    exact (Function.update_of_ne hne _ _).trans (h.absent j hj)
  · intro j hj
    have hreturned := h.joined.2 j hj
    have hne : j ≠ k := by
      rintro rfl
      rw [hpc] at hreturned
      cases hreturned
    exact (Function.update_of_ne hne _ _).trans hreturned

theorem Invariant.threadStep
    (h : Invariant n s)
    (hk : k < n)
    (hstep : threadStep s k = some s') :
    Invariant n s' := by
  unfold MutexCounter.threadStep at hstep
  have hprotects := h.protects
  have hvalid := h.valid k
  cases hpc : s.pc k with
  | lock i =>
      rw [hpc] at hvalid
      simp only [hpc, Option.map_eq_some_iff] at hstep
      obtain ⟨⟨ret, mutex⟩, hlock, rfl⟩ := hstep
      refine h.silent hk (by simp [hpc]) rfl rfl ⟨rfl, rfl⟩ (by rw [hpc]; rfl) hvalid ?_
      exact (hprotects.lock (by rw [hpc]; rfl) rfl hlock id).2
  | load i =>
      rw [hpc] at hvalid hstep
      cases hstep
      refine h.silent hk (by simp [hpc]) rfl rfl ⟨rfl, rfl⟩ (by rw [hpc]; rfl) hvalid ?_
      refine hprotects.access (by rw [hpc]; rfl) rfl ?_
      rw [hpc]
      exact fun hfits => ⟨hfits, hfits⟩
  | store i value =>
      rw [hpc] at hvalid hstep
      cases hstep
      refine h.silent hk (by simp [hpc]) rfl rfl ⟨rfl, rfl⟩ (by rw [hpc]; rfl) hvalid ?_
      refine hprotects.access (by rw [hpc]; rfl) rfl ?_
      rw [hpc]
      exact fun hfits => congrArg (· + 1) hfits.1
  | print i =>
      rw [hpc] at hstep
      cases hstep
      exact h.print hk hpc
  | unlock i =>
      rw [hpc] at hvalid
      simp only [hpc, Option.map_eq_some_iff] at hstep
      obtain ⟨⟨ret, mutex⟩, hunlock, rfl⟩ := hstep
      have hlt : i < rounds := hvalid
      refine h.silent hk (by simp [hpc]) rfl rfl ⟨rfl, rfl⟩ ?_ ?_ ?_
      · rw [hpc]
        split_ifs with hnext
        · rfl
        · exact (Nat.le_antisymm hlt (Nat.le_of_not_lt hnext)).symm
      · split_ifs with hnext
        · exact hnext
        · trivial
      · refine (hprotects.unlock (by rw [hpc]; rfl) (by split_ifs <;> rfl) hunlock ?_).2
        rw [hpc]
        exact id
  | returned =>
      rw [hpc] at hstep
      cases hstep

theorem Invariant.step
    (h : Invariant n s)
    (hstep : step n s l = some s') :
    Invariant n s' := by
  cases l with
  | thread k =>
      obtain ⟨hk, hthread⟩ := Option.ite_none_right_eq_some.mp hstep
      exact h.threadStep hk hthread
  | join =>
      obtain ⟨⟨hlt, hreturned⟩, hsome⟩ := Option.ite_none_right_eq_some.mp hstep
      cases hsome
      refine ⟨h.protects, h.numbers, h.valid, h.each, h.length, h.absent, ⟨hlt, ?_⟩, ?_⟩
      · intro k hk
        rcases Nat.lt_succ_iff_lt_or_eq.mp hk with hold | rfl
        · exact h.joined.2 k hold
        · exact hreturned
      · intro v hv
        have hjoined := (h.final v hv).1
        omega
  | printFinal =>
      obtain ⟨⟨hjoined, _⟩, hsome⟩ := Option.ite_none_right_eq_some.mp hstep
      cases hsome
      refine ⟨h.protects, h.numbers, h.valid, h.each, h.length, h.absent, h.joined, ?_⟩
      intro v hv
      cases hv
      -- no thread owns the mutex any more
      have hnumber : s.number = s.lines.length := by
        refine h.protects.inv_of_outside ?_
        intro k
        rcases Nat.lt_or_ge k n with hk | hk
        · rw [h.joined.2 k (by omega)]
          rfl
        · rw [h.absent k hk]
          rfl
      exact ⟨hjoined, hnumber.trans (h.length_eq hjoined)⟩

theorem invariant_run
    {ls : List Label}
    (hrun : run (MutexCounter.step n) State.start ls = some s) :
    Invariant n s :=
  run_invariant (fun _ _ _ h hstep => h.step hstep) invariant_start hrun

end Counting

section Ending

variable {n k : Nat} {s s' : State} {l : Label}

/-- How many steps a thread has left at most. -/
def Pc.rank : Pc → Nat
  | .lock i => 5 * (rounds - i)
  | .load i => 5 * (rounds - i) - 1
  | .store i _ => 5 * (rounds - i) - 2
  | .print i => 5 * (rounds - i) - 3
  | .unlock i => 5 * (rounds - i) - 4
  | .returned => 0

/-- How many steps are left at most, with those of the main thread. -/
def State.left (n : Nat) (s : State) : Nat :=
  total Pc.rank s.pc n + (n - s.joined) + if s.final = none then 1 else 0

theorem Pc.rank_le
    (p : Pc) :
    p.rank ≤ 25 := by
  cases p <;> simp only [Pc.rank, rounds] <;> omega

theorem threadStep_rank
    (hvalid : (s.pc k).Valid)
    (hstep : threadStep s k = some s') :
    s'.joined = s.joined ∧ s'.final = s.final ∧
      ∃ q, s'.pc = Function.update s.pc k q ∧ q.rank < (s.pc k).rank := by
  unfold threadStep at hstep
  cases hpc : s.pc k with
  | lock i =>
      rw [hpc] at hvalid
      simp only [hpc, Option.map_eq_some_iff] at hstep
      obtain ⟨result, _, rfl⟩ := hstep
      refine ⟨rfl, rfl, _, rfl, ?_⟩
      simp only [Pc.rank, Pc.Valid] at hvalid ⊢
      omega
  | load i =>
      rw [hpc] at hvalid hstep
      cases hstep
      refine ⟨rfl, rfl, _, rfl, ?_⟩
      simp only [Pc.rank, Pc.Valid] at hvalid ⊢
      omega
  | store i value =>
      rw [hpc] at hvalid hstep
      cases hstep
      refine ⟨rfl, rfl, _, rfl, ?_⟩
      simp only [Pc.rank, Pc.Valid] at hvalid ⊢
      omega
  | print i =>
      rw [hpc] at hvalid hstep
      cases hstep
      refine ⟨rfl, rfl, _, rfl, ?_⟩
      simp only [Pc.rank, Pc.Valid] at hvalid ⊢
      omega
  | unlock i =>
      rw [hpc] at hvalid
      simp only [hpc, Option.map_eq_some_iff] at hstep
      obtain ⟨result, _, rfl⟩ := hstep
      refine ⟨rfl, rfl, _, rfl, ?_⟩
      split_ifs <;> simp only [Pc.rank, Pc.Valid] at hvalid ⊢ <;> omega
  | returned =>
      rw [hpc] at hstep
      cases hstep

theorem Invariant.left_lt
    (h : Invariant n s)
    (hstep : MutexCounter.step n s l = some s') :
    s'.left n < s.left n := by
  cases l with
  | thread k =>
      obtain ⟨hk, hthread⟩ := Option.ite_none_right_eq_some.mp hstep
      obtain ⟨hjoined, hfinal, q, hpc, hrank⟩ := threadStep_rank (h.valid k) hthread
      have htotal := total_update_lt hk hrank
      rw [State.left, State.left, hjoined, hfinal, hpc]
      omega
  | join =>
      obtain ⟨⟨hlt, _⟩, hsome⟩ := Option.ite_none_right_eq_some.mp hstep
      cases hsome
      simp only [State.left]
      omega
  | printFinal =>
      obtain ⟨⟨_, hfinal⟩, hsome⟩ := Option.ite_none_right_eq_some.mp hstep
      cases hsome
      simp [State.left, hfinal]

/-- Each thread makes at most 25 steps and is joined, and the main thread prints its line. -/
theorem length_le
    {ls : List Label}
    (hrun : run (MutexCounter.step n) State.start ls = some s) :
    ls.length ≤ n * 26 + 1 := by
  have hle := length_add_measure_le (State.left n)
    (fun s l s' (h : Invariant n s) hstep => ⟨h.step hstep, h.left_lt hstep⟩) invariant_start hrun
  have hbound : total Pc.rank State.start.pc n ≤ n * 25 := total_le Pc.rank_le
  have hstart : State.start.left n = total Pc.rank State.start.pc n + n + 1 := rfl
  omega

/-- As long as a thread has not returned, a thread can make a step. -/
theorem Invariant.returned_of_halted
    (h : Invariant n s)
    (hend : ∀ j, j < n → MutexCounter.threadStep s j = none)
    (hk : k < n) :
    s.pc k = .returned := by
  -- an owner can go on
  have hout : ∀ j, (s.pc j).view = none := by
    intro j
    rcases Nat.lt_or_ge j n with hj | hj
    · have hnone := hend j hj
      unfold MutexCounter.threadStep at hnone
      cases hpc : s.pc j with
      | lock i => rfl
      | returned => rfl
      | load i => simp [hpc] at hnone
      | store i value => simp [hpc] at hnone
      | print i => simp [hpc] at hnone
      | unlock i =>
          simp only [hpc, Option.map_eq_none_iff] at hnone
          exact absurd hnone (h.protects.unlock_ne_none (by rw [hpc]; rfl))
    · rw [h.absent j hj]
      rfl
  have hnone := hend k hk
  have hview := hout k
  unfold MutexCounter.threadStep at hnone
  cases hpc : s.pc k with
  | returned => rfl
  | lock i =>
      simp only [hpc, Option.map_eq_none_iff] at hnone
      obtain ⟨j, hj⟩ := h.protects.lock_eq_none hnone
      exact absurd (hout j) hj
  | load i => simp [hpc, Pc.view] at hview
  | store i value => simp [hpc, Pc.view] at hview
  | print i => simp [hpc, Pc.view] at hview
  | unlock i => simp [hpc, Pc.view] at hview

theorem Invariant.final_of_halted
    (h : Invariant n s)
    (hend : ∀ l, MutexCounter.step n s l = none) :
    s.final = some (n * rounds) := by
  have hthreads : ∀ j, j < n → MutexCounter.threadStep s j = none := by
    intro j hj
    have hnone := hend (.thread j)
    rwa [MutexCounter.step, if_pos hj] at hnone
  have hjoined : s.joined = n := by
    refine Nat.le_antisymm h.joined.1 (Nat.le_of_not_lt ?_)
    intro hlt
    have hnone := hend .join
    rw [MutexCounter.step, if_pos ⟨hlt, h.returned_of_halted hthreads hlt⟩] at hnone
    cases hnone
  cases hfinal : s.final with
  | none =>
      have hnone := hend .printFinal
      rw [MutexCounter.step, if_pos ⟨hjoined, hfinal⟩] at hnone
      cases hnone
  | some v =>
      rw [(h.final v hfinal).2]

/--
In every run the lines count up by one, whichever threads print them, and a run that has ended,
as every run does, has counted all rounds of all threads.
-/
theorem counts_up
    {ls : List Label}
    (hrun : run (MutexCounter.step n) State.start ls = some s) :
    s.lines.map Prod.snd = List.range' 1 s.lines.length ∧
      (∀ k, s.lines.countP (fun line => line.1 = k) ≤ rounds) ∧
        ls.length ≤ n * 26 + 1 ∧
          ((∀ l, MutexCounter.step n s l = none) →
            s.final = some (n * rounds) ∧ s.lines.length = n * rounds) := by
  have h := invariant_run hrun
  refine ⟨h.numbers, ?_, ?_, ?_⟩
  · intro k
    have hvalid := h.valid k
    rw [h.each k]
    cases hpc : s.pc k <;> simp only [hpc, Pc.done, Pc.Valid] at hvalid ⊢ <;> omega
  · exact length_le hrun
  · intro hend
    have hfinal := h.final_of_halted hend
    exact ⟨hfinal, h.length_eq (h.final _ hfinal).1⟩

/-- The two threads take turns after each round. -/
def inTurns : List Label :=
  let round := fun k => List.replicate 5 (Label.thread k)
  (List.replicate 5 (round 0 ++ round 1)).flatten ++ [.join, .join, .printFinal]

theorem counts_up_inTurns :
    ∃ s,
      run (MutexCounter.step 2) State.start inTurns = some s ∧
      s.final = some 10 ∧
      s.lines.map Prod.snd = List.range' 1 s.lines.length := by
  have hrun : run (MutexCounter.step 2) State.start inTurns = some _ := rfl
  exact ⟨_, hrun, rfl, (counts_up hrun).1⟩

end Ending

end MutexCounter
end SysProg
