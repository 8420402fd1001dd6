import SysProg.Lib.PosixMutex
import SysProg.Lib.Progress
import Mathlib.Tactic

/-!
# The mutex types in ALSP/mutex_type.c

Every thread locks the mutex and unlocks it once; a thread with an index above 1 locks it twice.
What becomes of the program is decided by the type of the mutex, which is chosen when it is
compiled.

**Steps.**  The calls of `start_thread` are single steps of its threads, in any order.  Nothing
else is waited for between the calls that `pr_out` and `pr_err` make, so each of them is one
step.  A thread that has not been created yet is one that has made no step.

**Result.**  `outcome`: every run comes to an end.  With the type `errorcheck` all threads
return and each of the threads above 1 reports `EDEADLK` once.  With the type `normal` one of
them waits for itself, with the type `recursive` one of them returns and keeps the mutex; in
both cases all others that have an index above 1 wait for ever, and so does `clean_thread`.
-/

namespace SysProg
namespace MutexType

open PosixMutex Progress Run

section Program

inductive Pc where
  | lock
  /-- `pr_err` after the first `pthread_mutex_lock` -/
  | lockError (ret : Ret)
  | prOut
  /-- `sleep(t_arg->idx * 2)` and the test of the index -/
  | sleep
  | relock
  | relockError (ret : Ret)
  | unlock
  | unlockError (ret : Ret)
  | returned
deriving DecidableEq, Repr

/-- The places of the threads, the mutex, and the lines of `pr_err`. -/
structure State where
  pc : Nat → Pc
  mutex : Mutex Nat
  errors : List (Nat × Ret)

def State.start (kind : Kind) : State where
  pc := fun _ => .lock
  mutex := { kind := kind, robust := false, own := .free }
  errors := []

def State.goto (s : State) (k : Nat) (p : Pc) : State :=
  { s with pc := Function.update s.pc k p }

/-- `pr_err` -/
def State.prErr (s : State) (k : Nat) (ret : Ret) : State :=
  { s with errors := s.errors ++ [(k, ret)] }

/-- A call on the mutex, with the place for its result 0 and the place of its error branch. -/
def State.call (s : State) (k : Nat) (next : Pc) (error : Ret → Pc) (result : Ret × Mutex Nat) :
    State :=
  { s with mutex := result.2 }.goto k (if result.1 = Ret.ok then next else error result.1)

/-- The next call of a thread, unless it waits or has returned. -/
def threadStep (s : State) (k : Nat) : Option State :=
  match s.pc k with
  | .lock => (s.mutex.lock k).map (s.call k .prOut .lockError)
  | .lockError ret => some ((s.prErr k ret).goto k .prOut)
  | .prOut => some (s.goto k .sleep)
  | .sleep => some (s.goto k (if 1 < k then .relock else .unlock))
  | .relock => (s.mutex.lock k).map (s.call k .unlock .relockError)
  | .relockError ret => some ((s.prErr k ret).goto k .unlock)
  | .unlock => (s.mutex.unlock k).map (s.call k .returned .unlockError)
  | .unlockError ret => some ((s.prErr k ret).goto k .returned)
  | .returned => none

/-- The steps of `n` threads. -/
def step (n : Nat) (s : State) (k : Nat) : Option State :=
  if k < n then threadStep s k else none

end Program

section Ending

variable {n k : Nat} {s s' : State}

/-- How many calls a thread has left at most. -/
def Pc.rank : Pc → Nat
  | .lock => 8
  | .lockError _ => 7
  | .prOut => 6
  | .sleep => 5
  | .relock => 4
  | .relockError _ => 3
  | .unlock => 2
  | .unlockError _ => 1
  | .returned => 0

theorem threadStep_rank
    (hstep : threadStep s k = some s') :
    ∃ q, s'.pc = Function.update s.pc k q ∧ q.rank < (s.pc k).rank := by
  unfold threadStep at hstep
  cases hpc : s.pc k with
  | lock =>
      simp only [hpc, Option.map_eq_some_iff] at hstep
      obtain ⟨result, _, rfl⟩ := hstep
      refine ⟨_, rfl, ?_⟩
      split_ifs <;> simp [Pc.rank]
  | lockError ret =>
      rw [hpc] at hstep
      cases hstep
      exact ⟨_, rfl, by simp [Pc.rank]⟩
  | prOut =>
      rw [hpc] at hstep
      cases hstep
      exact ⟨_, rfl, by simp [Pc.rank]⟩
  | sleep =>
      rw [hpc] at hstep
      cases hstep
      refine ⟨_, rfl, ?_⟩
      split_ifs <;> simp [Pc.rank]
  | relock =>
      simp only [hpc, Option.map_eq_some_iff] at hstep
      obtain ⟨result, _, rfl⟩ := hstep
      refine ⟨_, rfl, ?_⟩
      split_ifs <;> simp [Pc.rank]
  | relockError ret =>
      rw [hpc] at hstep
      cases hstep
      exact ⟨_, rfl, by simp [Pc.rank]⟩
  | unlock =>
      simp only [hpc, Option.map_eq_some_iff] at hstep
      obtain ⟨result, _, rfl⟩ := hstep
      refine ⟨_, rfl, ?_⟩
      split_ifs <;> simp [Pc.rank]
  | unlockError ret =>
      rw [hpc] at hstep
      cases hstep
      exact ⟨_, rfl, by simp [Pc.rank]⟩
  | returned =>
      rw [hpc] at hstep
      cases hstep

theorem step_total_lt
    (hstep : step n s k = some s') :
    total Pc.rank s'.pc n < total Pc.rank s.pc n := by
  obtain ⟨hk, hthread⟩ := Option.ite_none_right_eq_some.mp hstep
  obtain ⟨q, hpc, hlt⟩ := threadStep_rank hthread
  rw [hpc]
  exact total_update_lt hk hlt

/-- A thread that does not exist makes no step. -/
theorem absent_run
    {kind : Kind} {ks : List Nat}
    (hrun : run (step n) (State.start kind) ks = some s) :
    ∀ k, n ≤ k → s.pc k = .lock := by
  refine run_invariant (P := fun s => ∀ k, n ≤ k → s.pc k = .lock) ?_ (fun _ _ => rfl) hrun
  intro s j s' h hstep k hk
  obtain ⟨hj, hthread⟩ := Option.ite_none_right_eq_some.mp hstep
  obtain ⟨q, hpc, _⟩ := threadStep_rank hthread
  rw [hpc, Function.update_of_ne (by omega)]
  exact h k hk

/-- No run has more than eight steps for each thread. -/
theorem length_le
    {kind : Kind} {ks : List Nat}
    (hrun : run (step n) (State.start kind) ks = some s) :
    ks.length ≤ n * 8 := by
  have hle := length_add_measure_le (P := fun _ => True) (fun s => total Pc.rank s.pc n)
    (fun s k s' _ hstep => ⟨trivial, step_total_lt hstep⟩) trivial hrun
  have hbound : total Pc.rank (State.start kind).pc n ≤ n * 8 :=
    total_le (fun p => by cases p <;> simp [Pc.rank])
  omega

end Ending

section Ownership

variable {kind : Kind} {n k : Nat} {s s' : State} {p q : Pc}

/-- The second lock of thread `k` counts. -/
def Twice (kind : Kind) (k : Nat) : Prop :=
  kind = .recursive ∧ 1 < k

instance : Decidable (Twice kind k) :=
  inferInstanceAs (Decidable (_ ∧ _))

/-- What the place of thread `k` says about the mutex. -/
def Pc.view (kind : Kind) (k : Nat) : Pc → Option (Nat × Bool)
  | .prOut => some (1, true)
  | .sleep => some (1, true)
  | .relock => some (1, true)
  | .relockError _ => some (1, true)
  | .unlock => some (if Twice kind k then 2 else 1, true)
  | .returned => if Twice kind k then some (1, true) else none
  | _ => none

/-- The places that thread `k` can come to. -/
def Pc.Possible (kind : Kind) (k : Nat) : Pc → Prop
  | .lockError _ => False
  | .relock => 1 < k
  | .relockError ret => 1 < k ∧ kind = .errorcheck ∧ ret = .edeadlk
  | .unlock => kind = .normal → k ≤ 1
  | .unlockError _ => False
  | .returned => kind = .normal → k ≤ 1
  | _ => True

/-- The thread has reported that it would wait for itself. -/
def Pc.Reported (kind : Kind) (k : Nat) (p : Pc) : Prop :=
  kind = .errorcheck ∧ 1 < k ∧ (p = .unlock ∨ p = .returned)

instance : Decidable (p.Reported kind k) :=
  inferInstanceAs (Decidable (_ ∧ _))

/-- How often a line of `pr_err` has been printed. -/
def reports (kind : Kind) (pc : Nat → Pc) (line : Nat × Ret) : Nat :=
  if line.2 = .edeadlk ∧ (pc line.1).Reported kind line.1 then 1 else 0

structure Invariant (kind : Kind) (s : State) : Prop where
  kind_eq : s.mutex.kind = kind
  usable : s.mutex.own ≠ .ownerDead ∧ s.mutex.own ≠ .notRecoverable
  agrees : Agrees (Pc.view kind) s.mutex.own s.pc
  possible : ∀ k, (s.pc k).Possible kind k
  errors : ∀ line, s.errors.count line = reports kind s.pc line

theorem invariant_start :
    Invariant kind (State.start kind) := by
  refine ⟨rfl, by simp [State.start], agrees_start (fun _ => rfl), fun _ => trivial, ?_⟩
  intro line
  simp [State.start, reports, Pc.Reported]

theorem reports_update
    {pc : Nat → Pc}
    (hreported : q.Reported kind k ↔ (pc k).Reported kind k)
    (line : Nat × Ret) :
    reports kind (Function.update pc k q) line = reports kind pc line := by
  unfold reports
  by_cases hk : line.1 = k
  · simp only [hk, Function.update_self, hreported]
  · rw [Function.update_of_ne hk]

/-- A step that leaves the mutex and the lines alone. -/
theorem Invariant.goto
    (h : Invariant kind s)
    (hview : q.view kind k = (s.pc k).view kind k)
    (hpossible : q.Possible kind k)
    (hreported : q.Reported kind k ↔ (s.pc k).Reported kind k) :
    Invariant kind (s.goto k q) := by
  refine ⟨h.kind_eq, h.usable, h.agrees.stay hview, ?_, ?_⟩
  · exact (Function.forall_update_iff s.pc (fun j p => p.Possible kind j)).mpr
      ⟨hpossible, fun j _ => h.possible j⟩
  · intro line
    rw [State.goto, reports_update hreported]
    exact h.errors line

/-- A step of the thread on the mutex. -/
theorem Invariant.onMutex
    {own : Own Nat}
    (h : Invariant kind s)
    (husable : own ≠ .ownerDead ∧ own ≠ .notRecoverable)
    (hframe : ∀ j, j ≠ k → own.view j = s.mutex.own.view j)
    (hview : own.view k = q.view kind k)
    (hpossible : q.Possible kind k)
    (hreported : q.Reported kind k ↔ (s.pc k).Reported kind k) :
    Invariant kind ({ s with mutex := { s.mutex with own := own } }.goto k q) := by
  refine ⟨h.kind_eq, husable, h.agrees.move hframe hview, ?_, ?_⟩
  · exact (Function.forall_update_iff s.pc (fun j p => p.Possible kind j)).mpr
      ⟨hpossible, fun j _ => h.possible j⟩
  · intro line
    rw [State.goto, reports_update hreported]
    exact h.errors line

theorem Invariant.lock
    {ret : Ret} {mutex : Mutex Nat}
    (h : Invariant kind s)
    (hpc : s.pc k = .lock)
    (hlock : s.mutex.lock k = some (ret, mutex)) :
    Invariant kind (s.call k .prOut .lockError (ret, mutex)) := by
  have hnone : s.mutex.own.view k = none := by
    rw [h.agrees k, hpc]
    rfl
  have hframe := fun j (hj : j ≠ k) => lock_view_of_ne hlock hj
  cases lock_spec hlock with
  | first hown =>
      exact h.onMutex (by simp) hframe view_held_self trivial (by simp [hpc, Pc.Reported])
  | relock hown hkind =>
      rw [hown, view_held_self] at hnone
      cases hnone
  | deadlock hown hkind =>
      rw [hown, view_held_self] at hnone
      cases hnone
  | inherit hown =>
      exact absurd hown h.usable.1
  | lost hown =>
      exact absurd hown h.usable.2

/-- The second lock: it counts, or is refused. -/
theorem Invariant.relock
    {ret : Ret} {mutex : Mutex Nat}
    (h : Invariant kind s)
    (hpc : s.pc k = .relock)
    (hlock : s.mutex.lock k = some (ret, mutex)) :
    Invariant kind (s.call k .unlock .relockError (ret, mutex)) := by
  have hview : s.mutex.own.view k = some (1, true) := by
    rw [h.agrees k, hpc]
    rfl
  have hk : 1 < k := by
    have hpossible := h.possible k
    rwa [hpc] at hpossible
  have hheld := view_eq_some_iff.mp hview
  have hframe := fun j (hj : j ≠ k) => lock_view_of_ne hlock hj
  cases lock_spec hlock with
  | first hown =>
      rw [hheld] at hown
      cases hown
  | relock hown hkind =>
      rw [hheld] at hown
      cases hown
      have hrec : kind = .recursive := h.kind_eq.symm.trans hkind
      subst hrec
      refine h.onMutex (by simp) hframe ?_ (by simp [Pc.Possible]) (by simp [hpc, Pc.Reported])
      simp [Pc.view, Twice, hk]
  | deadlock hown hkind =>
      have herr : kind = .errorcheck := h.kind_eq.symm.trans hkind
      subst herr
      refine h.goto ?_ ⟨hk, rfl, rfl⟩ (by simp [hpc, Pc.Reported])
      rw [hpc]
      rfl
  | inherit hown =>
      exact absurd hown h.usable.1
  | lost hown =>
      exact absurd hown h.usable.2

/-- `pr_err` of the refusal. -/
theorem Invariant.relockError
    {ret : Ret}
    (h : Invariant kind s)
    (hpc : s.pc k = .relockError ret) :
    Invariant kind ((s.prErr k ret).goto k .unlock) := by
  obtain ⟨hk, rfl, rfl⟩ : 1 < k ∧ kind = .errorcheck ∧ ret = .edeadlk := by
    have hpossible := h.possible k
    rwa [hpc] at hpossible
  refine ⟨h.kind_eq, h.usable, h.agrees.stay ?_, ?_, ?_⟩
  · rw [hpc]
    simp [Pc.view, Twice]
  · exact (Function.forall_update_iff s.pc (fun j p => p.Possible .errorcheck j)).mpr
      ⟨by simp [Pc.Possible], fun j _ => h.possible j⟩
  · intro line
    simp only [State.goto, State.prErr, List.count_append, h.errors line]
    by_cases hline : line = (k, .edeadlk)
    · simp [hline, reports, hpc, Pc.Reported, hk]
    · have hcount : [(k, Ret.edeadlk)].count line = 0 :=
        List.count_eq_zero.mpr (by simpa using hline)
      rw [hcount, Nat.add_zero]
      unfold reports
      by_cases hj : line.1 = k
      · have hret : line.2 ≠ .edeadlk := fun hret => hline (Prod.ext hj hret)
        simp [hret]
      · rw [Function.update_of_ne hj]

/-- The thread owns the mutex once or twice, and gives it back once. -/
theorem Invariant.unlock
    {ret : Ret} {mutex : Mutex Nat}
    (h : Invariant kind s)
    (hpc : s.pc k = .unlock)
    (hunlock : s.mutex.unlock k = some (ret, mutex)) :
    Invariant kind (s.call k .returned .unlockError (ret, mutex)) := by
  have hview : s.mutex.own.view k = some (if Twice kind k then 2 else 1, true) := by
    rw [h.agrees k, hpc]
    rfl
  have hpossible : (kind = .normal → k ≤ 1) := by
    have hpossible := h.possible k
    rwa [hpc] at hpossible
  have hreported : Pc.returned.Reported kind k ↔ (s.pc k).Reported kind k := by
    simp [hpc, Pc.Reported]
  by_cases htwice : Twice kind k
  · rw [if_pos htwice] at hview
    rw [unlock_inner hview] at hunlock
    cases hunlock
    refine h.onMutex (by simp) ?_ ?_ hpossible hreported
    · intro j hj
      rw [view_eq_some_iff.mp hview, view_held_of_ne hj, view_held_of_ne hj]
    · simp [Pc.view, htwice]
  · rw [if_neg htwice] at hview
    rw [unlock_last hview] at hunlock
    cases hunlock
    refine h.onMutex (by simp) (fun j hj => unlock_last_view_of_ne hview hj) ?_ hpossible hreported
    simp [Pc.view, htwice, Own.view]

theorem Invariant.threadStep
    (h : Invariant kind s)
    (hstep : threadStep s k = some s') :
    Invariant kind s' := by
  unfold MutexType.threadStep at hstep
  cases hpc : s.pc k with
  | lock =>
      simp only [hpc, Option.map_eq_some_iff] at hstep
      obtain ⟨⟨ret, mutex⟩, hlock, rfl⟩ := hstep
      exact h.lock hpc hlock
  | lockError ret =>
      have hpossible := h.possible k
      rw [hpc] at hpossible
      exact hpossible.elim
  | prOut =>
      rw [hpc] at hstep
      cases hstep
      exact h.goto (by rw [hpc]; rfl) trivial (by simp [hpc, Pc.Reported])
  | sleep =>
      rw [hpc] at hstep
      cases hstep
      by_cases hk : 1 < k
      · rw [if_pos hk]
        exact h.goto (by rw [hpc]; rfl) hk (by simp [hpc, Pc.Reported])
      · rw [if_neg hk]
        refine h.goto ?_ (fun _ => Nat.le_of_not_lt hk) (by simp [hpc, Pc.Reported, hk])
        simp [hpc, Pc.view, Twice, hk]
  | relock =>
      simp only [hpc, Option.map_eq_some_iff] at hstep
      obtain ⟨⟨ret, mutex⟩, hlock, rfl⟩ := hstep
      exact h.relock hpc hlock
  | relockError ret =>
      rw [hpc] at hstep
      cases hstep
      exact h.relockError hpc
  | unlock =>
      simp only [hpc, Option.map_eq_some_iff] at hstep
      obtain ⟨⟨ret, mutex⟩, hunlock, rfl⟩ := hstep
      exact h.unlock hpc hunlock
  | unlockError ret =>
      have hpossible := h.possible k
      rw [hpc] at hpossible
      exact hpossible.elim
  | returned =>
      rw [hpc] at hstep
      cases hstep

theorem invariant_run
    {ks : List Nat}
    (hrun : run (step n) (State.start kind) ks = some s) :
    Invariant kind s := by
  refine run_invariant ?_ invariant_start hrun
  intro s k s' h hstep
  obtain ⟨_, hthread⟩ := Option.ite_none_right_eq_some.mp hstep
  exact h.threadStep hthread

end Ownership

section Outcome

variable {kind : Kind} {n : Nat} {s : State}

/-- Thread `k` has the mutex for ever; who locks it twice waits for it. -/
structure Kept (n : Nat) (s : State) (k : Nat) (place : Pc) : Prop where
  index : 1 < k ∧ k < n
  place : s.pc k = place
  held : s.mutex.own = .held k 1 true
  others : ∀ j, j < n → j ≠ k → s.pc j = .lock ∨ (s.pc j = .returned ∧ j ≤ 1)

/-- How the program ends. -/
def Outcome (n : Nat) (s : State) : Kind → Prop
  | .normal => ∃ k, Kept n s k .relock
  | .errorcheck =>
      (∀ k, k < n → s.pc k = .returned) ∧ s.mutex.own = .free ∧
        ∀ k, k < n → s.errors.count (k, .edeadlk) = if 1 < k then 1 else 0
  | .recursive => ∃ k, Kept n s k .returned

/-- Who cannot go on has returned or waits in one of the two calls of `pthread_mutex_lock`. -/
theorem Invariant.halted
    (h : Invariant kind s)
    {k : Nat}
    (hend : MutexType.threadStep s k = none) :
    s.pc k = .returned ∨ ((s.pc k = .lock ∨ s.pc k = .relock) ∧ s.mutex.lock k = none) := by
  unfold MutexType.threadStep at hend
  cases hpc : s.pc k with
  | lock =>
      simp only [hpc, Option.map_eq_none_iff] at hend
      exact Or.inr ⟨Or.inl rfl, hend⟩
  | relock =>
      simp only [hpc, Option.map_eq_none_iff] at hend
      exact Or.inr ⟨Or.inr rfl, hend⟩
  | unlock =>
      simp only [hpc, Option.map_eq_none_iff] at hend
      have hview : s.mutex.own.view k = some (if Twice kind k then 2 else 1, true) := by
        rw [h.agrees k, hpc]
        rfl
      split_ifs at hview
      · rw [unlock_inner hview] at hend
        cases hend
      · rw [unlock_last hview] at hend
        cases hend
  | returned =>
      exact Or.inl rfl
  | lockError ret => simp [hpc] at hend
  | prOut => simp [hpc] at hend
  | sleep => simp [hpc] at hend
  | relockError ret => simp [hpc] at hend
  | unlockError ret => simp [hpc] at hend

/-- With a free mutex all threads have returned, each as often as it was counted. -/
theorem Invariant.halted_free
    (h : Invariant kind s)
    (hown : s.mutex.own = .free)
    {k : Nat}
    (hend : MutexType.threadStep s k = none) :
    s.pc k = .returned ∧ (kind = .errorcheck ∨ k ≤ 1) := by
  have hpc : s.pc k = .returned := by
    refine (h.halted hend).resolve_right ?_
    rintro ⟨_, hwaits⟩
    obtain ⟨j, count, consistent, hheld, _⟩ := lock_eq_none_iff.mp hwaits
    rw [hown] at hheld
    cases hheld
  have hpossible := h.possible k
  have hview := h.agrees k
  rw [hpc] at hpossible
  rw [hown, hpc] at hview
  refine ⟨hpc, ?_⟩
  cases kind with
  | normal =>
      exact Or.inr (hpossible rfl)
  | errorcheck =>
      exact Or.inl rfl
  | recursive =>
      refine Or.inr (Nat.le_of_not_lt fun hk => ?_)
      simp [Own.view, Pc.view, Twice, hk] at hview

/-- The owner waits for itself, or has returned and keeps the mutex. -/
theorem Invariant.halted_owner
    (h : Invariant kind s)
    {k count : Nat} {consistent : Bool}
    (hown : s.mutex.own = .held k count consistent)
    (hend : MutexType.threadStep s k = none) :
    1 < k ∧ s.mutex.own = .held k 1 true ∧
      ((kind = .normal ∧ s.pc k = .relock) ∨ (kind = .recursive ∧ s.pc k = .returned)) := by
  have hview := h.agrees k
  have hpossible := h.possible k
  have hheld : s.mutex.own.view k = some (count, consistent) := by
    rw [hown, view_held_self]
  rcases h.halted hend with hpc | ⟨hpc | hpc, hwaits⟩
  · by_cases htwice : Twice kind k
    · rw [hpc, Pc.view, if_pos htwice] at hview
      exact ⟨htwice.2, view_eq_some_iff.mp hview, Or.inr ⟨htwice.1, hpc⟩⟩
    · rw [hpc, Pc.view, if_neg htwice, hheld] at hview
      cases hview
  · rw [hpc, hheld] at hview
    cases hview
  · rw [hpc] at hview hpossible
    obtain ⟨j, _, _, hj, hkind⟩ := lock_eq_none_iff.mp hwaits
    rw [hown] at hj
    cases hj
    exact ⟨hpossible, view_eq_some_iff.mp hview, Or.inl ⟨h.kind_eq.symm.trans (hkind rfl), hpc⟩⟩

/-- A thread that is not the owner. -/
theorem Invariant.halted_other
    (h : Invariant kind s)
    {j : Nat}
    (hkind : kind ≠ .errorcheck)
    (hview : s.mutex.own.view j = none)
    (hend : MutexType.threadStep s j = none) :
    s.pc j = .lock ∨ (s.pc j = .returned ∧ j ≤ 1) := by
  rw [h.agrees j] at hview
  rcases h.halted hend with hpc | ⟨hpc | hpc, _⟩
  · refine Or.inr ⟨hpc, ?_⟩
    have hpossible := h.possible j
    rw [hpc] at hpossible hview
    cases kind with
    | normal =>
        exact hpossible rfl
    | errorcheck =>
        exact absurd rfl hkind
    | recursive =>
        refine Nat.le_of_not_lt fun hj => ?_
        simp [Pc.view, Twice, hj] at hview
  · exact Or.inl hpc
  · rw [hpc] at hview
    cases hview

theorem Invariant.settled
    (h : Invariant kind s)
    (habsent : ∀ k, n ≤ k → s.pc k = .lock)
    (hn : 2 < n)
    (hend : ∀ k, step n s k = none) :
    Outcome n s kind := by
  have hthread : ∀ k, k < n → MutexType.threadStep s k = none := by
    intro k hk
    have hnone := hend k
    rwa [step, if_pos hk] at hnone
  cases hown : s.mutex.own with
  | free =>
      -- thread 2 has returned, so the type is `errorcheck`
      obtain ⟨_, hkind | htwo⟩ := h.halted_free hown (hthread 2 hn)
      · subst hkind
        refine ⟨fun k hk => (h.halted_free hown (hthread k hk)).1, hown, ?_⟩
        intro k hk
        rw [h.errors, reports]
        simp [(h.halted_free hown (hthread k hk)).1, Pc.Reported]
      · omega
  | held k count consistent =>
      have hk : k < n := by
        by_contra hle
        have hview := h.agrees k
        rw [habsent k (by omega), hown, view_held_self] at hview
        cases hview
      obtain ⟨hindex, hheld, hplace⟩ := h.halted_owner hown (hthread k hk)
      have hothers : kind ≠ .errorcheck → ∀ j, j < n → j ≠ k →
          s.pc j = .lock ∨ (s.pc j = .returned ∧ j ≤ 1) := by
        intro hkind j hj hne
        refine h.halted_other hkind ?_ (hthread j hj)
        rw [hheld, view_held_of_ne hne]
      rcases hplace with ⟨rfl, hpc⟩ | ⟨rfl, hpc⟩
      · exact ⟨k, ⟨hindex, hk⟩, hpc, hheld, hothers (by simp)⟩
      · exact ⟨k, ⟨hindex, hk⟩, hpc, hheld, hothers (by simp)⟩
  | ownerDead =>
      exact absurd hown h.usable.1
  | notRecoverable =>
      exact absurd hown h.usable.2

/--
Every run of the threads ends, and the type of the mutex decides how: only with the type
`errorcheck` do all threads return.
-/
theorem outcome
    {ks : List Nat}
    (hn : 2 < n)
    (hrun : run (step n) (State.start kind) ks = some s) :
    ks.length ≤ n * 8 ∧ ((∀ k, step n s k = none) → Outcome n s kind) :=
  ⟨length_le hrun, (invariant_run hrun).settled (absent_run hrun) hn⟩

/-- Thread 2 is the first to lock the mutex, and waits for itself. -/
theorem outcome_normal :
    ∃ s,
      run (step 3) (State.start .normal) [2, 2, 2] = some s ∧
      (∀ k, step 3 s k = none) ∧
      Outcome 3 s .normal := by
  have hrun : run (step 3) (State.start .normal) [2, 2, 2] = some _ := rfl
  refine ⟨_, hrun, ?_, (outcome (by decide) hrun).2 ?_⟩ <;>
    · intro k
      rcases Nat.lt_or_ge k 3 with hk | hk
      · interval_cases k <;> rfl
      · exact if_neg (Nat.not_lt.mpr hk)

end Outcome

end MutexType
end SysProg
