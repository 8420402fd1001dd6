import SysProg.Lib.Census
import SysProg.Lib.Progress
import Mathlib.Tactic

/-!
# The children of ALSP/posix_nameless_sem.c and ALSP/posix_named_sem_cnt.c

Both programs start 30 children and call `sem_wait` before each of them, so that the value of
the semaphore bounds how many run at once; a child calls `sem_post` when it is done.  In the
first program the value is the counter on the command line, the children are threads, joined
in order, and thread 11 returns without `sem_post`.  In the second one they are processes,
reaped in any order, and the semaphore has a name.  If there is one with this name the program
goes on with it and its value; ALSP/posix_named_sem_post.c posts it from outside, and another
instance of the program takes and posts its units.

**Steps.**  The calls on the semaphore, the creation of a child, the waiting for one and the
work of a child are single steps, in any order.  The creation may fail; the main thread then
calls `exit`.  `sem_wait` is not interrupted, the value does not reach `SEM_VALUE_MAX`, and
nobody unlinks the semaphore between the two calls of `sem_open`.

**Results.**  `nameless_outcome`: at most as many threads run at once as the counter says; every
run ends, and the program comes to its end, with one unit less, if the counter is at least 2;
with the counter 1 it hangs in its thirteenth `sem_wait`, because thread 11 keeps the unit.
`named_outcome`: every post from outside lets at most one more child run at once, and the second
program comes to its end with all units back, unless others have all of them.
-/

namespace SysProg
namespace SemaphoreChildren

open Census Progress Run

section Program

/-- `MAX_CHILD_THREAD`, `max_child` -/
def maxChild : Nat := 30

/-- In which the two programs differ: the children that call `sem_post`, and what a child is. -/
structure Program where
  posts : Nat → Bool
  threads : Bool

/-- `start_child` returns early for the index 11. -/
def nameless : Program where
  posts := fun i => i != 11
  threads := true

def named : Program where
  posts := fun _ => true
  threads := false

inductive Main where
  /-- at `sem_wait` in turn `i` -/
  | wait (i : Nat)
  | create (i : Nat)
  /-- `i` children have been joined or reaped -/
  | join (i : Nat)
  /-- the last value has been printed -/
  | finished (value : Nat)
  | exited
deriving DecidableEq, Repr

inductive Child where
  | absent
  | running
  | posting
  /-- with or without `sem_post` -/
  | ended (posted : Bool)
deriving DecidableEq, Repr

def Child.isEnded : Child → Bool
  | .ended _ => true
  | _ => false

/--
The value, the main thread and its children; `external` counts the posts from outside and
`taken` the units that other processes have taken.
-/
structure State where
  value : Nat
  main : Main
  child : Nat → Child
  external : Nat
  taken : Nat

def State.start (count : Nat) : State where
  value := count
  main := .wait 0
  child := fun _ => .absent
  external := 0
  taken := 0

/-- What comes of the first `sem_open` of the second program. -/
inductive Opened where
  | created
  /-- `EEXIST`, with the value of the semaphore -/
  | eexist (value : Nat)
  | fails
deriving DecidableEq, Repr

/-- The second program behind `sem_open`, unless it has called `exit`. -/
def namedStart (nCount : Nat) : Opened → Option State
  | .created => some (State.start nCount)
  | .eexist value => some (State.start value)
  | .fails => none

/-- `pthread_join` of the next thread, or `waitpid` for any process. -/
def joinable (prog : Program) (s : State) (i : Nat) : Bool :=
  if prog.threads then (s.child i).isEnded
  else decide (i < census Child.isEnded s.child maxChild)

/-- The next turn of the loop, or the loop after it. -/
def Main.next (i : Nat) : Main :=
  if i + 1 < maxChild then .wait (i + 1) else .join 0

def mainStep (prog : Program) (s : State) : Option State :=
  match s.main with
  | .wait i =>
      if 0 < s.value then some { s with value := s.value - 1, main := .create i } else none
  | .create i =>
      some { s with
        child := Function.update s.child i .running
        main := .next i }
  | .join i =>
      if i < maxChild then
        if joinable prog s i then some { s with main := .join (i + 1) } else none
      else some { s with main := .finished s.value }
  | .finished _ => none
  | .exited => none

/-- `start_child`, or what a child process does. -/
def childStep (prog : Program) (s : State) (i : Nat) : Option State :=
  match s.child i with
  | .running =>
      some { s with
        child := Function.update s.child i (if prog.posts i then .posting else .ended false) }
  | .posting =>
      some { s with value := s.value + 1, child := Function.update s.child i (.ended true) }
  | _ => none

inductive Label where
  | main
  | createFails
  | child (i : Nat)
  /-- ALSP/posix_named_sem_post.c, or a child of another instance -/
  | post
  /-- `sem_wait` in another instance -/
  | take
deriving DecidableEq, Repr

def step (prog : Program) (s : State) : Label → Option State
  | .main => mainStep prog s
  | .createFails =>
      match s.main with
      | .create _ => some { s with main := .exited }
      | _ => none
  | .child i =>
      -- `exit` ends the threads of the process
      if prog.threads = true ∧ s.main = .exited then none else childStep prog s i
  | .post =>
      if prog.threads then none
      else some { s with value := s.value + 1, external := s.external + 1 }
  | .take =>
      if prog.threads = false ∧ 0 < s.value then
        some { s with value := s.value - 1, taken := s.taken + 1 }
      else none

end Program

section Units

variable {prog : Program} {count i : Nat} {s s' : State} {l : Label}

/-- The unit that was taken for the child has not come back. -/
def Child.out : Child → Bool
  | .running => true
  | .posting => true
  | .ended posted => !posted
  | .absent => false

/-- The main thread has taken a unit for the next child. -/
def Main.out : Main → Nat
  | .create _ => 1
  | .exited => 1
  | _ => 0

/-- How many children have been created; what happens after `exit` is left open. -/
def Main.created : Main → Nat
  | .wait i => i
  | .create i => i
  | _ => maxChild

/-- The turn whose `sem_wait` was the last to return. -/
def Main.passed : Main → Option Nat
  | .wait 0 => none
  | .wait (i + 1) => some i
  | .create i => some i
  | .join _ => some (maxChild - 1)
  | .finished _ => some (maxChild - 1)
  | .exited => none

/-- How many of the first `i` children do not post. -/
def Program.lost (prog : Program) (i : Nat) : Nat :=
  census (fun j => !prog.posts j) id i

/-- How many units are out. -/
def State.out (s : State) : Nat :=
  census Child.out s.child maxChild

/-- The places that the main thread can come to. -/
def Main.Valid : Main → Prop
  | .wait i => i < maxChild
  | .create i => i < maxChild
  | .join i => i ≤ maxChild
  | _ => True

/-- What the joins so far say about the children. -/
def Joined (prog : Program) (s : State) : Prop :=
  ∀ i, s.main = .join i →
    if prog.threads then ∀ j, j < i → (s.child j).isEnded = true
    else i ≤ census Child.isEnded s.child maxChild

structure Invariant (prog : Program) (count : Nat) (s : State) : Prop where
  units : s.value + s.out + s.main.out + s.taken = count + s.external
  valid : s.main.Valid
  created : s.main ≠ .exited → ∀ j, s.child j = .absent ↔ s.main.created ≤ j
  absent : ∀ j, maxChild ≤ j → s.child j = .absent
  posted : ∀ j posted, s.child j = .ended posted → posted = prog.posts j
  promised : ∀ j, s.child j = .posting → prog.posts j = true
  joined : Joined prog s
  passed : ∀ i, s.main.passed = some i → prog.lost i < count + s.external
  outside : prog.threads = true → s.external = 0 ∧ s.taken = 0
  finished : ∀ value, s.main = .finished value →
    count ≤ value + prog.lost maxChild + s.taken ∧
      value + prog.lost maxChild ≤ count + s.external

theorem invariant_start :
    Invariant prog count (State.start count) := by
  have hout : (State.start count).out = 0 :=
    census_eq_of_rest (q := Child.out) (g := fun _ => .absent) (Nat.zero_le _)
      (fun j hj => absurd hj (Nat.not_lt_zero j)) (fun _ _ _ => rfl)
  refine ⟨?_, Nat.zero_lt_succ 29, ?_, fun _ _ => rfl, ?_, ?_, ?_, ?_, fun _ => ⟨rfl, rfl⟩, ?_⟩
  · rw [hout]
    rfl
  · intro _ j
    simp [State.start, Main.created]
  · intro j posted h
    cases h
  · intro j h
    cases h
  · intro i h
    cases h
  · intro i h
    cases h
  · intro value h
    cases h

/-- A child that has been created and does not post keeps its unit out. -/
theorem Invariant.out_of_lost
    (h : Invariant prog count s)
    {j : Nat}
    (hcreated : s.child j ≠ .absent)
    (hposts : prog.posts j = false) :
    (s.child j).out = true := by
  cases hchild : s.child j with
  | absent =>
      exact absurd hchild hcreated
  | running =>
      rfl
  | posting =>
      rfl
  | ended posted =>
      rw [h.posted j posted hchild, hposts]
      rfl

theorem Main.Valid.created_le
    {main : Main}
    (h : main.Valid) :
    main.created ≤ maxChild := by
  cases main with
  | wait i => exact Nat.le_of_lt h
  | create i => exact Nat.le_of_lt h
  | join i => exact Nat.le_refl _
  | finished value => exact Nat.le_refl _
  | exited => exact Nat.le_refl _

/-- The units of those who do not post are out. -/
theorem Invariant.lost_le_out
    (h : Invariant prog count s)
    (hmain : s.main ≠ .exited) :
    prog.lost s.main.created ≤ s.out := by
  refine census_le h.valid.created_le ?_
  intro j hj hposts
  refine h.out_of_lost ?_ (by simpa using hposts)
  rw [Ne, h.created hmain]
  omega

/-- When the children that have been created have ended, only those units are out. -/
theorem Invariant.out_eq_lost
    (h : Invariant prog count s)
    (hmain : s.main ≠ .exited)
    (hended : ∀ j, j < s.main.created → (s.child j).isEnded = true) :
    s.out = prog.lost s.main.created := by
  refine census_eq_of_rest h.valid.created_le ?_ ?_
  · intro j hj
    have hj' := hended j hj
    cases hchild : s.child j with
    | ended posted =>
        rw [h.posted j posted hchild]
        rfl
    | absent => simp [hchild, Child.isEnded] at hj'
    | running => simp [hchild, Child.isEnded] at hj'
    | posting => simp [hchild, Child.isEnded] at hj'
  · intro j hj _
    rw [(h.created hmain j).mpr hj]
    rfl

/-- When as many children have been joined as there are, all have ended. -/
theorem Joined.all
    (h : Joined prog s)
    (hmain : s.main = .join maxChild) :
    ∀ j, j < maxChild → (s.child j).isEnded = true := by
  have hjoined := h maxChild hmain
  split_ifs at hjoined with hthreads
  · exact hjoined
  · exact forall_of_le_census hjoined

theorem Joined.mono
    {child : Nat → Child} {value : Nat}
    (h : Joined prog s)
    (hended : ∀ j, (s.child j).isEnded = true → (child j).isEnded = true) :
    Joined prog { s with child := child, value := value } := by
  intro i hmain
  have hjoined := h i hmain
  split_ifs at hjoined ⊢ with hthreads
  · exact fun j hj => hended j (hjoined j hj)
  · exact hjoined.trans (census_le (Nat.le_refl _) (fun j _ => hended j))

theorem Invariant.wait
    (h : Invariant prog count s)
    (hmain : s.main = .wait i)
    (hvalue : 0 < s.value) :
    Invariant prog count { s with value := s.value - 1, main := .create i } := by
  have hrunning : s.main ≠ .exited := by
    rw [hmain]
    simp
  have hunits := h.units
  have hlost := h.lost_le_out hrunning
  have hvalid := h.valid
  have hcreated := h.created hrunning
  rw [hmain] at hunits hlost hvalid hcreated
  refine ⟨?_, hvalid, fun _ => hcreated, h.absent, h.posted, h.promised, ?_, ?_, h.outside, ?_⟩
  · simp only [State.out, Main.out] at hunits ⊢
    omega
  · intro i' hmain'
    cases hmain'
  · intro i' hi'
    cases hi'
    simp only [Main.out, Main.created] at hunits hlost ⊢
    omega
  · intro value hmain'
    cases hmain'

/-- What is known of the main thread after the creation of child `i`. -/
structure Main.After (i : Nat) (main : Main) : Prop where
  out : main.out = 0
  valid : main.Valid
  created : main.created = i + 1
  passed : main.passed = some i
  joined : ∀ i', main = .join i' → i' = 0
  running : ∀ value, main ≠ .finished value

theorem after_next
    (hi : i < maxChild) :
    (Main.next i).After i := by
  unfold Main.next
  split_ifs with hlast
  · exact ⟨rfl, hlast, rfl, rfl, by simp, by simp⟩
  · have hsucc : i + 1 = maxChild := Nat.le_antisymm hi (Nat.le_of_not_lt hlast)
    have hpred : maxChild - 1 = i := by omega
    exact ⟨rfl, Nat.zero_le _, hsucc.symm, congrArg some hpred, by simp, by simp⟩

theorem Invariant.create
    {main : Main}
    (h : Invariant prog count s)
    (hmain : s.main = .create i)
    (hafter : main.After i) :
    Invariant prog count
      { s with child := Function.update s.child i .running, main := main } := by
  have hunits := h.units
  have hvalid : i < maxChild := by
    have hvalid := h.valid
    rwa [hmain] at hvalid
  have hcreated := h.created (by rw [hmain]; simp)
  have hpassed := h.passed i (by rw [hmain]; rfl)
  rw [hmain] at hunits hcreated
  have habsent : s.child i = .absent := (hcreated i).mpr (Nat.le_refl i)
  have hout : census Child.out (Function.update s.child i .running) maxChild = s.out + 1 := by
    have hupdate := census_update (p := Child.out) (f := s.child) .running hvalid
    rw [habsent] at hupdate
    exact hupdate
  refine ⟨?_, hafter.valid, ?_, ?_, ?_, ?_, ?_, ?_, h.outside, ?_⟩
  · rw [State.out, hout, hafter.out]
    simp only [Main.out] at hunits
    omega
  · intro _
    refine (Function.forall_update_iff s.child
      (fun j c => c = .absent ↔ main.created ≤ j)).mpr ⟨?_, ?_⟩
    · rw [hafter.created]
      simp
    · intro j hj
      rw [hcreated j, hafter.created, Main.created]
      omega
  · intro j hj
    have hne : j ≠ i := by omega
    exact (Function.update_of_ne hne _ _).trans (h.absent j hj)
  · exact (Function.forall_update_iff s.child
      (fun j c => ∀ posted, c = .ended posted → posted = prog.posts j)).mpr
      ⟨by simp, fun j _ => h.posted j⟩
  · exact (Function.forall_update_iff s.child
      (fun j c => c = .posting → prog.posts j = true)).mpr ⟨by simp, fun j _ => h.promised j⟩
  · intro i' hmain'
    rw [hafter.joined i' hmain']
    split_ifs
    · exact fun j hj => absurd hj (Nat.not_lt_zero j)
    · exact Nat.zero_le _
  · intro i' hi'
    rw [hafter.passed] at hi'
    cases hi'
    exact hpassed
  · intro value hmain'
    exact absurd hmain' (hafter.running value)

theorem Invariant.join
    (h : Invariant prog count s)
    (hmain : s.main = .join i)
    (hlt : i < maxChild)
    (hjoinable : joinable prog s i = true) :
    Invariant prog count { s with main := .join (i + 1) } := by
  have hunits := h.units
  have hjoined := h.joined i hmain
  have hcreated := h.created (by rw [hmain]; simp)
  have hpassed := h.passed
  rw [hmain] at hunits hcreated hpassed
  refine ⟨hunits, hlt, fun _ => hcreated, h.absent, h.posted, h.promised, ?_, hpassed, h.outside,
    ?_⟩
  · intro i' hmain'
    cases hmain'
    unfold joinable at hjoinable
    split_ifs at hjoinable hjoined ⊢ with hthreads
    · intro j hj
      rcases Nat.lt_succ_iff_lt_or_eq.mp hj with hold | rfl
      · exact hjoined j hold
      · exact hjoinable
    · exact of_decide_eq_true hjoinable
  · intro value hmain'
    cases hmain'

theorem Invariant.finish
    (h : Invariant prog count s)
    (hmain : s.main = .join i)
    (hge : ¬ i < maxChild) :
    Invariant prog count { s with main := .finished s.value } := by
  have hlast : i = maxChild := by
    have hvalid := h.valid
    rw [hmain] at hvalid
    exact Nat.le_antisymm hvalid (Nat.le_of_not_lt hge)
  subst hlast
  have hrunning : s.main ≠ .exited := by
    rw [hmain]
    simp
  have hunits := h.units
  have hcreated := h.created hrunning
  have hpassed := h.passed
  have hout : s.out = prog.lost maxChild := by
    have hout := h.out_eq_lost hrunning (by rw [hmain]; exact h.joined.all hmain)
    rwa [hmain] at hout
  rw [hmain] at hunits hcreated hpassed
  refine ⟨hunits, trivial, fun _ => hcreated, h.absent, h.posted, h.promised, ?_, hpassed,
    h.outside, ?_⟩
  · intro i' hmain'
    cases hmain'
  · intro value hmain'
    cases hmain'
    simp only [hout, Main.out] at hunits ⊢
    omega

theorem Invariant.mainStep
    (h : Invariant prog count s)
    (hstep : mainStep prog s = some s') :
    Invariant prog count s' := by
  unfold SemaphoreChildren.mainStep at hstep
  cases hmain : s.main with
  | wait i =>
      rw [hmain] at hstep
      obtain ⟨hvalue, hsome⟩ := Option.ite_none_right_eq_some.mp hstep
      cases hsome
      exact h.wait hmain hvalue
  | create i =>
      rw [hmain] at hstep
      cases hstep
      have hvalid := h.valid
      rw [hmain] at hvalid
      exact h.create hmain (after_next hvalid)
  | join i =>
      rw [hmain] at hstep
      simp only at hstep
      split_ifs at hstep with hlt hjoinable
      · cases hstep
        exact h.join hmain hlt hjoinable
      · cases hstep
        exact h.finish hmain hlt
  | finished value =>
      rw [hmain] at hstep
      cases hstep
  | exited =>
      rw [hmain] at hstep
      cases hstep

/-- A child that goes on, with the units that come back. -/
theorem Invariant.moved
    {c : Child} {value : Nat}
    (h : Invariant prog count s)
    (hchild : s.child i ≠ .absent ∧ (s.child i).isEnded = false)
    (hc : c ≠ .absent)
    (hunits : value + c.out.toNat = s.value + (s.child i).out.toNat)
    (hposted : ∀ posted, c = .ended posted → posted = prog.posts i)
    (hpromised : c = .posting → prog.posts i = true) :
    Invariant prog count { s with value := value, child := Function.update s.child i c } := by
  have hlt : i < maxChild := by
    by_contra hge
    exact hchild.1 (h.absent i (Nat.le_of_not_lt hge))
  have hupdate := census_update (p := Child.out) (f := s.child) c hlt
  have hold := h.units
  refine ⟨?_, h.valid, ?_, ?_, ?_, ?_, ?_, h.passed, h.outside, h.finished⟩
  · simp only [State.out] at hold ⊢
    omega
  · intro hmain
    refine (Function.forall_update_iff s.child
      (fun j c => c = .absent ↔ s.main.created ≤ j)).mpr ⟨?_, fun j _ => h.created hmain j⟩
    rw [← h.created hmain i]
    exact iff_of_false hc hchild.1
  · intro j hj
    have hne : j ≠ i := by omega
    exact (Function.update_of_ne hne _ _).trans (h.absent j hj)
  · exact (Function.forall_update_iff s.child
      (fun j c => ∀ posted, c = .ended posted → posted = prog.posts j)).mpr
      ⟨hposted, fun j _ => h.posted j⟩
  · exact (Function.forall_update_iff s.child
      (fun j c => c = .posting → prog.posts j = true)).mpr ⟨hpromised, fun j _ => h.promised j⟩
  · refine h.joined.mono ?_
    intro j hj
    have hne : j ≠ i := by
      rintro rfl
      rw [hchild.2] at hj
      cases hj
    rwa [Function.update_of_ne hne]

theorem Invariant.childStep
    (h : Invariant prog count s)
    (hstep : childStep prog s i = some s') :
    Invariant prog count s' := by
  unfold SemaphoreChildren.childStep at hstep
  cases hchild : s.child i with
  | running =>
      rw [hchild] at hstep
      cases hstep
      refine h.moved (by simp [hchild, Child.isEnded]) ?_ ?_ ?_ ?_
      · split_ifs <;> simp
      · rw [hchild]
        split_ifs <;> rfl
      · intro posted hc
        split_ifs at hc with hposts
        cases hc
        simpa using hposts
      · intro hc
        split_ifs at hc with hposts
        exact hposts
  | posting =>
      rw [hchild] at hstep
      cases hstep
      refine h.moved (by simp [hchild, Child.isEnded]) (by simp) ?_ ?_ (by simp)
      · rw [hchild]
        rfl
      · intro posted hc
        cases hc
        exact (h.promised i hchild).symm
  | absent =>
      rw [hchild] at hstep
      cases hstep
  | ended posted =>
      rw [hchild] at hstep
      cases hstep

theorem Invariant.step
    (h : Invariant prog count s)
    (hstep : step prog s l = some s') :
    Invariant prog count s' := by
  cases l with
  | main =>
      exact h.mainStep hstep
  | createFails =>
      simp only [SemaphoreChildren.step] at hstep
      split at hstep
      case h_1 i hmain =>
          cases hstep
          have hunits := h.units
          rw [hmain] at hunits
          refine ⟨hunits, trivial, fun hne => absurd rfl hne, h.absent, h.posted, h.promised,
            ?_, ?_, h.outside, ?_⟩
          · intro i' hmain'
            cases hmain'
          · intro i' hi'
            cases hi'
          · intro value hmain'
            cases hmain'
      case h_2 =>
          cases hstep
  | child i =>
      obtain ⟨_, hchild⟩ := Option.ite_none_left_eq_some.mp hstep
      exact h.childStep hchild
  | post =>
      obtain ⟨hthreads, hsome⟩ := Option.ite_none_left_eq_some.mp hstep
      cases hsome
      have hunits := h.units
      refine ⟨?_, h.valid, h.created, h.absent, h.posted, h.promised, h.joined, ?_,
        fun hmode => absurd hmode hthreads, ?_⟩
      · simp only [State.out] at hunits ⊢
        omega
      · intro i hi
        have hlt := h.passed i hi
        simp only
        omega
      · intro value hmain
        have hfinished := h.finished value hmain
        simp only
        omega
  | take =>
      obtain ⟨⟨hthreads, hvalue⟩, hsome⟩ := Option.ite_none_right_eq_some.mp hstep
      cases hsome
      have hunits := h.units
      refine ⟨?_, h.valid, h.created, h.absent, h.posted, h.promised, h.joined, h.passed, ?_, ?_⟩
      · simp only [State.out] at hunits ⊢
        omega
      · intro hmode
        rw [hthreads] at hmode
        cases hmode
      · intro value hmain
        have hfinished := h.finished value hmain
        simp only
        omega

theorem invariant_run
    {ls : List Label}
    (hrun : run (SemaphoreChildren.step prog) (State.start count) ls = some s) :
    Invariant prog count s :=
  run_invariant (fun _ _ _ h hstep => h.step hstep) invariant_start hrun

end Units

section Ending

variable {prog : Program} {count i : Nat} {s s' : State} {l : Label}

/-- How many steps the main thread has left at most. -/
def Main.rank : Main → Nat
  | .wait i => 2 * (maxChild - i) + maxChild + 1
  | .create i => 2 * (maxChild - i) + maxChild
  | .join i => maxChild + 1 - i
  | .finished _ => 0
  | .exited => 0

def Child.rank : Child → Nat
  | .absent => 2
  | .running => 2
  | .posting => 1
  | .ended _ => 0

def State.left (s : State) : Nat :=
  s.main.rank + total Child.rank s.child maxChild

/-- A step of the program itself. -/
def Label.Own (l : Label) : Prop :=
  l ≠ .post ∧ l ≠ .take

theorem Invariant.left_mainStep
    (h : Invariant prog count s)
    (hstep : SemaphoreChildren.mainStep prog s = some s') :
    s'.left < s.left := by
  have hvalid := h.valid
  unfold SemaphoreChildren.mainStep at hstep
  split at hstep
  case h_1 i hmain =>
      obtain ⟨_, hsome⟩ := Option.ite_none_right_eq_some.mp hstep
      cases hsome
      simp only [State.left, hmain, Main.rank]
      omega
  case h_2 i hmain =>
      cases hstep
      rw [hmain] at hvalid
      have hlt : i < maxChild := hvalid
      have hupdate : total Child.rank (Function.update s.child i .running) maxChild +
          (s.child i).rank = total Child.rank s.child maxChild + 2 := total_update _ hlt
      have habsent : s.child i = .absent :=
        (h.created (by rw [hmain]; simp) i).mpr (by rw [hmain]; exact Nat.le_refl i)
      rw [habsent, Child.rank] at hupdate
      simp only [State.left, hmain, Main.rank, Main.next]
      split_ifs <;> simp only <;> omega
  case h_3 i hmain =>
      split_ifs at hstep with hlt hjoinable
      · cases hstep
        simp only [State.left, hmain, Main.rank]
        omega
      · cases hstep
        rw [hmain] at hvalid
        have hle : i ≤ maxChild := hvalid
        simp only [State.left, hmain, Main.rank]
        omega
  case h_4 =>
      cases hstep
  case h_5 =>
      cases hstep

theorem Invariant.left_childStep
    {i : Nat}
    (h : Invariant prog count s)
    (hstep : SemaphoreChildren.childStep prog s i = some s') :
    s'.left < s.left := by
  have hlt : s.child i ≠ .absent → i < maxChild := by
    intro hne
    by_contra hge
    exact hne (h.absent i (Nat.le_of_not_lt hge))
  unfold SemaphoreChildren.childStep at hstep
  split at hstep
  case h_1 hpc =>
      cases hstep
      refine Nat.add_lt_add_left (total_update_lt (hlt (by simp [hpc])) ?_) _
      rw [hpc]
      split_ifs <;> simp [Child.rank]
  case h_2 hpc =>
      cases hstep
      refine Nat.add_lt_add_left (total_update_lt (hlt (by simp [hpc])) ?_) _
      rw [hpc]
      simp [Child.rank]
  case h_3 =>
      cases hstep

theorem Invariant.left_lt
    (h : Invariant prog count s)
    (hown : l.Own)
    (hstep : SemaphoreChildren.step prog s l = some s') :
    s'.left < s.left := by
  cases l with
  | main =>
      exact h.left_mainStep hstep
  | createFails =>
      have hvalid := h.valid
      simp only [SemaphoreChildren.step] at hstep
      split at hstep
      case h_1 i hmain =>
          cases hstep
          rw [hmain] at hvalid
          have hlt : i < maxChild := hvalid
          simp only [State.left, hmain, Main.rank]
          omega
      case h_2 =>
          cases hstep
  | child i =>
      exact h.left_childStep (Option.ite_none_left_eq_some.mp hstep).2
  | post =>
      exact absurd rfl hown.1
  | take =>
      exact absurd rfl hown.2

/-- Neither the main thread nor a child can make a step. -/
def Halted (prog : Program) (s : State) : Prop :=
  ∀ l, l.Own → SemaphoreChildren.step prog s l = none

theorem Invariant.ended_of_halted
    (h : Invariant prog count s)
    (hrunning : s.main ≠ .exited)
    (hend : Halted prog s) :
    ∀ j, j < s.main.created → (s.child j).isEnded = true := by
  intro j hj
  have hnone := hend (.child j) ⟨by simp, by simp⟩
  rw [SemaphoreChildren.step, if_neg (fun hexit => hrunning hexit.2)] at hnone
  cases hchild : s.child j with
  | absent =>
      have hle := (h.created hrunning j).mp hchild
      omega
  | running =>
      simp [SemaphoreChildren.childStep, hchild] at hnone
  | posting =>
      simp [SemaphoreChildren.childStep, hchild] at hnone
  | ended posted =>
      rfl

/-- The program has come to its end, or all units are lost or with others. -/
theorem Invariant.halted
    (h : Invariant prog count s)
    (hrunning : s.main ≠ .exited)
    (hend : Halted prog s) :
    (∃ value, s.main = .finished value) ∨
      ∃ i, s.main = .wait i ∧ s.value = 0 ∧
        prog.lost i + s.taken = count + s.external := by
  have hended := h.ended_of_halted hrunning hend
  have hmain := hend .main ⟨by simp, by simp⟩
  simp only [SemaphoreChildren.step, SemaphoreChildren.mainStep] at hmain
  cases hpc : s.main with
  | wait i =>
      have hzero : s.value = 0 := by
        simpa [hpc] using hmain
      have hout := h.out_eq_lost hrunning hended
      have hunits := h.units
      rw [hpc] at hout hunits
      simp only [Main.created, Main.out] at hout hunits
      exact Or.inr ⟨i, rfl, hzero, by omega⟩
  | create i =>
      simp [hpc] at hmain
  | join i =>
      -- all children have ended, so the next one can be joined
      rw [hpc] at hended
      have hall : ∀ j, j < maxChild → (s.child j).isEnded = true := hended
      rcases Nat.lt_or_ge i maxChild with hlt | hge
      · have hjoinable : joinable prog s i = true := by
          unfold joinable
          split_ifs
          · exact hall i hlt
          · rw [census_eq_of_forall hall]
            exact decide_eq_true hlt
        simp [hpc, hlt, hjoinable] at hmain
      · simp [hpc, Nat.not_lt.mpr hge] at hmain
  | finished value =>
      exact Or.inl ⟨value, rfl⟩
  | exited =>
      exact absurd hpc hrunning

end Ending

section Results

variable {count : Nat} {s : State} {ls : List Label}

/-- The child has been created and has not called `sem_post`. -/
def Child.isRunning : Child → Bool
  | .running => true
  | .posting => true
  | _ => false

theorem Invariant.running_le
    {prog : Program}
    (h : Invariant prog count s) :
    census Child.isRunning s.child maxChild ≤ count + s.external := by
  have hle : census Child.isRunning s.child maxChild ≤ s.out := by
    refine census_le (Nat.le_refl _) ?_
    intro j _ hj
    cases hchild : s.child j <;> simp_all [Child.isRunning, Child.out]
  have hunits := h.units
  omega

/-- Only thread 11 keeps its unit. -/
theorem nameless_lost
    (i : Nat) :
    nameless.lost i = if 11 < i then 1 else 0 := by
  induction i with
  | zero =>
      rfl
  | succ i ih =>
      have hsucc : nameless.lost (i + 1) = nameless.lost i + (!(i != 11)).toNat := census_succ
      have hbit : (!(i != 11)).toNat = if i = 11 then 1 else 0 := by
        by_cases hi : i = 11 <;> simp [hi]
      rw [hsucc, ih, hbit]
      split_ifs <;> omega

theorem named_lost
    (i : Nat) :
    named.lost i = 0 := by
  refine census_eq_of_rest (q := id) (g := fun _ => false) (Nat.zero_le i) ?_ (fun _ _ _ => rfl)
  exact fun j hj => absurd hj (Nat.not_lt_zero j)

/-- What others do is not a step of the first program. -/
theorem nameless_length_le
    (hrun : run (SemaphoreChildren.step nameless) (State.start count) ls = some s) :
    ls.length ≤ 151 := by
  have hle := length_add_measure_le State.left
    (fun s l s' (h : Invariant nameless count s) hstep => ⟨h.step hstep, h.left_lt ?_ hstep⟩)
    invariant_start hrun
  · have hbound : total Child.rank (State.start count).child maxChild = maxChild * 2 :=
      total_const (fun _ _ => rfl)
    have hstart : (State.start count).left =
        91 + total Child.rank (State.start count).child maxChild := rfl
    have hmax : maxChild = 30 := rfl
    omega
  · constructor
    · rintro rfl
      cases hstep
    · rintro rfl
      cases hstep

/--
Thread 11 keeps the unit that was taken for it: the program needs a counter of at least 2 to
come to its end, where it prints one less, and hangs otherwise.
-/
theorem nameless_outcome
    (hrun : run (SemaphoreChildren.step nameless) (State.start count) ls = some s) :
    census Child.isRunning s.child maxChild ≤ count ∧ ls.length ≤ 151 ∧
      (s.main ≠ .exited → Halted nameless s →
        if 2 ≤ count then s.main = .finished (count - 1)
        else s.value = 0 ∧ s.main = .wait (if count = 0 then 0 else 12)) := by
  have h := invariant_run hrun
  have hrunning := h.running_le
  have hpassed := h.passed
  have hfinished := h.finished
  obtain ⟨hexternal, htaken⟩ := h.outside rfl
  simp only [hexternal, htaken, Nat.add_zero] at hrunning hpassed hfinished
  refine ⟨hrunning, nameless_length_le hrun, ?_⟩
  intro hmain hend
  rcases h.halted hmain hend with ⟨value, hpc⟩ | ⟨i, hpc, hzero, hlost⟩
  · have hvalue := hfinished value hpc
    have hlast := hpassed (maxChild - 1) (by rw [hpc]; rfl)
    rw [nameless_lost] at hvalue hlast
    have hmax : maxChild = 30 := rfl
    simp only [hmax] at hvalue hlast
    norm_num at hvalue hlast
    rw [if_pos (by omega), hpc]
    congr 1
    omega
  · rw [nameless_lost, hexternal, htaken, Nat.add_zero, Nat.add_zero] at hlost
    have hcount : ¬ 2 ≤ count := by
      split_ifs at hlost <;> omega
    rw [if_neg hcount]
    refine ⟨hzero, hpc.trans (congrArg Main.wait ?_)⟩
    cases i with
    | zero =>
        simp at hlost
        simp [← hlost]
    | succ i =>
        -- the `sem_wait` before this one has returned
        have hlast := hpassed i (by rw [hpc]; rfl)
        rw [nameless_lost] at hlast
        split_ifs at hlost hlast ⊢ <;> omega

/-- One thread after the other, up to thread 11. -/
def oneByOne : List Label :=
  (List.range 11).flatMap (fun i => [.main, .main, .child i, .child i]) ++
    [.main, .main, .child 11]

/-- With the counter 1 the program hangs in its thirteenth `sem_wait`. -/
theorem nameless_outcome_oneByOne :
    ∃ s, run (SemaphoreChildren.step nameless) (State.start 1) oneByOne = some s ∧
      Halted nameless s ∧ s.value = 0 ∧ s.main = .wait 12 := by
  obtain ⟨s, hrun, hvalue, hmain, hended⟩ : ∃ s,
      run (SemaphoreChildren.step nameless) (State.start 1) oneByOne = some s ∧
      s.value = 0 ∧ s.main = .wait 12 ∧ ∀ i < 12, s.child i = .ended (i != 11) :=
    ⟨_, rfl, rfl, rfl, by decide⟩
  have hend : Halted nameless s := by
    intro l hl
    cases l with
    | main => simp [SemaphoreChildren.step, SemaphoreChildren.mainStep, hmain, hvalue]
    | createFails => simp [SemaphoreChildren.step, hmain]
    | child i =>
        have hchild : s.child i = .ended (i != 11) ∨ s.child i = .absent := by
          refine (Nat.lt_or_ge i 12).imp (hended i) (fun hi => ?_)
          exact ((invariant_run hrun).created (by simp [hmain]) i).mpr (by rwa [hmain])
        rcases hchild with hchild | hchild <;>
          simp [SemaphoreChildren.step, SemaphoreChildren.childStep, hchild]
    | post => exact absurd rfl hl.1
    | take => exact absurd rfl hl.2
  exact ⟨s, hrun, hend, (nameless_outcome hrun).2.2 (by simp [hmain]) hend⟩

theorem namedStart_eq
    {nCount : Nat} {opened : Opened} {s₀ : State}
    (h : namedStart nCount opened = some s₀) :
    s₀ = State.start s₀.value := by
  cases opened <;> cases h <;> rfl

/--
The second program, whatever others do with the semaphore: as many children run at once as its
value behind `sem_open` and the posts from outside allow.  If no `fork` fails and others do not
have all units, it comes to its end, and finds the units that others have not taken.
-/
theorem named_outcome
    {nCount : Nat} {opened : Opened} {s₀ : State}
    (hopen : namedStart nCount opened = some s₀)
    (hrun : run (SemaphoreChildren.step named) s₀ ls = some s) :
    census Child.isRunning s.child maxChild ≤ s₀.value + s.external ∧
      (s.main ≠ .exited → Halted named s → s.taken < s₀.value + s.external →
        ∃ value, s.main = .finished value ∧
          s₀.value ≤ value + s.taken ∧ value ≤ s₀.value + s.external) := by
  rw [namedStart_eq hopen] at hrun
  have h := invariant_run hrun
  refine ⟨h.running_le, ?_⟩
  intro hmain hend htaken
  rcases h.halted hmain hend with ⟨value, hpc⟩ | ⟨i, _, _, hlost⟩
  · have hvalue := h.finished value hpc
    rw [named_lost, Nat.add_zero] at hvalue
    exact ⟨value, hpc, hvalue⟩
  · rw [named_lost] at hlost
    omega

/--
A semaphore of value 2 is there, and the counter 1 of the command line is not used: with a post
from outside three children run at once.
-/
theorem named_outcome_eexist :
    ∃ s₀ s,
      namedStart 1 (.eexist 2) = some s₀ ∧
      run (SemaphoreChildren.step named) s₀
        [.main, .main, .post, .main, .main, .main, .main] = some s ∧
      census Child.isRunning s.child maxChild = 3 ∧
      census Child.isRunning s.child maxChild ≤ s₀.value + s.external := by
  have hopen : namedStart 1 (.eexist 2) = some (State.start 2) := rfl
  have hrun : run (SemaphoreChildren.step named) (State.start 2)
      [.main, .main, .post, .main, .main, .main, .main] = some _ := rfl
  exact ⟨_, _, hopen, hrun, by decide, (named_outcome hopen hrun).1⟩

end Results

end SemaphoreChildren
end SysProg
