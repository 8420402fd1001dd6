import SysProg.Lib.Run
import SysProg.Lib.Semaphore
import Mathlib.Tactic

/-!
# Creating a semaphore set with ALSP/lib_sysv_sem.c

Any number of processes call `sysv_semget` with one key, and then `sysv_semwait` and
`sysv_sempost` on the id they got.  The first `semget` either creates the set or fails
with EEXIST; the creator allocates an array and sets all semaphores with SETALL, the
others get the id with a second `semget`.

**Steps.**  A label is one call of the kernel or of `malloc` by one process.  A set that
is just created has any values.  `arr_semval` has the type `unsigned short`, so it holds
`sem_value` modulo 65536.

**Result.**  Nothing makes the second `semget` wait for SETALL.  Creation is free of
races in a run exactly if each id is handed out after SETALL, and SETALL sets a value
that fits its type (`raceFree_iff_ordered`).
-/

namespace SysProg
namespace SysVSem

open Run Semaphore

section Program

/-- Where a process is in `sysv_semget`. -/
inductive Pc where
  /-- at the exclusive `semget` -/
  | semget
  /-- at the second `semget`, after EEXIST -/
  | semgetExisting
  /-- at `malloc`, with a new set -/
  | malloc
  /-- at `semctl` with SETALL -/
  | setall
  /-- back from `sysv_semget` with a valid id -/
  | attached
  /-- back from `sysv_semget` with -1 -/
  | failed
deriving DecidableEq, Repr

/-- The process has created the set and not given up on it. -/
def Pc.creating : Pc → Bool
  | .malloc => true
  | .setall => true
  | _ => false

/--
The processes and the set.  The last four fields are history: the value that SETALL has
written, whether an id was returned before all semaphores had been set to `sem_value`,
and the posts and waits completed on each semaphore.
-/
structure State where
  pc : Nat → Pc
  created : Bool
  semvals : Nat → Nat
  setTo : Option Nat
  early : Bool
  posts : Nat → Nat
  waits : Nat → Nat

def State.start : State where
  pc := fun _ => .semget
  created := false
  semvals := fun _ => 0
  setTo := none
  early := false
  posts := fun _ => 0
  waits := fun _ => 0

/-- The conversion of an `int` to `unsigned short`. -/
def unsignedShort (value : Int) : Nat :=
  (value % 65536).toNat

/-- All semaphores have been set to `semValue`. -/
def State.allSet (semValue : Int) (s : State) : Bool :=
  match s.setTo with
  | some value => decide ((value : Int) = semValue)
  | none => false

def State.goto (s : State) (pid : Nat) (pc : Pc) : State :=
  { s with pc := Function.update s.pc pid pc }

/-- `sysv_semget` returns the id to a process. -/
def State.returnId (semValue : Int) (s : State) (pid : Nat) : State :=
  { s.goto pid .attached with early := s.early || !s.allSet semValue }

/-- `semctl(sem_id, 0, SETALL, semun)` with `sem_value` in all places of the array. -/
def State.setall (nSem : Nat) (semValue : Int) (s : State) : State :=
  { s with
    semvals := fun i => if i < nSem then unsignedShort semValue else s.semvals i
    setTo := some (unsignedShort semValue) }

/-- The `semop` of `sysv_semwait`, if it can be carried out. -/
def sysvSemwait (semvals : Nat → Nat) (idx : Nat) : Option (Nat → Nat) :=
  (semop (semvals idx) (-1)).map (Function.update semvals idx)

/-- The `semop` of `sysv_sempost`, if it can be carried out. -/
def sysvSempost (semvals : Nat → Nat) (idx : Nat) : Option (Nat → Nat) :=
  (semop (semvals idx) 1).map (Function.update semvals idx)

theorem sysvSemwait_spec
    {semvals semvals' : Nat → Nat} {idx : Nat}
    (h : sysvSemwait semvals idx = some semvals') :
    ∃ val, semvals idx = val + 1 ∧ semvals' = Function.update semvals idx val := by
  obtain ⟨val, hop, rfl⟩ := Option.map_eq_some_iff.mp h
  exact ⟨val, semop_neg_one hop, rfl⟩

theorem sysvSempost_spec
    {semvals semvals' : Nat → Nat} {idx : Nat}
    (h : sysvSempost semvals idx = some semvals') :
    semvals' = Function.update semvals idx (semvals idx + 1) := by
  obtain ⟨val, hop, rfl⟩ := Option.map_eq_some_iff.mp h
  rw [semop_one hop]

end Program

section System

inductive Label where
  | ftokFails (pid : Nat)
  /-- the exclusive `semget` creates the set -/
  | create (pid : Nat) (vals : Nat → Nat)
  /-- the exclusive `semget` fails with EEXIST -/
  | eexist (pid : Nat)
  | semgetFails (pid : Nat)
  /-- the second `semget` returns the id -/
  | attach (pid : Nat)
  | attachFails (pid : Nat)
  | malloc (pid : Nat)
  | mallocFails (pid : Nat)
  | setall (pid : Nat)
  | setallFails (pid : Nat)
  | semwait (pid idx : Nat)
  | semwaitFails (pid : Nat)
  | sempost (pid idx : Nat)
  | sempostFails (pid : Nat)

variable (nSem : Nat) (semValue : Int)

def step (s : State) : Label → Option State
  | .ftokFails pid =>
      if s.pc pid = .semget then some (s.goto pid .failed) else none
  | .create pid vals =>
      if s.pc pid = .semget ∧ s.created = false ∧ 0 < nSem then
        some { s.goto pid .malloc with created := true, semvals := vals }
      else none
  | .eexist pid =>
      if s.pc pid = .semget ∧ s.created = true then
        some (s.goto pid .semgetExisting)
      else none
  | .semgetFails pid =>
      if s.pc pid = .semget then some (s.goto pid .failed) else none
  | .attach pid =>
      if s.pc pid = .semgetExisting ∧ s.created = true then
        some (s.returnId semValue pid)
      else none
  | .attachFails pid =>
      if s.pc pid = .semgetExisting then some (s.goto pid .failed) else none
  | .malloc pid =>
      if s.pc pid = .malloc then some (s.goto pid .setall) else none
  | .mallocFails pid =>
      if s.pc pid = .malloc then some (s.goto pid .failed) else none
  | .setall pid =>
      if s.pc pid = .setall ∧ unsignedShort semValue ≤ SEMVMX then
        some ((s.setall nSem semValue).returnId semValue pid)
      else none
  | .setallFails pid =>
      if s.pc pid = .setall then some (s.goto pid .failed) else none
  | .semwait pid idx =>
      if s.pc pid = .attached ∧ idx < nSem then
        (sysvSemwait s.semvals idx).map (fun semvals =>
          { s with
            semvals := semvals
            waits := Function.update s.waits idx (s.waits idx + 1) })
      else none
  | .semwaitFails pid =>
      if s.pc pid = .attached then some s else none
  | .sempost pid idx =>
      if s.pc pid = .attached ∧ idx < nSem then
        (sysvSempost s.semvals idx).map (fun semvals =>
          { s with
            semvals := semvals
            posts := Function.update s.posts idx (s.posts idx + 1) })
      else none
  | .sempostFails pid =>
      if s.pc pid = .attached then some s else none

/--
No id has been returned before all semaphores were set, and since then each value is
`semValue` with the completed posts and waits.
-/
structure RaceFree (s : State) : Prop where
  notEarly : s.early = false
  counted : s.allSet semValue = true → ∀ i < nSem,
    (s.semvals i : Int) = semValue + s.posts i - s.waits i

/-- An id is handed out after SETALL only, and SETALL sets a value of its type. -/
def Ordered (s : State) : Label → Prop
  | .attach _ => s.allSet semValue = true
  | .setall _ => (unsignedShort semValue : Int) = semValue
  | _ => True

instance (s : State) (l : Label) : Decidable (Ordered semValue s l) := by
  unfold Ordered
  split <;> infer_instance

end System

section Effects

variable {nSem : Nat} {semValue : Int} {s s' : State} {l : Label}

/-- What a step can do. -/
inductive Effect (nSem : Nat) (semValue : Int) (s : State) : Label → State → Prop
  | stops {l : Label} {pid : Nat} {pc : Pc}
      (hl : Ordered semValue s l)
      (hpc : pc = .failed ∨ pc = .semgetExisting) :
      Effect nSem semValue s l (s.goto pid pc)
  | created {pid : Nat} {vals : Nat → Nat}
      (hfree : s.created = false) :
      Effect nSem semValue s (.create pid vals)
        { s.goto pid .malloc with created := true, semvals := vals }
  | attached {pid : Nat}
      (hpc : s.pc pid = .semgetExisting) :
      Effect nSem semValue s (.attach pid) (s.returnId semValue pid)
  | allocated {pid : Nat}
      (hpc : s.pc pid = .malloc) :
      Effect nSem semValue s (.malloc pid) (s.goto pid .setall)
  | allSet {pid : Nat}
      (hpc : s.pc pid = .setall) :
      Effect nSem semValue s (.setall pid)
        ((s.setall nSem semValue).returnId semValue pid)
  | waited {pid idx val : Nat}
      (hpc : s.pc pid = .attached)
      (hval : s.semvals idx = val + 1) :
      Effect nSem semValue s (.semwait pid idx)
        { s with
          semvals := Function.update s.semvals idx val
          waits := Function.update s.waits idx (s.waits idx + 1) }
  | posted {pid idx : Nat}
      (hpc : s.pc pid = .attached) :
      Effect nSem semValue s (.sempost pid idx)
        { s with
          semvals := Function.update s.semvals idx (s.semvals idx + 1)
          posts := Function.update s.posts idx (s.posts idx + 1) }
  | idle {l : Label}
      (hl : Ordered semValue s l) :
      Effect nSem semValue s l s

theorem step_effect
    (hstep : step nSem semValue s l = some s') :
    Effect nSem semValue s l s' := by
  cases l with
  | create pid vals =>
      simp only [step] at hstep
      split_ifs at hstep with hguard
      cases hstep
      exact .created hguard.2.1
  | eexist pid =>
      simp only [step] at hstep
      split_ifs at hstep
      cases hstep
      exact .stops trivial (Or.inr rfl)
  | attach pid =>
      simp only [step] at hstep
      split_ifs at hstep with hguard
      cases hstep
      exact .attached hguard.1
  | malloc pid =>
      simp only [step] at hstep
      split_ifs at hstep with hpc
      cases hstep
      exact .allocated hpc
  | setall pid =>
      simp only [step] at hstep
      split_ifs at hstep with hguard
      cases hstep
      exact .allSet hguard.1
  | semwait pid idx =>
      simp only [step] at hstep
      split_ifs at hstep with hguard
      obtain ⟨semvals, hwait, rfl⟩ := Option.map_eq_some_iff.mp hstep
      obtain ⟨val, hval, rfl⟩ := sysvSemwait_spec hwait
      exact .waited hguard.1 hval
  | sempost pid idx =>
      simp only [step] at hstep
      split_ifs at hstep with hguard
      obtain ⟨semvals, hpost, rfl⟩ := Option.map_eq_some_iff.mp hstep
      rw [sysvSempost_spec hpost]
      exact .posted hguard.1
  | semwaitFails pid =>
      simp only [step] at hstep
      split_ifs at hstep
      cases hstep
      exact .idle trivial
  | sempostFails pid =>
      simp only [step] at hstep
      split_ifs at hstep
      cases hstep
      exact .idle trivial
  | _ =>
      simp only [step] at hstep
      split_ifs at hstep
      cases hstep
      exact .stops trivial (Or.inl rfl)

end Effects

section Ordering

variable {nSem : Nat} {semValue : Int} {s s' : State} {l : Label}

/-- Ids are held after SETALL only, and one process at most is creating the set. -/
structure Initialised (nSem : Nat) (semValue : Int) (s : State) : Prop where
  raceFree : RaceFree nSem semValue s
  attached : ∀ p, s.pc p = .attached → s.allSet semValue = true
  created : s.setTo ≠ none → s.created = true
  unset : s.allSet semValue = false →
    s.setTo = none ∧ ∀ i, s.posts i = 0 ∧ s.waits i = 0
  creating : ∀ p, (s.pc p).creating = true → s.created = true ∧ s.setTo = none
  one : ∀ p q, (s.pc p).creating = true → (s.pc q).creating = true → p = q

theorem initialised_start :
    Initialised nSem semValue State.start := by
  refine ⟨⟨rfl, ?_⟩, ?_, ?_, ?_, ?_, ?_⟩
  · simp [State.start, State.allSet]
  · simp [State.start]
  · simp [State.start]
  · simp [State.start]
  · simp [State.start, Pc.creating]
  · simp [State.start, Pc.creating]

/-- A process that moves without creating or getting an id changes nothing else. -/
theorem Initialised.goto
    {pid : Nat} {pc : Pc}
    (h : Initialised nSem semValue s)
    (hattached : pc = .attached → s.allSet semValue = true)
    (hcreating : pc.creating = true → (s.pc pid).creating = true) :
    Initialised nSem semValue (s.goto pid pc) := by
  have hback : ∀ p, ((s.goto pid pc).pc p).creating = true → (s.pc p).creating = true := by
    intro p hp
    by_cases heq : p = pid
    · subst heq
      exact hcreating (by simpa [State.goto] using hp)
    · simpa [State.goto, heq] using hp
  refine ⟨⟨h.raceFree.notEarly, h.raceFree.counted⟩, ?_, h.created, h.unset, ?_, ?_⟩
  · intro p hp
    by_cases heq : p = pid
    · subst heq
      exact hattached (by simpa [State.goto] using hp)
    · exact h.attached p (by simpa [State.goto, heq] using hp)
  · exact fun p hp => h.creating p (hback p hp)
  · exact fun p q hp hq => h.one p q (hback p hp) (hback q hq)

theorem allSet_eq_false_of_unset
    (h : s.setTo = none) :
    s.allSet semValue = false := by
  rw [State.allSet, h]

theorem setTo_ne_none_of_allSet
    (h : s.allSet semValue = true) :
    s.setTo ≠ none := by
  intro hnone
  rw [allSet_eq_false_of_unset hnone] at h
  cases h

/-- After SETALL an id is not returned early. -/
theorem returnId_eq_goto
    (hset : s.allSet semValue = true)
    (pid : Nat) :
    s.returnId semValue pid = s.goto pid .attached := by
  simp only [State.returnId, hset, Bool.not_true, Bool.or_false]
  rfl

theorem Initialised.created_step
    {pid : Nat} {vals : Nat → Nat}
    (h : Initialised nSem semValue s)
    (hfree : s.created = false) :
    Initialised nSem semValue
      { s.goto pid .malloc with created := true, semvals := vals } := by
  have hunset : s.setTo = none := by
    by_contra hset
    have := h.created hset
    simp [hfree] at this
  have hnobody : ∀ p, (s.pc p).creating = false := by
    intro p
    by_contra hp
    have := (h.creating p (by simpa using hp)).1
    simp [hfree] at this
  have honly : ∀ p, (Function.update s.pc pid .malloc p).creating = true → p = pid := by
    intro p hp
    by_contra hne
    rw [Function.update_of_ne hne, hnobody p] at hp
    cases hp
  refine ⟨⟨h.raceFree.notEarly, ?_⟩, ?_, fun _ => rfl, h.unset, fun _ _ => ⟨rfl, hunset⟩, ?_⟩
  · intro hset
    exact absurd hunset (setTo_ne_none_of_allSet hset)
  · intro p hp
    by_cases heq : p = pid
    · simp [State.goto, heq] at hp
    · exact h.attached p (by simpa [State.goto, heq] using hp)
  · intro p q hp hq
    rw [honly p hp, honly q hq]

theorem Initialised.setall_step
    {pid : Nat}
    (h : Initialised nSem semValue s)
    (hpc : s.pc pid = .setall)
    (hfits : (unsignedShort semValue : Int) = semValue) :
    Initialised nSem semValue ((s.setall nSem semValue).goto pid .attached) := by
  have hcreating : (s.pc pid).creating = true := by rw [hpc]; rfl
  obtain ⟨hcreated, hunset⟩ := h.creating pid hcreating
  obtain ⟨_, hzero⟩ := h.unset (allSet_eq_false_of_unset hunset)
  have hset : ((s.setall nSem semValue).goto pid .attached).allSet semValue = true := by
    simp [State.allSet, State.goto, State.setall, hfits]
  have hnobody : ∀ p, (Function.update s.pc pid .attached p).creating ≠ true := by
    intro p hp
    by_cases heq : p = pid
    · simp [heq, Pc.creating] at hp
    · rw [Function.update_of_ne heq] at hp
      exact heq (h.one p pid hp hcreating)
  refine ⟨⟨h.raceFree.notEarly, ?_⟩, fun _ _ => hset, fun _ => hcreated, ?_, ?_, ?_⟩
  · intro _ i hi
    simp [State.goto, State.setall, hi, hfits, hzero i]
  · intro hnot
    rw [hset] at hnot
    cases hnot
  · exact fun p hp => absurd hp (hnobody p)
  · exact fun p _ hp _ => absurd hp (hnobody p)

/-- A completed wait or post is counted. -/
theorem Initialised.counted_step
    {pid : Nat} {semvals posts waits : Nat → Nat}
    (h : Initialised nSem semValue s)
    (hpc : s.pc pid = .attached)
    (hcount : ∀ i, (semvals i : Int) - posts i + waits i =
      s.semvals i - s.posts i + s.waits i) :
    Initialised nSem semValue
      { s with semvals := semvals, posts := posts, waits := waits } := by
  have hset := h.attached pid hpc
  refine ⟨⟨h.raceFree.notEarly, ?_⟩, h.attached, h.created, ?_, h.creating, h.one⟩
  · intro _ i hi
    have hold := h.raceFree.counted hset i hi
    have hnew := hcount i
    simp only
    omega
  · intro hnot
    exact absurd (hset.symm.trans hnot) (by simp)

theorem Initialised.step
    (h : Initialised nSem semValue s)
    (hordered : Ordered semValue s l)
    (heffect : Effect nSem semValue s l s') :
    Initialised nSem semValue s' := by
  cases heffect with
  | stops hl hpc =>
      rcases hpc with rfl | rfl <;> exact h.goto (by simp) (by simp [Pc.creating])
  | created hfree =>
      exact h.created_step hfree
  | @attached pid hpc =>
      rw [returnId_eq_goto hordered]
      exact h.goto (fun _ => hordered) (by simp [Pc.creating])
  | @allocated pid hpc =>
      exact h.goto (by simp) (by simp [hpc, Pc.creating])
  | @allSet pid hpc =>
      rw [returnId_eq_goto]
      · exact h.setall_step hpc hordered
      · exact decide_eq_true hordered
  | @waited pid idx val hpc hval =>
      refine h.counted_step hpc ?_
      intro i
      by_cases heq : i = idx
      · subst heq
        simp only [Function.update_self]
        omega
      · simp [heq]
  | @posted pid idx hpc =>
      refine h.counted_step hpc ?_
      intro i
      by_cases heq : i = idx
      · subst heq
        simp only [Function.update_self]
        omega
      · simp [heq]
  | idle hl =>
      exact h

/-- An id that was returned early has been returned early. -/
theorem early_step
    (h : s.early = true)
    (heffect : Effect nSem semValue s l s') :
    s'.early = true := by
  cases heffect with
  | attached hpc =>
      simp [State.returnId, h]
  | allSet hpc =>
      simp [State.returnId, State.setall, h]
  | _ =>
      exact h

theorem early_of_not_ordered
    (hnot : ¬ Ordered semValue s l)
    (heffect : Effect nSem semValue s l s') :
    s'.early = true := by
  cases heffect with
  | attached hpc =>
      have hset : s.allSet semValue = false := by simpa [Ordered] using hnot
      simp [State.returnId, hset]
  | allSet hpc =>
      have hset : (s.setall nSem semValue).allSet semValue = false := by
        simpa [Ordered, State.allSet, State.setall] using hnot
      simp [State.returnId, hset]
  | stops hl hpc =>
      exact absurd hl hnot
  | idle hl =>
      exact absurd hl hnot
  | _ =>
      exact absurd trivial hnot

variable {es : List Label}

/--
Creation is free of races in a run if and only if every id that the second `semget`
returns comes after SETALL, and the value fits the type of the array.
-/
theorem raceFree_iff_ordered
    (hrun : run (step nSem semValue) State.start es = some s) :
    RaceFree nSem semValue s ↔
      Along (step nSem semValue) (Ordered semValue) State.start es := by
  rcases good_or_bad (fun _ _ _ h hordered hstep => Initialised.step h hordered (step_effect hstep))
      (fun _ _ _ _ hnot hstep => early_of_not_ordered hnot (step_effect hstep))
      (fun _ _ _ h hstep => early_step h (step_effect hstep)) initialised_start hrun with
    ⟨halong, hinitialised⟩ | ⟨hnot, hearly⟩
  · exact iff_of_true hinitialised.raceFree halong
  · refine iff_of_false (fun hfree => ?_) hnot
    rw [hfree.notEarly] at hearly
    cases hearly

/-- Process 1 comes behind SETALL and takes one of three units of semaphore 1. -/
def patientRun : List Label :=
  [.create 0 (fun _ => 0), .eexist 1, .malloc 0, .setall 0, .attach 1,
    .semwait 1 1, .semwaitFails 0, .sempost 0 0]

theorem raceFree_patientRun :
    ∃ s, run (step 2 3) State.start patientRun = some s ∧
      s.semvals 1 = 2 ∧
      RaceFree 2 3 s :=
  ⟨_, rfl, rfl, (@raceFree_iff_ordered 2 3 _ patientRun rfl).mpr (by decide)⟩

/-- Process 1 comes between the creation of the set and SETALL. -/
def hastyRun : List Label :=
  [.create 0 (fun _ => 0), .eexist 1, .attach 1]

/-- It holds a valid id of a set whose semaphores have not been set. -/
theorem hastyRun_races :
    ∃ s, run (step 1 1) State.start hastyRun = some s ∧
      s.pc 1 = .attached ∧ s.semvals 0 = 0 ∧
      ¬ RaceFree 1 1 s :=
  ⟨_, rfl, rfl, rfl, fun h => by cases h.notEarly⟩

end Ordering

end SysVSem
end SysProg
