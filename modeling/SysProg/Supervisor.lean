import SysProg.Lib.Census
import SysProg.Lib.Run
import Mathlib.Tactic

/-!
# The supervisor of ALSP/io_signalfd_chld.c

The parent starts `MAX_POOL` children, reads SIGCHLD from a signalfd, and after each
signal drains the changes of its children with `waitid`; a child that has terminated is
replaced by a new one.

**Kernel.**  A child is alive, possibly with a stop or a continuation that `waitid` has
not reported yet, or terminated and not reaped, or gone.  A newer change of a child
replaces an older one that is not reported.  SIGCHLD is not queued: one signal may stand
for any number of changes, and `waitid` reports the waiting changes in any order.

**Result.**  `is_refork` is cleared once per signal, not once per report.  After a
termination, every report in the same pass starts a child, whatever its kind; so a drain
ends with `MAX_POOL` live children exactly if no stop or continuation has been reported
behind a termination (`poolFull_iff_noLateNotice`).
-/

namespace SysProg
namespace Supervisor

open Census Run

def MAX_POOL : Nat := 3

section Kernel

/-- The values of `si_code` that `waitid` reports for a child. -/
inductive SiCode where
  | CLD_EXITED
  | CLD_KILLED
  | CLD_DUMPED
  | CLD_STOPPED
  | CLD_CONTINUED
  | CLD_TRAPPED
deriving DecidableEq, Repr

/-- The ways in which a child terminates. -/
inductive Death where
  | exited
  | killed
  | dumped
deriving DecidableEq, Repr

/-- The other changes of a child. -/
inductive Notice where
  | stopped
  | continued
  | trapped
deriving DecidableEq, Repr

def Death.siCode : Death → SiCode
  | .exited => .CLD_EXITED
  | .killed => .CLD_KILLED
  | .dumped => .CLD_DUMPED

def Notice.siCode : Notice → SiCode
  | .stopped => .CLD_STOPPED
  | .continued => .CLD_CONTINUED
  | .trapped => .CLD_TRAPPED

/-- A child as the kernel sees it. -/
inductive Proc where
  | alive (unreported : Option Notice)
  | zombie (death : Death)
  | gone
deriving DecidableEq, Repr

/-- The child has not terminated. -/
def Proc.isAlive : Proc → Bool
  | .alive _ => true
  | _ => false

/-- The child takes part in `waitid`. -/
def Proc.unreaped : Proc → Bool
  | .gone => false
  | _ => true

/-- What `waitid` has to report of a child. -/
def Proc.report : Proc → Option SiCode
  | .alive unreported => unreported.map Notice.siCode
  | .zombie death => some death.siCode
  | .gone => none

/-- The child after `waitid` has reported on it. -/
def Proc.reported : Proc → Proc
  | .alive _ => .alive none
  | _ => .gone

end Kernel

section Program

inductive Pc where
  /-- the loop that starts the pool -/
  | start (i : Nat)
  /-- `read` of the signalfd -/
  | read
  /-- the head of the drain loop -/
  | waitid
  /-- `start_child` in the drain loop -/
  | refork
  | exited
deriving DecidableEq, Repr

/-- The parent and its children; `pass` are the codes reported since the last signal. -/
structure State where
  pc : Pc
  isRefork : Bool
  procs : Nat → Proc
  nextPid : Nat
  sigchld : Bool
  pass : List SiCode

def State.init : State where
  pc := .start 0
  isRefork := false
  procs := fun _ => .gone
  nextPid := 0
  sigchld := false
  pass := []

/-- The number of children that have not terminated. -/
def State.poolSize (s : State) : Nat :=
  census Proc.isAlive s.procs s.nextPid

/-- The cases of the `switch` that set `is_refork`. -/
def SiCode.setsRefork : SiCode → Bool
  | .CLD_EXITED => true
  | .CLD_KILLED => true
  | .CLD_DUMPED => true
  | .CLD_STOPPED => false
  | .CLD_CONTINUED => false
  | .CLD_TRAPPED => false

/-- `fork` in the parent. -/
def State.fork (s : State) (pc : Pc) : State :=
  { s with
    procs := Function.update s.procs s.nextPid (.alive none)
    nextPid := s.nextPid + 1
    pc := pc }

/-- The body of the drain loop for a report. -/
def State.handle (s : State) (pid : Nat) (code : SiCode) : State :=
  let isRefork := code.setsRefork || s.isRefork
  { s with
    procs := Function.update s.procs pid (s.procs pid).reported
    isRefork := isRefork
    pass := s.pass ++ [code]
    pc := if isRefork then .refork else .waitid }

end Program

section System

inductive Label where
  | fork
  | forkFails
  | read
  | readFails
  /-- `waitid` reports on a child -/
  | waitid (pid : Nat)
  /-- `waitid` has nothing to report -/
  | waitidNone
  | dies (pid : Nat) (death : Death)
  | changes (pid : Nat) (notice : Notice)
deriving DecidableEq, Repr

def step (s : State) : Label → Option State
  | .fork =>
      match s.pc with
      | .start i => some (s.fork (if i + 1 < MAX_POOL then .start (i + 1) else .read))
      | .refork => some (s.fork .waitid)
      | _ => none
  | .forkFails =>
      match s.pc with
      | .start _ => some { s with pc := .exited }
      | .refork => some { s with pc := .exited }
      | _ => none
  | .read =>
      if s.pc = .read ∧ s.sigchld = true then
        some { s with pc := .waitid, sigchld := false, isRefork := false, pass := [] }
      else none
  | .readFails =>
      if s.pc = .read then some { s with pc := .exited } else none
  | .waitid pid =>
      if s.pc = .waitid ∧ pid < s.nextPid then
        match (s.procs pid).report with
        | some code => some (s.handle pid code)
        | none => none
      else none
  | .waitidNone =>
      if s.pc = .waitid ∧ ∀ pid < s.nextPid, (s.procs pid).report = none then
        some { s with pc := .read }
      else none
  | .dies pid death =>
      if pid < s.nextPid ∧ (s.procs pid).isAlive = true then
        some
          { s with procs := Function.update s.procs pid (.zombie death), sigchld := true }
      else none
  | .changes pid notice =>
      if pid < s.nextPid ∧ (s.procs pid).isAlive = true then
        some
          { s with
            procs := Function.update s.procs pid (.alive (some notice))
            sigchld := true }
      else none

end System

section Counting

variable {s s' : State} {l : Label}

/-- The number of children that `waitid` may still report on. -/
def State.unreaped (s : State) : Nat :=
  census Proc.unreaped s.procs s.nextPid

theorem unreaped_fork
    (s : State) (pc : Pc) :
    (s.fork pc).unreaped = s.unreaped + 1 := by
  simp only [State.unreaped, State.fork, census_succ, Function.update_self]
  rw [census_update_of_le _ (Nat.le_refl _)]
  rfl

/-- A child that changes is still there. -/
theorem unreaped_changed
    {pid : Nat} {proc : Proc}
    (hpid : pid < s.nextPid)
    (halive : (s.procs pid).isAlive = true)
    (hproc : proc.unreaped = true) :
    census Proc.unreaped (Function.update s.procs pid proc) s.nextPid = s.unreaped := by
  have hthere : (s.procs pid).unreaped = true := by
    cases hp : s.procs pid <;> simp_all [Proc.isAlive, Proc.unreaped]
  have hcount := census_update (p := Proc.unreaped) (f := s.procs) proc hpid
  rw [hthere, hproc] at hcount
  exact Nat.add_right_cancel hcount

/-- A report of a termination, and only that, takes a child away. -/
theorem unreaped_handle
    {pid : Nat} {code : SiCode}
    (hpid : pid < s.nextPid)
    (hcode : (s.procs pid).report = some code) :
    (s.handle pid code).unreaped + code.setsRefork.toNat = s.unreaped := by
  have hcount := census_update (p := Proc.unreaped) (f := s.procs)
    (s.procs pid).reported hpid
  simp only [State.unreaped, State.handle]
  cases hproc : s.procs pid with
  | alive unreported =>
      rw [hproc] at hcode hcount
      cases unreported with
      | none =>
          cases hcode
      | some notice =>
          cases hcode
          cases notice <;> simpa [Proc.reported, Proc.unreaped, Notice.siCode,
            SiCode.setsRefork] using hcount
  | zombie death =>
      rw [hproc] at hcode hcount
      cases hcode
      cases death <;> simpa [Proc.reported, Proc.unreaped, Death.siCode,
        SiCode.setsRefork] using hcount
  | gone =>
      rw [hproc] at hcode
      cases hcode

/-- When there is nothing to report, the children are the ones alive. -/
theorem poolSize_eq_unreaped
    (hnone : ∀ pid < s.nextPid, (s.procs pid).report = none) :
    s.poolSize = s.unreaped := by
  apply census_congr
  intro pid hpid
  have hreport := hnone pid hpid
  cases hproc : s.procs pid with
  | alive unreported =>
      rfl
  | zombie death =>
      rw [hproc] at hreport
      cases hreport
  | gone =>
      rfl

/-- What a step does to the number of children, the flag and the control. -/
inductive Effect (s : State) : Label → State → Prop
  | started {i : Nat}
      (hpc : s.pc = .start i) :
      Effect s .fork (s.fork (if i + 1 < MAX_POOL then .start (i + 1) else .read))
  | reforked
      (hpc : s.pc = .refork) :
      Effect s .fork (s.fork .waitid)
  | exited {l : Label} :
      Effect s l { s with pc := .exited }
  | signalled
      (hpc : s.pc = .read) :
      Effect s .read
        { s with pc := .waitid, sigchld := false, isRefork := false, pass := [] }
  | handled {pid : Nat} {code : SiCode}
      (hpc : s.pc = .waitid)
      (hpid : pid < s.nextPid)
      (hcode : (s.procs pid).report = some code) :
      Effect s (.waitid pid) (s.handle pid code)
  | drained
      (hpc : s.pc = .waitid) :
      Effect s .waitidNone { s with pc := .read }
  | changed {l : Label} {s' : State}
      (hl : ∀ pid, l ≠ .waitid pid)
      (hunreaped : s'.unreaped = s.unreaped)
      (hpc : s'.pc = s.pc)
      (hflag : s'.isRefork = s.isRefork)
      (hpass : s'.pass = s.pass) :
      Effect s l s'

theorem step_effect
    (hstep : step s l = some s') :
    Effect s l s' := by
  cases l with
  | fork =>
      simp only [step] at hstep
      split at hstep
      · rename_i i hpc
        cases hstep
        exact .started hpc
      · rename_i hpc
        cases hstep
        exact .reforked hpc
      · cases hstep
  | forkFails =>
      simp only [step] at hstep
      split at hstep <;> cases hstep <;> exact .exited
  | read =>
      simp only [step] at hstep
      split_ifs at hstep with hread
      cases hstep
      exact .signalled hread.1
  | readFails =>
      simp only [step] at hstep
      split_ifs at hstep
      cases hstep
      exact .exited
  | waitid pid =>
      simp only [step] at hstep
      split_ifs at hstep with hwait
      split at hstep
      · rename_i code hcode
        cases hstep
        exact .handled hwait.1 hwait.2 hcode
      · cases hstep
  | waitidNone =>
      simp only [step] at hstep
      split_ifs at hstep with hwait
      cases hstep
      exact .drained hwait.1
  | dies pid death =>
      simp only [step] at hstep
      split_ifs at hstep with halive
      cases hstep
      exact .changed (by simp) (unreaped_changed halive.1 halive.2 rfl) rfl rfl rfl
  | changes pid notice =>
      simp only [step] at hstep
      split_ifs at hstep with halive
      cases hstep
      exact .changed (by simp) (unreaped_changed halive.1 halive.2 rfl) rfl rfl rfl

end Counting

section Balance

variable {s s' : State} {l : Label} {es : List Label}

/-- A stop or a continuation is not reported behind a termination. -/
def NoLateNotice (s : State) : Label → Prop
  | .waitid pid =>
      ∀ code ∈ (s.procs pid).report,
        code.setsRefork = true ∨ s.pass.any SiCode.setsRefork = false
  | _ => True

instance (s : State) (l : Label) : Decidable (NoLateNotice s l) := by
  unfold NoLateNotice
  split <;> infer_instance

/-- The control stays in the first loop's range, and the flag stands for the pass. -/
structure Kept (s : State) : Prop where
  starting : ∀ i, s.pc = .start i → i < MAX_POOL
  flag : s.isRefork = s.pass.any SiCode.setsRefork

/-- The children that the parent is about to start. -/
def Pc.owed : Pc → Nat
  | .start i => MAX_POOL - i
  | .refork => 1
  | _ => 0

/-- The children there are and those about to be started. -/
def State.strength (s : State) : Nat :=
  s.unreaped + s.pc.owed

theorem kept_init :
    Kept State.init :=
  ⟨by rintro i ⟨⟩; decide, rfl⟩

theorem Kept.step
    (h : Kept s)
    (heffect : Effect s l s') :
    Kept s' := by
  cases heffect with
  | @started i hpc =>
      refine ⟨?_, h.flag⟩
      intro j hj
      simp only [State.fork] at hj
      split_ifs at hj with hmore
      cases hj
      exact hmore
  | @handled pid code hpc hpid hcode =>
      refine ⟨?_, ?_⟩
      · intro i hi
        simp only [State.handle] at hi
        split_ifs at hi
      · simp only [State.handle, List.any_append, List.any_cons, List.any_nil,
          Bool.or_false, h.flag]
        exact Bool.or_comm _ _
  | signalled hpc =>
      exact ⟨by simp, rfl⟩
  | changed hl hunreaped hpc hflag hpass =>
      refine ⟨?_, ?_⟩
      · rw [hpc]
        exact h.starting
      · rw [hflag, hpass]
        exact h.flag
  | reforked hpc =>
      exact ⟨by simp [State.fork], h.flag⟩
  | exited =>
      exact ⟨by simp, h.flag⟩
  | drained hpc =>
      exact ⟨by simp, h.flag⟩

theorem strength_fork
    (s : State) (pc : Pc) :
    (s.fork pc).strength = s.unreaped + 1 + pc.owed := by
  rw [State.strength, unreaped_fork]
  rfl

/-- Where the drain loop goes after a report. -/
theorem owed_handle
    (h : Kept s)
    (pid : Nat) (code : SiCode) :
    (s.handle pid code).pc.owed =
      (code.setsRefork || s.pass.any SiCode.setsRefork).toNat := by
  rw [State.handle, h.flag]
  cases code.setsRefork || s.pass.any SiCode.setsRefork <;> rfl

/-- A report keeps the strength, unless it is a late notice, which adds one. -/
theorem strength_handle
    {pid : Nat} {code : SiCode}
    (h : Kept s)
    (hpc : s.pc = .waitid)
    (hpid : pid < s.nextPid)
    (hcode : (s.procs pid).report = some code) :
    (NoLateNotice s (.waitid pid) ∧ (s.handle pid code).strength = s.strength) ∨
    (¬ NoLateNotice s (.waitid pid) ∧
      (s.handle pid code).strength = s.strength + 1) := by
  have hcount := unreaped_handle hpid hcode
  have howed := owed_handle h pid code
  have hidle : s.pc.owed = 0 := by rw [hpc]; rfl
  simp only [State.strength, NoLateNotice, hcode, Option.mem_some_iff, forall_eq']
  cases hdeath : code.setsRefork <;>
    cases hlate : s.pass.any SiCode.setsRefork <;>
    simp only [hdeath, hlate, Bool.toNat_true, Bool.toNat_false, Bool.or_true,
      Bool.or_false] at hcount howed <;>
    simp <;> omega

theorem strength_step
    (h : Kept s)
    (heffect : Effect s l s') :
    s'.pc = .exited ∨
    (NoLateNotice s l ∧ s'.strength = s.strength) ∨
    (¬ NoLateNotice s l ∧ s'.strength = s.strength + 1) := by
  cases heffect with
  | @started i hpc =>
      have hi := h.starting i hpc
      refine Or.inr (Or.inl ⟨trivial, ?_⟩)
      rw [strength_fork, State.strength, hpc]
      split_ifs <;> simp only [Pc.owed] <;> omega
  | reforked hpc =>
      refine Or.inr (Or.inl ⟨trivial, ?_⟩)
      rw [strength_fork, State.strength, hpc]
      rfl
  | exited =>
      exact Or.inl rfl
  | signalled hpc =>
      refine Or.inr (Or.inl ⟨trivial, ?_⟩)
      rw [State.strength, State.strength, hpc]
      rfl
  | handled hpc hpid hcode =>
      exact Or.inr (strength_handle h hpc hpid hcode)
  | drained hpc =>
      refine Or.inr (Or.inl ⟨trivial, ?_⟩)
      rw [State.strength, State.strength, hpc]
      rfl
  | changed hl hunreaped hpc hflag hpass =>
      refine Or.inr (Or.inl ⟨?_, ?_⟩)
      · cases l with
        | waitid pid =>
            exact absurd rfl (hl pid)
        | _ =>
            trivial
      · rw [State.strength, hunreaped, hpc, State.strength]

theorem exited_step
    (h : s.pc = .exited)
    (heffect : Effect s l s') :
    s'.pc = .exited := by
  cases heffect with
  | exited =>
      rfl
  | changed hl hunreaped hpc hflag hpass =>
      exact hpc.trans h
  | started hpc =>
      rw [h] at hpc
      cases hpc
  | _ hpc =>
      rw [h] at hpc
      cases hpc

/-- The parent has exited, or it has exactly the children it should have. -/
structure Balanced (s : State) : Prop where
  kept : Kept s
  full : s.pc = .exited ∨ s.strength = MAX_POOL

/-- The parent has exited, or it has too many children. -/
structure Surplus (s : State) : Prop where
  kept : Kept s
  more : s.pc = .exited ∨ MAX_POOL < s.strength

theorem balanced_init :
    Balanced State.init :=
  ⟨kept_init, Or.inr rfl⟩

theorem Balanced.step
    (h : Balanced s)
    (hlate : NoLateNotice s l)
    (heffect : Effect s l s') :
    Balanced s' := by
  refine ⟨h.kept.step heffect, ?_⟩
  rcases h.full with hexit | hfull
  · exact Or.inl (exited_step hexit heffect)
  · rcases strength_step h.kept heffect with hexit | ⟨_, hsame⟩ | ⟨hnot, _⟩
    · exact Or.inl hexit
    · exact Or.inr (hsame.trans hfull)
    · exact absurd hlate hnot

theorem Balanced.surplus
    (h : Balanced s)
    (hlate : ¬ NoLateNotice s l)
    (heffect : Effect s l s') :
    Surplus s' := by
  refine ⟨h.kept.step heffect, ?_⟩
  rcases h.full with hexit | hfull
  · exact Or.inl (exited_step hexit heffect)
  · rcases strength_step h.kept heffect with hexit | ⟨hnot, _⟩ | ⟨_, hmore⟩
    · exact Or.inl hexit
    · exact absurd hnot hlate
    · exact Or.inr (by omega)

theorem Surplus.step
    (h : Surplus s)
    (heffect : Effect s l s') :
    Surplus s' := by
  refine ⟨h.kept.step heffect, ?_⟩
  rcases h.more with hexit | hmore
  · exact Or.inl (exited_step hexit heffect)
  · rcases strength_step h.kept heffect with hexit | ⟨_, hsame⟩ | ⟨_, hnext⟩
    · exact Or.inl hexit
    · exact Or.inr (by omega)
    · exact Or.inr (by omega)

/-- At the end of a drain the strength is the number of live children. -/
theorem poolSize_of_drained
    (hend : step s .waitidNone = some s') :
    s.pc ≠ .exited ∧ s'.poolSize = s.strength := by
  simp only [step] at hend
  split_ifs at hend with hdrain
  obtain ⟨hpc, hnone⟩ := hdrain
  cases hend
  refine ⟨by simp [hpc], ?_⟩
  rw [State.strength, hpc]
  exact poolSize_eq_unreaped hnone

/--
A drain loop ends with `MAX_POOL` live children if and only if no pass so far has
reported a stop or a continuation behind a termination.
-/
theorem poolFull_iff_noLateNotice
    (hrun : run step State.init es = some s)
    (hend : step s .waitidNone = some s') :
    s'.poolSize = MAX_POOL ↔ Along step NoLateNotice State.init es := by
  obtain ⟨hgoes, hsize⟩ := poolSize_of_drained hend
  rw [hsize]
  -- a child too many is never made up for
  rcases good_or_bad (fun _ _ _ h hlate hstep => Balanced.step h hlate (step_effect hstep))
      (fun _ _ _ h hlate hstep => h.surplus hlate (step_effect hstep))
      (fun _ _ _ h hstep => Surplus.step h (step_effect hstep)) balanced_init hrun with
    ⟨halong, hbalanced⟩ | ⟨hlate, hsurplus⟩
  · exact iff_of_true (hbalanced.full.resolve_left hgoes) halong
  · have hmore := hsurplus.more.resolve_left hgoes
    exact iff_of_false (by omega) hlate

/-- The pool is started; one child stops and another is killed, behind one signal. -/
def stopFirstRun : List Label :=
  [.fork, .fork, .fork, .changes 1 .stopped, .dies 0 .killed, .read,
    .waitid 1, .waitid 0, .fork]

theorem poolFull_stopFirstRun :
    ∃ s s', run step State.init stopFirstRun = some s ∧
      step s .waitidNone = some s' ∧
      s'.poolSize = MAX_POOL :=
  ⟨_, _, rfl, rfl,
    (@poolFull_iff_noLateNotice _ _ stopFirstRun rfl rfl).mpr (by decide)⟩

/-- The same changes, reported in the other order. -/
def stopLastRun : List Label :=
  [.fork, .fork, .fork, .changes 1 .stopped, .dies 0 .killed, .read,
    .waitid 0, .fork, .waitid 1, .fork]

theorem stopLastRun_overfull :
    ∃ s s', run step State.init stopLastRun = some s ∧
      step s .waitidNone = some s' ∧
      s'.poolSize = MAX_POOL + 1 :=
  ⟨_, _, rfl, rfl, rfl⟩

end Balance

end Supervisor
end SysProg
