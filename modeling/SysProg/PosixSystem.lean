import SysProg.Lib.Run
import Mathlib.Tactic

/-!
# `system` of APUE/posix_system.c

`system` ignores SIGINT and SIGQUIT and blocks SIGCHLD, forks a shell and waits for it, and puts
the three back.  The child puts them back as well before it calls `execl`.

A failure of `fork` or `waitpid` goes through the code at the end that restores everything.  A
failure of the second `sigaction` or of `sigprocmask` does not: the function returns at once,
with SIGINT, or both signals, ignored.

**Steps.** A step is one system call with its result; after `fork` a run goes on as the calling
process or as the child.  The child never returns from `system`.

**Results.** `restored_iff`: when `system` returns and no restoring call has failed, the
dispositions and the mask are those at entry, exactly if the second `sigaction` did not fail
unless SIGINT was ignored before, and `sigprocmask` did not fail unless both signals were.
-/

namespace SysProg
namespace PosixSystem

open Run

section Program

def SIGCHLD : Nat := 17

inductive Handler where
  | dfl
  | ign
  | handler (address : Nat)
deriving DecidableEq, Repr

/-- `struct sigaction` -/
structure Sigaction where
  saHandler : Handler
  saMask : Finset Nat
  saFlags : Nat
deriving DecidableEq

/-- The variable `ignore`. -/
def ignore : Sigaction where
  saHandler := .ign
  saMask := ∅
  saFlags := 0

/-- What `system` changes of a process: two dispositions and the mask of blocked signals. -/
@[ext]
structure Signals where
  sigint : Sigaction
  sigquit : Sigaction
  mask : Finset Nat
deriving DecidableEq

/-- The system call `system` is at. -/
inductive Pc where
  | sigint
  | sigquit
  | block
  | fork
  | waitpid
  | restoreInt
  | restoreQuit
  | restoreMask
  | returned (ret : Int)
  /-- the same three calls in the child -/
  | childInt
  | childQuit
  | childMask
  | execl
  /-- the shell runs, or `_exit(127)` -/
  | gone
deriving DecidableEq, Repr

/-- The process and the locals; `lost` is history, a restoring call of the parent has failed. -/
structure State where
  signals : Signals
  saveintr : Sigaction
  savequit : Sigaction
  savemask : Finset Nat
  status : Int
  pc : Pc
  lost : Bool

inductive Fork where
  | error
  | child
  | parent
deriving DecidableEq, Repr

inductive Waitpid where
  | eintr
  | error
  | status (value : Int)
deriving DecidableEq, Repr

inductive Label where
  | sigaction (ok : Bool)
  | sigprocmask (ok : Bool)
  | fork (ret : Fork)
  | waitpid (ret : Waitpid)
  | execl

def step (s : State) : Label → Option State
  | .sigaction ok =>
      match s.pc with
      | .sigint =>
          if ok then
            some
              { s with
                signals := { s.signals with sigint := ignore }
                saveintr := s.signals.sigint
                pc := .sigquit }
          else some { s with pc := .returned (-1) }
      | .sigquit =>
          if ok then
            some
              { s with
                signals := { s.signals with sigquit := ignore }
                savequit := s.signals.sigquit
                pc := .block }
          -- SIGINT stays ignored
          else some { s with pc := .returned (-1) }
      | .restoreInt =>
          if ok then
            some
              { s with
                signals := { s.signals with sigint := s.saveintr }
                pc := .restoreQuit }
          else some { s with pc := .returned (-1), lost := true }
      | .restoreQuit =>
          if ok then
            some
              { s with
                signals := { s.signals with sigquit := s.savequit }
                pc := .restoreMask }
          else some { s with pc := .returned (-1), lost := true }
      | .childInt =>
          let sigint := if ok then s.saveintr else s.signals.sigint
          some { s with signals := { s.signals with sigint := sigint }, pc := .childQuit }
      | .childQuit =>
          let sigquit := if ok then s.savequit else s.signals.sigquit
          some { s with signals := { s.signals with sigquit := sigquit }, pc := .childMask }
      | _ => none
  | .sigprocmask ok =>
      match s.pc with
      | .block =>
          if ok then
            some
              { s with
                signals := { s.signals with mask := insert SIGCHLD s.signals.mask }
                savemask := s.signals.mask
                pc := .fork }
          -- SIGINT and SIGQUIT stay ignored
          else some { s with pc := .returned (-1) }
      | .restoreMask =>
          if ok then
            some
              { s with
                signals := { s.signals with mask := s.savemask }
                pc := .returned s.status }
          else some { s with pc := .returned (-1), lost := true }
      | .childMask =>
          let mask := if ok then s.savemask else s.signals.mask
          some { s with signals := { s.signals with mask := mask }, pc := .execl }
      | _ => none
  | .fork ret =>
      match s.pc, ret with
      | .fork, .error => some { s with status := -1, pc := .restoreInt }
      | .fork, .child => some { s with pc := .childInt }
      | .fork, .parent => some { s with pc := .waitpid }
      | _, _ => none
  | .waitpid ret =>
      match s.pc, ret with
      | .waitpid, .eintr => some s
      | .waitpid, .error => some { s with status := -1, pc := .restoreInt }
      | .waitpid, .status value => some { s with status := value, pc := .restoreInt }
      | _, _ => none
  | .execl =>
      match s.pc with
      | .execl => some { s with pc := .gone }
      | _ => none

/-- The values of the locals before they are set. -/
structure Locals where
  saveintr : Sigaction
  savequit : Sigaction
  savemask : Finset Nat
  status : Int

/-- The call of `system`; without a command it returns 1. -/
def State.start (hasCommand : Bool) (entry : Signals) (locals : Locals) : State where
  signals := entry
  saveintr := locals.saveintr
  savequit := locals.savequit
  savemask := locals.savemask
  status := locals.status
  pc := if hasCommand then .sigint else .returned 1
  lost := false

/-- Unless a restoring call has failed, everything is as it was at entry. -/
def Restored (entry : Signals) (s : State) : Prop :=
  s.lost = false → s.signals = entry

/-- The calls that fail before the end find nothing changed. -/
def FailsUnchanged (entry : Signals) (s : State) : Label → Prop
  | .sigaction false => s.pc = .sigquit → entry.sigint = ignore
  | .sigprocmask false => s.pc = .block → entry.sigint = ignore ∧ entry.sigquit = ignore
  | _ => True

instance (entry : Signals) (s : State) (l : Label) : Decidable (FailsUnchanged entry s l) := by
  unfold FailsUnchanged
  split <;> infer_instance

end Program

section Phases

variable {entry : Signals} {s s' : State} {l : Label}

/-- The process is the child. -/
def Pc.inChild : Pc → Bool
  | .childInt => true
  | .childQuit => true
  | .childMask => true
  | .execl => true
  | .gone => true
  | _ => false

/-- The signals while the shell runs. -/
def Signals.during (entry : Signals) : Signals where
  sigint := ignore
  sigquit := ignore
  mask := insert SIGCHLD entry.mask

/-- What has been changed and saved at each call. -/
inductive Phase (entry : Signals) : State → Prop
  | sigint {saveintr savequit : Sigaction} {savemask : Finset Nat} {status : Int} :
      Phase entry ⟨entry, saveintr, savequit, savemask, status, .sigint, false⟩
  | sigquit {savequit : Sigaction} {savemask : Finset Nat} {status : Int} :
      Phase entry
        ⟨{ entry with sigint := ignore }, entry.sigint, savequit, savemask, status, .sigquit, false⟩
  | block {savemask : Finset Nat} {status : Int} :
      Phase entry
        ⟨{ entry with sigint := ignore, sigquit := ignore }, entry.sigint, entry.sigquit, savemask,
          status, .block, false⟩
  | fork {status : Int} :
      Phase entry
        ⟨entry.during, entry.sigint, entry.sigquit, entry.mask, status, .fork, false⟩
  | waitpid {status : Int} :
      Phase entry
        ⟨entry.during, entry.sigint, entry.sigquit, entry.mask, status, .waitpid, false⟩
  | restoreInt {status : Int} :
      Phase entry
        ⟨entry.during, entry.sigint, entry.sigquit, entry.mask, status, .restoreInt, false⟩
  | restoreQuit {status : Int} :
      Phase entry
        ⟨{ entry.during with sigint := entry.sigint }, entry.sigint, entry.sigquit, entry.mask,
          status, .restoreQuit, false⟩
  | restoreMask {status : Int} :
      Phase entry
        ⟨{ entry with mask := insert SIGCHLD entry.mask }, entry.sigint, entry.sigquit, entry.mask,
          status, .restoreMask, false⟩
  | returned {s : State} {ret : Int}
      (hpc : s.pc = .returned ret)
      (hrestored : Restored entry s) :
      Phase entry s
  | child {s : State}
      (hpc : s.pc.inChild = true) :
      Phase entry s

theorem phase_start
    (hasCommand : Bool) (entry : Signals) (locals : Locals) :
    Phase entry (State.start hasCommand entry locals) := by
  cases hasCommand with
  | true =>
      exact .sigint
  | false =>
      exact .returned rfl (fun _ => rfl)

/-- `system` has returned, and no call is made any more. -/
theorem step_returned
    {ret : Int}
    (hpc : s.pc = .returned ret) :
    step s l = none := by
  cases l <;> simp [step, hpc]

/-- After a restoring call has failed, nothing is asked of the signals. -/
theorem phase_lost
    {ret : Int}
    (hpc : s.pc = .returned ret)
    (hlost : s.lost = true) :
    Phase entry s := by
  refine .returned hpc ?_
  intro hkept
  rw [hlost] at hkept
  cases hkept

/-- The child stays the child. -/
theorem inChild_step
    (hpc : s.pc.inChild = true)
    (hstep : step s l = some s') :
    s'.pc.inChild = true := by
  obtain ⟨signals, saveintr, savequit, savemask, status, pc, lost⟩ := s
  cases pc with
  | childInt =>
      cases l with
      | sigaction ok =>
          cases hstep
          rfl
      | _ =>
          cases hstep
  | childQuit =>
      cases l with
      | sigaction ok =>
          cases hstep
          rfl
      | _ =>
          cases hstep
  | childMask =>
      cases l with
      | sigprocmask ok =>
          cases hstep
          rfl
      | _ =>
          cases hstep
  | execl =>
      cases l with
      | execl =>
          cases hstep
          rfl
      | _ =>
          cases hstep
  | gone =>
      cases l <;> cases hstep
  | _ =>
      cases hpc

variable {saveintr savequit : Sigaction} {savemask : Finset Nat} {status : Int}

theorem phase_of_sigint
    (hstep : step ⟨entry, saveintr, savequit, savemask, status, .sigint, false⟩ l = some s') :
    Phase entry s' := by
  cases l with
  | sigaction ok =>
      cases ok with
      | true =>
          cases hstep
          exact .sigquit
      | false =>
          cases hstep
          exact .returned rfl (fun _ => rfl)
  | _ =>
      cases hstep

/-- A failure is harmless here if SIGINT was ignored already. -/
theorem phase_of_sigquit
    (hs : s = ⟨{ entry with sigint := ignore }, entry.sigint, savequit, savemask, status,
      .sigquit, false⟩)
    (hfails : FailsUnchanged entry s l)
    (hstep : step s l = some s') :
    Phase entry s' := by
  subst hs
  cases l with
  | sigaction ok =>
      cases ok with
      | true =>
          cases hstep
          exact .block
      | false =>
          cases hstep
          exact .returned rfl (fun _ => Signals.ext (hfails rfl).symm rfl rfl)
  | _ =>
      cases hstep

theorem phase_of_block
    (hs : s = ⟨{ entry with sigint := ignore, sigquit := ignore }, entry.sigint, entry.sigquit,
      savemask, status, .block, false⟩)
    (hfails : FailsUnchanged entry s l)
    (hstep : step s l = some s') :
    Phase entry s' := by
  subst hs
  cases l with
  | sigprocmask ok =>
      cases ok with
      | true =>
          cases hstep
          exact .fork
      | false =>
          cases hstep
          obtain ⟨hint, hquit⟩ := hfails rfl
          exact .returned rfl (fun _ => Signals.ext hint.symm hquit.symm rfl)
  | _ =>
      cases hstep

theorem phase_of_fork
    (hstep : step ⟨entry.during, entry.sigint, entry.sigquit, entry.mask, status, .fork, false⟩ l =
      some s') :
    Phase entry s' := by
  cases l with
  | fork ret =>
      cases ret with
      | error =>
          cases hstep
          exact .restoreInt
      | child =>
          cases hstep
          exact .child rfl
      | parent =>
          cases hstep
          exact .waitpid
  | _ =>
      cases hstep

theorem phase_of_waitpid
    (hstep : step ⟨entry.during, entry.sigint, entry.sigquit, entry.mask, status, .waitpid, false⟩
      l = some s') :
    Phase entry s' := by
  cases l with
  | waitpid ret =>
      cases ret with
      | eintr =>
          cases hstep
          exact .waitpid
      | error =>
          cases hstep
          exact .restoreInt
      | status value =>
          cases hstep
          exact .restoreInt
  | _ =>
      cases hstep

theorem phase_of_restoreInt
    (hstep : step ⟨entry.during, entry.sigint, entry.sigquit, entry.mask, status, .restoreInt,
      false⟩ l = some s') :
    Phase entry s' := by
  cases l with
  | sigaction ok =>
      cases ok with
      | true =>
          cases hstep
          exact .restoreQuit
      | false =>
          cases hstep
          exact phase_lost rfl rfl
  | _ =>
      cases hstep

theorem phase_of_restoreQuit
    (hstep : step ⟨{ entry.during with sigint := entry.sigint }, entry.sigint, entry.sigquit,
      entry.mask, status, .restoreQuit, false⟩ l = some s') :
    Phase entry s' := by
  cases l with
  | sigaction ok =>
      cases ok with
      | true =>
          cases hstep
          exact .restoreMask
      | false =>
          cases hstep
          exact phase_lost rfl rfl
  | _ =>
      cases hstep

/-- The last call gives the mask back, and with it everything is as at entry. -/
theorem phase_of_restoreMask
    (hstep : step ⟨{ entry with mask := insert SIGCHLD entry.mask }, entry.sigint, entry.sigquit,
      entry.mask, status, .restoreMask, false⟩ l = some s') :
    Phase entry s' := by
  cases l with
  | sigprocmask ok =>
      cases ok with
      | true =>
          cases hstep
          exact .returned rfl (fun _ => rfl)
      | false =>
          cases hstep
          exact phase_lost rfl rfl
  | _ =>
      cases hstep

theorem Phase.step
    (h : Phase entry s)
    (hfails : FailsUnchanged entry s l)
    (hstep : step s l = some s') :
    Phase entry s' := by
  cases h with
  | sigint =>
      exact phase_of_sigint hstep
  | sigquit =>
      exact phase_of_sigquit rfl hfails hstep
  | block =>
      exact phase_of_block rfl hfails hstep
  | fork =>
      exact phase_of_fork hstep
  | waitpid =>
      exact phase_of_waitpid hstep
  | restoreInt =>
      exact phase_of_restoreInt hstep
  | restoreQuit =>
      exact phase_of_restoreQuit hstep
  | restoreMask =>
      exact phase_of_restoreMask hstep
  | returned hpc hrestored =>
      rw [step_returned hpc] at hstep
      cases hstep
  | child hpc =>
      exact .child (inChild_step hpc hstep)

/-- `system` has returned with something changed and no restoring call made. -/
def Changed (entry : Signals) (s : State) : Prop :=
  (∃ ret, s.pc = .returned ret) ∧ ¬ Restored entry s

theorem changed_of_fails
    (h : Phase entry s)
    (hfails : ¬ FailsUnchanged entry s l)
    (hstep : step s l = some s') :
    Changed entry s' := by
  cases l with
  | sigaction ok =>
      cases ok with
      | true =>
          exact absurd trivial hfails
      | false =>
          simp only [FailsUnchanged, Classical.not_imp] at hfails
          obtain ⟨hpc, hne⟩ := hfails
          cases h with
          | sigquit =>
              cases hstep
              refine ⟨⟨-1, rfl⟩, fun hrestored => hne ?_⟩
              exact congrArg Signals.sigint (hrestored rfl).symm
          | returned hpc' _ =>
              rw [hpc] at hpc'
              cases hpc'
          | child hpc' =>
              rw [hpc] at hpc'
              cases hpc'
          | _ =>
              cases hpc
  | sigprocmask ok =>
      cases ok with
      | true =>
          exact absurd trivial hfails
      | false =>
          simp only [FailsUnchanged, Classical.not_imp] at hfails
          obtain ⟨hpc, hne⟩ := hfails
          cases h with
          | block =>
              cases hstep
              refine ⟨⟨-1, rfl⟩, fun hrestored => hne ?_⟩
              have hsame := (hrestored rfl).symm
              exact ⟨congrArg Signals.sigint hsame, congrArg Signals.sigquit hsame⟩
          | returned hpc' _ =>
              rw [hpc] at hpc'
              cases hpc'
          | child hpc' =>
              rw [hpc] at hpc'
              cases hpc'
          | _ =>
              cases hpc
  | _ =>
      exact absurd trivial hfails

end Phases

section Results

/--
When `system` returns, the dispositions and the mask are those at entry unless a restoring call
has failed: exactly if no call before `fork` has failed with something already changed.
-/
theorem restored_iff
    {hasCommand : Bool} {entry : Signals} {locals : Locals} {s : State} {es : List Label}
    {ret : Int}
    (hrun : run step (State.start hasCommand entry locals) es = some s)
    (hreturned : s.pc = .returned ret) :
    Restored entry s ↔
      Along step (FailsUnchanged entry) (State.start hasCommand entry locals) es := by
  have hcases := good_or_bad (G := FailsUnchanged entry) (P := Phase entry) (B := Changed entry)
    (fun s l t hP hG hstep => hP.step hG hstep)
    (fun s l t hP hG hstep => changed_of_fails hP hG hstep)
    (fun s l t hB hstep => by
      obtain ⟨⟨ret, hpc⟩, -⟩ := hB
      rw [step_returned hpc] at hstep
      cases hstep)
    (phase_start hasCommand entry locals) hrun
  rcases hcases with ⟨halong, hphase⟩ | ⟨hnot, -, hchanged⟩
  · refine iff_of_true ?_ halong
    cases hphase with
    | returned _ hrestored =>
        exact hrestored
    | child hpc =>
        rw [hreturned] at hpc
        cases hpc
    | _ =>
        cases hreturned
  · exact iff_of_false hchanged hnot

end Results

section Example

def plain : Sigaction := ⟨.dfl, ∅, 0⟩

/-- A shell that has both signals at their defaults and blocks nothing. -/
def defaults : Signals := ⟨plain, plain, ∅⟩

def unset : Locals := ⟨ignore, plain, {2}, 99⟩

/-- The wait is interrupted twice. -/
def interrupted : List Label :=
  [.sigaction true, .sigaction true, .sigprocmask true, .fork .parent, .waitpid .eintr,
    .waitpid .eintr, .waitpid (.status 0), .sigaction true, .sigaction true, .sigprocmask true]

theorem restored_interrupted :
    ∃ s,
      run step (State.start true defaults unset) interrupted = some s ∧
      s.pc = .returned 0 ∧
      Restored defaults s :=
  ⟨_, rfl, rfl,
    (@restored_iff true defaults unset _ interrupted 0 rfl rfl).mpr (by decide)⟩

/-- The `sigaction` for SIGQUIT fails: SIGINT is ignored from then on. -/
theorem not_restored_sigquit :
    ∃ s,
      run step (State.start true defaults unset) [.sigaction true, .sigaction false] = some s ∧
      s.pc = .returned (-1) ∧
      s.signals = { defaults with sigint := ignore } ∧
      ¬ Restored defaults s := by
  refine ⟨_, rfl, rfl, rfl, ?_⟩
  intro hrestored
  exact absurd (congrArg Signals.sigint (hrestored rfl)) (by decide)

end Example
end PosixSystem
end SysProg
