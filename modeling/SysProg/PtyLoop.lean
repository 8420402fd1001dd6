import SysProg.Lib.Run
import Mathlib.Tactic

/-!
# The two processes of `loop` in APUE/loop.c

After the fork, the child copies its standard input to the pseudo terminal; at the end of
the input it sends SIGTERM to the parent, unless `ignoreeof` is set, and exits.  The parent
installs the handler `sig_term`, copies the output of the terminal and, if no SIGTERM was
caught, sends one to the child.

**Steps.**  Each process makes its calls one by one, with any results.  A signal that was
sent is pending until a step of its own delivers it.  SIGTERM has its default action until
`signal_intr` has installed the handler; the handler does not restart `read`, so that a
parent that waits in it breaks out of the loop.  A signal that comes just before `read` is
only noted in `sigcaught`, and the parent goes on to wait.  A signal to a process that has
ended has no effect.

**Result.**  The handler is installed after the fork, so that the child may be faster: its
SIGTERM ends the parent by the default action, if it is delivered before the handler is
there.  `survives_iff_installed`: nothing of that kind happens as long as the child sends
the signal after the installation, and it can happen whenever the child sends it before.
-/

namespace SysProg
namespace PtyLoop

open Run

section Program

def BUFFSIZE : Int := 512

inductive ChildPc where
  /-- `read` from standard input -/
  | read
  /-- `writen` to the terminal -/
  | writen
  /-- `kill(getppid(), SIGTERM)` -/
  | kill
  | exited
  /-- ended by SIGTERM -/
  | terminated
deriving DecidableEq, Repr

inductive ParentPc where
  | signalIntr
  /-- `read` from the terminal -/
  | read
  /-- `writen` to standard output -/
  | writen
  /-- the test of `sigcaught` and the `kill` behind it -/
  | test
  /-- `loop` has returned -/
  | returned
  | exited
  /-- ended by the default action of SIGTERM -/
  | terminated
deriving DecidableEq, Repr

/-- The parent is no process any more. -/
def ParentPc.gone : ParentPc → Bool
  | .exited => true
  | .terminated => true
  | _ => false

/--
Both processes; whether the parent has installed `sig_term`; its variable `sigcaught`; and
whether a SIGTERM is pending for the parent and for the child.
-/
structure State where
  ignoreeof : Bool
  child : ChildPc
  parent : ParentPc
  installed : Bool
  sigcaught : Bool
  pending : Bool
  childPending : Bool
deriving DecidableEq, Repr

/-- `fork` has returned. -/
def State.start (ignoreeof : Bool) : State where
  ignoreeof := ignoreeof
  child := .read
  parent := .signalIntr
  installed := false
  sigcaught := false
  pending := false
  childPending := false

inductive Label where
  /-- `read` returns `nread` to the child -/
  | childRead (nread : Int)
  | childWriten (ok : Bool)
  | childKill
  | signalIntr (ok : Bool)
  | parentRead (nread : Int)
  | parentWriten (ok : Bool)
  | parentTest
  /-- the caller of `loop` calls `exit` -/
  | parentExit
  /-- `waiting`: a parent at `read` has entered it -/
  | deliver (waiting : Bool)
  | deliverChild
deriving DecidableEq, Repr

/-- The end of the child's loop. -/
def State.childEof (s : State) : State :=
  if s.ignoreeof then { s with child := .exited } else { s with child := .kill }

/-- `err_sys` exits. -/
def childStep (s : State) : Label → Option State
  | .childRead nread =>
      if s.child = .read ∧ nread ≤ BUFFSIZE then
        if nread < 0 then some { s with child := .exited }
        else if nread = 0 then some s.childEof
        else some { s with child := .writen }
      else none
  | .childWriten ok =>
      if s.child = .writen then
        some { s with child := if ok then .read else .exited }
      else none
  | .childKill =>
      if s.child = .kill then
        some { s with
          child := .exited
          pending := s.pending || !s.parent.gone }
      else none
  | _ => none

def parentStep (s : State) : Label → Option State
  | .signalIntr ok =>
      if s.parent = .signalIntr then
        if ok then some { s with installed := true, parent := .read }
        else some { s with parent := .exited }
      else none
  | .parentRead nread =>
      if s.parent = .read ∧ nread ≤ BUFFSIZE then
        some { s with parent := if nread ≤ 0 then .test else .writen }
      else none
  | .parentWriten ok =>
      if s.parent = .writen then
        some { s with parent := if ok then .read else .exited }
      else none
  | .parentTest =>
      if s.parent = .test then
        if s.sigcaught then some { s with parent := .returned }
        else some { s with parent := .returned, childPending := true }
      else none
  | .parentExit =>
      if s.parent = .returned then some { s with parent := .exited } else none
  | _ => none

/-- The signal is delivered to the parent. -/
def State.deliver (s : State) (waiting : Bool) : State :=
  if s.parent.gone then { s with pending := false }
  else if s.installed then
    { s with
      pending := false
      sigcaught := true
      parent := if s.parent = .read ∧ waiting = true then .test else s.parent }
  else { s with pending := false, parent := .terminated }

/-- The child has not installed a handler. -/
def State.deliverChild (s : State) : State :=
  { s with
    childPending := false
    child := if s.child = .exited then .exited else .terminated }

def step (s : State) (l : Label) : Option State :=
  match l with
  | .childRead _ => childStep s l
  | .childWriten _ => childStep s l
  | .childKill => childStep s l
  | .deliver waiting => if s.pending then some (s.deliver waiting) else none
  | .deliverChild => if s.childPending then some s.deliverChild else none
  | _ => parentStep s l

/-- The parent has its handler, or has ended otherwise. -/
def Safe (s : State) : Prop :=
  s.installed = true ∨ s.parent = .exited

instance (s : State) : Decidable (Safe s) :=
  inferInstanceAs (Decidable (_ ∨ _))

/-- The child sends its signal to a parent that has its handler. -/
def Installed (s : State) (l : Label) : Prop :=
  l = .childKill → Safe s

instance (s : State) (l : Label) : Decidable (Installed s l) :=
  inferInstanceAs (Decidable (_ → _))

end Program

section Runs

variable {s s' : State} {l : Label}

/-- The child may still send its signal. -/
def ChildPc.running : ChildPc → Bool
  | .read => true
  | .writen => true
  | .kill => true
  | _ => false

/-- What a step does to the parent and its signal. -/
inductive Effect (s : State) (l : Label) (s' : State) : Prop
  | child
      (hl : l ≠ .childKill)
      (hchild : s'.child.running = true → s.child.running = true)
      (hinstalled : s'.installed = s.installed)
      (hparent : s'.parent = s.parent)
      (hpending : s'.pending = s.pending)
  | kill
      (hl : l = .childKill)
      (hchild : s'.child = .exited)
      (hinstalled : s'.installed = s.installed)
      (hparent : s'.parent = s.parent)
  | parent
      (hl : l ≠ .childKill)
      (hchild : s'.child = s.child)
      (hinstalled : s.installed = true → s'.installed = true)
      (hbefore : s.parent ≠ .exited)
      (hparent : s'.parent ≠ .terminated)
      (hpending : s'.pending = s.pending)
  | deliver
      (hl : l ≠ .childKill)
      (hpending : s.pending = true)
      (hnext : ∃ waiting, s' = s.deliver waiting)

theorem childEof_effect
    (hl : l ≠ .childKill)
    (hchild : s.child = .read) :
    Effect s l s.childEof := by
  have hrunning : s.child.running = true := by rw [hchild]; rfl
  unfold State.childEof
  split_ifs
  · exact .child hl (fun _ => hrunning) rfl rfl rfl
  · exact .child hl (fun _ => hrunning) rfl rfl rfl

theorem effect_of_step
    (hstep : step s l = some s') :
    Effect s l s' := by
  cases l with
  | childRead nread =>
      simp only [step, childStep] at hstep
      split_ifs at hstep with hguard hneg hzero
      · cases hstep
        exact .child (by simp) (fun h => by cases h) rfl rfl rfl
      · cases hstep
        exact childEof_effect (by simp) hguard.1
      · cases hstep
        exact .child (by simp) (fun _ => by rw [hguard.1]; rfl) rfl rfl rfl
  | childWriten ok =>
      simp only [step, childStep] at hstep
      split_ifs at hstep with hguard hok
      · cases hstep
        exact .child (by simp) (fun _ => by rw [hguard]; rfl) rfl rfl rfl
      · cases hstep
        exact .child (by simp) (fun _ => by rw [hguard]; rfl) rfl rfl rfl
  | childKill =>
      simp only [step, childStep] at hstep
      split_ifs at hstep
      cases hstep
      exact .kill rfl rfl rfl rfl
  | signalIntr ok =>
      simp only [step, parentStep] at hstep
      split_ifs at hstep with hguard hok
      · cases hstep
        exact .parent (by simp) rfl (fun _ => rfl) (by simp [hguard]) (by simp) rfl
      · cases hstep
        exact .parent (by simp) rfl id (by simp [hguard]) (by simp) rfl
  | parentRead nread =>
      simp only [step, parentStep] at hstep
      split_ifs at hstep with hguard hend
      · cases hstep
        exact .parent (by simp) rfl id (by simp [hguard.1]) (by simp) rfl
      · cases hstep
        exact .parent (by simp) rfl id (by simp [hguard.1]) (by simp) rfl
  | parentWriten ok =>
      simp only [step, parentStep] at hstep
      split_ifs at hstep with hguard hok
      · cases hstep
        exact .parent (by simp) rfl id (by simp [hguard]) (by simp) rfl
      · cases hstep
        exact .parent (by simp) rfl id (by simp [hguard]) (by simp) rfl
  | parentTest =>
      simp only [step, parentStep] at hstep
      split_ifs at hstep with hguard hcaught
      · cases hstep
        exact .parent (by simp) rfl id (by simp [hguard]) (by simp) rfl
      · cases hstep
        exact .parent (by simp) rfl id (by simp [hguard]) (by simp) rfl
  | parentExit =>
      simp only [step, parentStep] at hstep
      split_ifs at hstep with hguard
      cases hstep
      exact .parent (by simp) rfl id (by simp [hguard]) (by simp) rfl
  | deliver waiting =>
      simp only [step] at hstep
      split_ifs at hstep with hpending
      cases hstep
      exact .deliver (by simp) hpending ⟨waiting, rfl⟩
  | deliverChild =>
      simp only [step] at hstep
      split_ifs at hstep
      cases hstep
      refine .child (by simp) ?_ rfl rfl rfl
      simp only [State.deliverChild]
      split_ifs <;> exact fun h => by cases h

/-- The default action cannot end the parent any more. -/
def Armed (s : State) : Prop :=
  Safe s ∧ s.parent ≠ .terminated

/-- No signal has been sent to the parent. -/
def Quiet (s : State) : Prop :=
  s.pending = false ∧ s.parent ≠ .terminated

theorem armed_deliver
    (h : Armed s)
    (waiting : Bool) :
    Armed (s.deliver waiting) := by
  obtain ⟨hsafe, hparent⟩ := h
  unfold State.deliver
  split_ifs with hgone hinstalled hread
  · exact ⟨hsafe, hparent⟩
  · exact ⟨Or.inl hinstalled, by simp⟩
  · exact ⟨Or.inl hinstalled, hparent⟩
  · -- without the handler, a safe parent has exited
    have hexited := hsafe.resolve_left hinstalled
    rw [hexited] at hgone
    exact absurd rfl hgone

theorem armed_step
    (h : Armed s)
    (hstep : step s l = some s') :
    Armed s' := by
  obtain ⟨hsafe, hparent⟩ := h
  cases effect_of_step hstep with
  | child _ _ hinstalled' hparent' _ =>
      rw [Armed, Safe, hinstalled', hparent']
      exact ⟨hsafe, hparent⟩
  | kill _ _ hinstalled' hparent' =>
      rw [Armed, Safe, hinstalled', hparent']
      exact ⟨hsafe, hparent⟩
  | parent _ _ hinstalled' hbefore hparent' _ =>
      exact ⟨Or.inl (hinstalled' (hsafe.resolve_right hbefore)), hparent'⟩
  | deliver _ _ hnext =>
      obtain ⟨waiting, rfl⟩ := hnext
      exact armed_deliver ⟨hsafe, hparent⟩ waiting

theorem quiet_step
    (h : Quiet s)
    (hl : l ≠ .childKill)
    (hstep : step s l = some s') :
    Quiet s' := by
  obtain ⟨hpending, hparent⟩ := h
  cases effect_of_step hstep with
  | child _ _ _ hparent' hpending' =>
      rw [Quiet, hparent', hpending']
      exact ⟨hpending, hparent⟩
  | kill hkill _ _ _ =>
      exact absurd hkill hl
  | parent _ _ _ _ hparent' hpending' =>
      exact ⟨hpending'.trans hpending, hparent'⟩
  | deliver _ hsent _ =>
      rw [hpending] at hsent
      cases hsent

/-- The signal reaches a parent that is safe from its default action. -/
theorem armed_of_kill
    (h : Quiet s)
    (hsafe : Safe s)
    (hstep : step s .childKill = some s') :
    Armed s' := by
  cases effect_of_step hstep with
  | kill _ _ hinstalled' hparent' =>
      rw [Armed, Safe, hinstalled', hparent']
      exact ⟨hsafe, h.2⟩
  | child hl _ _ _ _ =>
      exact absurd rfl hl
  | parent hl _ _ _ _ _ =>
      exact absurd rfl hl
  | deliver hl _ _ =>
      exact absurd rfl hl

theorem good_step
    (h : Quiet s ∨ Armed s)
    (hinstalled : Installed s l)
    (hstep : step s l = some s') :
    Quiet s' ∨ Armed s' := by
  rcases h with hquiet | harmed
  · by_cases hl : l = .childKill
    · subst hl
      exact Or.inr (armed_of_kill hquiet (hinstalled rfl) hstep)
    · exact Or.inl (quiet_step hquiet hl hstep)
  · exact Or.inr (armed_step harmed hstep)

/-- As long as the child has not sent its signal, nothing is pending. -/
theorem quiet_of_running_step
    (h : s.child.running = true → Quiet s)
    (hstep : step s l = some s') :
    s'.child.running = true → Quiet s' := by
  intro hrunning
  have heffect := effect_of_step hstep
  have hl : l ≠ .childKill := by
    rintro rfl
    cases heffect with
    | kill _ hchild _ _ =>
        rw [hchild] at hrunning
        cases hrunning
    | child hl _ _ _ _ =>
        exact hl rfl
    | parent hl _ _ _ _ _ =>
        exact hl rfl
    | deliver hl _ _ =>
        exact hl rfl
  have hbefore : s.child.running = true := by
    cases heffect with
    | child _ hchild _ _ _ =>
        exact hchild hrunning
    | kill hkill _ _ _ =>
        exact absurd hkill hl
    | parent _ hchild _ _ _ _ =>
        rw [← hchild]
        exact hrunning
    | deliver _ _ hnext =>
        obtain ⟨waiting, rfl⟩ := hnext
        unfold State.deliver at hrunning
        split_ifs at hrunning <;> exact hrunning
  exact quiet_step (h hbefore) hl hstep

/-- A signal that is sent too early may be delivered at once. -/
theorem terminated_of_early
    (hkill : s.child = .kill)
    (hparent : s.parent ≠ .terminated)
    (hsafe : ¬ Safe s) :
    ∃ u, run step s [.childKill, .deliver false] = some u ∧ u.parent = .terminated := by
  obtain ⟨hinstalled, hexited⟩ := not_or.mp hsafe
  have hgone : s.parent.gone = false := by
    cases hpc : s.parent <;> simp_all [ParentPc.gone]
  have hsent : step s .childKill = some { s with child := .exited, pending := true } := by
    simp [step, childStep, hkill, hgone]
  refine ⟨{ s with child := .exited, pending := false, parent := .terminated }, ?_, rfl⟩
  rw [run_cons, hsent]
  simp [step, State.deliver, hgone, hinstalled]

/--
No SIGTERM of the child ends the parent by its default action in a run in which the child
sends it after the handler was installed, or the parent has exited.  And when the child is
about to send it in a reachable state, this is needed: otherwise the run can be continued
so that the parent is ended.
-/
theorem survives_iff_installed
    (ignoreeof : Bool) {es : List Label} {s : State}
    (hrun : run step (State.start ignoreeof) es = some s) :
    (Along step Installed (State.start ignoreeof) es → s.parent ≠ .terminated) ∧
      (s.child = .kill →
        ((∀ fs u, run step s fs = some u → u.parent ≠ .terminated) ↔ Safe s)) := by
  have hstart : Quiet (State.start ignoreeof) := ⟨rfl, by simp [State.start]⟩
  constructor
  · intro halong
    rcases run_invariant_along (fun _ _ _ => good_step) (Or.inl hstart) halong hrun with h | h
    · exact h.2
    · exact h.2
  · intro hkill
    have hquiet : Quiet s :=
      run_invariant (fun _ _ _ => quiet_of_running_step) (fun _ => hstart) hrun
        (by rw [hkill]; rfl)
    constructor
    · intro hall
      by_contra hsafe
      obtain ⟨u, hu, hend⟩ := terminated_of_early hkill hquiet.2 hsafe
      exact hall _ u hu hend
    · intro hsafe fs u hu
      exact (run_invariant (fun _ _ _ => armed_step) ⟨hsafe, hquiet.2⟩ hu).2

end Runs

section Example

/-- The handler is installed before the end of the input. -/
def lateEof : List Label :=
  [.signalIntr true, .childRead 0, .childKill, .deliver true]

theorem survives_lateEof :
    ∃ s, run step (State.start false) lateEof = some s ∧
      s.sigcaught = true ∧
      s.parent ≠ .terminated :=
  ⟨_, rfl, rfl, (@survives_iff_installed false lateEof _ rfl).1 (by decide)⟩

/-- The input is at its end at once. -/
def earlyEof : List Label :=
  [.childRead 0, .childKill, .deliver false]

theorem earlyEof_terminated :
    ∃ s, run step (State.start false) earlyEof = some s ∧ s.parent = .terminated :=
  ⟨_, rfl, rfl⟩

end Example

end PtyLoop
end SysProg
