import SysProg.EpollTimerfd.Consistency
import Mathlib.Tactic

/-!
# Sessions closed by timeout

`get_epollevent` closes a session in its timeout branch when the descriptor of an
event is the timerfd of a live entry.  It does not ask the timer again: the
event was true when `epoll_wait` returned, but since then an earlier event of
the batch may have armed the timer again, or closed it and let a new session
reuse its number.

* `timeoutBranch` says when the branch is taken, `timeoutBranch_event` that it
  is the code of `get_epollevent`.
* A stale event closes a session that was armed just now (`stale_close`).
* Without stale events every closed session has been idle for its timeout
  (`elapsed_of_not_stale`), in every run and whatever resources run out.
-/

namespace SysProg
namespace EpollTimerfd

open SlotTable Run

/-- The slot whose session the next event closes by timeout, if it does. -/
def timeoutBranch (s : Server) : Option Nat :=
  match s.pos with
  | .events (ev :: _) =>
      if ev.epollin = true ∧ ev.fd ≠ s.fdListener then
        fdsFindbytimerfd s.fdsList ev.fd
      else none
  | _ => none

/-- A timer that was last armed at least `timeout` seconds ago. -/
def ArmedBefore (now timeout : Int) : Option FdObject → Prop
  | some (.timer (some a)) => a.armedAt + timeout * nsecPerSec ≤ now
  | _ => False

instance (now timeout : Int) (o : Option FdObject) :
    Decidable (ArmedBefore now timeout o) :=
  match o with
  | some (.timer (some a)) =>
      inferInstanceAs (Decidable (a.armedAt + timeout * nsecPerSec ≤ now))
  | none => .isFalse id
  | some .other => .isFalse id
  | some .listener => .isFalse id
  | some .socket => .isFalse id
  | some (.timer none) => .isFalse id

/-- At least `timeout` seconds since the session in slot `i` was last armed. -/
def Elapsed (s : Server) (i : Nat) : Prop :=
  ArmedBefore s.now (s.fdsList.list i).timeout
    (s.fdTable (s.fdsList.list i).timerfd)

instance (s : Server) (i : Nat) : Decidable (Elapsed s i) :=
  inferInstanceAs (Decidable (ArmedBefore _ _ _))

/-- The timer behind slot `i` is no longer the one that `epoll_wait` saw. -/
def Rearmed (s : Server) (i : Nat) : Prop :=
  s.fdTable (s.fdsList.list i).timerfd ≠ s.snapshot (s.fdsList.list i).timerfd

instance (s : Server) (i : Nat) : Decidable (Rearmed s i) :=
  inferInstanceAs (Decidable (_ ≠ _))

/-- A session closed by timeout in this step has been idle for its timeout. -/
def TimeoutElapsed (s : Server) : Label → Prop
  | .event _ => ∀ i ∈ timeoutBranch s, Elapsed s i
  | _ => True

instance (s : Server) (l : Label) : Decidable (TimeoutElapsed s l) := by
  unfold TimeoutElapsed
  split <;> infer_instance

/--
The timer event that is handled in this step is not stale: its timer has not
been armed since `epoll_wait` returned the batch.
-/
def NotStale (s : Server) : Label → Prop
  | .event _ => ∀ i ∈ timeoutBranch s, ¬ Rearmed s i
  | _ => True

instance (s : Server) (l : Label) : Decidable (NotStale s l) := by
  unfold NotStale
  split <;> infer_instance

/-- The timeout branch is the call of `DEL_EV` on the found session. -/
theorem timeoutBranch_event
    {s : Server} {ev : EpollEvent} {rest : List EpollEvent} {i : Nat}
    (hpos : s.pos = .events (ev :: rest))
    (hbranch : timeoutBranch s = some i)
    (retRecv : Option Nat) :
    getEpollevent s ev rest retRecv =
      DEL_EV s (s.fdsList.list i).socketfd rest := by
  simp only [timeoutBranch, hpos] at hbranch
  split_ifs at hbranch with hcond
  simp [getEpollevent, hcond.1, hcond.2, hbranch]

section Snapshot

variable {s : Server}

/-- Every pending timer event names a timer that had expired at the snapshot. -/
def SnapshotExpired (s : Server) : Prop :=
  ∀ ev ∈ s.pos.pending, ev.epollin = true →
    readable s.now (s.snapshot ev.fd) = true

theorem readable_mono
    {now now' : Int} {o : Option FdObject}
    (hle : now ≤ now')
    (h : readable now o = true) :
    readable now' o = true := by
  unfold readable at h ⊢
  split at h
  · simp only [decide_eq_true_eq] at h ⊢
    omega
  · simp at h
  · rfl

/-- Steps only drop events, and fetched events were true when fetched. -/
theorem Effect.snapshotExpired
    (h : SnapshotExpired s)
    {l : Label} {s' : Server}
    (heff : Effect s l s') :
    SnapshotExpired s' := by
  intro ev hev hin
  cases heff with
  | frame hnow _ hrest =>
      exact readable_mono hnow (h ev (hrest ev hev) hin)
  | waited hready =>
      exact (hready ev hev).2 hin
  | closed hrest _ _ _ =>
      exact h ev (hrest ev hev) hin
  | armed hrest _ =>
      exact h ev (hrest ev hev) hin
  | socketOnly hrest _ _ _ =>
      exact h ev (hrest ev hev) hin
  | session hrest _ _ _ _ =>
      exact h ev (hrest ev hev) hin
  | exited hpos _ =>
      rw [hpos] at hev
      simp [Position.pending] at hev

/-- A session closed on an event that is not stale has been idle long enough. -/
theorem elapsed_of_not_stale
    {i : Nat}
    (hcore : Core s)
    (hsnap : SnapshotExpired s)
    (hbranch : timeoutBranch s = some i)
    (hsame : ¬ Rearmed s i) :
    Elapsed s i := by
  unfold timeoutBranch at hbranch
  split at hbranch
  · rename_i ev rest hpos
    split_ifs at hbranch with hcond
    obtain ⟨hlive, hfd⟩ := fdsFindby_some_mem hbranch
    obtain ⟨a, htimer, hseconds⟩ := hcore.timer_open _ hlive
    -- the event was true of the timer that is still there
    have hexpired := hsnap ev (by simp [hpos, Position.pending]) hcond.1
    have hsnapshot :
        s.snapshot ev.fd = some (.timer (some a)) := by
      rw [← hfd, ← not_not.mp hsame]
      exact htimer
    rw [hsnapshot] at hexpired
    have hdeadline : a.deadline ≤ s.now := by
      simpa [readable] using hexpired
    rw [Elapsed, htimer]
    show a.armedAt + _ * nsecPerSec ≤ s.now
    rw [← hseconds]
    exact hdeadline
  · simp at hbranch

end Snapshot

section Runs

variable {s s₀ : Server}

/-- After `exit` nothing happens any more. -/
theorem exited_step
    {l : Label} {s' : Server}
    (hpos : s.pos = .exited)
    (hstep : step s l = some s') :
    s'.pos = .exited := by
  cases l with
  | tick d =>
      simp only [step, Option.some.injEq] at hstep
      subst hstep
      exact hpos
  | epollWait evs =>
      simp [step, hpos] at hstep
  | event retRecv =>
      simp [step, hpos] at hstep
  | accept ret =>
      simp [step, hpos] at hstep

/-- The server has exited, or its table and its batch are in order. -/
def BatchInOrder (s : Server) : Prop :=
  s.pos = .exited ∨ Core s ∧ SnapshotExpired s

theorem BatchInOrder.step
    {l : Label} {s' : Server}
    (h : BatchInOrder s)
    (hstep : step s l = some s') :
    BatchInOrder s' := by
  rcases h with hpos | ⟨hcore, hsnap⟩
  · exact Or.inl (exited_step hpos hstep)
  · by_cases hpos : s.pos = .exited
    · exact Or.inl (exited_step hpos hstep)
    · have heff := step_effect hcore hpos hstep
      rcases heff.core hcore with hexit | hcore'
      · exact Or.inl hexit
      · exact Or.inr ⟨hcore', heff.snapshotExpired hsnap⟩

theorem Initial.batchInOrder
    (h : Initial s) :
    BatchInOrder s := by
  refine Or.inr ⟨h.core, ?_⟩
  intro ev hev
  simp [h.pos, Position.pending] at hev

theorem BatchInOrder.timeoutElapsed
    (h : BatchInOrder s)
    {l : Label}
    (hfresh : NotStale s l) :
    TimeoutElapsed s l := by
  cases l with
  | event retRecv =>
      intro i hi
      rcases h with hpos | ⟨hcore, hsnap⟩
      · simp [timeoutBranch, hpos] at hi
      · exact elapsed_of_not_stale hcore hsnap hi (hfresh i hi)
  | tick d =>
      trivial
  | epollWait evs =>
      trivial
  | accept ret =>
      trivial

/--
**Timeouts.**  In every run without stale timer events, a session closed in the
timeout branch was last armed at least its timeout ago.
-/
theorem timeoutElapsed_of_run
    {es : List Label}
    (hinit : Initial s₀)
    (hfresh : Along step NotStale s₀ es) :
    Along step TimeoutElapsed s₀ es :=
  along_of_invariant
    (fun _ _ _ h _ hstep => h.step hstep)
    (fun _ _ h hl => h.timeoutElapsed hl)
    hinit.batchInOrder
    hfresh

/-- A connection that stays silent for 30 seconds. -/
def silentRun : List Label :=
  [ .epollWait [⟨3, true, false⟩], .event none,
    .accept (some (5, addOk 6)), .accept none,
    .tick 30000000000,
    .epollWait [⟨6, true, false⟩], .event none ]

theorem timeoutElapsed_of_silentRun :
    Along step TimeoutElapsed listening silentRun :=
  timeoutElapsed_of_run listening_initial (by decide)

/--
The same connection, but data arrives together with the expiry: the socket
event arms the timer again, and the timer event that follows is stale.
-/
def lateDataRun : List Label :=
  [ .epollWait [⟨3, true, false⟩], .event none,
    .accept (some (5, addOk 6)), .accept none,
    .tick 30000000000,
    .epollWait [⟨5, true, false⟩, ⟨6, true, false⟩],
    .event (some 10), .event none ]

/-- The stale event closes a session that was armed in the same batch. -/
theorem stale_close :
    ¬ ∀ (s₀ : Server) (es : List Label),
        Initial s₀ → Along step TimeoutElapsed s₀ es := by
  intro hall
  have hlate : ¬ Along step TimeoutElapsed listening lateDataRun := by decide
  exact hlate (hall listening lateDataRun listening_initial)

end Runs

end EpollTimerfd
end SysProg
