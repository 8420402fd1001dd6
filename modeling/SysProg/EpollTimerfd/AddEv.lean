import SysProg.EpollTimerfd.Consistency
import Mathlib.Tactic

/-!
# Failures inside `add_ev`

`add_ev` registers the socket, makes room in the table, creates a timer, arms it and
registers it.  The two `epoll_ctl` calls report a failure as -1, the calls in between as
their errno, and the macro `ADD_EV` tests for -1 only.  So a failure in between goes
unnoticed, and leaves a registered socket without a session that could time out.

From any state of the table, a new connection is added completely or the server has
exited, exactly if the first failure, if there is one, is reported as -1
(`addedOrExited_iff_not_unnoticed`).
-/

namespace SysProg
namespace EpollTimerfd

open SlotTable

variable {s : Server} {fd timeout : Int} {ans : AddAnswers} {rest : List EpollEvent}

/-- errno is not 0 after a failure. -/
structure ErrnoSet (ans : AddAnswers) : Prop where
  realloc : ans.realloc ≠ some 0
  timerfdCreate : ans.timerfdCreate ≠ .error 0
  settime : ans.settime ≠ some 0

/-- The errno of `realloc`, which is called if the table has no room. -/
def reallocErrno (ans : AddAnswers) (s : Server) : Option Int :=
  if s.fdsList.nAllocated = s.fdsList.nUsed then ans.realloc else none

/-- The errno of the first failure between the two `epoll_ctl` calls. -/
def innerErrno (ans : AddAnswers) (s : Server) : Option Int :=
  match reallocErrno ans s with
  | some e => some e
  | none =>
      match ans.timerfdCreate with
      | .error e => some e
      | .ok _ => ans.settime

/-- The socket is registered, and then a call fails with an errno that is not -1. -/
def Unnoticed (ans : AddAnswers) (s : Server) (fd : Int) : Prop :=
  ans.ctlSocket = none ∧ fd ∉ s.epoll ∧ ∃ e, innerErrno ans s = some e ∧ e ≠ -1

/--
The socket is registered, the table has one more session, which is for this socket, and
the timer of this session is armed and registered.
-/
structure Added (s s' : Server) (fd timeout : Int) : Prop where
  socket : fd ∈ s'.epoll
  session : ∃ t, s'.fdsList.live = s.fdsList.live ++ [⟨fd, t, timeout⟩] ∧
    s'.fdTable t = some (.timer (some ⟨s.now, timeout⟩)) ∧
    t ∈ s'.epoll

section Outcomes

theorem addEv_refused
    (h : ans.ctlSocket ≠ none ∨ fd ∈ s.epoll) :
    (addEv ans (openFd s fd .socket) fd timeout).1 = -1 := by
  cases hctl : ans.ctlSocket with
  | some e =>
      simp [addEv, epollCtlAdd, hctl]
  | none =>
      have hmem : fd ∈ s.epoll := h.resolve_left (by simp [hctl])
      simp [addEv, epollCtlAdd, openFd, hctl, hmem]

/-- Once the socket is registered, `fds_new_timerfd` decides how `add_ev` goes on. -/
theorem addEv_registered
    (hctl : ans.ctlSocket = none)
    (hreg : fd ∉ s.epoll)
    (htimeout : 0 < timeout) :
    addEv ans (openFd s fd .socket) fd timeout =
      match fdsNewTimerfd ans (withSocket s fd s.fdsList.nAllocated) fd timeout with
      | (.error e, s₂) => (e, s₂)
      | (.ok i, s₂) =>
          let (ret, s₃) := fdsSetTimerfd s₂ i ans.settime
          if ret ≠ 0 then (ret, s₃)
          else
            match epollCtlAdd s₃ (s₃.fdsList.list i).timerfd ans.ctlTimer with
            | .error _ => (-1, s₃)
            | .ok s₄ => (0, s₄) := by
  simp only [addEv, epollCtlAdd, hctl, openFd, Function.update_self, reduceCtorEq, if_false,
    hreg, if_pos htimeout]
  rfl

/-- The allocation of the table when it has room for a session. -/
def roomed (s : Server) : Nat :=
  if s.fdsList.nAllocated = s.fdsList.nUsed then s.fdsList.nAllocated + 16
  else s.fdsList.nAllocated

/-- The state after `fds_new_timerfd`: the session has a timer that is not armed. -/
def withTimer (s : Server) (fd t timeout : Int) : Server :=
  { s with
    fdTable :=
      Function.update (Function.update s.fdTable fd (some .socket)) t (some (.timer none))
    epoll := insert fd s.epoll
    fdsList :=
      { nAllocated := roomed s
        nUsed := s.fdsList.nUsed + 1
        list := Function.update s.fdsList.list s.fdsList.nUsed ⟨fd, t, timeout⟩ } }

theorem withTimer_live
    (s : Server) (fd t timeout : Int) :
    (withTimer s fd t timeout).fdsList.live = s.fdsList.live ++ [⟨fd, t, timeout⟩] :=
  live_push s.fdsList.list s.fdsList.nUsed ⟨fd, t, timeout⟩

theorem fdsNewTimerfd_registered
    (ans : AddAnswers) (s : Server) (fd timeout : Int) :
    fdsNewTimerfd ans (withSocket s fd s.fdsList.nAllocated) fd timeout =
      match reallocErrno ans s with
      | some e => (.error e, withSocket s fd s.fdsList.nAllocated)
      | none =>
          match ans.timerfdCreate with
          | .error e => (.error e, withSocket s fd (roomed s))
          | .ok t => (.ok s.fdsList.nUsed, withTimer s fd t timeout) := by
  rfl

/-- The state in which the timer of the new session is armed. -/
def withArmed (s : Server) (fd t timeout : Int) : Server :=
  openFd (withTimer s fd t timeout) t (.timer (some ⟨s.now, timeout⟩))

theorem fdsSetTimerfd_withTimer
    {t : Int}
    (htimeout : 0 < timeout)
    (hset : ans.settime = none) :
    fdsSetTimerfd (withTimer s fd t timeout) s.fdsList.nUsed ans.settime =
      (0, withArmed s fd t timeout) := by
  have hneg : ¬ timeout < 0 := by omega
  have hzero : timeout ≠ 0 := by omega
  simp [fdsSetTimerfd, timerfdSettime, withArmed, withTimer, hset, hneg, hzero]

theorem epollCtlAdd_ok
    {s' : Server} {fail : Option Int}
    (h : epollCtlAdd s fd fail = .ok s') :
    s' = { s with epoll := insert fd s.epoll } := by
  unfold epollCtlAdd at h
  split at h
  · cases h
  · split_ifs at h
    cases h
    rfl

/-- Registering the armed timer completes the session. -/
theorem added_of_armed
    {t : Int} {s₄ : Server}
    (hadd : epollCtlAdd (withArmed s fd t timeout)
      ((withArmed s fd t timeout).fdsList.list s.fdsList.nUsed).timerfd ans.ctlTimer =
        .ok s₄) :
    Added s s₄ fd timeout := by
  have htimerfd :
      ((withArmed s fd t timeout).fdsList.list s.fdsList.nUsed).timerfd = t := by
    simp [withArmed, openFd, withTimer]
  rw [htimerfd] at hadd
  rw [epollCtlAdd_ok hadd]
  refine ⟨?_, t, withTimer_live s fd t timeout, ?_, Finset.mem_insert_self _ _⟩
  · exact Finset.mem_insert_of_mem (Finset.mem_insert_self _ _)
  · exact Function.update_self _ _ _

/-- The first failure in between is what `add_ev` returns, and the session is not complete. -/
theorem addEv_innerErrno
    {e : Int}
    (hctl : ans.ctlSocket = none)
    (hreg : fd ∉ s.epoll)
    (htimeout : 0 < timeout)
    (hans : ErrnoSet ans)
    (herrno : innerErrno ans s = some e) :
    (addEv ans (openFd s fd .socket) fd timeout).1 = e ∧
      ¬ Added s (addEv ans (openFd s fd .socket) fd timeout).2 fd timeout := by
  rw [addEv_registered hctl hreg htimeout]
  rw [fdsNewTimerfd_registered]
  have hunchanged : ∀ n, ¬ Added s (withSocket s fd n) fd timeout := by
    rintro n ⟨_, t, hsession, _⟩
    have hlen := congrArg List.length hsession
    simp [withSocket, FdsList.live] at hlen
  unfold innerErrno at herrno
  cases hrealloc : reallocErrno ans s with
  | some e' =>
      rw [hrealloc] at herrno
      cases herrno
      exact ⟨rfl, hunchanged _⟩
  | none =>
      rw [hrealloc] at herrno
      cases hcreate : ans.timerfdCreate with
      | error e' =>
          rw [hcreate] at herrno
          cases herrno
          exact ⟨rfl, hunchanged _⟩
      | ok t =>
          rw [hcreate] at herrno
          have hne : e ≠ 0 := fun h => hans.settime (h ▸ herrno)
          simp only [fdsSetTimerfd, timerfdSettime, herrno, hne, ne_eq, not_false_eq_true,
            if_true]
          refine ⟨trivial, ?_⟩
          rintro ⟨_, t', hsession, htimer, _⟩
          rw [withTimer_live] at hsession
          have ht : t = t' := by simpa using hsession
          subst ht
          simp [withTimer] at htimer

/-- Without a failure in between, the last `epoll_ctl` decides. -/
theorem addEv_complete
    (hctl : ans.ctlSocket = none)
    (hreg : fd ∉ s.epoll)
    (htimeout : 0 < timeout)
    (herrno : innerErrno ans s = none) :
    (addEv ans (openFd s fd .socket) fd timeout).1 = -1 ∨
      (addEv ans (openFd s fd .socket) fd timeout).1 = 0 ∧
        Added s (addEv ans (openFd s fd .socket) fd timeout).2 fd timeout := by
  rw [addEv_registered hctl hreg htimeout]
  rw [fdsNewTimerfd_registered]
  unfold innerErrno at herrno
  cases hrealloc : reallocErrno ans s with
  | some e' =>
      rw [hrealloc] at herrno
      cases herrno
  | none =>
      rw [hrealloc] at herrno
      cases hcreate : ans.timerfdCreate with
      | error e' =>
          rw [hcreate] at herrno
          cases herrno
      | ok t =>
          rw [hcreate] at herrno
          simp only [fdsSetTimerfd_withTimer htimeout herrno, ne_eq, not_true_eq_false, if_false]
          split
          · exact Or.inl rfl
          · rename_i s₄ hadd
            exact Or.inr ⟨rfl, added_of_armed hadd⟩

end Outcomes

theorem pos_ADD_EV_iff
    (s : Server) (fd timeout : Int) (rest : List EpollEvent) :
    (ADD_EV ans s fd timeout rest).pos = .exited ↔ (addEv ans s fd timeout).1 = -1 := by
  by_cases hret : (addEv ans s fd timeout).1 = -1 <;> simp [ADD_EV, hret]

/--
`ADD_EV` for a new connection leaves the server exited or the connection added completely,
if and only if no failure goes unnoticed.
-/
theorem addedOrExited_iff_not_unnoticed
    (htimeout : 0 < timeout)
    (hans : ErrnoSet ans)
    (s : Server) (fd : Int) (rest : List EpollEvent) :
    ((ADD_EV ans (openFd s fd .socket) fd timeout rest).pos = .exited ∨
        Added s (ADD_EV ans (openFd s fd .socket) fd timeout rest) fd timeout) ↔
      ¬ Unnoticed ans s fd := by
  have hadded :
      Added s (ADD_EV ans (openFd s fd .socket) fd timeout rest) fd timeout ↔
        Added s (addEv ans (openFd s fd .socket) fd timeout).2 fd timeout :=
    ⟨fun h => ⟨h.socket, h.session⟩, fun h => ⟨h.socket, h.session⟩⟩
  rw [pos_ADD_EV_iff, hadded]
  by_cases hrefused : ans.ctlSocket ≠ none ∨ fd ∈ s.epoll
  · refine iff_of_true (Or.inl (addEv_refused hrefused)) ?_
    rintro ⟨hctl, hreg, _⟩
    exact hrefused.elim (fun h => h hctl) hreg
  · rw [not_or, not_not] at hrefused
    obtain ⟨hctl, hreg⟩ := hrefused
    cases herrno : innerErrno ans s with
    | none =>
        refine iff_of_true ?_ ?_
        · exact (addEv_complete hctl hreg htimeout herrno).imp_right And.right
        · rintro ⟨_, _, e, hsome, _⟩
          rw [herrno] at hsome
          cases hsome
    | some e =>
        obtain ⟨hret, hnot⟩ := addEv_innerErrno hctl hreg htimeout hans herrno
        rw [hret, or_iff_left hnot]
        constructor
        · rintro he ⟨_, _, e', hsome, hne⟩
          rw [herrno] at hsome
          cases hsome
          exact hne he
        · intro hnoticed
          by_contra hne
          exact hnoticed ⟨hctl, hreg, e, herrno, hne⟩

/-- Only the last call fails: the server exits. -/
def lastFails : AddAnswers where
  ctlSocket := none
  realloc := none
  timerfdCreate := .ok 6
  settime := none
  ctlTimer := some 28

theorem lastFails_noticed :
    (ADD_EV lastFails (openFd listening 5 .socket) 5 30 []).pos = .exited ∨
      Added listening (ADD_EV lastFails (openFd listening 5 .socket) 5 30 []) 5 30 :=
  (@addedOrExited_iff_not_unnoticed 30 lastFails (by decide)
    ⟨by decide, by simp [lastFails], by decide⟩ listening 5 []).mpr
    (by
      rintro ⟨_, _, e, herrno, _⟩
      cases herrno)

/-- `timerfd_create` fails with EMFILE. -/
def noTimer : AddAnswers where
  ctlSocket := none
  realloc := none
  timerfdCreate := .error 24
  settime := none
  ctlTimer := none

theorem noTimer_unnoticed :
    (ADD_EV noTimer (openFd listening 5 .socket) 5 30 []).pos = .accepting [] ∧
      5 ∈ (ADD_EV noTimer (openFd listening 5 .socket) 5 30 []).epoll ∧
      (ADD_EV noTimer (openFd listening 5 .socket) 5 30 []).fdsList.live = [] :=
  ⟨by decide, by decide, by decide⟩

end EpollTimerfd
end SysProg
