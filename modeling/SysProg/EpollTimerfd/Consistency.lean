import SysProg.EpollTimerfd.Server
import Mathlib.Tactic

/-!
# Consistency of the session table

The table, the open descriptors and the epoll interest list are three copies of
the same fact: which connections are being served.  This module states how they
fit together and proves that every step of the server keeps them so.

* `Core` holds in every run, whatever resources run out, as long as the server
  has not exited.  A connection whose session could not be created is still
  registered, so a socket need not belong to an entry.
* `Owned` adds that every socket belongs to an entry.  It needs the calls of
  `add_ev` to succeed, and then `del_ev` always returns 0.
-/

namespace SysProg
namespace EpollTimerfd

open SlotTable Run

/-- Table, open descriptors and interest list fit together. -/
structure Core (s : Server) : Prop where
  used_le : s.fdsList.nUsed ≤ s.fdsList.nAllocated
  sockets_nodup : (s.fdsList.live.map FdSession.socketfd).Nodup
  timers_nodup : (s.fdsList.live.map FdSession.timerfd).Nodup
  timeout_eq : ∀ e ∈ s.fdsList.live, e.timeout = FDSESSION_DEFAULT_TIMEOUT
  socket_open : ∀ e ∈ s.fdsList.live, s.fdTable e.socketfd = some .socket
  timer_open : ∀ e ∈ s.fdsList.live,
    ∃ a, s.fdTable e.timerfd = some (.timer (some a)) ∧ a.seconds = e.timeout
  listener_open : s.fdTable s.fdListener = some .listener
  registered_iff : ∀ fd,
    fd ∈ s.epoll ↔
      fd = s.fdListener ∨
      s.fdTable fd = some .socket ∨
      ∃ e ∈ s.fdsList.live, e.timerfd = fd

/-- Every connected socket belongs to a live entry. -/
def Owned (s : Server) : Prop :=
  ∀ fd, s.fdTable fd = some .socket → ∃ e ∈ s.fdsList.live, e.socketfd = fd

section CoreFacts

variable {s : Server}

/-- `Core` only reads the table, the descriptors and the interest list. -/
theorem Core.congr
    {s' : Server}
    (h : Core s)
    (hlistener : s'.fdListener = s.fdListener)
    (hlist : s'.fdsList = s.fdsList)
    (hfd : s'.fdTable = s.fdTable)
    (hepoll : s'.epoll = s.epoll) :
    Core s' := by
  constructor
  · rw [hlist]; exact h.used_le
  · rw [hlist]; exact h.sockets_nodup
  · rw [hlist]; exact h.timers_nodup
  · rw [hlist]; exact h.timeout_eq
  · rw [hlist, hfd]; exact h.socket_open
  · rw [hlist, hfd]; exact h.timer_open
  · rw [hlistener, hfd]; exact h.listener_open
  · rw [hlist, hfd, hlistener, hepoll]; exact h.registered_iff

/-- Socket and timer descriptors of live entries never coincide. -/
theorem Core.socketfd_ne_timerfd
    (h : Core s)
    {e e' : FdSession}
    (he : e ∈ s.fdsList.live)
    (he' : e' ∈ s.fdsList.live) :
    e.socketfd ≠ e'.timerfd := by
  intro heq
  have hs := h.socket_open e he
  obtain ⟨a, ha, _⟩ := h.timer_open e' he'
  rw [heq, ha] at hs
  simp at hs

theorem Core.socketfd_ne_listener
    (h : Core s)
    {e : FdSession}
    (he : e ∈ s.fdsList.live) :
    e.socketfd ≠ s.fdListener := by
  intro heq
  have hs := h.socket_open e he
  rw [heq, h.listener_open] at hs
  simp at hs

theorem Core.timerfd_ne_listener
    (h : Core s)
    {e : FdSession}
    (he : e ∈ s.fdsList.live) :
    e.timerfd ≠ s.fdListener := by
  intro heq
  obtain ⟨a, ha, _⟩ := h.timer_open e he
  rw [heq, h.listener_open] at ha
  simp at ha

theorem Core.fresh_ne
    (h : Core s)
    {fd : Int}
    (hfresh : s.fdTable fd = none) :
    fd ≠ s.fdListener ∧
    ∀ e ∈ s.fdsList.live, e.socketfd ≠ fd ∧ e.timerfd ≠ fd := by
  refine ⟨?_, ?_⟩
  · intro heq
    rw [heq, h.listener_open] at hfresh
    simp at hfresh
  · intro e he
    refine ⟨?_, ?_⟩
    · intro heq
      have hs := h.socket_open e he
      rw [heq, hfresh] at hs
      simp at hs
    · intro heq
      obtain ⟨a, ha, _⟩ := h.timer_open e he
      rw [heq, hfresh] at ha
      simp at ha

theorem Core.fresh_not_registered
    (h : Core s)
    {fd : Int}
    (hfresh : s.fdTable fd = none) :
    fd ∉ s.epoll := by
  obtain ⟨hl, hne⟩ := h.fresh_ne hfresh
  rw [h.registered_iff]
  rintro (heq | hsock | ⟨e, he, heq⟩)
  · exact hl heq
  · rw [hfresh] at hsock
    simp at hsock
  · exact (hne e he).2 heq

end CoreFacts

section Deletion

variable {s : Server}

/-- The state after `del_ev` on a session, with the table that remains. -/
def withoutSession (s : Server) (e : FdSession) (t : FdsList) : Server :=
  { s with
    fdsList := t
    fdTable :=
      Function.update (Function.update s.fdTable e.socketfd none) e.timerfd none
    epoll := (s.epoll.erase e.socketfd).erase e.timerfd }

/-- `epoll_ctl(EPOLL_CTL_DEL)` succeeds on a registered open descriptor. -/
theorem epollCtlDel_ok
    {fd : Int}
    (hopen : s.fdTable fd ≠ none)
    (hreg : fd ∈ s.epoll) :
    epollCtlDel s fd = .ok { s with epoll := s.epoll.erase fd } := by
  simp [epollCtlDel, hopen, hreg]

/-- `del_ev` on the socket of a live entry removes exactly that session. -/
theorem delEv_session
    (h : Core s)
    {e : FdSession}
    (he : e ∈ s.fdsList.live) :
    ∃ t : FdsList,
      delEv s e.socketfd = (0, withoutSession s e t) ∧
      (e :: t.live).Perm s.fdsList.live ∧
      t.nUsed ≤ t.nAllocated := by
  have hsock := h.socket_open e he
  obtain ⟨a, htimer, _⟩ := h.timer_open e he
  have hne : e.timerfd ≠ e.socketfd := (h.socketfd_ne_timerfd he he).symm
  have hsockReg : e.socketfd ∈ s.epoll :=
    (h.registered_iff _).mpr (Or.inr (Or.inl hsock))
  have htimerReg : e.timerfd ∈ s.epoll :=
    (h.registered_iff _).mpr (Or.inr (Or.inr ⟨e, he, rfl⟩))
  obtain ⟨i, hfind, hslot⟩ := fdsFindby_of_mem h.sockets_nodup he
  obtain ⟨j, hfindt, hslott⟩ := fdsFindby_of_mem h.timers_nodup he
  obtain ⟨hret, halloc, hused, hperm⟩ := fdsDeletebytimerfd_perm hfindt
  refine ⟨(fdsDeletebytimerfd s.fdsList e.timerfd).2, ?_, ?_, ?_⟩
  · have hdel₁ := epollCtlDel_ok (s := s) (by simp [hsock]) hsockReg
    let s₂ := close { s with epoll := s.epoll.erase e.socketfd } e.socketfd
    have hdel₂ :
        epollCtlDel s₂ e.timerfd =
          .ok { s₂ with epoll := s₂.epoll.erase e.timerfd } :=
      epollCtlDel_ok
        (by simp [s₂, close, hne, htimer])
        (by simp [s₂, close, hne, htimerReg])
    simp only [s₂, close] at hdel₂
    simp only [delEv, hdel₁, fdsFindbysocketfd, close, hfind, hslot, hdel₂, hret]
    simp [withoutSession]
  · rw [hslott] at hperm
    exact hperm
  · rw [halloc, hused]
    have := h.used_le
    omega

/-- What a permutation of the table says about the entries that remain. -/
theorem remaining_of_perm
    (h : Core s)
    {e : FdSession} {t : FdsList}
    (hperm : (e :: t.live).Perm s.fdsList.live) :
    ∀ e' ∈ t.live,
      e' ∈ s.fdsList.live ∧
      e'.socketfd ≠ e.socketfd ∧
      e'.timerfd ≠ e.timerfd := by
  intro e' he'
  have hsockets : (e.socketfd :: t.live.map FdSession.socketfd).Nodup :=
    (hperm.map FdSession.socketfd).nodup_iff.mpr h.sockets_nodup
  have htimers : (e.timerfd :: t.live.map FdSession.timerfd).Nodup :=
    (hperm.map FdSession.timerfd).nodup_iff.mpr h.timers_nodup
  refine ⟨hperm.mem_iff.mp (List.mem_cons_of_mem e he'), ?_, ?_⟩
  · intro heq
    apply (List.nodup_cons.mp hsockets).1
    exact List.mem_map.mpr ⟨e', he', heq⟩
  · intro heq
    apply (List.nodup_cons.mp htimers).1
    exact List.mem_map.mpr ⟨e', he', heq⟩

/-- Only the descriptors of the entry are closed. -/
theorem fdTable_withoutSession
    {e : FdSession} {fd : Int}
    (t : FdsList)
    (hs : fd ≠ e.socketfd)
    (ht : fd ≠ e.timerfd) :
    (withoutSession s e t).fdTable fd = s.fdTable fd := by
  simp [withoutSession, Function.update_of_ne ht, Function.update_of_ne hs]

/-- A socket that is still open is none of the entry's descriptors, and was open before. -/
theorem socket_of_withoutSession
    {e : FdSession} {t : FdsList} {fd : Int}
    (hsock : (withoutSession s e t).fdTable fd = some .socket) :
    fd ≠ e.socketfd ∧ fd ≠ e.timerfd ∧ s.fdTable fd = some .socket := by
  have ht : fd ≠ e.timerfd := by
    rintro rfl
    simp [withoutSession] at hsock
  have hs : fd ≠ e.socketfd := by
    rintro rfl
    simp [withoutSession, Function.update_apply] at hsock
  rw [fdTable_withoutSession t hs ht] at hsock
  exact ⟨hs, ht, hsock⟩

theorem Core.withoutSession
    (h : Core s)
    {e : FdSession} {t : FdsList}
    (he : e ∈ s.fdsList.live)
    (hperm : (e :: t.live).Perm s.fdsList.live)
    (hused : t.nUsed ≤ t.nAllocated) :
    Core (withoutSession s e t) := by
  have hrest := remaining_of_perm h hperm
  have hopen : ∀ fd, fd ≠ e.socketfd → fd ≠ e.timerfd →
      (EpollTimerfd.withoutSession s e t).fdTable fd = s.fdTable fd :=
    fun _ hs ht => fdTable_withoutSession t hs ht
  constructor
  · exact hused
  · exact (List.nodup_cons.mp
      ((hperm.map FdSession.socketfd).nodup_iff.mpr h.sockets_nodup)).2
  · exact (List.nodup_cons.mp
      ((hperm.map FdSession.timerfd).nodup_iff.mpr h.timers_nodup)).2
  · intro e' he'
    exact h.timeout_eq e' (hrest e' he').1
  · intro e' he'
    obtain ⟨hmem, hs, _⟩ := hrest e' he'
    rw [hopen _ hs (h.socketfd_ne_timerfd hmem he)]
    exact h.socket_open e' hmem
  · intro e' he'
    obtain ⟨hmem, _, ht⟩ := hrest e' he'
    rw [hopen _ (h.socketfd_ne_timerfd he hmem).symm ht]
    exact h.timer_open e' hmem
  · have hlistener := hopen s.fdListener
      (h.socketfd_ne_listener he).symm (h.timerfd_ne_listener he).symm
    exact hlistener.trans h.listener_open
  · intro fd
    show fd ∈ (s.epoll.erase e.socketfd).erase e.timerfd ↔ _
    rw [Finset.mem_erase, Finset.mem_erase, h.registered_iff fd]
    constructor
    · rintro ⟨ht, hs, hlist | hsock | ⟨e', he', heq⟩⟩
      · exact Or.inl hlist
      · exact Or.inr (Or.inl ((hopen fd hs ht).trans hsock))
      · right
        right
        rcases List.mem_cons.mp (hperm.mem_iff.mpr he') with rfl | hmem
        · exact absurd heq.symm ht
        · exact ⟨e', hmem, heq⟩
    · rintro (hlist | hsock | ⟨e', he', heq⟩)
      · have hl : fd = s.fdListener := hlist
        subst hl
        exact ⟨(h.timerfd_ne_listener he).symm,
          (h.socketfd_ne_listener he).symm, Or.inl rfl⟩
      · obtain ⟨hs, ht, hold⟩ := socket_of_withoutSession hsock
        exact ⟨ht, hs, Or.inr (Or.inl hold)⟩
      · obtain ⟨hmem, _, ht⟩ := hrest e' he'
        subst heq
        exact ⟨ht, (h.socketfd_ne_timerfd he hmem).symm,
          Or.inr (Or.inr ⟨e', hmem, rfl⟩)⟩

theorem Owned.withoutSession
    (ho : Owned s)
    {e : FdSession} {t : FdsList}
    (hperm : (e :: t.live).Perm s.fdsList.live) :
    Owned (withoutSession s e t) := by
  intro fd hsock
  obtain ⟨hs, _, hold⟩ := socket_of_withoutSession hsock
  obtain ⟨e', he', heq⟩ := ho fd hold
  rcases List.mem_cons.mp (hperm.mem_iff.mpr he') with rfl | hmem
  · exact absurd heq.symm hs
  · exact ⟨e', hmem, heq⟩

end Deletion

section Arming

variable {s : Server}

/-- The state after a successful `fds_set_timerfd` on entry `e`. -/
def withArming (s : Server) (e : FdSession) : Server :=
  openFd s e.timerfd (.timer (some ⟨s.now, e.timeout⟩))

/-- Arming the timer of a live entry succeeds. -/
theorem fdsSetTimerfd_live
    (h : Core s)
    {i : Nat}
    (hi : s.fdsList.list i ∈ s.fdsList.live) :
    fdsSetTimerfd s i none = (0, withArming s (s.fdsList.list i)) := by
  obtain ⟨a, htimer, _⟩ := h.timer_open _ hi
  have htimeout := h.timeout_eq _ hi
  simp [fdsSetTimerfd, timerfdSettime, htimer, htimeout, withArming,
    FDSESSION_DEFAULT_TIMEOUT]

theorem Core.withArming
    (h : Core s)
    {e : FdSession}
    (he : e ∈ s.fdsList.live) :
    Core (withArming s e) := by
  obtain ⟨a, htimer, _⟩ := h.timer_open e he
  have hother : ∀ fd, fd ≠ e.timerfd →
      (EpollTimerfd.withArming s e).fdTable fd = s.fdTable fd := by
    intro fd hne
    simp [EpollTimerfd.withArming, openFd, Function.update_of_ne hne]
  have hsame :
      (EpollTimerfd.withArming s e).fdTable e.timerfd =
        some (.timer (some ⟨s.now, e.timeout⟩)) := by
    simp [EpollTimerfd.withArming, openFd]
  constructor
  · exact h.used_le
  · exact h.sockets_nodup
  · exact h.timers_nodup
  · exact h.timeout_eq
  · intro e' he'
    rw [hother _ (h.socketfd_ne_timerfd he' he)]
    exact h.socket_open e' he'
  · intro e' he'
    by_cases heq : e'.timerfd = e.timerfd
    · have hsess := List.inj_on_of_nodup_map h.timers_nodup he' he heq
      subst hsess
      exact ⟨_, hsame, rfl⟩
    · rw [hother _ heq]
      exact h.timer_open e' he'
  · exact (hother _ (h.timerfd_ne_listener he).symm).trans h.listener_open
  · intro fd
    refine (h.registered_iff fd).trans ?_
    by_cases heq : fd = e.timerfd
    · subst heq
      constructor
      · intro _
        exact Or.inr (Or.inr ⟨e, he, rfl⟩)
      · intro _
        exact Or.inr (Or.inr ⟨e, he, rfl⟩)
    · rw [hother fd heq]
      rfl

theorem Owned.withArming
    (ho : Owned s)
    (e : FdSession) :
    Owned (withArming s e) := by
  intro fd hsock
  have hne : fd ≠ e.timerfd := by
    intro heq
    rw [heq] at hsock
    simp [EpollTimerfd.withArming, openFd] at hsock
  apply ho fd
  simpa [EpollTimerfd.withArming, openFd, Function.update_of_ne hne] using hsock

end Arming

section Addition

variable {s : Server}

/-- A new socket that is registered but has no session, with room `n` in the table. -/
def withSocket (s : Server) (fd : Int) (n : Nat) : Server :=
  { s with
    fdTable := Function.update s.fdTable fd (some .socket)
    epoll := insert fd s.epoll
    fdsList := { s.fdsList with nAllocated := n } }

/-- The state after `add_ev` has created, armed and registered the session `e`. -/
def withSession (s : Server) (e : FdSession) : Server :=
  { s with
    fdTable :=
      Function.update s.fdTable e.timerfd
        (some (.timer (some ⟨s.now, e.timeout⟩)))
    epoll := insert e.timerfd s.epoll
    fdsList :=
      { s.fdsList with
        nUsed := s.fdsList.nUsed + 1
        list := Function.update s.fdsList.list s.fdsList.nUsed e } }

theorem Core.withSocket
    (h : Core s)
    {fd : Int} {n : Nat}
    (hfresh : s.fdTable fd = none)
    (hn : s.fdsList.nUsed ≤ n) :
    Core (withSocket s fd n) := by
  obtain ⟨hl, hne⟩ := h.fresh_ne hfresh
  have hother : ∀ fd', fd' ≠ fd →
      (EpollTimerfd.withSocket s fd n).fdTable fd' = s.fdTable fd' := by
    intro fd' hfd'
    simp [EpollTimerfd.withSocket, Function.update_of_ne hfd']
  constructor
  · exact hn
  · exact h.sockets_nodup
  · exact h.timers_nodup
  · exact h.timeout_eq
  · intro e he
    rw [hother _ (hne e he).1]
    exact h.socket_open e he
  · intro e he
    rw [hother _ (hne e he).2]
    exact h.timer_open e he
  · exact (hother _ hl.symm).trans h.listener_open
  · intro fd'
    show fd' ∈ insert fd s.epoll ↔ _
    rw [Finset.mem_insert, h.registered_iff fd']
    by_cases heq : fd' = fd
    · subst heq
      simp [EpollTimerfd.withSocket]
    · rw [hother fd' heq]
      simp only [heq, false_or]
      rfl

theorem nodup_map_append_singleton
    {es : List FdSession} {e : FdSession}
    (f : FdSession → Int)
    (hnodup : (es.map f).Nodup)
    (hnew : ∀ e' ∈ es, f e' ≠ f e) :
    ((es ++ [e]).map f).Nodup := by
  have hfresh : f e ∉ es.map f := by
    intro hmem
    obtain ⟨e', he', heq⟩ := List.mem_map.mp hmem
    exact hnew e' he' heq
  rw [List.map_append, List.map_singleton, ← List.concat_eq_append]
  exact hnodup.concat hfresh

/-- Giving a session to a socket that has none. -/
theorem Core.withSession
    (h : Core s)
    {e : FdSession}
    (hfresh : s.fdTable e.timerfd = none)
    (hsocket : s.fdTable e.socketfd = some .socket)
    (hnew : ∀ e' ∈ s.fdsList.live, e'.socketfd ≠ e.socketfd)
    (htimeout : e.timeout = FDSESSION_DEFAULT_TIMEOUT)
    (hroom : s.fdsList.nUsed < s.fdsList.nAllocated) :
    Core (withSession s e) := by
  obtain ⟨hl, hne⟩ := h.fresh_ne hfresh
  have hlive :
      (EpollTimerfd.withSession s e).fdsList.live = s.fdsList.live ++ [e] :=
    live_push s.fdsList.list s.fdsList.nUsed e
  have hother : ∀ fd', fd' ≠ e.timerfd →
      (EpollTimerfd.withSession s e).fdTable fd' = s.fdTable fd' := by
    intro fd' hfd'
    simp [EpollTimerfd.withSession, Function.update_of_ne hfd']
  have hsame :
      (EpollTimerfd.withSession s e).fdTable e.timerfd =
        some (.timer (some ⟨s.now, e.timeout⟩)) := by
    simp [EpollTimerfd.withSession]
  have hsocketNe : e.socketfd ≠ e.timerfd := by
    intro heq
    rw [heq, hfresh] at hsocket
    simp at hsocket
  constructor
  · exact hroom
  · rw [hlive]
    exact nodup_map_append_singleton FdSession.socketfd h.sockets_nodup hnew
  · rw [hlive]
    exact nodup_map_append_singleton FdSession.timerfd h.timers_nodup
      (fun e' he' => (hne e' he').2)
  · rw [hlive]
    intro e' he'
    rcases List.mem_append.mp he' with hold | hlast
    · exact h.timeout_eq e' hold
    · rw [List.mem_singleton.mp hlast]
      exact htimeout
  · rw [hlive]
    intro e' he'
    rcases List.mem_append.mp he' with hold | hlast
    · rw [hother _ (hne e' hold).1]
      exact h.socket_open e' hold
    · rw [List.mem_singleton.mp hlast, hother _ hsocketNe]
      exact hsocket
  · rw [hlive]
    intro e' he'
    rcases List.mem_append.mp he' with hold | hlast
    · rw [hother _ (hne e' hold).2]
      exact h.timer_open e' hold
    · rw [List.mem_singleton.mp hlast]
      exact ⟨_, hsame, rfl⟩
  · exact (hother _ hl.symm).trans h.listener_open
  · intro fd'
    rw [hlive]
    show fd' ∈ insert e.timerfd s.epoll ↔ _
    rw [Finset.mem_insert, h.registered_iff fd']
    by_cases heq : fd' = e.timerfd
    · subst heq
      simp
    · rw [hother fd' heq]
      have hlast : ¬ e.timerfd = fd' := fun h => heq h.symm
      simp only [heq, false_or, List.mem_append, List.mem_singleton,
        or_and_right, exists_or, exists_eq_left, hlast, or_false]
      rfl

theorem Owned.withSession
    {s₀ : Server} {e : FdSession} {n : Nat}
    (ho : Owned s₀) :
    Owned (withSession (withSocket s₀ e.socketfd n) e) := by
  intro fd hsock
  have hlive :
      (EpollTimerfd.withSession (withSocket s₀ e.socketfd n) e).fdsList.live =
        s₀.fdsList.live ++ [e] :=
    live_push s₀.fdsList.list s₀.fdsList.nUsed e
  rw [hlive]
  by_cases hs : fd = e.socketfd
  · exact ⟨e, by simp, hs.symm⟩
  · have ht : fd ≠ e.timerfd := by
      intro heq
      rw [heq] at hsock
      simp [EpollTimerfd.withSession] at hsock
    have hold : s₀.fdTable fd = some .socket := by
      simpa [EpollTimerfd.withSession, withSocket, Function.update_of_ne ht,
        Function.update_of_ne hs] using hsock
    obtain ⟨e', he', heq⟩ := ho fd hold
    exact ⟨e', List.mem_append_left _ he', heq⟩

end Addition

section Steps

variable {s : Server}

/-- None of the calls of `add_ev` fails. -/
def AddAnswers.Succeed (ans : AddAnswers) : Prop :=
  ans.ctlSocket = none ∧
  ans.realloc = none ∧
  (∃ t, ans.timerfdCreate = .ok t) ∧
  ans.settime = none ∧
  ans.ctlTimer = none

/-- `accept` and `recv` may answer anything; every other call succeeds. -/
def Label.OthersSucceed : Label → Prop
  | .accept (some (_, ans)) => ans.Succeed
  | _ => True

/-- The three ways in which `add_ev` can leave a new connection. -/
theorem addEv_cases
    (h : Core s)
    {fd : Int} {ans : AddAnswers}
    (ha : AddAllowed s fd ans) :
    (addEv ans (openFd s fd .socket) fd FDSESSION_DEFAULT_TIMEOUT).1 = -1 ∧
        ¬ ans.Succeed ∨
    (∃ e n, 0 < e ∧ ¬ ans.Succeed ∧ s.fdsList.nUsed ≤ n ∧
      addEv ans (openFd s fd .socket) fd FDSESSION_DEFAULT_TIMEOUT =
        (e, withSocket s fd n)) ∨
    (∃ t n, s.fdsList.nUsed < n ∧ t ≠ fd ∧ s.fdTable t = none ∧
      addEv ans (openFd s fd .socket) fd FDSESSION_DEFAULT_TIMEOUT =
        (0, withSession (withSocket s fd n)
          ⟨fd, t, FDSESSION_DEFAULT_TIMEOUT⟩)) := by
  obtain ⟨ctlSocket, realloc, timerfdCreate, settime, ctlTimer⟩ := ans
  obtain ⟨⟨_, hfresh⟩, hrealloc, hsettime, hcreate⟩ := ha
  simp only at hrealloc hsettime hcreate
  subst hsettime
  have hused := h.used_le
  have hnotReg := h.fresh_not_registered hfresh
  cases ctlSocket with
  | some e =>
      left
      simp [addEv, epollCtlAdd, AddAnswers.Succeed]
  | none =>
      -- how much room the table has, or the errno of `realloc`
      have hroom :
          (∃ e, 0 < e ∧
            (if s.fdsList.nAllocated = s.fdsList.nUsed then realloc else none) =
              some e) ∨
          ((if s.fdsList.nAllocated = s.fdsList.nUsed then realloc else none) =
              none ∧
            s.fdsList.nUsed <
              if s.fdsList.nAllocated = s.fdsList.nUsed then
                s.fdsList.nAllocated + 16
              else s.fdsList.nAllocated) := by
        by_cases hfull : s.fdsList.nAllocated = s.fdsList.nUsed
        · cases realloc with
          | none =>
              right
              simp [hfull]
          | some e =>
              left
              exact ⟨e, hrealloc, by simp [hfull]⟩
        · right
          simp only [hfull, if_false, true_and]
          omega
      rcases hroom with ⟨e, he, hres⟩ | ⟨hres, hn⟩
      · right
        left
        refine ⟨e, s.fdsList.nAllocated, he, ?_, hused, ?_⟩
        · rintro ⟨_, hnone, _⟩
          simp only at hnone
          simp [hnone] at hres
        · simp [addEv, epollCtlAdd, openFd, hnotReg,
            FDSESSION_DEFAULT_TIMEOUT, fdsNewTimerfd, hres, withSocket]
      · cases timerfdCreate with
        | error e =>
            right
            left
            refine ⟨e, _, hcreate, ?_, Nat.le_of_lt hn, ?_⟩
            · rintro ⟨_, _, ⟨t, ht⟩, _⟩
              simp at ht
            · simp [addEv, epollCtlAdd, openFd, hnotReg,
                FDSESSION_DEFAULT_TIMEOUT, fdsNewTimerfd, hres, withSocket]
        | ok t =>
            obtain ⟨hne, _, htfresh⟩ := hcreate
            have htNotReg := h.fresh_not_registered htfresh
            cases ctlTimer with
            | some e =>
                left
                refine ⟨?_, ?_⟩
                · simp [addEv, epollCtlAdd, openFd, hnotReg,
                    FDSESSION_DEFAULT_TIMEOUT, fdsNewTimerfd, hres,
                    fdsSetTimerfd, timerfdSettime]
                · simp [AddAnswers.Succeed]
            | none =>
                right
                right
                refine ⟨t, _, hn, hne, htfresh, ?_⟩
                simp [addEv, epollCtlAdd, openFd, hnotReg, htNotReg, hne,
                  FDSESSION_DEFAULT_TIMEOUT, fdsNewTimerfd, hres,
                  fdsSetTimerfd, timerfdSettime, withSocket, withSession]

/-- The events of the batch that are still to be handled. -/
def Position.pending : Position → List EpollEvent
  | .events rest => rest
  | .accepting rest => rest
  | .exited => []

/--
Everything one step can do to the table, the descriptors and the interest list;
events are only ever dropped from the batch, except when a new one is fetched.
-/
inductive Effect (s : Server) (l : Label) : Server → Prop
  | frame {now' : Int} {pos' : Position}
      (hnow : s.now ≤ now')
      (hpos : pos' ≠ .exited)
      (hrest : ∀ ev ∈ pos'.pending, ev ∈ s.pos.pending) :
      Effect s l { s with now := now', pos := pos' }
  | waited {evs : List EpollEvent}
      (hready : ∀ ev ∈ evs, Ready s ev) :
      Effect s l { s with pos := .events evs, snapshot := s.fdTable }
  | closed {e : FdSession} {t : FdsList} {rest : List EpollEvent}
      (hrest : ∀ ev ∈ rest, ev ∈ s.pos.pending)
      (he : e ∈ s.fdsList.live)
      (hperm : (e :: t.live).Perm s.fdsList.live)
      (hused : t.nUsed ≤ t.nAllocated) :
      Effect s l
        { withoutSession s e t with
          pos := .events rest, delRets := 0 :: s.delRets }
  | armed {e : FdSession} {rest : List EpollEvent}
      (hrest : ∀ ev ∈ rest, ev ∈ s.pos.pending)
      (he : e ∈ s.fdsList.live) :
      Effect s l { withArming s e with pos := .events rest }
  | socketOnly {fd : Int} {n : Nat} {rest : List EpollEvent}
      (hrest : ∀ ev ∈ rest, ev ∈ s.pos.pending)
      (hfresh : s.fdTable fd = none)
      (hn : s.fdsList.nUsed ≤ n)
      (hfail : ¬ l.OthersSucceed) :
      Effect s l { withSocket s fd n with pos := .accepting rest }
  | session {fd t : Int} {n : Nat} {rest : List EpollEvent}
      (hrest : ∀ ev ∈ rest, ev ∈ s.pos.pending)
      (hfresh : s.fdTable fd = none)
      (htfresh : s.fdTable t = none)
      (hne : t ≠ fd)
      (hn : s.fdsList.nUsed < n) :
      Effect s l
        { withSession (withSocket s fd n) ⟨fd, t, FDSESSION_DEFAULT_TIMEOUT⟩ with
          pos := .accepting rest }
  | exited {s' : Server}
      (hpos : s'.pos = .exited)
      (hwhy : ¬ l.OthersSucceed ∨ ¬ Owned s) :
      Effect s l s'

/-- `DEL_EV` on the socket of a live entry. -/
theorem DEL_EV_session
    (h : Core s)
    {e : FdSession} {rest : List EpollEvent}
    (he : e ∈ s.fdsList.live)
    (hrest : ∀ ev ∈ rest, ev ∈ s.pos.pending)
    (l : Label) :
    Effect s l (DEL_EV s e.socketfd rest) := by
  obtain ⟨t, hdel, hperm, hused⟩ := delEv_session h he
  have heq :
      DEL_EV s e.socketfd rest =
        { withoutSession s e t with
          pos := .events rest, delRets := 0 :: s.delRets } := by
    simp [DEL_EV, hdel, withoutSession]
  rw [heq]
  exact Effect.closed hrest he hperm hused

/-- `DEL_EV` on a connected socket: without a session it ends the server. -/
theorem DEL_EV_socket
    (h : Core s)
    {fd : Int} {rest : List EpollEvent}
    (hsock : s.fdTable fd = some .socket)
    (hrest : ∀ ev ∈ rest, ev ∈ s.pos.pending)
    (l : Label) :
    Effect s l (DEL_EV s fd rest) := by
  by_cases howner : ∃ e ∈ s.fdsList.live, e.socketfd = fd
  · obtain ⟨e, he, rfl⟩ := howner
    exact DEL_EV_session h he hrest l
  · have hreg : fd ∈ s.epoll :=
      (h.registered_iff fd).mpr (Or.inr (Or.inl hsock))
    have hfind : fdsFindby FdSession.socketfd s.fdsList fd = none := by
      rw [fdsFindby_none_iff]
      intro e he heq
      exact howner ⟨e, he, heq⟩
    have hdel := epollCtlDel_ok (s := s) (by simp [hsock]) hreg
    refine Effect.exited ?_ (Or.inr ?_)
    · simp [DEL_EV, delEv, hdel, close, fdsFindbysocketfd, hfind]
    · intro ho
      exact howner (ho fd hsock)

/-- One event of the batch. -/
theorem getEpollevent_effect
    (h : Core s)
    {ev : EpollEvent} {rest : List EpollEvent} {retRecv : Option Nat}
    (hpos : s.pos = .events (ev :: rest))
    (hrecv : RecvAllowed s ev.fd retRecv)
    (l : Label) :
    Effect s l (getEpollevent s ev rest retRecv) := by
  have hrest : ∀ ev' ∈ rest, ev' ∈ s.pos.pending := by
    intro ev' hev'
    rw [hpos]
    exact List.mem_cons_of_mem ev hev'
  unfold getEpollevent
  split_ifs with hin hlistener
  · exact Effect.frame (Int.le_refl _) (by simp) hrest
  · cases hfind : fdsFindbytimerfd s.fdsList ev.fd with
    | some i =>
        exact DEL_EV_session h (fdsFindby_some_mem hfind).1 hrest l
    | none =>
        cases retRecv with
        | none =>
            exact Effect.frame (Int.le_refl _) (by simp) hrest
        | some n =>
            obtain ⟨hsock, _⟩ := hrecv
            cases n with
            | zero =>
                exact DEL_EV_socket h hsock hrest l
            | succ n =>
                cases hsess : fdsFindbysocketfd s.fdsList ev.fd with
                | none =>
                    exact Effect.frame (Int.le_refl _) (by simp)
                      (by simp [Position.pending])
                | some i =>
                    have hi := (fdsFindby_some_mem hsess).1
                    simp only [fdsSetTimerfd_live h hi, ne_eq,
                      not_true_eq_false, if_false]
                    exact Effect.armed hrest hi
  · exact Effect.frame (Int.le_refl _) (by simp) hrest

/-- One turn of the accept loop that got a connection. -/
theorem ADD_EV_effect
    (h : Core s)
    {fd : Int} {ans : AddAnswers} {rest : List EpollEvent}
    (hrest : ∀ ev ∈ rest, ev ∈ s.pos.pending)
    (ha : AddAllowed s fd ans) :
    Effect s (.accept (some (fd, ans)))
      (ADD_EV ans (openFd s fd .socket) fd FDSESSION_DEFAULT_TIMEOUT rest) := by
  have hfresh := ha.1.2
  rcases addEv_cases h ha with ⟨hret, hfail⟩ | ⟨e, n, he, hfail, hn, hadd⟩ |
    ⟨t, n, hn, hne, htfresh, hadd⟩
  · refine Effect.exited ?_ (Or.inl hfail)
    simp [ADD_EV, hret]
  · have hpos : ¬ e = -1 := by omega
    simp only [ADD_EV, hadd, hpos, if_false]
    exact Effect.socketOnly hrest hfresh hn hfail
  · have hpos : ¬ (0 : Int) = -1 := by omega
    simp only [ADD_EV, hadd, hpos, if_false]
    exact Effect.session hrest hfresh htfresh hne hn

/-- The effect of any step of a server that has not exited. -/
theorem step_effect
    (h : Core s)
    (hrunning : s.pos ≠ .exited)
    {l : Label} {s' : Server}
    (hstep : step s l = some s') :
    Effect s l s' := by
  cases l with
  | tick d =>
      simp only [step, Option.some.injEq] at hstep
      subst hstep
      exact Effect.frame (by omega) hrunning (fun _ hev => hev)
  | epollWait evs =>
      simp only [step] at hstep
      split_ifs at hstep with hcond
      simp only [Option.some.injEq] at hstep
      subst hstep
      exact Effect.waited hcond.2.2
  | event retRecv =>
      simp only [step] at hstep
      split at hstep
      · rename_i ev rest hpos
        split_ifs at hstep with hrecv
        simp only [Option.some.injEq] at hstep
        subst hstep
        exact getEpollevent_effect h hpos hrecv _
      · simp at hstep
  | accept ret =>
      simp only [step] at hstep
      split at hstep
      · rename_i rest hpos
        have hrest : ∀ ev ∈ rest, ev ∈ s.pos.pending := by
          rw [hpos]
          exact fun _ hev => hev
        cases ret with
        | none =>
            simp only [Option.some.injEq] at hstep
            subst hstep
            exact Effect.frame (Int.le_refl _) (by simp) hrest
        | some p =>
            obtain ⟨fd, ans⟩ := p
            simp only at hstep
            split_ifs at hstep with hallowed
            simp only [Option.some.injEq] at hstep
            subst hstep
            exact ADD_EV_effect h hrest hallowed
      · simp at hstep

/-- A step of a running server keeps `Core`, or the server exits. -/
theorem Effect.core
    (h : Core s)
    {l : Label} {s' : Server}
    (heff : Effect s l s') :
    s'.pos = .exited ∨ Core s' := by
  cases heff with
  | frame _ _ _ =>
      exact Or.inr (h.congr rfl rfl rfl rfl)
  | waited _ =>
      exact Or.inr (h.congr rfl rfl rfl rfl)
  | closed _ he hperm hused =>
      exact Or.inr ((h.withoutSession he hperm hused).congr rfl rfl rfl rfl)
  | armed _ he =>
      exact Or.inr ((h.withArming he).congr rfl rfl rfl rfl)
  | socketOnly _ hfresh hn _ =>
      exact Or.inr ((h.withSocket hfresh hn).congr rfl rfl rfl rfl)
  | @session fd t n rest _ hfresh htfresh hne hn =>
      right
      have hcore := h.withSocket hfresh (Nat.le_of_lt hn)
      refine (hcore.withSession ?_ ?_ ?_ rfl hn).congr rfl rfl rfl rfl
      · simp [EpollTimerfd.withSocket, Function.update_of_ne hne, htfresh]
      · simp [EpollTimerfd.withSocket]
      · intro e' he'
        exact ((h.fresh_ne hfresh).2 e' he').1
  | exited hpos _ =>
      exact Or.inl hpos

/-- With all other calls succeeding nothing is orphaned and nothing exits. -/
theorem Effect.owned
    (ho : Owned s)
    {l : Label} {s' : Server}
    (hl : l.OthersSucceed)
    (heff : Effect s l s') :
    s'.pos ≠ .exited ∧ Owned s' ∧
      (s'.delRets = s.delRets ∨ s'.delRets = 0 :: s.delRets) := by
  cases heff with
  | frame _ hpos _ =>
      exact ⟨hpos, ho, Or.inl rfl⟩
  | waited _ =>
      exact ⟨by simp, ho, Or.inl rfl⟩
  | closed _ _ hperm _ =>
      exact ⟨by simp, ho.withoutSession hperm, Or.inr rfl⟩
  | armed _ _ =>
      exact ⟨by simp, ho.withArming _, Or.inl rfl⟩
  | socketOnly _ _ _ hfail =>
      exact absurd hl hfail
  | @session fd t n _ _ _ _ _ _ =>
      exact ⟨by simp,
        ho.withSession (e := ⟨fd, t, FDSESSION_DEFAULT_TIMEOUT⟩) (n := n),
        Or.inl rfl⟩
  | exited _ hwhy =>
      rcases hwhy with hfail | hnot
      · exact absurd hl hfail
      · exact absurd ho hnot

end Steps

section Runs

variable {s s₀ : Server}

/-- The invariant of runs in which only `accept` and `recv` can fail. -/
structure Healthy (s : Server) : Prop where
  running : s.pos ≠ .exited
  core : Core s
  owned : Owned s
  del_ok : ∀ r ∈ s.delRets, r = 0

theorem Initial.core
    (h : Initial s) :
    Core s := by
  have hlive : s.fdsList.live = [] := by
    simp [FdsList.live, h.n_used]
  constructor
  · rw [h.n_used]
    exact Nat.zero_le _
  · simp [hlive]
  · simp [hlive]
  · simp [hlive]
  · simp [hlive]
  · simp [hlive]
  · exact h.listener
  · intro fd
    rw [h.epoll, Finset.mem_singleton, hlive]
    constructor
    · exact Or.inl
    · rintro (heq | hsock | ⟨e, he, _⟩)
      · exact heq
      · by_contra hne
        have hother := h.others fd _ hne hsock
        simp at hother
      · simp at he

theorem Initial.healthy
    (h : Initial s) :
    Healthy s := by
  refine ⟨by simp [h.pos], h.core, ?_, by simp [h.delRets]⟩
  intro fd hsock
  by_cases hfd : fd = s.fdListener
  · rw [hfd, h.listener] at hsock
    simp at hsock
  · have hother := h.others fd _ hfd hsock
    simp at hother

theorem Healthy.step
    {l : Label} {s' : Server}
    (h : Healthy s)
    (hl : l.OthersSucceed)
    (hstep : step s l = some s') :
    Healthy s' := by
  have heff := step_effect h.core h.running hstep
  obtain ⟨hpos, hown, hdel⟩ := heff.owned h.owned hl
  refine ⟨hpos, (heff.core h.core).resolve_left hpos, hown, ?_⟩
  intro r hr
  rcases hdel with hsame | hmore
  · rw [hsame] at hr
    exact h.del_ok r hr
  · rw [hmore] at hr
    rcases List.mem_cons.mp hr with rfl | hold
    · rfl
    · exact h.del_ok r hold

/-- All descriptors held by live entries. -/
def FdsList.fds (t : FdsList) : List Int :=
  t.live.map FdSession.socketfd ++ t.live.map FdSession.timerfd

/--
The table agrees with the kernel, entry by entry, and no call of `del_ev` has
failed.
-/
structure TableConsistent (s : Server) : Prop where
  used_le : 0 ≤ s.fdsList.nUsed ∧ s.fdsList.nUsed ≤ s.fdsList.nAllocated
  fds_nodup : s.fdsList.fds.Nodup
  not_listener : s.fdListener ∉ s.fdsList.fds
  open_registered : ∀ fd ∈ s.fdsList.fds, s.fdTable fd ≠ none ∧ fd ∈ s.epoll
  registered_once : ∀ fd ∈ s.epoll, fd ≠ s.fdListener →
    ∃! i, i < s.fdsList.nUsed ∧
      ((s.fdsList.list i).socketfd = fd ∨ (s.fdsList.list i).timerfd = fd)
  del_ok : ∀ r ∈ s.delRets, r = 0

/-- Slots are determined by a descriptor that no two entries share. -/
theorem slot_unique_of_nodup
    {key : FdSession → Int} {t : FdsList}
    (hnodup : (t.live.map key).Nodup)
    {i j : Nat}
    (hi : i < t.nUsed)
    (hj : j < t.nUsed)
    (heq : key (t.list i) = key (t.list j)) :
    i = j := by
  have hrange : ((List.range t.nUsed).map (fun k => key (t.list k))).Nodup := by
    simpa [FdsList.live, SlotTable.live, Function.comp_def] using hnodup
  exact List.inj_on_of_nodup_map hrange
    (List.mem_range.mpr hi) (List.mem_range.mpr hj) heq

/-- No two live slots share a descriptor, in whatever role. -/
theorem Core.slot_unique
    (h : Core s)
    {i j : Nat} {fd : Int}
    (hi : i < s.fdsList.nUsed)
    (hj : j < s.fdsList.nUsed)
    (hifd : (s.fdsList.list i).socketfd = fd ∨ (s.fdsList.list i).timerfd = fd)
    (hjfd : (s.fdsList.list j).socketfd = fd ∨ (s.fdsList.list j).timerfd = fd) :
    i = j := by
  have hmi : s.fdsList.list i ∈ s.fdsList.live := mem_live_iff.mpr ⟨i, hi, rfl⟩
  have hmj : s.fdsList.list j ∈ s.fdsList.live := mem_live_iff.mpr ⟨j, hj, rfl⟩
  rcases hifd with hi' | hi' <;> rcases hjfd with hj' | hj'
  · exact slot_unique_of_nodup h.sockets_nodup hi hj (hi'.trans hj'.symm)
  · exact absurd (hi'.trans hj'.symm) (h.socketfd_ne_timerfd hmi hmj)
  · exact absurd (hj'.trans hi'.symm) (h.socketfd_ne_timerfd hmj hmi)
  · exact slot_unique_of_nodup h.timers_nodup hi hj (hi'.trans hj'.symm)

theorem Healthy.tableConsistent
    (h : Healthy s) :
    TableConsistent s := by
  have hc := h.core
  constructor
  · exact ⟨Nat.zero_le _, hc.used_le⟩
  · rw [FdsList.fds, List.nodup_append]
    refine ⟨hc.sockets_nodup, hc.timers_nodup, ?_⟩
    intro a ha b hb
    obtain ⟨e, he, rfl⟩ := List.mem_map.mp ha
    obtain ⟨e', he', rfl⟩ := List.mem_map.mp hb
    exact hc.socketfd_ne_timerfd he he'
  · intro hmem
    rcases List.mem_append.mp hmem with hs | ht
    · obtain ⟨e, he, heq⟩ := List.mem_map.mp hs
      exact hc.socketfd_ne_listener he heq
    · obtain ⟨e, he, heq⟩ := List.mem_map.mp ht
      exact hc.timerfd_ne_listener he heq
  · intro fd hmem
    rcases List.mem_append.mp hmem with hs | ht
    · obtain ⟨e, he, rfl⟩ := List.mem_map.mp hs
      have hopen := hc.socket_open e he
      exact ⟨by simp [hopen],
        (hc.registered_iff _).mpr (Or.inr (Or.inl hopen))⟩
    · obtain ⟨e, he, rfl⟩ := List.mem_map.mp ht
      obtain ⟨a, hopen, _⟩ := hc.timer_open e he
      exact ⟨by simp [hopen],
        (hc.registered_iff _).mpr (Or.inr (Or.inr ⟨e, he, rfl⟩))⟩
  · intro fd hreg hne
    have howner : ∃ e ∈ s.fdsList.live, e.socketfd = fd ∨ e.timerfd = fd := by
      rcases (hc.registered_iff fd).mp hreg with hl | hsock | ⟨e, he, heq⟩
      · exact absurd hl hne
      · obtain ⟨e, he, heq⟩ := h.owned fd hsock
        exact ⟨e, he, Or.inl heq⟩
      · exact ⟨e, he, Or.inr heq⟩
    obtain ⟨e, he, hfd⟩ := howner
    obtain ⟨i, hi, rfl⟩ := mem_live_iff.mp he
    refine ⟨i, ⟨hi, hfd⟩, ?_⟩
    rintro j ⟨hj, hjfd⟩
    exact hc.slot_unique hj hi hjfd hfd
  · exact h.del_ok

/--
**Consistency of the session table.**  In every run from the state in which only
the listener is registered, with any batches and any answers of `accept` and
`recv`, the table agrees with the open and registered descriptors after every
step, and `del_ev` has only returned 0.
-/
theorem tableConsistent_of_run
    {es : List Label}
    (hinit : Initial s₀)
    (hothers : ∀ l ∈ es, l.OthersSucceed)
    (hrun : run step s₀ es = some s) :
    TableConsistent s := by
  have hhealthy : Healthy s :=
    run_invariant_along
      (fun _ _ _ h hl hstep => h.step hl hstep)
      hinit.healthy
      (along_of_forall_mem hothers s₀)
      hrun
  exact hhealthy.tableConsistent

/-- A server that listens on descriptor 3 and has no connection yet. -/
def listening : Server where
  fdListener := 3
  fdsList := ⟨0, 0, fun _ => ⟨0, 0, 0⟩⟩
  now := 0
  fdTable := fun fd => if fd = 3 then some .listener else none
  epoll := {3}
  pos := .events []
  snapshot := fun _ => none
  delRets := []

theorem listening_initial :
    Initial listening := by
  refine ⟨rfl, rfl, rfl, ?_, rfl, rfl, rfl⟩
  intro fd o hne hopen
  have hne' : fd ≠ 3 := hne
  simp [listening, hne'] at hopen

/-- `add_ev` succeeds and `timerfd_create` returns `t`. -/
def addOk (t : Int) : AddAnswers :=
  ⟨none, none, .ok t, none, none⟩

/--
Two connections; then a batch in which the first is closed by its peer, and its
stale timer event comes after `accept` has reused both numbers.
-/
def reuseRun : List Label :=
  [ .epollWait [⟨3, true, false⟩], .event none,
    .accept (some (5, addOk 6)), .accept (some (7, addOk 8)), .accept none,
    .tick 30000000000,
    .epollWait [⟨5, true, false⟩, ⟨3, true, false⟩, ⟨6, true, false⟩],
    .event (some 0), .event none, .accept (some (6, addOk 5)), .accept none,
    .event none ]

theorem tableConsistent_of_reuseRun :
    ∃ s, run step listening reuseRun = some s ∧ TableConsistent s := by
  have hsome : (run step listening reuseRun).isSome = true := by decide
  obtain ⟨s, hs⟩ := Option.isSome_iff_exists.mp hsome
  refine ⟨s, hs, tableConsistent_of_run listening_initial ?_ hs⟩
  intro l hl
  simp only [reuseRun, List.mem_cons, List.not_mem_nil, or_false] at hl
  rcases hl with rfl | rfl | rfl | rfl | rfl | rfl | rfl | rfl | rfl | rfl |
    rfl | rfl <;>
    simp [Label.OthersSucceed, AddAnswers.Succeed, addOk]

end Runs

end EpollTimerfd
end SysProg
