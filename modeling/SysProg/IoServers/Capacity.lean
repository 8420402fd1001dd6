import SysProg.IoServers.Poll
import Mathlib.Tactic

/-!
# The sockets that ALSP/io_poll_nb.c has accepted

The server waits in `poll`.  When the listening socket is ready it accepts until `accept`
fails and enters each new socket into the table; otherwise it scans the table, and closes the
sockets whose peers are gone.  The table has room for `MAX_FD_SOCKET` descriptors, the
listening socket included.  `add_socket` reports a full table, and the caller has an empty
block for that case: the socket stays open and is in no table.

**Steps.** A step is one call of `poll`, one call of `accept` with what follows it, or one turn
of the scan.  `Effect` lists what a step does to the table and to the open sockets.

**Results.** `accepted_in_table_iff`: whenever the server calls `poll`, every accepted socket
that it has not closed is in the table behind slot 0, exactly if no `accept` so far has
succeeded while the table was full.
-/

namespace SysProg
namespace IoServers
namespace Poll

open Run SlotTable

section Program

def MAX_FD_SOCKET : Nat := 0xff

/-- `add_socket`, with the value that it returns. -/
def State.addSocket (s : State) (fd : Int) : State × Int :=
  if s.cntFdSocket < MAX_FD_SOCKET then
    ({ s with
        pollfds :=
          Function.update s.pollfds s.cntFdSocket { s.pollfds s.cntFdSocket with fd := fd }
        cntFdSocket := s.cntFdSocket + 1 },
      s.cntFdSocket + 1)
  else (s, -1)

/-- `del_socket` is called in this turn of the scan, and closes the socket. -/
def State.deletes (s : State) (recv : Recv) : Bool :=
  (s.pollfds s.i).pollin && recv == .closed

/-- What `poll` leaves in the table. -/
def State.store (s : State) (revents : Nat → BitVec 16) (k : Nat) : Pollfd :=
  if k < s.cntFdSocket then { s.pollfds k with revents := revents k } else s.pollfds k

/-- Where `main` is. -/
inductive ServerPc where
  | poll
  | accept
  | scan
  | exited
deriving DecidableEq, Repr

/-- The server; `opened` is history, the accepted sockets that it has not closed. -/
structure Server where
  listener : Int
  state : State
  pc : ServerPc
  opened : List Int

inductive ServerLabel where
  /-- the events that `poll` reports; `none` is -1 -/
  | poll (ret : Option (Nat → BitVec 16))
  | accept (ret : Option Int)
  /-- the test of the scan and one turn, with the answer to a `recv` -/
  | turn (recv : Recv)

/-- One step of `main`; a new descriptor is different from all open ones. -/
def serverStep (s : Server) : ServerLabel → Option Server
  | .poll none =>
      if s.pc = .poll then some { s with pc := .exited } else none
  | .poll (some revents) =>
      if s.pc = .poll then
        let next := State.start (s.state.store revents) s.state.cntFdSocket
        some
          { s with
            state := next
            pc := if (next.pollfds 0).pollin then .accept else .scan }
      else none
  | .accept none =>
      if s.pc = .accept then some { s with pc := .poll } else none
  | .accept (some fd) =>
      if s.pc = .accept ∧ fd ≠ s.listener ∧ fd ∉ s.opened then
        -- the body of `if (add_socket(fd) == -1)` is empty
        some { s with state := (s.state.addSocket fd).1, opened := s.opened ++ [fd] }
      else none
  | .turn recv =>
      if s.pc = .scan then
        match scan (fun _ => recv) s.state with
        | none => some { s with pc := .poll }
        | some next =>
            some
              { s with
                state := next
                opened :=
                  if s.state.deletes recv then s.opened.erase (s.state.pollfds s.state.i).fd
                  else s.opened }
      else none

/-- The server before its first `poll`, with the listening socket in slot 0. -/
def Server.start (listener : Int) : Server where
  listener := listener
  state := (State.addSocket (State.start (fun _ => ⟨0, 0⟩) 0) listener).1
  pc := .poll
  opened := []

/-- Every accepted and open socket is in the table behind slot 0. -/
def Server.Watched (s : Server) : Prop :=
  ∀ fd ∈ s.opened,
    ∃ k, 1 ≤ k ∧ k < s.state.cntFdSocket ∧ (s.state.pollfds k).fd = fd

/-- The table is not full when `accept` returns a socket. -/
def HasRoom (s : Server) : ServerLabel → Prop
  | .accept (some _) => s.state.cntFdSocket < MAX_FD_SOCKET
  | _ => True

instance (s : Server) (l : ServerLabel) : Decidable (HasRoom s l) := by
  unfold HasRoom
  split <;> infer_instance

end Program

section Effects

variable {s s' : Server} {l : ServerLabel}

theorem length_fds
    (s : State) :
    s.fds.length = s.cntFdSocket := by
  rw [State.fds, List.length_map, State.table, length_live]

theorem fds_store
    (s : State) (revents : Nat → BitVec 16) :
    (State.start (s.store revents) s.cntFdSocket).fds = s.fds := by
  simp only [State.fds, State.table, State.start, live, List.map_map]
  apply List.map_congr_left
  intro k hk
  simp [State.store, List.mem_range.mp hk]

theorem fds_addSocket
    {s : State} (fd : Int)
    (hroom : s.cntFdSocket < MAX_FD_SOCKET) :
    (s.addSocket fd).1.fds = s.fds ++ [fd] := by
  simp only [State.addSocket, if_pos hroom, State.fds, State.table, live_push]
  simp

/-- The scan does not touch slot 0. -/
theorem slot_zero_of_scan
    {recv : Int → Recv} {t t' : State}
    (hpos : 1 ≤ t.i)
    (hnodup : t.fds.Nodup)
    (hscan : scan recv t = some t') :
    t'.pollfds 0 = t.pollfds 0 := by
  have hne : (0 : Nat) ≠ t.i := by omega
  simp only [scan] at hscan
  split_ifs at hscan with hguard hpollin hpollerr hpollnval
  · cases hscan
    have hfind := find?_range_key Pollfd.fd hnodup hguard.1
    have hlast : (0 : Nat) ≠ t.cntFdSocket - 1 := by omega
    cases hrecv : recv (t.pollfds t.i).fd with
    | closed =>
        simp only [State.recvSlot, hrecv, State.delSocket, hfind,
          Function.update_of_ne hlast, moveLast]
        split_ifs
        · exact Function.update_of_ne hne _ _
        · rfl
    | error =>
        simp only [State.recvSlot, hrecv]
    | data =>
        simp only [State.recvSlot, hrecv]
  · cases hscan
    rfl
  · cases hscan
    rfl
  · cases hscan
    rfl

/-- The index steps back only behind a deletion, and then stays where it is. -/
theorem index_of_scan
    {recv : Int → Recv} {t t' : State}
    (hpos : 1 ≤ t.i)
    (hnodup : t.fds.Nodup)
    (hscan : scan recv t = some t') :
    1 ≤ t'.i := by
  cases turn_of_scan hpos hnodup hscan with
  | pass _ _ _ hi _ _ =>
      omega
  | called _ _ _ _ hi _ _ =>
      omega
  | deleted _ _ _ _ _ hi _ _ =>
      omega

/-- What holds in every state of the server, whatever has happened. -/
structure Tables (s : Server) : Prop where
  pos : 1 ≤ s.state.i
  used : 1 ≤ s.state.cntFdSocket
  bound : s.state.cntFdSocket ≤ MAX_FD_SOCKET
  slot : (s.state.pollfds 0).fd = s.listener
  nodup : s.state.fds.Nodup
  known : ∀ fd ∈ s.state.fds, fd = s.listener ∨ fd ∈ s.opened
  fresh : s.listener ∉ s.opened
  distinct : s.opened.Nodup

/-- What a step does to the table and to the open sockets. -/
inductive Effect (s s' : Server) (l : ServerLabel) : Prop
  | quiet
      (hl : ∀ fd, l ≠ .accept (some fd))
      (hfds : s'.state.fds = s.state.fds)
      (hopened : s'.opened = s.opened)
  | added {fd : Int}
      (hl : l = .accept (some fd))
      (hroom : s.state.cntFdSocket < MAX_FD_SOCKET)
      (hne : fd ≠ s.listener)
      (hfresh : fd ∉ s.opened)
      (hfds : s'.state.fds = s.state.fds ++ [fd])
      (hopened : s'.opened = s.opened ++ [fd])
  | dropped {fd : Int}
      (hl : l = .accept (some fd))
      (hfull : ¬ s.state.cntFdSocket < MAX_FD_SOCKET)
      (hne : fd ≠ s.listener)
      (hfresh : fd ∉ s.opened)
      (hfds : s'.state.fds = s.state.fds)
      (hopened : s'.opened = s.opened ++ [fd])
  | closed {fd : Int}
      (hl : ∀ fd, l ≠ .accept (some fd))
      (hne : fd ≠ s.listener)
      (hfds : (fd :: s'.state.fds).Perm s.state.fds)
      (hopened : s'.opened = s.opened.erase fd)

/-- Two slots in use hold different sockets. -/
theorem Tables.fd_ne_listener
    (h : Tables s) {k : Nat}
    (hpos : 1 ≤ k)
    (hk : k < s.state.cntFdSocket) :
    (s.state.pollfds k).fd ≠ s.listener := by
  intro heq
  have hfind := find?_range_key Pollfd.fd h.nodup h.used
  have hfind' := find?_range_key Pollfd.fd h.nodup hk
  rw [heq, ← h.slot, hfind, Option.some.injEq] at hfind'
  omega

theorem effect_of_turn
    (h : Tables s) {recv : Recv} {t : State}
    (hscan : scan (fun _ => recv) s.state = some t) :
    Effect s
      { s with
        state := t
        opened :=
          if s.state.deletes recv then s.opened.erase (s.state.pollfds s.state.i).fd
          else s.opened }
      (.turn recv) := by
  have hi : s.state.i < s.state.cntFdSocket := by
    simp only [scan] at hscan
    split_ifs at hscan with hguard <;> exact hguard.1
  have hdrop : s.state.table.drop s.state.i = s.state.pollfds s.state.i :: _ :=
    drop_live_of_lt s.state.pollfds hi
  cases turn_of_scan h.pos h.nodup hscan with
  | pass hback hpollin htable _ _ _ =>
      rw [hdrop, List.cons.injEq] at hback
      have hdeletes : s.state.deletes recv = false := by
        simp [State.deletes, hback.1, hpollin]
      exact .quiet (by simp) (congrArg (List.map Pollfd.fd) htable) (by simp [hdeletes])
  | called hback hpollin hopen htable _ _ _ =>
      have hdeletes : s.state.deletes recv = false := by
        simp [State.deletes, hopen]
      exact .quiet (by simp) (congrArg (List.map Pollfd.fd) htable) (by simp [hdeletes])
  | deleted hback hpollin hclosed htable _ _ _ _ =>
      rw [hdrop, List.cons.injEq] at hback
      have hdeletes : s.state.deletes recv = true := by
        simp [State.deletes, hback.1, hpollin, hclosed]
      refine .closed (by simp) (h.fd_ne_listener h.pos hi) ?_ (by simp [hdeletes])
      rw [hback.1]
      exact htable.map Pollfd.fd

theorem effect_of_step
    (h : Tables s)
    (hstep : serverStep s l = some s') :
    Effect s s' l := by
  cases l with
  | poll ret =>
      cases ret with
      | none =>
          obtain ⟨-, heq⟩ := Option.ite_none_right_eq_some.mp hstep
          cases heq
          exact .quiet (by simp) rfl rfl
      | some revents =>
          obtain ⟨-, heq⟩ := Option.ite_none_right_eq_some.mp hstep
          cases heq
          exact .quiet (by simp) (fds_store s.state revents) rfl
  | accept ret =>
      cases ret with
      | none =>
          obtain ⟨-, heq⟩ := Option.ite_none_right_eq_some.mp hstep
          cases heq
          exact .quiet (by simp) rfl rfl
      | some fd =>
          obtain ⟨⟨-, hne, hfresh⟩, heq⟩ := Option.ite_none_right_eq_some.mp hstep
          cases heq
          by_cases hroom : s.state.cntFdSocket < MAX_FD_SOCKET
          · exact .added rfl hroom hne hfresh (fds_addSocket fd hroom) rfl
          · exact .dropped rfl hroom hne hfresh (by simp [State.addSocket, hroom]) rfl
  | turn recv =>
      obtain ⟨-, heq⟩ := Option.ite_none_right_eq_some.mp hstep
      cases hscan : scan (fun _ => recv) s.state with
      | none =>
          rw [hscan] at heq
          cases heq
          exact .quiet (by simp) rfl rfl
      | some t =>
          rw [hscan] at heq
          cases heq
          exact effect_of_turn h hscan

/-- The listening socket stays where it is, and the index behind it. -/
theorem listener_of_step
    (h : Tables s)
    (hstep : serverStep s l = some s') :
    s'.listener = s.listener ∧ 1 ≤ s'.state.i ∧ (s'.state.pollfds 0).fd = s.listener := by
  cases l with
  | poll ret =>
      cases ret with
      | none =>
          obtain ⟨-, heq⟩ := Option.ite_none_right_eq_some.mp hstep
          cases heq
          exact ⟨rfl, h.pos, h.slot⟩
      | some revents =>
          obtain ⟨-, heq⟩ := Option.ite_none_right_eq_some.mp hstep
          cases heq
          have hused : 0 < s.state.cntFdSocket := h.used
          exact ⟨rfl, Nat.le_refl 1, by simp [State.start, State.store, hused, h.slot]⟩
  | accept ret =>
      cases ret with
      | none =>
          obtain ⟨-, heq⟩ := Option.ite_none_right_eq_some.mp hstep
          cases heq
          exact ⟨rfl, h.pos, h.slot⟩
      | some fd =>
          obtain ⟨-, heq⟩ := Option.ite_none_right_eq_some.mp hstep
          cases heq
          have hne : (0 : Nat) ≠ s.state.cntFdSocket := by
            have := h.used
            omega
          by_cases hroom : s.state.cntFdSocket < MAX_FD_SOCKET
          · rw [State.addSocket, if_pos hroom]
            exact ⟨rfl, h.pos, by rw [← h.slot]; simp [Function.update_of_ne hne]⟩
          · rw [State.addSocket, if_neg hroom]
            exact ⟨rfl, h.pos, h.slot⟩
  | turn recv =>
      obtain ⟨-, heq⟩ := Option.ite_none_right_eq_some.mp hstep
      cases hscan : scan (fun _ => recv) s.state with
      | none =>
          rw [hscan] at heq
          cases heq
          exact ⟨rfl, h.pos, h.slot⟩
      | some t =>
          rw [hscan] at heq
          cases heq
          refine ⟨rfl, index_of_scan h.pos h.nodup hscan, ?_⟩
          rw [slot_zero_of_scan h.pos h.nodup hscan]
          exact h.slot

end Effects

section Invariant

variable {s s' : Server} {l : ServerLabel}

theorem tables_start
    (listener : Int) :
    Tables (Server.start listener) := by
  have hfds : (Server.start listener).state.fds = [listener] := rfl
  refine ⟨Nat.le_refl 1, Nat.le_refl 1, ?_, rfl, ?_, ?_, List.not_mem_nil, List.nodup_nil⟩
  · exact (by decide : 1 ≤ MAX_FD_SOCKET)
  · rw [hfds]
    exact List.nodup_singleton listener
  · intro fd hfd
    rw [hfds, List.mem_singleton] at hfd
    exact Or.inl hfd

/-- A new socket is in no slot. -/
theorem Tables.not_mem_fds
    (h : Tables s) {fd : Int}
    (hne : fd ≠ s.listener)
    (hfresh : fd ∉ s.opened) :
    fd ∉ s.state.fds := by
  intro hmem
  rcases h.known fd hmem with heq | hopen
  · exact hne heq
  · exact hfresh hopen

theorem Tables.opened_append
    (h : Tables s) {fd : Int}
    (hne : fd ≠ s.listener)
    (hfresh : fd ∉ s.opened) :
    s.listener ∉ s.opened ++ [fd] ∧ (s.opened ++ [fd]).Nodup := by
  refine ⟨by simp [h.fresh, hne.symm], ?_⟩
  rw [← List.concat_eq_append]
  exact h.distinct.concat hfresh

theorem Tables.listener_mem
    (h : Tables s) :
    s.listener ∈ s.state.fds := by
  rw [← h.slot]
  exact List.mem_map_of_mem (mem_live_iff.mpr ⟨0, h.used, rfl⟩)

theorem Tables.step
    (h : Tables s)
    (hstep : serverStep s l = some s') :
    Tables s' := by
  obtain ⟨hlistener, hpos, hslot⟩ := listener_of_step h hstep
  have hknown := h.known
  have hused := h.used
  have hbound := h.bound
  have hlen := length_fds s.state
  have hlen' := length_fds s'.state
  cases effect_of_step h hstep with
  | quiet _ hfds hopened =>
      rw [hfds] at hlen'
      exact ⟨hpos, by omega, by omega, hlistener ▸ hslot, hfds ▸ h.nodup,
        by rwa [hfds, hopened, hlistener], by rw [hopened, hlistener]; exact h.fresh,
        hopened ▸ h.distinct⟩
  | added _ hroom hne hfresh hfds hopened =>
      rw [hfds, List.length_append, List.length_singleton] at hlen'
      obtain ⟨hfresh', hdistinct⟩ := h.opened_append hne hfresh
      refine ⟨hpos, by omega, by omega, hlistener ▸ hslot, ?_, ?_,
        by rwa [hopened, hlistener], by rwa [hopened]⟩
      · rw [hfds, ← List.concat_eq_append]
        exact h.nodup.concat (h.not_mem_fds hne hfresh)
      · intro fd hfd
        rw [hfds, List.mem_append, List.mem_singleton] at hfd
        rw [hlistener, hopened, List.mem_append, List.mem_singleton]
        rcases hfd with hold | hnew
        · exact (hknown fd hold).imp_right Or.inl
        · exact Or.inr (Or.inr hnew)
  | dropped _ _ hne hfresh hfds hopened =>
      rw [hfds] at hlen'
      obtain ⟨hfresh', hdistinct⟩ := h.opened_append hne hfresh
      refine ⟨hpos, by omega, by omega, hlistener ▸ hslot, hfds ▸ h.nodup, ?_,
        by rwa [hopened, hlistener], by rwa [hopened]⟩
      intro fd hfd
      rw [hfds] at hfd
      rw [hlistener, hopened, List.mem_append]
      exact (hknown fd hfd).imp_right Or.inl
  | @closed fd _ hne hfds hopened =>
      have hnodup := List.nodup_cons.mp (hfds.nodup_iff.mpr h.nodup)
      have hcons := hfds.length_eq
      rw [List.length_cons] at hcons
      refine ⟨hpos, ?_, by omega, hlistener ▸ hslot, hnodup.2, ?_, ?_, ?_⟩
      · -- the listening socket is still in the table
        have hmem : s.listener ∈ s'.state.fds := by
          rcases List.mem_cons.mp (hfds.mem_iff.mpr h.listener_mem) with heq | hrest
          · exact absurd heq.symm hne
          · exact hrest
        have := List.length_pos_of_mem hmem
        omega
      · intro fd' hfd'
        have hfdne : fd' ≠ fd := by
          rintro rfl
          exact hnodup.1 hfd'
        rw [hlistener, hopened, List.mem_erase_of_ne hfdne]
        exact hknown fd' (hfds.mem_iff.mp (List.mem_cons_of_mem fd hfd'))
      · rw [hopened, hlistener]
        exact fun hmem => h.fresh (List.mem_of_mem_erase hmem)
      · rw [hopened]
        exact h.distinct.erase fd

/-- In such a state, being in the table is the same as being in it behind slot 0. -/
theorem Tables.watched_iff
    (h : Tables s) :
    s.Watched ↔ ∀ fd ∈ s.opened, fd ∈ s.state.fds := by
  constructor
  · intro hwatched fd hfd
    obtain ⟨k, -, hk, rfl⟩ := hwatched fd hfd
    exact List.mem_map_of_mem (mem_live_iff.mpr ⟨k, hk, rfl⟩)
  · intro hmem fd hfd
    obtain ⟨p, hp, rfl⟩ := List.mem_map.mp (hmem fd hfd)
    obtain ⟨k, hk, rfl⟩ := mem_live_iff.mp hp
    refine ⟨k, Nat.one_le_iff_ne_zero.mpr ?_, hk, rfl⟩
    rintro rfl
    rw [h.slot] at hfd
    exact h.fresh hfd

/-- A step that finds room keeps every open socket in the table. -/
theorem watched_step
    (h : Tables s)
    (hin : ∀ fd ∈ s.opened, fd ∈ s.state.fds)
    (hroom : HasRoom s l)
    (hstep : serverStep s l = some s') :
    ∀ fd ∈ s'.opened, fd ∈ s'.state.fds := by
  intro fd hfd
  cases effect_of_step h hstep with
  | quiet _ hfds hopened =>
      rw [hopened] at hfd
      rw [hfds]
      exact hin fd hfd
  | added _ _ _ _ hfds hopened =>
      rw [hopened, List.mem_append] at hfd
      rw [hfds, List.mem_append]
      exact hfd.imp_left (hin fd)
  | dropped hl hfull _ _ _ _ =>
      subst hl
      exact absurd hroom hfull
  | @closed gone _ _ hfds hopened =>
      rw [hopened, h.distinct.mem_erase_iff] at hfd
      rcases List.mem_cons.mp (hfds.mem_iff.mpr (hin fd hfd.2)) with heq | hrest
      · exact absurd heq hfd.1
      · exact hrest

/-- Some accepted socket is open and in no slot. -/
def Server.Leaks (s : Server) : Prop :=
  ∃ fd ∈ s.opened, fd ∉ s.state.fds

theorem accept_of_not_hasRoom
    (hfull : ¬ HasRoom s l) :
    ∃ fd, l = .accept (some fd) := by
  cases l with
  | accept ret =>
      cases ret with
      | none =>
          exact absurd trivial hfull
      | some fd =>
          exact ⟨fd, rfl⟩
  | poll ret =>
      exact absurd trivial hfull
  | turn recv =>
      exact absurd trivial hfull

theorem leaks_of_full
    (h : Tables s)
    (hfull : ¬ HasRoom s l)
    (hstep : serverStep s l = some s') :
    s'.Leaks := by
  cases effect_of_step h hstep with
  | quiet hl _ _ =>
      obtain ⟨fd, hfd⟩ := accept_of_not_hasRoom hfull
      exact absurd hfd (hl fd)
  | added hl hroom _ _ _ _ =>
      subst hl
      exact absurd hroom hfull
  | @dropped fd _ _ hne hfresh hfds hopened =>
      refine ⟨fd, by simp [hopened], ?_⟩
      rw [hfds]
      exact h.not_mem_fds hne hfresh
  | closed hl _ _ _ =>
      obtain ⟨fd, hfd⟩ := accept_of_not_hasRoom hfull
      exact absurd hfd (hl fd)

/-- Only sockets of the table are closed, so a leaked one stays open for ever. -/
theorem leaks_step
    (h : Tables s)
    (hleaks : s.Leaks)
    (hstep : serverStep s l = some s') :
    s'.Leaks := by
  obtain ⟨fd, hfd, hnot⟩ := hleaks
  cases effect_of_step h hstep with
  | quiet _ hfds hopened =>
      exact ⟨fd, hopened ▸ hfd, hfds ▸ hnot⟩
  | @added new _ _ _ hfresh hfds hopened =>
      refine ⟨fd, by simp [hopened, hfd], ?_⟩
      rw [hfds, List.mem_append, List.mem_singleton]
      rintro (hold | rfl)
      · exact hnot hold
      · exact hfresh hfd
  | dropped _ _ _ _ hfds hopened =>
      exact ⟨fd, by simp [hopened, hfd], hfds ▸ hnot⟩
  | @closed gone _ _ hfds hopened =>
      have hgone : gone ∈ s.state.fds := hfds.mem_iff.mp List.mem_cons_self
      have hne : fd ≠ gone := by
        rintro rfl
        exact hnot hgone
      refine ⟨fd, by rw [hopened, List.mem_erase_of_ne hne]; exact hfd, ?_⟩
      intro hmem
      exact hnot (hfds.mem_iff.mp (List.mem_cons_of_mem gone hmem))

end Invariant

section Results

variable {s : Server} {es : List ServerLabel}

/--
In every state of a run, and so whenever the server calls `poll`, every accepted socket that is
still open is in the table behind slot 0, exactly if every `accept` so far has found room.
-/
theorem accepted_in_table_iff
    {listener : Int}
    (hrun : run serverStep (Server.start listener) es = some s) :
    s.Watched ↔ Along serverStep HasRoom (Server.start listener) es := by
  have hcases := good_or_bad (G := HasRoom)
    (P := fun s => Tables s ∧ ∀ fd ∈ s.opened, fd ∈ s.state.fds)
    (B := fun s => Tables s ∧ s.Leaks)
    (fun s l t hP hG hstep => ⟨hP.1.step hstep, watched_step hP.1 hP.2 hG hstep⟩)
    (fun s l t hP hG hstep => ⟨hP.1.step hstep, leaks_of_full hP.1 hG hstep⟩)
    (fun s l t hB hstep => ⟨hB.1.step hstep, leaks_step hB.1 hB.2 hstep⟩)
    ⟨tables_start listener, by simp [Server.start]⟩ hrun
  rcases hcases with ⟨halong, htables, hin⟩ | ⟨hnot, htables, fd, hfd, hout⟩
  · exact iff_of_true (htables.watched_iff.mpr hin) halong
  · refine iff_of_false ?_ hnot
    rw [htables.watched_iff]
    exact fun hin => hout (hin fd hfd)

/-- A burst of connections is accepted to the last one, however many there are. -/
theorem run_burst
    {fds : List Int}
    (hpc : s.pc = .accept)
    (hne : s.listener ∉ fds)
    (hnodup : (s.opened ++ fds).Nodup) :
    ∃ t,
      run serverStep s (fds.map (fun fd => .accept (some fd))) = some t ∧
      t.pc = .accept ∧
      t.opened = s.opened ++ fds := by
  induction fds generalizing s with
  | nil =>
      exact ⟨s, rfl, hpc, by simp⟩
  | cons fd fds ih =>
      rw [List.mem_cons, not_or] at hne
      have hfresh : fd ∉ s.opened := by
        intro hmem
        exact (List.nodup_append.mp hnodup).2.2 fd hmem fd List.mem_cons_self rfl
      rw [List.append_cons] at hnodup
      let next : Server :=
        { s with state := (s.state.addSocket fd).1, opened := s.opened ++ [fd] }
      have hstep : serverStep s (.accept (some fd)) = some next :=
        if_pos ⟨hpc, Ne.symm hne.1, hfresh⟩
      obtain ⟨t, hrun, htpc, hopened⟩ := @ih next hpc hne.2 hnodup
      refine ⟨t, ?_, htpc, ?_⟩
      · rw [List.map_cons, run_cons, hstep]
        exact hrun
      · rw [hopened, List.append_cons]

/-- More open sockets than slots behind slot 0 cannot all be in the table. -/
theorem Tables.length_opened_lt
    (h : Tables s)
    (hwatched : s.Watched) :
    s.opened.length < MAX_FD_SOCKET := by
  have hsub : s.listener :: s.opened ⊆ s.state.fds := by
    rw [List.cons_subset]
    refine ⟨?_, fun fd hfd => h.watched_iff.mp hwatched fd hfd⟩
    rw [← h.slot]
    exact List.mem_map_of_mem (mem_live_iff.mpr ⟨0, h.used, rfl⟩)
  have hle := ((List.nodup_cons.mpr ⟨h.fresh, h.distinct⟩).subperm hsub).length_le
  rw [length_fds, List.length_cons] at hle
  exact Nat.lt_of_lt_of_le hle h.bound

end Results

section Example

/-- Slot 0 is ready. -/
def listenerReady (k : Nat) : BitVec 16 :=
  if k = 0 then POLLIN else 0

/-- A client connects, sends something and closes its connection. -/
def oneClient : List ServerLabel :=
  [.poll (some listenerReady), .accept (some 4), .accept none,
    .poll (some (fun k => if k = 1 then POLLIN else 0)), .turn .data, .turn .data,
    .poll (some (fun k => if k = 1 then POLLIN else 0)), .turn .closed, .turn .data]

theorem watched_oneClient :
    ∃ s,
      run serverStep (Server.start 3) oneClient = some s ∧
      s.pc = .poll ∧
      s.Watched :=
  ⟨_, rfl, rfl, (@accepted_in_table_iff _ oneClient 3 rfl).mpr (by decide)⟩

/-- The descriptors of as many clients as the table has slots. -/
def crowd : List Int :=
  (List.range MAX_FD_SOCKET).map (fun k : Nat => (k : Int) + 4)

/-- They all connect before the server comes back to `poll`. -/
def crowdRun : List ServerLabel :=
  .poll (some listenerReady) :: (crowd.map (fun fd => .accept (some fd)) ++ [.accept none])

/-- Slot 0 is taken, so one of them is open and in no slot when `poll` is called again. -/
theorem not_watched_crowd :
    ∃ s,
      run serverStep (Server.start 3) crowdRun = some s ∧
      s.pc = .poll ∧
      ¬ s.Watched := by
  let ready : Server :=
    { Server.start 3 with
      state := State.start ((Server.start 3).state.store listenerReady) 1
      pc := .accept }
  have hpoll : serverStep (Server.start 3) (.poll (some listenerReady)) = some ready := rfl
  have hne : ready.listener ∉ crowd := by
    simp only [crowd, List.mem_map, not_exists, not_and]
    intro k _ heq
    change (k : Int) + 4 = 3 at heq
    omega
  have hnodup : crowd.Nodup :=
    List.nodup_range.map (fun a b hab => by simpa using hab)
  obtain ⟨t, hburst, hpc, hopened⟩ := run_burst (s := ready) rfl hne hnodup
  have hlast : serverStep t (.accept none) = some { t with pc := .poll } := if_pos hpc
  have hrun : run serverStep (Server.start 3) crowdRun = some { t with pc := .poll } := by
    rw [crowdRun, run_cons, hpoll, Option.bind_some, run_append, hburst, Option.bind_some,
      run_cons, hlast]
    rfl
  refine ⟨_, hrun, rfl, ?_⟩
  intro hwatched
  have htables : Tables { t with pc := .poll } :=
    run_invariant (fun _ _ _ h hstep => h.step hstep) (tables_start 3) hrun
  have hlt := htables.length_opened_lt hwatched
  change t.opened.length < MAX_FD_SOCKET at hlt
  rw [hopened] at hlt
  simp [ready, Server.start, crowd] at hlt

end Example
end Poll
end IoServers
end SysProg
