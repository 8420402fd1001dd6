import SysProg.Lib.Run
import SysProg.Lib.SlotTable
import SysProg.Lib.SwapScan
import Mathlib.Tactic

/-!
# The scan of ALSP/io_poll_nb.c

After `poll` the server goes through its table from slot 1 on, calls `recv` on every
socket with POLLIN, and deletes those that the peer has closed.  A deletion moves the last
slot into the current one and steps the index back, so that the moved slot is looked at
next.  The loop also counts the ready sockets down and stops when none is left.

The macro ENABLE_MSG_OOB is not defined.  `recv` is answered by a function of the socket.

The count never runs out early: it is at least the number of slots that are still to come
and have an event.  So the loop calls `recv` once on every socket with POLLIN behind slot
0, and leaves the sockets that were not closed (`scan_exact`).
-/

namespace SysProg
namespace IoServers

open Run SlotTable SwapScan

/-- The outcome of `recv` on a socket. -/
inductive Recv where
  | data
  | error
  /-- `recv` returned 0 -/
  | closed
deriving DecidableEq, Repr

namespace Poll

section Program

def POLLIN : BitVec 16 := 1
def POLLERR : BitVec 16 := 8
def POLLNVAL : BitVec 16 := 32

/-- `struct pollfd`; `events` is always POLLIN. -/
structure Pollfd where
  fd : Int
  revents : BitVec 16
deriving DecidableEq, Repr

/-- `pollfds[i].revents & POLLIN` -/
def Pollfd.pollin (p : Pollfd) : Bool :=
  p.revents &&& POLLIN != 0

def Pollfd.pollerr (p : Pollfd) : Bool :=
  p.revents &&& POLLERR != 0

def Pollfd.pollnval (p : Pollfd) : Bool :=
  p.revents &&& POLLNVAL != 0

/-- `poll` has reported something for the slot. -/
def Pollfd.reported (p : Pollfd) : Bool :=
  p.revents != 0

/-- The table and the variables of the loop; `recvs` is the history of calls of `recv`. -/
structure State where
  pollfds : Nat → Pollfd
  cntFdSocket : Nat
  i : Nat
  retPoll : Int
  recvs : List Pollfd

/-- The slots in use. -/
def State.table (s : State) : List Pollfd :=
  live s.pollfds s.cntFdSocket

/-- The descriptors in the table. -/
def State.fds (s : State) : List Int :=
  s.table.map Pollfd.fd

/-- `del_socket`, which looks for the slot of the socket from slot 0 on. -/
def State.delSocket (s : State) (fd : Int) : State :=
  match (List.range s.cntFdSocket).find? (fun i => (s.pollfds i).fd == fd) with
  | none => s
  | some i =>
      let last := s.cntFdSocket - 1
      let moved := moveLast s.pollfds s.cntFdSocket i
      { s with
        pollfds := Function.update moved last { moved last with fd := -1 }
        cntFdSocket := last }

/-- The body of the `if` for a slot with POLLIN, up to the `++i` of the loop. -/
def State.recvSlot (s : State) (recv : Int → Recv) : State :=
  let p := s.pollfds s.i
  let s₁ := { s with recvs := s.recvs ++ [p] }
  match recv p.fd with
  | .closed => { s₁.delSocket p.fd with i := s.i - 1 }
  | .error => s₁
  | .data => s₁

/-- One turn of the loop, or nothing if it ends. -/
def scan (recv : Int → Recv) (s : State) : Option State :=
  if s.i < s.cntFdSocket ∧ s.retPoll > 0 then
    let p := s.pollfds s.i
    if p.pollin then
      let s₁ := s.recvSlot recv
      some { s₁ with retPoll := s₁.retPoll - 1, i := s₁.i + 1 }
    else if p.pollerr then
      some { s with retPoll := s.retPoll - 1, i := s.i + 1 }
    else if p.pollnval then
      some { s with retPoll := s.retPoll - 1, i := s.i + 1 }
    else some { s with i := s.i + 1 }
  else none

/-- The loop starts at slot 1, with the result of `poll`. -/
def State.start (pollfds : Nat → Pollfd) (cntFdSocket : Nat) : State where
  pollfds := pollfds
  cntFdSocket := cntFdSocket
  i := 1
  retPoll := (live pollfds cntFdSocket).countP Pollfd.reported
  recvs := []

end Program

section Turns

variable {recv : Int → Recv} {s s' : State}

theorem reported_of_bit
    {p : Pollfd} (bit : BitVec 16)
    (h : (p.revents &&& bit != 0) = true) :
    p.reported = true := by
  simp only [Pollfd.reported, bne_iff_ne, ne_eq] at h ⊢
  intro hzero
  exact h (by simp [hzero])

/-- With distinct sockets, `del_socket` removes the slot it was called for. -/
theorem delSocket_slot
    {k : Nat}
    (hnodup : s.fds.Nodup)
    (hk : k < s.cntFdSocket) :
    ∃ mem, s.delSocket (s.pollfds k).fd =
        { s with pollfds := mem, cntFdSocket := s.cntFdSocket - 1 } ∧
      live mem (s.cntFdSocket - 1) =
        live (moveLast s.pollfds s.cntFdSocket k) (s.cntFdSocket - 1) := by
  have hfind := find?_range_key Pollfd.fd hnodup hk
  simp only [State.delSocket, hfind]
  exact ⟨_, rfl, live_update_of_le _ _ (Nat.le_refl _)⟩

/-- What one turn does to the slots to come, to the calls and to the count. -/
inductive Turn (recv : Int → Recv) (s s' : State) : Prop
  | pass {p : Pollfd}
      (hback : s.table.drop s.i = p :: s.table.drop (s.i + 1))
      (hpollin : p.pollin = false)
      (htable : s'.table = s.table)
      (hi : s'.i = s.i + 1)
      (hrecvs : s'.recvs = s.recvs)
      (hcount : s'.retPoll = s.retPoll ∨ p.reported = true ∧ s'.retPoll = s.retPoll - 1)
  | called {p : Pollfd}
      (hback : s.table.drop s.i = p :: s.table.drop (s.i + 1))
      (hpollin : p.pollin = true)
      (hopen : recv p.fd ≠ .closed)
      (htable : s'.table = s.table)
      (hi : s'.i = s.i + 1)
      (hrecvs : s'.recvs = s.recvs ++ [p])
      (hcount : s'.retPoll = s.retPoll - 1)
  | deleted {p : Pollfd}
      (hback : s.table.drop s.i = p :: s.table.drop (s.i + 1))
      (hpollin : p.pollin = true)
      (hclosed : recv p.fd = .closed)
      (htable : (p :: s'.table).Perm s.table)
      (hrest : (s'.table.drop s.i).Perm (s.table.drop (s.i + 1)))
      (hi : s'.i = s.i)
      (hrecvs : s'.recvs = s.recvs ++ [p])
      (hcount : s'.retPoll = s.retPoll - 1)

theorem turn_of_recv
    (hpos : 1 ≤ s.i)
    (hnodup : s.fds.Nodup)
    (hi : s.i < s.cntFdSocket)
    (hpollin : (s.pollfds s.i).pollin = true) :
    Turn recv s
      { s.recvSlot recv with
        retPoll := (s.recvSlot recv).retPoll - 1
        i := (s.recvSlot recv).i + 1 } := by
  have hback : s.table.drop s.i = s.pollfds s.i :: s.table.drop (s.i + 1) :=
    drop_live_of_lt s.pollfds hi
  cases hrecv : recv (s.pollfds s.i).fd with
  | closed =>
      obtain ⟨mem, hdel, hlive⟩ :=
        @delSocket_slot { s with recvs := s.recvs ++ [s.pollfds s.i] } s.i hnodup hi
      simp only [State.recvSlot, hrecv, hdel]
      refine .deleted hback hpollin hrecv ?_ ?_ (Nat.sub_add_cancel hpos) rfl rfl
      · simp only [State.table, hlive]
        exact live_moveLast s.pollfds hi
      · simp only [State.table, hlive]
        exact drop_live_moveLast_perm s.pollfds hi
  | error =>
      simp only [State.recvSlot, hrecv]
      exact .called hback hpollin (by simp [hrecv]) rfl rfl rfl rfl
  | data =>
      simp only [State.recvSlot, hrecv]
      exact .called hback hpollin (by simp [hrecv]) rfl rfl rfl rfl

theorem turn_of_scan
    (hpos : 1 ≤ s.i)
    (hnodup : s.fds.Nodup)
    (hscan : scan recv s = some s') :
    Turn recv s s' := by
  simp only [scan] at hscan
  split_ifs at hscan with hguard hpollin hpollerr hpollnval
  · cases hscan
    exact turn_of_recv hpos hnodup hguard.1 hpollin
  · cases hscan
    exact .pass (drop_live_of_lt _ hguard.1) (by simpa using hpollin) rfl rfl rfl
      (Or.inr ⟨reported_of_bit POLLERR hpollerr, rfl⟩)
  · cases hscan
    exact .pass (drop_live_of_lt _ hguard.1) (by simpa using hpollin) rfl rfl rfl
      (Or.inr ⟨reported_of_bit POLLNVAL hpollnval, rfl⟩)
  · cases hscan
    exact .pass (drop_live_of_lt _ hguard.1) (by simpa using hpollin) rfl rfl rfl (Or.inl rfl)

end Turns

section Invariant

variable {recv : Int → Recv} {s s' : State} {all : List Pollfd}

/-- The state of the loop, with the table `all` at its start. -/
structure Exact (recv : Int → Recv) (all : List Pollfd) (s : State) : Prop where
  pos : 1 ≤ s.i
  nodup : s.fds.Nodup
  complete : Complete Pollfd.pollin (all.drop 1) (s.table.drop s.i) s.recvs
  count : ((s.table.drop s.i).countP Pollfd.reported : Int) ≤ s.retPoll
  kept : Kept (fun p => recv p.fd = .closed) all s.table s.recvs

theorem exact_start
    {pollfds : Nat → Pollfd} {cntFdSocket : Nat}
    (hnodup : ((live pollfds cntFdSocket).map Pollfd.fd).Nodup) :
    Exact recv (live pollfds cntFdSocket) (State.start pollfds cntFdSocket) := by
  refine ⟨Nat.le_refl 1, hnodup, complete_start, ?_, kept_start⟩
  exact Int.ofNat_le.mpr (List.drop_sublist 1 (live pollfds cntFdSocket)).countP_le

theorem Exact.turn
    (h : Exact recv all s)
    (hscan : scan recv s = some s') :
    Exact recv all s' := by
  have hcomplete := h.complete
  have hcount := h.count
  cases turn_of_scan h.pos h.nodup hscan with
  | pass hback hpollin htable hi hrecvs hless =>
      rw [hback] at hcomplete hcount
      rw [List.countP_cons] at hcount
      refine ⟨by omega, ?_, ?_, ?_, ?_⟩
      · rw [State.fds, htable]
        exact h.nodup
      · rw [htable, hi, hrecvs]
        exact hcomplete.pass hpollin
      · rw [htable, hi]
        rcases hless with heq | ⟨hreported, heq⟩
        · omega
        · rw [if_pos hreported] at hcount
          omega
      · rw [htable, hrecvs]
        exact h.kept
  | called hback hpollin hopen htable hi hrecvs hless =>
      rw [hback] at hcomplete hcount
      rw [List.countP_cons, if_pos (reported_of_bit POLLIN hpollin)] at hcount
      refine ⟨by omega, ?_, ?_, ?_, ?_⟩
      · rw [State.fds, htable]
        exact h.nodup
      · rw [htable, hi, hrecvs]
        exact hcomplete.call hpollin (List.Perm.refl _)
      · rw [htable, hi]
        omega
      · rw [htable, hrecvs]
        exact h.kept.callOpen (by simp [hopen])
  | deleted hback hpollin hclosed htable hrest hi hrecvs hless =>
      rw [hback] at hcomplete hcount
      rw [List.countP_cons, if_pos (reported_of_bit POLLIN hpollin)] at hcount
      have hnodup := (htable.map Pollfd.fd).nodup_iff.mpr h.nodup
      refine ⟨hi ▸ h.pos, (List.nodup_cons.mp hnodup).2, ?_, ?_, ?_⟩
      · rw [hi, hrecvs]
        exact hcomplete.call hpollin hrest
      · rw [hi, hrest.countP_eq]
        omega
      · rw [hrecvs]
        exact h.kept.callClosed (by simp [hclosed]) htable

/-- When the loop has ended, no slot with POLLIN is left. -/
theorem Exact.recvs_perm
    (h : Exact recv all s)
    (hend : scan recv s = none) :
    s.recvs.Perm ((all.drop 1).filter Pollfd.pollin) := by
  have hnone : ∀ p ∈ s.table.drop s.i, ¬ p.reported = true := by
    by_cases hi : s.i < s.cntFdSocket
    · -- the count has run out, and so have the slots that are reported
      have hcount := h.count
      have hout : s.retPoll ≤ 0 := by
        by_contra hpos
        simp only [scan, hi, true_and] at hend
        split_ifs at hend
        omega
      exact List.countP_eq_zero.mp (by omega)
    · rw [State.table, drop_live_of_le _ (by omega)]
      simp
  have hfilter : (s.table.drop s.i).filter Pollfd.pollin = [] := by
    rw [List.filter_eq_nil_iff]
    exact fun p hp hpollin => hnone p hp (reported_of_bit POLLIN hpollin)
  have hcomplete := h.complete
  rw [Complete, hfilter, List.append_nil] at hcomplete
  exact hcomplete

theorem Exact.lower
    (h : Exact recv all s)
    (hscan : scan recv s = some s') :
    s'.cntFdSocket - s'.i < s.cntFdSocket - s.i := by
  have hlen : s.table.length = s.cntFdSocket := length_live _ _
  have hlen' : s'.table.length = s'.cntFdSocket := length_live _ _
  have hi : s.i < s.cntFdSocket := by
    simp only [scan] at hscan
    split_ifs at hscan with hguard <;> exact hguard.1
  cases turn_of_scan h.pos h.nodup hscan with
  | pass _ _ htable hnext _ _ =>
      rw [htable] at hlen'
      omega
  | called _ _ _ htable hnext _ _ =>
      rw [htable] at hlen'
      omega
  | deleted _ _ _ htable _ hnext _ _ =>
      have hcons := htable.length_eq
      rw [List.length_cons] at hcons
      omega

/-- The table has lost the sockets that were found closed, and no others. -/
theorem Exact.mem_fds_iff
    (h : Exact recv all s)
    (hnodup : (all.map Pollfd.fd).Nodup)
    (fd : Int) :
    fd ∈ s.fds ↔
      fd ∈ all.map Pollfd.fd ∧ ¬ (fd ∈ s.recvs.map Pollfd.fd ∧ recv fd = .closed) := by
  have hkept := @Kept.map _ all s.recvs s.table _ Pollfd.fd (fun fd => recv fd = .closed) h.kept
  have hmem := hkept.mem_iff hnodup fd
  simp only [decide_eq_true_eq] at hmem
  exact hmem

theorem exists_ends_exact
    (recv : Int → Recv) {pollfds : Nat → Pollfd} {cntFdSocket : Nat}
    (hnodup : ((live pollfds cntFdSocket).map Pollfd.fd).Nodup) :
    ∃ es t, Ends (scan recv) (State.start pollfds cntFdSocket) es t ∧
      Exact recv (live pollfds cntFdSocket) t :=
  exists_ends (fun s : State => s.cntFdSocket - s.i)
    (fun _ _ h hscan => ⟨h.turn hscan, h.lower hscan⟩) (exact_start hnodup)

/--
The loop ends.  It has called `recv` once on each socket with POLLIN behind slot 0 and on
no other, and the table holds the sockets from before without those that were closed.
-/
theorem scan_exact
    (recv : Int → Recv) {pollfds : Nat → Pollfd} {cntFdSocket : Nat}
    (hnodup : ((live pollfds cntFdSocket).map Pollfd.fd).Nodup) :
    ∃ es t, Ends (scan recv) (State.start pollfds cntFdSocket) es t ∧
      t.recvs.Perm (((live pollfds cntFdSocket).drop 1).filter Pollfd.pollin) ∧
      t.fds.Nodup ∧
      ∀ fd, fd ∈ t.fds ↔
        fd ∈ (State.start pollfds cntFdSocket).fds ∧
          ¬ (fd ∈ t.recvs.map Pollfd.fd ∧ recv fd = .closed) := by
  obtain ⟨es, t, hends, hexact⟩ := exists_ends_exact recv hnodup
  exact ⟨es, t, hends, hexact.recvs_perm hends.2, hexact.nodup, hexact.mem_fds_iff hnodup⟩

end Invariant

section Example

/--
A listener and four clients, two of which have been closed by their peers; the last one
has only POLLHUP.
-/
def fiveSlots : Nat → Pollfd
  | 0 => ⟨3, 0⟩
  | 1 => ⟨4, POLLIN⟩
  | 2 => ⟨5, POLLERR⟩
  | 3 => ⟨6, POLLIN⟩
  | _ => ⟨7, 16⟩

def twoClosed : Int → Recv
  | 4 => .closed
  | 6 => .closed
  | _ => .data

theorem scan_fiveSlots :
    ∃ es t, Ends (scan twoClosed) (State.start fiveSlots 5) es t ∧
      t.recvs.Perm [⟨4, POLLIN⟩, ⟨6, POLLIN⟩] ∧
      ∀ fd, fd ∈ t.fds ↔
        fd ∈ ([3, 4, 5, 6, 7] : List Int) ∧
          ¬ (fd ∈ t.recvs.map Pollfd.fd ∧ twoClosed fd = .closed) := by
  obtain ⟨es, t, hends, hrecvs, _, hfds⟩ := @scan_exact twoClosed fiveSlots 5 (by decide)
  exact ⟨es, t, hends, hrecvs, hfds⟩

end Example

end Poll
end IoServers
end SysProg
