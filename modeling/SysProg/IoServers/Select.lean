import SysProg.IoServers.Poll
import Mathlib.Tactic

/-!
# The scan of ALSP/io_select.c, and how it differs from io_poll_nb.c

The two servers do the same with their tables: `recv` on every ready socket behind slot 0,
and deletion of a closed socket by moving the last slot.  io_select.c does not step the
index back after a deletion, so that it passes over the socket that was moved; and it
tests readiness with `FD_ISSET`, which is undefined for descriptors from FD_SETSIZE on.

On the same table, readiness and results of `recv`, the two scans call `recv` on the same
sockets and leave the same sockets exactly if each turn of io_select.c looks at a
descriptor below FD_SETSIZE and moves no ready socket (`agree_iff_noSkip`).
-/

namespace SysProg
namespace IoServers
namespace Select

open Run SlotTable SwapScan

section Program

def FD_SETSIZE : Int := 1024

/-- `FD_ISSET` is defined for the descriptor. -/
def InSet (fd : Int) : Prop :=
  0 ≤ fd ∧ fd < FD_SETSIZE

instance (fd : Int) : Decidable (InSet fd) :=
  inferInstanceAs (Decidable (_ ∧ _))

/--
The table, the set that `select` returned and the index of the loop; `recvs` is the history
of calls of `recv`, and `undefined` says that the behaviour is not defined any more.
-/
structure State where
  fdSocket : Nat → Int
  cntFdSocket : Nat
  fdsRead : Int → Bool
  i : Nat
  recvs : List Int
  undefined : Bool

/-- The sockets in the table. -/
def State.table (s : State) : List Int :=
  live s.fdSocket s.cntFdSocket

/-- `del_socket` -/
def State.delSocket (s : State) (fd : Int) : State :=
  match (List.range s.cntFdSocket).find? (fun i => s.fdSocket i == fd) with
  | none => s
  | some i =>
      let last := s.cntFdSocket - 1
      { s with
        fdSocket := Function.update (moveLast s.fdSocket s.cntFdSocket i) last (-1)
        cntFdSocket := last }

/-- The body of the `if` for a ready socket. -/
def State.recvSlot (s : State) (recv : Int → Recv) : State :=
  let fd := s.fdSocket s.i
  let s₁ := { s with recvs := s.recvs ++ [fd] }
  match recv fd with
  | .closed => s₁.delSocket fd
  | .error => s₁
  | .data => s₁

/-- One turn of the loop, or nothing if it ends. -/
def scan (recv : Int → Recv) (s : State) : Option State :=
  if s.i < s.cntFdSocket ∧ s.undefined = false then
    if InSet (s.fdSocket s.i) then
      if s.fdsRead (s.fdSocket s.i) then
        some { s.recvSlot recv with i := s.i + 1 }
      else some { s with i := s.i + 1 }
    else some { s with undefined := true }
  else none

def State.start (fdSocket : Nat → Int) (cntFdSocket : Nat) (ready : Int → Bool) : State where
  fdSocket := fdSocket
  cntFdSocket := cntFdSocket
  fdsRead := ready
  i := 1
  recvs := []
  undefined := false

/-- The turn looks at a descriptor that has a bit, and moves no ready socket. -/
def NoSkip (recv : Int → Recv) (s : State) (_ : Unit) : Prop :=
  InSet (s.fdSocket s.i) ∧
    (s.fdsRead (s.fdSocket s.i) = true → recv (s.fdSocket s.i) = .closed →
      s.i = s.cntFdSocket - 1 ∨ s.fdsRead (s.fdSocket (s.cntFdSocket - 1)) = false)

instance (recv : Int → Recv) (s : State) (u : Unit) : Decidable (NoSkip recv s u) :=
  inferInstanceAs (Decidable (_ ∧ _))

end Program

section Turns

variable {recv : Int → Recv} {s s' : State}

/-- With distinct sockets, `del_socket` removes the slot it was called for. -/
theorem delSocket_slot
    {k : Nat}
    (hnodup : s.table.Nodup)
    (hk : k < s.cntFdSocket) :
    ∃ mem, s.delSocket (s.fdSocket k) =
        { s with fdSocket := mem, cntFdSocket := s.cntFdSocket - 1 } ∧
      live mem (s.cntFdSocket - 1) =
        live (moveLast s.fdSocket s.cntFdSocket k) (s.cntFdSocket - 1) := by
  have hfind : (List.range s.cntFdSocket).find? (fun i => s.fdSocket i == s.fdSocket k) =
      some k :=
    find?_range_key id (by rw [List.map_id]; exact hnodup) hk
  simp only [State.delSocket, hfind]
  exact ⟨_, rfl, live_update_of_le _ _ (Nat.le_refl _)⟩

/-- What one turn does to the sockets to come, to the calls and to the table. -/
inductive Turn (recv : Int → Recv) (s s' : State) : Prop
  | outside
      (hout : ¬ InSet (s.fdSocket s.i))
      (htable : s'.table = s.table)
      (hundefined : s'.undefined = true)
  | inside
      (hmove : Move s.fdsRead (NoSkip recv s ()) (s.table.drop s.i) s.recvs
        (s'.table.drop s'.i) s'.recvs)
      (hnodup : s.table.Nodup → s'.table.Nodup)
      (hkept : ∀ {all}, Kept (fun fd => recv fd = .closed) all s.table s.recvs →
        Kept (fun fd => recv fd = .closed) all s'.table s'.recvs)
      (hfds : s'.fdsRead = s.fdsRead)
      (hundefined : s'.undefined = s.undefined)

theorem back_of_lt
    (hi : s.i < s.cntFdSocket) :
    s.table.drop s.i = s.fdSocket s.i :: s.table.drop (s.i + 1) :=
  drop_live_of_lt s.fdSocket hi

/-- A deletion takes the last socket away from those that are to come. -/
theorem move_of_closed
    {mem : Nat → Int}
    (hi : s.i < s.cntFdSocket)
    (hin : InSet (s.fdSocket s.i))
    (hready : s.fdsRead (s.fdSocket s.i) = true)
    (hclosed : recv (s.fdSocket s.i) = .closed)
    (hlive : live mem (s.cntFdSocket - 1) =
      live (moveLast s.fdSocket s.cntFdSocket s.i) (s.cntFdSocket - 1)) :
    Move s.fdsRead (NoSkip recv s ()) (s.table.drop s.i) s.recvs
      ((live mem (s.cntFdSocket - 1)).drop (s.i + 1)) (s.recvs ++ [s.fdSocket s.i]) := by
  have hback := back_of_lt hi
  by_cases hlast : s.i = s.cntFdSocket - 1
  · refine .call (hback.trans ?_) hready rfl ⟨hin, fun _ _ => Or.inl hlast⟩
    rw [State.table, drop_live_of_le _ (by omega), drop_live_of_le _ (by omega)]
  · have hmoved : s.table.drop (s.i + 1) =
        (live mem (s.cntFdSocket - 1)).drop (s.i + 1) ++ [s.fdSocket (s.cntFdSocket - 1)] := by
      rw [hlive]
      exact drop_succ_live_moveLast s.fdSocket (by omega)
    rw [hmoved] at hback
    refine .remove hback hready rfl ?_
    simp only [NoSkip, hin, hready, hclosed, hlast, true_and, false_or, forall_const]

theorem turn_of_recv
    (hnodup : s.table.Nodup)
    (hi : s.i < s.cntFdSocket)
    (hin : InSet (s.fdSocket s.i))
    (hready : s.fdsRead (s.fdSocket s.i) = true) :
    Turn recv s { s.recvSlot recv with i := s.i + 1 } := by
  cases hrecv : recv (s.fdSocket s.i) with
  | closed =>
      obtain ⟨mem, hdel, hlive⟩ :=
        @delSocket_slot { s with recvs := s.recvs ++ [s.fdSocket s.i] } s.i hnodup hi
      have hperm : (s.fdSocket s.i :: live mem (s.cntFdSocket - 1)).Perm s.table := by
        rw [hlive]
        exact live_moveLast s.fdSocket hi
      simp only [State.recvSlot, hrecv, hdel]
      refine .inside (move_of_closed hi hin hready hrecv hlive) ?_ ?_ rfl rfl
      · exact fun h => (List.nodup_cons.mp (hperm.nodup_iff.mpr h)).2
      · exact fun h => h.callClosed (by simp [hrecv]) hperm
  | error =>
      simp only [State.recvSlot, hrecv]
      exact .inside (.call (back_of_lt hi) hready rfl ⟨hin, by simp [hrecv]⟩) id
        (fun h => h.callOpen (by simp [hrecv])) rfl rfl
  | data =>
      simp only [State.recvSlot, hrecv]
      exact .inside (.call (back_of_lt hi) hready rfl ⟨hin, by simp [hrecv]⟩) id
        (fun h => h.callOpen (by simp [hrecv])) rfl rfl

theorem turn_of_scan
    (hnodup : s.table.Nodup)
    (hscan : scan recv s = some s') :
    Turn recv s s' := by
  simp only [scan] at hscan
  split_ifs at hscan with hguard hin hready
  · cases hscan
    exact turn_of_recv hnodup hguard.1 hin hready
  · cases hscan
    have hnot : s.fdsRead (s.fdSocket s.i) = false := by simpa using hready
    exact .inside (.pass (back_of_lt hguard.1) hnot rfl ⟨hin, by simp [hnot]⟩) id id rfl rfl
  · cases hscan
    exact .outside hin rfl rfl

/-- How far the loop is from its end. -/
def State.left (s : State) : Nat :=
  s.cntFdSocket - s.i + (!s.undefined).toNat

theorem delSocket_le
    (fd : Int) :
    (s.delSocket fd).cntFdSocket ≤ s.cntFdSocket ∧
      (s.delSocket fd).undefined = s.undefined := by
  unfold State.delSocket
  split
  · exact ⟨Nat.le_refl _, rfl⟩
  · exact ⟨Nat.sub_le _ _, rfl⟩

theorem recvSlot_le
    (s : State) (recv : Int → Recv) :
    (s.recvSlot recv).cntFdSocket ≤ s.cntFdSocket ∧
      (s.recvSlot recv).undefined = s.undefined := by
  cases hrecv : recv (s.fdSocket s.i) with
  | closed =>
      simp only [State.recvSlot, hrecv]
      exact @delSocket_le { s with recvs := s.recvs ++ [s.fdSocket s.i] } _
  | _ =>
      simp [State.recvSlot, hrecv]

theorem left_lt
    (hscan : scan recv s = some s') :
    s'.left < s.left := by
  simp only [scan] at hscan
  split_ifs at hscan with hguard
  · obtain ⟨hle, hundefined⟩ := recvSlot_le s recv
    cases hscan
    simp only [State.left, hundefined]
    omega
  · cases hscan
    simp only [State.left]
    omega
  · cases hscan
    simp [State.left, hguard.2]

end Turns

section Invariant

variable {recv : Int → Recv} {ready : Int → Bool} {all : List Int} {s s' : State}

/-- The state of the loop while its behaviour is defined, with the table `all` at its start. -/
structure Tracks
    (Q : List Int → List Int → Prop)
    (recv : Int → Recv) (ready : Int → Bool) (all : List Int) (s : State) : Prop where
  nodup : s.table.Nodup
  fdsRead : s.fdsRead = ready
  defined : s.undefined = false
  kept : Kept (fun fd => recv fd = .closed) all s.table s.recvs
  rel : Q (s.table.drop s.i) s.recvs

theorem tracks_start
    {fdSocket : Nat → Int} {cntFdSocket : Nat}
    (hnodup : (live fdSocket cntFdSocket).Nodup) :
    Tracks (Complete ready ((live fdSocket cntFdSocket).drop 1)) recv ready
      (live fdSocket cntFdSocket) (State.start fdSocket cntFdSocket ready) :=
  ⟨hnodup, rfl, rfl, kept_start, complete_start⟩

/-- What a turn makes of a relation, if its behaviour is defined. -/
theorem Tracks.turn
    {Q R : List Int → List Int → Prop}
    (h : Tracks Q recv ready all s)
    (hmove : ∀ {back calls back' calls'},
      Q back calls → Move ready (NoSkip recv s ()) back calls back' calls' → R back' calls')
    (hscan : scan recv s = some s') :
    ¬ InSet (s.fdSocket s.i) ∧ s'.undefined = true ∨ Tracks R recv ready all s' := by
  have hfds := h.fdsRead
  subst hfds
  cases turn_of_scan h.nodup hscan with
  | outside hout _ hundefined =>
      exact Or.inl ⟨hout, hundefined⟩
  | inside hnext hnodup hkept hfds hundefined =>
      exact Or.inr ⟨hnodup h.nodup, hfds, hundefined.trans h.defined, hkept h.kept,
        hmove h.rel hnext⟩

theorem complete_turn
    (h : Tracks (Complete ready (all.drop 1)) recv ready all s)
    (hskip : NoSkip recv s ())
    (hscan : scan recv s = some s') :
    Tracks (Complete ready (all.drop 1)) recv ready all s' :=
  (h.turn (fun hcomplete hmove => hcomplete.move hmove hskip) hscan).resolve_left
    (fun hout => hout.1 hskip.1)

/-- The behaviour is undefined, or a ready socket has been passed over. -/
def Failed (recv : Int → Recv) (ready : Int → Bool) (all : List Int) (s : State) : Prop :=
  s.undefined = true ∨ Tracks (Missed ready (all.drop 1)) recv ready all s

theorem failed_turn
    (h : Failed recv ready all s)
    (hscan : scan recv s = some s') :
    Failed recv ready all s' := by
  rcases h with hundefined | htracks
  · simp [scan, hundefined] at hscan
  · exact (htracks.turn (fun hmissed hmove => hmissed.move hmove) hscan).imp_left And.right

theorem failed_of_skip
    (h : Tracks (Complete ready (all.drop 1)) recv ready all s)
    (hnodup : all.Nodup)
    (hskip : ¬ NoSkip recv s ())
    (hscan : scan recv s = some s') :
    Failed recv ready all s' :=
  (h.turn
    (fun hcomplete hmove =>
      hcomplete.missed_of_move (hnodup.sublist (List.drop_sublist 1 all)) hmove hskip)
    hscan).imp_left And.right

end Invariant

section Agreement

variable {recv : Int → Recv} {ready : Int → Bool}
variable {fdSocket : Nat → Int} {pollfds : Nat → Poll.Pollfd} {cntFdSocket : Nat}

/-- The two scans have called `recv` on the same sockets and have left the same sockets. -/
structure Agree (t : State) (u : Poll.State) : Prop where
  defined : t.undefined = false
  recvs : ∀ fd, fd ∈ t.recvs ↔ fd ∈ u.recvs.map Poll.Pollfd.fd
  table : ∀ fd, fd ∈ t.table ↔ fd ∈ u.fds

/-- The two servers hold the same sockets, with the same ones ready. -/
def SameTable
    (fdSocket : Nat → Int) (ready : Int → Bool)
    (pollfds : Nat → Poll.Pollfd) (cntFdSocket : Nat) : Prop :=
  ∀ k < cntFdSocket,
    (pollfds k).fd = fdSocket k ∧ (pollfds k).pollin = ready (fdSocket k)

instance : Decidable (SameTable fdSocket ready pollfds cntFdSocket) :=
  inferInstanceAs (Decidable (∀ k < cntFdSocket, _ ∧ _))

theorem SameTable.map_fd
    (h : SameTable fdSocket ready pollfds cntFdSocket) :
    (live pollfds cntFdSocket).map Poll.Pollfd.fd = live fdSocket cntFdSocket := by
  rw [live, live, List.map_map]
  exact List.map_congr_left (fun k hk => (h k (List.mem_range.mp hk)).1)

theorem SameTable.map_ready
    (h : SameTable fdSocket ready pollfds cntFdSocket) :
    (((live pollfds cntFdSocket).drop 1).filter Poll.Pollfd.pollin).map Poll.Pollfd.fd =
      ((live fdSocket cntFdSocket).drop 1).filter ready := by
  rw [← h.map_fd, ← List.map_drop, List.filter_map]
  refine congrArg _ (List.filter_congr fun p hp => ?_)
  obtain ⟨k, hk, rfl⟩ := List.mem_map.mp (List.mem_of_mem_drop hp)
  obtain ⟨hfd, hpollin⟩ := h k (List.mem_range.mp hk)
  rw [hpollin, Function.comp_apply, hfd]

/-- The scan of io_select.c ends. -/
theorem exists_ends_select
    (recv : Int → Recv) (s : State) :
    ∃ es t, Ends (scan recv) s es t := by
  obtain ⟨es, t, hends, _⟩ :=
    @exists_ends _ (scan recv) (fun _ => True) State.left
      (fun _ _ _ hscan => ⟨trivial, left_lt hscan⟩) s trivial
  exact ⟨es, t, hends⟩

/-- The scan of io_poll_nb.c calls `recv` on the ready sockets. -/
theorem poll_mem_recvs_iff
    {fs : List Unit} {u : Poll.State}
    (hnodup : (live fdSocket cntFdSocket).Nodup)
    (hsame : SameTable fdSocket ready pollfds cntFdSocket)
    (hends : Ends (Poll.scan recv) (Poll.State.start pollfds cntFdSocket) fs u) :
    Poll.Exact recv (live pollfds cntFdSocket) u ∧
      ∀ fd, fd ∈ u.recvs.map Poll.Pollfd.fd ↔
        fd ∈ ((live fdSocket cntFdSocket).drop 1).filter ready := by
  have hkeys : ((live pollfds cntFdSocket).map Poll.Pollfd.fd).Nodup := by
    rw [hsame.map_fd]
    exact hnodup
  have hexact :=
    run_invariant (fun _ _ _ h hscan => Poll.Exact.turn h hscan)
      (Poll.exact_start hkeys) hends.1
  refine ⟨hexact, fun fd => ?_⟩
  rw [← hsame.map_ready]
  exact ((hexact.recvs_perm hends.2).map Poll.Pollfd.fd).mem_iff

/-- A complete scan of io_select.c leaves what the scan of io_poll_nb.c leaves. -/
theorem agree_of_complete
    {t : State} {u : Poll.State} {fs : List Unit}
    (hnodup : (live fdSocket cntFdSocket).Nodup)
    (hsame : SameTable fdSocket ready pollfds cntFdSocket)
    (htracks : Tracks (Complete ready ((live fdSocket cntFdSocket).drop 1)) recv ready
      (live fdSocket cntFdSocket) t)
    (hend : scan recv t = none)
    (hpoll : Ends (Poll.scan recv) (Poll.State.start pollfds cntFdSocket) fs u) :
    Agree t u := by
  obtain ⟨hexact, hrecvs⟩ := poll_mem_recvs_iff hnodup hsame hpoll
  have hdone : t.table.drop t.i = [] := by
    refine drop_live_of_le _ ?_
    by_contra hlt
    simp only [scan, htracks.defined, and_true] at hend
    split_ifs at hend
    omega
  have hcomplete := htracks.rel
  rw [hdone] at hcomplete
  have hmem : ∀ fd, fd ∈ t.recvs ↔ fd ∈ u.recvs.map Poll.Pollfd.fd :=
    fun fd => hcomplete.calls_perm.mem_iff.trans (hrecvs fd).symm
  refine ⟨htracks.defined, hmem, fun fd => ?_⟩
  have hselect := htracks.kept.mem_iff hnodup fd
  simp only [decide_eq_true_eq] at hselect
  rw [hselect, hexact.mem_fds_iff (hsame.map_fd ▸ hnodup) fd, hsame.map_fd, hmem fd]

theorem not_agree_of_failed
    {t : State} {u : Poll.State} {fs : List Unit}
    (hnodup : (live fdSocket cntFdSocket).Nodup)
    (hsame : SameTable fdSocket ready pollfds cntFdSocket)
    (hfailed : Failed recv ready (live fdSocket cntFdSocket) t)
    (hpoll : Ends (Poll.scan recv) (Poll.State.start pollfds cntFdSocket) fs u) :
    ¬ Agree t u := by
  intro hagree
  rcases hfailed with hundefined | htracks
  · rw [hagree.defined] at hundefined
    cases hundefined
  · obtain ⟨fd, hready, hcalls, _⟩ := htracks.rel
    obtain ⟨_, hrecvs⟩ := poll_mem_recvs_iff hnodup hsame hpoll
    exact hcalls ((hagree.recvs fd).mpr ((hrecvs fd).mpr hready))

/--
Both scans end, and their ends agree exactly if no turn of io_select.c looks at a descriptor
that has no bit, or deletes a socket while the last one, which is moved into its slot, is
ready.
-/
theorem agree_iff_noSkip
    (recv : Int → Recv)
    (hnodup : (live fdSocket cntFdSocket).Nodup)
    (hsame : SameTable fdSocket ready pollfds cntFdSocket) :
    (∃ es t, Ends (scan recv) (State.start fdSocket cntFdSocket ready) es t) ∧
    (∃ fs u, Ends (Poll.scan recv) (Poll.State.start pollfds cntFdSocket) fs u) ∧
    ∀ es t fs u,
      Ends (scan recv) (State.start fdSocket cntFdSocket ready) es t →
      Ends (Poll.scan recv) (Poll.State.start pollfds cntFdSocket) fs u →
      (Agree t u ↔
        Along (turn (scan recv)) (NoSkip recv)
          (State.start fdSocket cntFdSocket ready) es) := by
  have hkeys : ((live pollfds cntFdSocket).map Poll.Pollfd.fd).Nodup := by
    rw [hsame.map_fd]
    exact hnodup
  obtain ⟨fs, u, hpoll, _⟩ := Poll.exists_ends_exact recv hkeys
  refine ⟨exists_ends_select recv _, ⟨fs, u, hpoll⟩, ?_⟩
  intro es t fs u hselect hpoll
  have hend :=
    good_or_bad
      (fun _ _ _ h hskip hscan => complete_turn h hskip hscan)
      (fun _ _ _ h hskip hscan => failed_of_skip h hnodup hskip hscan)
      (fun _ _ _ h hscan => failed_turn h hscan)
      (@tracks_start recv ready _ _ hnodup) hselect.1
  rcases hend with ⟨halong, htracks⟩ | ⟨hnot, hfailed⟩
  · exact iff_of_true (agree_of_complete hnodup hsame htracks hselect.2 hpoll) halong
  · exact iff_of_false (not_agree_of_failed hnodup hsame hfailed hpoll) hnot

end Agreement

section Example

/-- A listener and three clients. -/
def fourSockets : Nat → Int
  | 0 => 3
  | 1 => 4
  | 2 => 5
  | _ => 6

/-- The same sockets in io_poll_nb.c, with POLLIN on the ready ones. -/
def fourSlots (ready : Int → Bool) (k : Nat) : Poll.Pollfd :=
  ⟨fourSockets k, if ready (fourSockets k) then Poll.POLLIN else 0⟩

def firstTwo (fd : Int) : Bool :=
  fd == 4 || fd == 5

def firstAndLast (fd : Int) : Bool :=
  fd == 4 || fd == 6

/-- The peer of the first client has closed its socket. -/
def firstClosed : Int → Recv
  | 4 => .closed
  | _ => .data

theorem sameTable_firstTwo :
    SameTable fourSockets firstTwo (fourSlots firstTwo) 4 := by
  decide

/-- The first client leaves, and the last one, which is moved into its slot, is not ready. -/
theorem agree_firstTwo :
    ∃ t u,
      Ends (scan firstClosed) (State.start fourSockets 4 firstTwo) [(), ()] t ∧
      Ends (Poll.scan firstClosed) (Poll.State.start (fourSlots firstTwo) 4) [(), (), ()] u ∧
      Agree t u := by
  refine ⟨_, _, ⟨rfl, rfl⟩, ⟨rfl, rfl⟩, ?_⟩
  exact ((agree_iff_noSkip firstClosed (by decide) sameTable_firstTwo).2.2
    [(), ()] _ [(), (), ()] _ ⟨rfl, rfl⟩ ⟨rfl, rfl⟩).mpr (by decide)

/-- The first client leaves, and io_select.c does not call `recv` on the last one. -/
theorem firstAndLast_disagree :
    SameTable fourSockets firstAndLast (fourSlots firstAndLast) 4 ∧
    ∃ t u,
      Ends (scan firstClosed) (State.start fourSockets 4 firstAndLast) [(), ()] t ∧
      Ends (Poll.scan firstClosed) (Poll.State.start (fourSlots firstAndLast) 4) [(), ()] u ∧
      t.recvs = [4] ∧
      u.recvs.map Poll.Pollfd.fd = [4, 6] ∧
      ¬ Agree t u := by
  refine ⟨by decide, _, _, ⟨rfl, rfl⟩, ⟨rfl, rfl⟩, rfl, rfl, ?_⟩
  intro hagree
  exact absurd ((hagree.recvs 6).mpr (by decide)) (by decide)

end Example

end Select
end IoServers
end SysProg
