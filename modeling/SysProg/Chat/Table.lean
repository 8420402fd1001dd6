import SysProg.Chat.Server
import Mathlib.Order.Bounds.Basic
import Mathlib.Tactic

/-!
# The client table of the chat server and the set for `select`

Clients join at the end of `clisock_list`, leave by a move of the last entry, several
of them in one scan, and descriptors are used again.  Over all of this the table
holds the sockets that `accept` returned and that are not closed yet, each of them
once (`tableExact_of_run`).

The set for `select` is built from the table at the top of the loop.  It is an
`fd_set`, with one bit for each descriptor below `FD_SETSIZE`, and nothing keeps the
descriptors below that: `MAXSOCK` bounds their number, not their values.  So the set
is the right one exactly if all open descriptors have a bit in it
(`exactAtTop_iff_inSet`).  As the loop does not come past `FD_SET` otherwise, there is always
room for a client that is accepted (`room_of_run`).
-/

namespace SysProg
namespace Chat

open Run SlotTable

variable {s s' : State} {l : Label}

/-- The table holds the accepted sockets that are not closed, once each. -/
structure TableExact (s : State) : Prop where
  nodup : s.socks.Nodup
  listen : s.listenSock ∉ s.socks
  mem_iff : ∀ sock, sock ∈ s.socks ↔ s.conn sock ≠ none

/--
The loop goes on from its top to a call of `select` with the listening socket and the
clients, and with one more than the greatest of them.
-/
def HandsSelect (s : State) : Prop :=
  ∃ s', step s .next = some s' ∧
    s'.pc = .select ∧
    (∀ fd, s'.readFds fd = true ↔ fd = s.listenSock ∨ fd ∈ s.socks) ∧
    ∃ max, IsGreatest {fd | s'.readFds fd = true} max ∧ s'.maxfdp1 = max + 1

/-- All sockets have a bit in an `fd_set`. -/
def HaveBits (s : State) : Prop :=
  ∀ fd ∈ s.listenSock :: s.socks, InSet fd

instance (s : State) : Decidable (HaveBits s) :=
  inferInstanceAs (Decidable (∀ fd ∈ s.listenSock :: s.socks, InSet fd))

section Table

theorem nextStep_listenSock
    (hstep : nextStep s = some s') :
    s'.listenSock = s.listenSock := by
  unfold nextStep at hstep
  split at hstep
  · split_ifs at hstep <;> cases hstep <;> rfl
  · split_ifs at hstep <;> cases hstep <;> rfl
  · split_ifs at hstep
    cases hstep
    rfl
  · cases hstep

theorem sendTo_listenSock
    (sock : Int) (bytes : List UInt8) (pc : Pc) :
    (s.sendTo sock bytes pc).listenSock = s.listenSock := by
  rcases sendTo_eq_or s sock bytes pc with heq | heq <;> rw [heq]

theorem recvFrom_listenSock
    (i : Nat) (ret : Option (List UInt8)) :
    (s.recvFrom i ret).listenSock = s.listenSock := by
  unfold State.recvFrom
  split
  · rfl
  · rfl
  · split_ifs <;> rfl

/-- The listening socket stays the same. -/
theorem step_listenSock
    (hstep : step s l = some s') :
    s'.listenSock = s.listenSock := by
  cases l with
  | next =>
      exact nextStep_listenSock hstep
  | send =>
      simp only [step, sendStep] at hstep
      split at hstep
      · cases hstep
        exact sendTo_listenSock _ _ _
      · split_ifs at hstep
        cases hstep
        exact sendTo_listenSock _ _ _
      · cases hstep
  | recv ret =>
      simp only [step, recvStep] at hstep
      split at hstep
      · split_ifs at hstep
        cases hstep
        exact recvFrom_listenSock _ _
      · cases hstep
  | accept sock =>
      simp only [step] at hstep
      split_ifs at hstep
      cases hstep
      unfold State.addclient
      split_ifs <;> rfl
  | _ =>
      simp only [step] at hstep
      split_ifs at hstep <;> cases hstep <;> rfl

/-- The listening socket is open, but not as a connection. -/
structure TableInv (s : State) : Prop where
  table : TableExact s
  listening : s.conn s.listenSock = none

theorem socks_joined
    (s : State) (sock : Int) :
    live (Function.update s.clisockList s.numChat sock) (s.numChat + 1) =
      s.socks ++ [sock] :=
  live_push s.clisockList s.numChat sock

theorem tableExact_joined
    {sock : Int}
    (h : TableInv s)
    (hsock : Unused s sock)
    (hsocks : s'.socks = s.socks ++ [sock])
    (hconn : s'.conn = Function.update s.conn sock (some s.nextConn))
    (hlisten : s'.listenSock = s.listenSock) :
    TableInv s' := by
  obtain ⟨_, hne, hfree⟩ := hsock
  have hnew : sock ∉ s.socks := fun hmem => (h.table.mem_iff sock).mp hmem hfree
  refine ⟨⟨?_, ?_, ?_⟩, ?_⟩
  · rw [hsocks]
    exact List.nodup_append.mpr
      ⟨h.table.nodup, List.nodup_singleton sock, by
        intro a ha b hb hab
        simp only [List.mem_singleton] at hb
        exact hnew (hb ▸ hab ▸ ha)⟩
  · rw [hsocks, hlisten]
    simpa [h.table.listen] using hne.symm
  · intro fd
    rw [hsocks, hconn]
    by_cases heq : fd = sock
    · simp [heq]
    · simp [heq, h.table.mem_iff fd]
  · rw [hconn, hlisten, Function.update_of_ne hne.symm]
    exact h.listening

theorem tableExact_removed
    {i : Nat}
    (h : TableInv s)
    (hi : i < s.numChat)
    (hsocks : s'.socks = (s.removeclient i).socks)
    (hconn : s'.conn = Function.update s.conn (s.clisockList i) none)
    (hlisten : s'.listenSock = s.listenSock) :
    TableInv s' := by
  have hperm : (s.clisockList i :: s'.socks).Perm s.socks := by
    rw [hsocks]
    exact live_moveLast s.clisockList hi
  have hnodup := hperm.nodup_iff.mpr h.table.nodup
  obtain ⟨hgone, hrest⟩ := List.nodup_cons.mp hnodup
  refine ⟨⟨hrest, ?_, ?_⟩, ?_⟩
  · rw [hlisten]
    intro hmem
    exact h.table.listen (hperm.mem_iff.mp (List.mem_cons_of_mem _ hmem))
  · intro fd
    rw [hconn]
    by_cases heq : fd = s.clisockList i
    · simpa [heq] using hgone
    · rw [Function.update_of_ne heq, ← h.table.mem_iff fd, ← hperm.mem_iff]
      simp [heq]
  · rw [hconn, hlisten]
    by_cases heq : s.listenSock = s.clisockList i
    · simp [heq]
    · rw [Function.update_of_ne heq]
      exact h.listening

theorem TableInv.step
    (h : TableInv s)
    (hstep : step s l = some s') :
    TableInv s' := by
  have hlisten := step_listenSock hstep
  cases step_effect hstep with
  | control hlist hnum hconn hnext hreset hrcvd hcasts =>
      have hsocks : s'.socks = s.socks := by
        rw [State.socks, hlist, hnum, State.socks]
      refine ⟨⟨?_, ?_, ?_⟩, ?_⟩
      · rw [hsocks]
        exact h.table.nodup
      · rw [hsocks, hlisten]
        exact h.table.listen
      · rw [hsocks, hconn]
        exact h.table.mem_iff
      · rw [hconn, hlisten]
        exact h.listening
  | reset hc =>
      exact ⟨⟨h.table.nodup, h.table.listen, h.table.mem_iff⟩, h.listening⟩
  | @joined sock hsock hroom =>
      exact tableExact_joined h hsock (socks_joined s sock) rfl rfl
  | left hi hc =>
      exact tableExact_removed h hi rfl rfl rfl
  | exited hi hc hmsg hexit =>
      exact tableExact_removed h hi rfl rfl rfl
  | cast hi hc hmsg hexit =>
      exact ⟨⟨h.table.nodup, h.table.listen, h.table.mem_iff⟩, h.listening⟩

theorem tableInv_start
    (listenSock : Int) :
    TableInv (State.start listenSock) :=
  ⟨⟨List.nodup_nil, by simp [State.start, State.socks],
    by simp [State.start, State.socks]⟩, rfl⟩

theorem tableExact_of_run
    {listenSock : Int} {es : List Label}
    (hrun : run step (State.start listenSock) es = some s) :
    TableExact s :=
  (run_invariant (P := TableInv) (fun _ _ _ h hstep => h.step hstep)
    (tableInv_start listenSock) hrun).table

theorem listenSock_of_run
    {listenSock : Int} {es : List Label}
    (hrun : run step (State.start listenSock) es = some s) :
    s.listenSock = listenSock :=
  run_invariant (P := fun s => s.listenSock = listenSock)
    (fun _ _ _ h hstep => (step_listenSock hstep).trans h) rfl hrun

end Table

section SelectSet

theorem foldl_FD_SET
    (socks : List Int) (fds : Int → Bool) (fd : Int) :
    socks.foldl (fun fds sock => FD_SET sock fds) fds fd = true ↔
      fds fd = true ∨ fd ∈ socks := by
  induction socks generalizing fds with
  | nil =>
      simp
  | cons sock socks ih =>
      rw [List.foldl_cons, ih, FD_SET]
      by_cases heq : fd = sock
      · simp [heq]
      · simp [heq]

/-- The loop at the top collects the listening socket and the clients. -/
theorem selectFds_iff
    (s : State) (fd : Int) :
    s.selectFds fd = true ↔ fd = s.listenSock ∨ fd ∈ s.socks := by
  rw [State.selectFds, foldl_FD_SET, FD_SET]
  by_cases heq : fd = s.listenSock
  · simp [heq]
  · simp [heq]

/-- The loop of `getmax` computes the greatest of its start value and the entries. -/
theorem isGreatest_foldl_max
    (socks : List Int) (m : Int) :
    IsGreatest {fd | fd = m ∨ fd ∈ socks}
      (socks.foldl (fun max sock => if sock > max then sock else max) m) := by
  induction socks generalizing m with
  | nil =>
      simp [IsGreatest, upperBounds]
  | cons sock socks ih =>
      rw [List.foldl_cons]
      obtain ⟨hmem, hle⟩ := ih (if sock > m then sock else m)
      refine ⟨?_, ?_⟩
      · rcases hmem with hmem | hmem
        · rw [hmem]
          split_ifs <;> simp
        · exact Or.inr (List.mem_cons_of_mem _ hmem)
      · have hstart := hle (Or.inl rfl)
        rintro fd (rfl | hfd)
        · split_ifs at hstart ⊢ <;> omega
        · rcases List.mem_cons.mp hfd with rfl | hfd
          · split_ifs at hstart ⊢ <;> omega
          · exact hle (Or.inr hfd)

theorem step_next_top
    (htop : s.pc = .top)
    (hin : HaveBits s) :
    step s .next = some
      { s with readFds := s.selectFds, maxfdp1 := s.getmax + 1, pc := .select } := by
  simp only [step, nextStep, htop]
  exact if_pos hin

theorem handsSelect_iff
    (htop : s.pc = .top) :
    HandsSelect s ↔ HaveBits s := by
  constructor
  · rintro ⟨s', hstep, hpc, _⟩
    simp only [step, nextStep, htop] at hstep
    split_ifs at hstep with hin <;> cases hstep
    · exact hin
    · cases hpc
  · intro hin
    refine ⟨_, step_next_top htop hin, rfl, selectFds_iff s, s.getmax, ?_, rfl⟩
    simp only [selectFds_iff]
    exact isGreatest_foldl_max s.socks s.listenSock

end SelectSet

section Room

/-- Different descriptors with a bit in an `fd_set` do not fill the table. -/
theorem TableExact.numChat_lt
    (h : TableExact s)
    (hbits : HaveBits s) :
    s.numChat < MAXSOCK := by
  have hnodup : (s.listenSock :: s.socks).Nodup := List.nodup_cons.mpr ⟨h.listen, h.nodup⟩
  have hinj : ∀ a ∈ s.listenSock :: s.socks, ∀ b ∈ s.listenSock :: s.socks,
      a.toNat = b.toNat → a = b := by
    intro a ha b hb heq
    have hapos := (hbits a ha).1
    have hbpos := (hbits b hb).1
    omega
  have hsub : (s.listenSock :: s.socks).map Int.toNat ⊆ List.range 1024 := by
    intro k hk
    obtain ⟨fd, hfd, rfl⟩ := List.mem_map.mp hk
    have hlt := (hbits fd hfd).2
    simp only [FD_SETSIZE] at hlt
    simp only [List.mem_range]
    omega
  have hle := ((hnodup.map_on hinj).subperm hsub).length_le
  simp only [List.map_cons, List.length_cons, List.length_map, State.socks, live,
    List.length_range] at hle
  exact hle

/-- The set that was handed to `select` had a bit for every socket. -/
def SelectsAll (s : State) : Prop :=
  s.pc = .select ∨ s.pc = .accept → HaveBits s

theorem SelectsAll.step
    (h : SelectsAll s)
    (hstep : step s l = some s') :
    SelectsAll s' := by
  intro hpc
  cases l with
  | next =>
      simp only [Chat.step, nextStep] at hstep
      split at hstep
      · split_ifs at hstep with hin <;> cases hstep
        · exact hin
        · simp at hpc
      · split_ifs at hstep <;> cases hstep <;> simp at hpc
      · split_ifs at hstep
        cases hstep
        simp at hpc
      · cases hstep
  | select ready =>
      obtain ⟨hguard, hstep⟩ := Option.ite_none_right_eq_some.mp hstep
      cases hstep
      exact h (Or.inl hguard.1)
  | send =>
      simp only [Chat.step, sendStep] at hstep
      split at hstep
      · rename_i sock hwelcome
        cases hstep
        rcases sendTo_eq_or s sock startString (.scan 0) with heq | heq <;>
          rw [heq] at hpc <;> simp at hpc
      · rename_i i j msg hcast
        split_ifs at hstep
        cases hstep
        rcases sendTo_eq_or s (s.clisockList j) msg (.broadcast i (j + 1) msg) with heq | heq <;>
          rw [heq] at hpc <;> simp at hpc
      · cases hstep
  | recv ret =>
      simp only [Chat.step, recvStep] at hstep
      split at hstep
      · split_ifs at hstep
        cases hstep
        unfold State.recvFrom at hpc
        split at hpc
        · simp at hpc
        · simp at hpc
        · split_ifs at hpc <;> simp at hpc
      · cases hstep
  | accept sock =>
      obtain ⟨_, hstep⟩ := Option.ite_none_right_eq_some.mp hstep
      cases hstep
      unfold State.addclient at hpc
      split_ifs at hpc <;> simp at hpc
  | peerReset c =>
      obtain ⟨_, hstep⟩ := Option.ite_none_right_eq_some.mp hstep
      cases hstep
      exact h hpc
  | _ =>
      obtain ⟨_, hstep⟩ := Option.ite_none_right_eq_some.mp hstep
      cases hstep
      simp at hpc

/-- The table and the sets, so that there is room for a client that is accepted. -/
structure Roomy (s : State) : Prop where
  table : TableInv s
  selects : SelectsAll s

theorem roomy_start
    (listenSock : Int) :
    Roomy (State.start listenSock) :=
  ⟨tableInv_start listenSock, by simp [SelectsAll, State.start]⟩

theorem Roomy.step
    (h : Roomy s)
    (hstep : step s l = some s') :
    Roomy s' :=
  ⟨h.table.step hstep, h.selects.step hstep⟩

theorem Roomy.numChat_lt
    (h : Roomy s)
    (hpc : s.pc = .accept) :
    s.numChat < MAXSOCK :=
  h.table.table.numChat_lt (h.selects (Or.inr hpc))

/-- There is room for every client that is accepted. -/
theorem room_of_run
    {listenSock : Int} {es : List Label}
    (hrun : run step (State.start listenSock) es = some s)
    (hpc : s.pc = .accept) :
    s.numChat < MAXSOCK :=
  (run_invariant (P := Roomy) (fun _ _ _ h hstep => h.step hstep)
    (roomy_start listenSock) hrun).numChat_lt hpc

end Room

section Runs

variable {listenSock : Int} {es : List Label}

/--
At the top of the loop the table and the set for `select` are exact if and only if
all open sockets have a bit in an `fd_set`.
-/
theorem exactAtTop_iff_inSet
    (hrun : run step (State.start listenSock) es = some s)
    (htop : s.pc = .top) :
    (TableExact s ∧ HandsSelect s) ↔
      ∀ fd, fd = listenSock ∨ s.conn fd ≠ none → InSet fd := by
  have htable := tableExact_of_run hrun
  rw [handsSelect_iff htop, HaveBits, listenSock_of_run hrun]
  constructor
  · rintro ⟨_, hin⟩ fd (rfl | hopen)
    · exact hin fd (by simp)
    · exact hin fd (List.mem_cons_of_mem _ ((htable.mem_iff fd).mpr hopen))
  · intro hin
    refine ⟨htable, ?_⟩
    intro fd hfd
    rcases List.mem_cons.mp hfd with rfl | hfd
    · exact hin fd (Or.inl rfl)
    · exact hin fd (Or.inr ((htable.mem_iff fd).mp hfd))

/-- Two clients join with the sockets 4 and 5, and the first one leaves. -/
def moveRun : List Label :=
  [.next, .select [3], .accept 4, .send, .next, .next,
    .next, .select [3], .accept 5, .send, .next, .next, .next,
    .next, .select [4], .recv (some []), .next]

theorem exactAtTop_moveRun :
    ∃ s, run step (State.start 3) moveRun = some s ∧
      s.pc = .top ∧ s.socks = [5] ∧
      TableExact s ∧ HandsSelect s := by
  refine ⟨_, rfl, rfl, rfl, ?_⟩
  refine (@exactAtTop_iff_inSet _ 3 moveRun rfl rfl).mpr ?_
  rintro fd (rfl | hopen)
  · decide
  · have hmem := ((@tableExact_of_run _ 3 moveRun rfl).mem_iff fd).mpr hopen
    obtain rfl : fd = 5 := List.mem_singleton.mp hmem
    decide

/--
The second client gets the descriptor 1024.  It has no bit in an `fd_set`, and the scan
does not see it because the first client leaves before it is reached.
-/
def beyondSetRun : List Label :=
  [.next, .select [3], .accept 4, .send, .next, .next,
    .next, .select [3, 4], .accept 1024, .send, .recv (some []), .next]

theorem beyondSetRun_no_select :
    ∃ s, run step (State.start 3) beyondSetRun = some s ∧
      s.pc = .top ∧ s.socks = [1024] ∧
      ¬ HandsSelect s := by
  refine ⟨_, rfl, rfl, rfl, ?_⟩
  rintro ⟨s', hstep, hpc, _⟩
  cases hstep
  cases hpc

end Runs

end Chat
end SysProg
