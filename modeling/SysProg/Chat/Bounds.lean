import SysProg.Chat.Scan
import SysProg.Chat.Table
import Mathlib.Tactic

/-!
# Indices and lengths in the chat server

Every access to `clisock_list` and `buf` and every length given to `send` in a broadcast,
step by step.  Two of them come from outside without a check: the number of clients, which
is the index of the slot that `addclient` fills, and the result of `recv`, which is the
index of the terminator.

**Steps.**  A table of `MAXSOCK` clients needs descriptors beyond `FD_SETSIZE`, for which
`Server.step` is at an end.  What `FD_SET` does there is not defined in C; compiled, it sets
a bit behind the set, and `select` looks for it there.  The arrays in question here are
others, so the sets of `wideStep` have a bit for every descriptor and the server goes on;
as long as all descriptors have a bit, it takes the steps of `Server.step` (`run_wideStep`).

**Results.**  `inBounds_iff_checked`: a run keeps all bounds exactly if no client is added to a
full table and no `recv` returns -1.  `outOfBounds`: both happen.
-/

namespace SysProg
namespace Chat

open Run SlotTable

variable {s s' : State} {l : Label}

section Wide

/-- The parts of the main loop without a system call. -/
def wideNext (s : State) : Option State :=
  match s.pc with
  | .top =>
      some { s with readFds := s.selectFds, maxfdp1 := s.getmax + 1, pc := .select }
  | .scan i =>
      if i < s.numChat then
        if s.readFds (s.clisockList i) then none else some { s with pc := .scan (i + 1) }
      else some { s with pc := .top }
  | .broadcast i j _ =>
      if j < s.numChat then none else some { s with pc := .scan (i + 1) }
  | _ => none

def wideRecv (s : State) (ret : Option (List UInt8)) : Option State :=
  match s.pc with
  | .scan i =>
      if i < s.numChat ∧ s.readFds (s.clisockList i) = true ∧
          RecvReturns s (s.clisockList i) ret then
        some (s.recvFrom i ret)
      else none
  | _ => none

/-- One step of a server whose sets have a bit for every descriptor. -/
def wideStep (s : State) : Label → Option State
  | .next => wideNext s
  | .recv ret => wideRecv s ret
  | l => step s l

theorem HaveBits.client
    {i : Nat}
    (h : HaveBits s)
    (hi : i < s.numChat) :
    InSet (s.clisockList i) :=
  h _ (List.mem_cons_of_mem _ (mem_live_iff.mpr ⟨i, hi, rfl⟩))

theorem wideStep_eq
    (h : HaveBits s)
    (l : Label) :
    wideStep s l = step s l := by
  cases l with
  | next =>
      simp only [wideStep, step, wideNext, nextStep]
      cases hpc : s.pc with
      | top => exact (if_pos h).symm
      | scan i =>
          by_cases hi : i < s.numChat
          · simp only [hi, h.client hi, ↓reduceIte]
          · simp only [hi, ↓reduceIte]
      | _ => rfl
  | recv ret =>
      simp only [wideStep, step, wideRecv, recvStep]
      cases hpc : s.pc with
      | scan i =>
          by_cases hi : i < s.numChat
          · simp only [hi, h.client hi, true_and]
          · simp only [hi, false_and, ↓reduceIte]
      | _ => rfl
  | _ => rfl

/-- A run whose descriptors all have a bit is one of `Server.step`. -/
theorem run_wideStep
    {es : List Label}
    (h : Along step (fun s _ => HaveBits s) s es) :
    run wideStep s es = run step s es := by
  refine run_congr_along ?_
  exact along_of_invariant (P := fun _ => True) (fun _ _ _ _ _ _ => trivial)
    (fun s l _ hbits => wideStep_eq hbits l) trivial h

theorem wideNext_effect
    (hstep : wideNext s = some s') :
    Effect s l s' := by
  unfold wideNext at hstep
  split at hstep
  · cases hstep
    exact .control rfl rfl rfl rfl rfl rfl rfl
  · split_ifs at hstep <;> cases hstep <;> exact .control rfl rfl rfl rfl rfl rfl rfl
  · split_ifs at hstep
    cases hstep
    exact .control rfl rfl rfl rfl rfl rfl rfl
  · cases hstep

/-- Every step has one of the effects. -/
theorem wideStep_effect
    (hstep : wideStep s l = some s') :
    Effect s l s' := by
  cases l with
  | next =>
      exact wideNext_effect hstep
  | recv ret =>
      simp only [wideStep, wideRecv] at hstep
      split at hstep
      · split_ifs at hstep with hready
        cases hstep
        exact recvFrom_effect hready.1 hready.2.2
      · cases hstep
  | _ =>
      exact step_effect hstep

end Wide

section Accesses

/-- The indices that `removeclient(i)` uses after `recv` has returned `ret`. -/
def removeIndices (s : State) (i : Nat) (ret : Option (List UInt8)) : List Int :=
  if removes ret then
    if i ≠ s.numChat - 1 then [i, (s.numChat : Int) - 1] else [(i : Int)]
  else []

/-- The indices at which a step reads or writes `clisock_list`. -/
def listIndices (s : State) : Label → List Int
  | .next =>
      match s.pc with
      -- the loop around `FD_SET` and `getmax`
      | .top => (List.range s.numChat).map (fun i : Nat => (i : Int))
      | .scan i => if i < s.numChat then [(i : Int)] else []
      | _ => []
  | .accept _ =>
      match s.pc with
      | .accept => [(s.numChat : Int)]
      | _ => []
  | .send =>
      match s.pc with
      | .broadcast _ j _ => [(j : Int)]
      | _ => []
  | .recv ret =>
      match s.pc with
      | .scan i => (i : Int) :: removeIndices s i ret
      | _ => []
  | _ => []

/--
The indices at which a step writes or reads `buf`: the bytes received, the terminator at
`nbyte`, and the bytes up to it that `strstr` looks at.
-/
def bufIndices : Label → List Int
  | .recv none => [-1]
  | .recv (some []) => []
  | .recv (some msg) => (List.range (msg.length + 1)).map (fun k : Nat => (k : Int))
  | _ => []

/-- The length that a broadcast passes to `send`. -/
def sendLengths (s : State) : Label → List Int
  | .send =>
      match s.pc with
      | .broadcast _ _ msg => [(msg.length : Int)]
      | _ => []
  | _ => []

/-- All indices and lengths of a step are in their ranges. -/
structure InBounds (s : State) (l : Label) : Prop where
  clisockList : ∀ k ∈ listIndices s l, 0 ≤ k ∧ k < MAXSOCK
  buf : ∀ k ∈ bufIndices l, 0 ≤ k ∧ k ≤ MAXLINE
  length : ∀ n ∈ sendLengths s l, 0 ≤ n ∧ n ≤ MAXLINE

def Label.isAccept : Label → Bool
  | .accept _ => true
  | _ => false

/-- What the code would have to check: a free slot, and a result of `recv` that is not -1. -/
def Checked (s : State) (l : Label) : Prop :=
  (l.isAccept = true → s.numChat < MAXSOCK) ∧ l ≠ .recv none

instance (s : State) (l : Label) : Decidable (Checked s l) :=
  inferInstanceAs (Decidable ((_ → _) ∧ _))

end Accesses

section Bounds

/-- The table is not overfull, and a message that is sent on fits the buffer. -/
structure Fits (s : State) : Prop where
  numChat : s.numChat ≤ MAXSOCK
  msg : ∀ i j msg, s.pc = .broadcast i j msg → msg.length ≤ MAXLINE

theorem fits_start
    (listenSock : Int) :
    Fits (State.start listenSock) :=
  ⟨Nat.zero_le _, by simp [State.start]⟩

theorem numChat_step
    (h : s.numChat ≤ MAXSOCK)
    (hstep : wideStep s l = some s') :
    s'.numChat ≤ MAXSOCK := by
  cases wideStep_effect hstep with
  | control _ hnum =>
      rw [hnum]
      exact h
  | reset _ =>
      exact h
  | joined _ hroom =>
      exact hroom
  | left _ _ =>
      exact (Nat.sub_le _ _).trans h
  | exited _ _ _ _ =>
      exact (Nat.sub_le _ _).trans h
  | cast _ _ _ _ =>
      exact h

/-- Only the message that was received is sent on. -/
theorem recvFrom_broadcast
    {i i' j : Nat} {ret : Option (List UInt8)} {msg : List UInt8}
    (hpc : (s.recvFrom i ret).pc = .broadcast i' j msg) :
    ret = some msg := by
  unfold State.recvFrom at hpc
  split at hpc
  · cases hpc
  · cases hpc
  · split_ifs at hpc
    cases hpc
    rfl

/-- A message that is sent on has just been received, or was sent on before. -/
theorem broadcast_of_step
    {i j : Nat} {msg : List UInt8}
    (hstep : wideStep s l = some s')
    (hpc : s'.pc = .broadcast i j msg) :
    (∃ i j, s.pc = .broadcast i j msg) ∨ msg.length ≤ MAXLINE := by
  cases l with
  | next =>
      simp only [wideStep, wideNext] at hstep
      split at hstep
      · cases hstep
        cases hpc
      · split_ifs at hstep <;> cases hstep <;> cases hpc
      · split_ifs at hstep
        cases hstep
        cases hpc
      · cases hstep
  | send =>
      simp only [wideStep, step, sendStep] at hstep
      split at hstep
      · rename_i sock hwelcome
        cases hstep
        rcases sendTo_eq_or s sock startString (.scan 0) with heq | heq <;>
          rw [heq] at hpc <;> cases hpc
      · rename_i i' j' msg' hcast
        split_ifs at hstep
        cases hstep
        rcases sendTo_eq_or s (s.clisockList j') msg' (.broadcast i' (j' + 1) msg') with
          heq | heq
        · rw [heq] at hpc
          cases hpc
        · rw [heq] at hpc
          cases hpc
          exact Or.inl ⟨_, _, hcast⟩
      · cases hstep
  | recv ret =>
      simp only [wideStep, wideRecv] at hstep
      split at hstep
      · split_ifs at hstep with hguard
        obtain ⟨_, _, hret⟩ := hguard
        cases hstep
        rw [recvFrom_broadcast hpc] at hret
        exact Or.inr hret.1
      · cases hstep
  | accept sock =>
      simp only [wideStep, step] at hstep
      split_ifs at hstep
      cases hstep
      unfold State.addclient at hpc
      split_ifs at hpc
  | peerReset c =>
      simp only [wideStep, step] at hstep
      split_ifs at hstep
      cases hstep
      exact Or.inl ⟨_, _, hpc⟩
  | _ =>
      simp only [wideStep, step] at hstep
      split_ifs at hstep <;> cases hstep <;> simp at hpc

theorem Fits.step
    (h : Fits s)
    (hstep : wideStep s l = some s') :
    Fits s' := by
  refine ⟨numChat_step h.numChat hstep, ?_⟩
  intro i j msg hpc
  rcases broadcast_of_step hstep hpc with ⟨i', j', hcast⟩ | hlen
  · exact h.msg i' j' msg hcast
  · exact hlen

theorem inBounds_next
    (h : Fits s) :
    InBounds s .next := by
  refine ⟨?_, by simp [bufIndices], by simp [sendLengths]⟩
  intro k hk
  have hnum := h.numChat
  simp only [listIndices] at hk
  split at hk
  · obtain ⟨i, hi, rfl⟩ := List.mem_map.mp hk
    have := List.mem_range.mp hi
    omega
  · split_ifs at hk with hi
    · obtain rfl := List.mem_singleton.mp hk
      omega
    · cases hk
  · cases hk

theorem inBounds_send
    (h : Fits s)
    (hstep : sendStep s = some s') :
    InBounds s .send := by
  have hnum := h.numChat
  simp only [sendStep] at hstep
  split at hstep
  · rename_i sock hpc
    exact ⟨by simp [listIndices, hpc], by simp [bufIndices], by simp [sendLengths, hpc]⟩
  · rename_i i j msg hpc
    split_ifs at hstep with hj
    have hlen := h.msg i j msg hpc
    refine ⟨?_, by simp [bufIndices], ?_⟩
    · simp only [listIndices, hpc, List.mem_singleton, forall_eq]
      omega
    · simp only [sendLengths, hpc, List.mem_singleton, forall_eq]
      omega
  · cases hstep

theorem inBounds_recv
    {ret : Option (List UInt8)}
    (h : Fits s)
    (hret : ret ≠ none)
    (hstep : wideRecv s ret = some s') :
    InBounds s (.recv ret) := by
  have hnum := h.numChat
  obtain ⟨msg, rfl⟩ := Option.ne_none_iff_exists'.mp hret
  simp only [wideRecv] at hstep
  split at hstep
  · rename_i i hpc
    split_ifs at hstep with hguard
    obtain ⟨hi, _, hlen, _⟩ := hguard
    refine ⟨?_, ?_, by simp [sendLengths]⟩
    · intro k hk
      simp only [listIndices, hpc, removeIndices] at hk
      split_ifs at hk <;> simp at hk <;> omega
    · intro k hk
      cases msg with
      | nil =>
          cases hk
      | cons b msg =>
          obtain ⟨m, hm, rfl⟩ := List.mem_map.mp hk
          have := List.mem_range.mp hm
          omega
  · cases hstep

theorem inBounds_of_step
    (h : Fits s)
    (hchecked : Checked s l)
    (hstep : wideStep s l = some s') :
    InBounds s l := by
  cases l with
  | next =>
      exact inBounds_next h
  | send =>
      exact inBounds_send h hstep
  | recv ret =>
      refine inBounds_recv h ?_ hstep
      rintro rfl
      exact hchecked.2 rfl
  | accept sock =>
      refine ⟨?_, by simp [bufIndices], by simp [sendLengths]⟩
      have hroom : s.numChat < MAXSOCK := hchecked.1 rfl
      intro k hk
      simp only [listIndices] at hk
      split at hk
      · obtain rfl := List.mem_singleton.mp hk
        omega
      · cases hk
  | _ =>
      exact ⟨by simp [listIndices], by simp [bufIndices], by simp [sendLengths]⟩

/-- A full table and the result -1 break a bound. -/
theorem checked_of_inBounds
    (hstep : wideStep s l = some s')
    (h : InBounds s l) :
    Checked s l := by
  constructor
  · intro haccept
    cases l with
    | accept sock =>
        simp only [wideStep, step] at hstep
        split_ifs at hstep with hguard
        have hbound := h.clisockList s.numChat (by simp [listIndices, hguard.1])
        exact Int.ofNat_lt.mp hbound.2
    | _ =>
        cases haccept
  · rintro rfl
    have hbound := h.buf (-1) (by simp [bufIndices])
    omega

end Bounds

section Runs

variable {listenSock : Int} {es : List Label}

/--
A run keeps every index into `clisock_list` and `buf` and every length of a broadcast in
its range, if and only if it adds no client to a full table and no `recv` returns -1.
-/
theorem inBounds_iff_checked
    (hrun : run wideStep (State.start listenSock) es = some s) :
    Along wideStep InBounds (State.start listenSock) es ↔
      Along wideStep Checked (State.start listenSock) es := by
  constructor
  · intro hbounds
    exact along_of_run (P := fun _ => True)
      (fun _ _ _ _ hbound hstep => ⟨trivial, checked_of_inBounds hstep hbound⟩)
      trivial hbounds hrun
  · intro hchecked
    exact along_of_run (P := Fits)
      (fun _ _ _ h hcheck hstep => ⟨h.step hstep, inBounds_of_step h hcheck hstep⟩)
      (fits_start listenSock) hchecked hrun

/-- A client joins and its message "hi" is sent back to it. -/
def echoRun : List Label :=
  [.next, .select [3], .accept 4, .send, .next, .next,
    .next, .select [4], .recv (some [104, 105]), .send, .next, .next]

theorem inBounds_echoRun :
    (∃ s, run wideStep (State.start 3) echoRun = some s ∧ s.pc = .top) ∧
      Along wideStep InBounds (State.start 3) echoRun :=
  ⟨⟨_, rfl, rfl⟩, (@inBounds_iff_checked _ 3 echoRun rfl).mpr (by decide)⟩

end Runs

section Full

/-- A server that has accepted `k` clients on the descriptors from 4 on. -/
structure Joined (k : Nat) (s : State) : Prop where
  pc : s.pc = .top
  listenSock : s.listenSock = 3
  numChat : s.numChat = k
  clients : ∀ i < k, s.clisockList i = 4 + i
  unused : ∀ fd : Int, 4 + k ≤ fd → s.conn fd = none
  reset : ∀ c, s.reset c = false

theorem joined_start :
    Joined 0 (State.start 3) := by
  refine ⟨rfl, rfl, rfl, ?_, fun _ _ => rfl, fun _ => rfl⟩
  intro i hi
  omega

/-- Nothing is ready in the table: the scan goes to its end. -/
theorem exists_scan
    (hquiet : ∀ i < s.numChat, s.readFds (s.clisockList i) = false)
    {i : Nat}
    (hpc : s.pc = .scan i)
    (hi : i ≤ s.numChat) :
    ∃ es, run wideStep s es = some { s with pc := .top } := by
  induction hn : s.numChat - i generalizing s i with
  | zero =>
      have hend : ¬ i < s.numChat := by omega
      exact ⟨[.next], by simp [wideStep, wideNext, hpc, hend]⟩
  | succ n ih =>
      have hlt : i < s.numChat := by omega
      have hnext : wideStep s .next = some { s with pc := .scan (i + 1) } := by
        simp [wideStep, wideNext, hpc, hlt, hquiet i hlt]
      have hrest : s.numChat - (i + 1) = n := by omega
      obtain ⟨es, hrun⟩ :=
        ih (s := { s with pc := .scan (i + 1) }) hquiet rfl (by exact hlt) hrest
      refine ⟨.next :: es, ?_⟩
      rw [run_cons, hnext]
      exact hrun

/-- The server at `accept`, when the listening socket 3 is ready and nothing else. -/
def State.accepting (s : State) : State :=
  { s with
    readFds := fun fd => decide (fd ∈ [(3 : Int)])
    maxfdp1 := s.getmax + 1
    pc := .accept }

theorem Joined.listens
    {k : Nat}
    (h : Joined k s) :
    run wideStep s [.next, .select [3]] = some s.accepting := by
  have hmem : s.selectFds 3 = true := (selectFds_iff s 3).mpr (Or.inl h.listenSock.symm)
  have hmax : (3 : Int) < s.getmax + 1 := by
    have hle : s.listenSock ≤ s.getmax :=
      (isGreatest_foldl_max s.socks s.listenSock).2 (Or.inl rfl)
    rw [h.listenSock] at hle
    exact Int.lt_add_one_of_le hle
  simp [wideStep, wideNext, step, h.pc, h.listenSock, SelectReturns, hmem, hmax,
    State.accepting]

/-- The server behind the welcome of a new client, when nobody else was ready. -/
def State.welcomed (s : State) (sock : Int) : State :=
  { s.accepting with
    clisockList := Function.update s.clisockList s.numChat sock
    numChat := s.numChat + 1
    conn := Function.update s.conn sock (some s.nextConn)
    nextConn := s.nextConn + 1
    pc := .scan 0
    sent := s.sent ++ [(sock, startString)] }

theorem Joined.welcomes
    {k : Nat}
    (h : Joined k s)
    (hroom : k < MAXSOCK) :
    run wideStep s ([.next, .select [3]] ++ [.accept (4 + k), .send]) =
      some (s.welcomed (4 + k)) := by
  have hunused : Unused s.accepting (4 + k) := by
    refine ⟨by omega, ?_, h.unused _ (Int.le_refl _)⟩
    have hlisten : s.accepting.listenSock = 3 := h.listenSock
    omega
  have hadd : s.accepting.numChat < MAXSOCK := by
    have hnum : s.accepting.numChat = k := h.numChat
    omega
  have haccept : wideStep s.accepting (.accept (4 + k)) =
      some (s.accepting.addclient (4 + k)) := if_pos ⟨rfl, hunused⟩
  rw [run_append, h.listens, Option.bind_some, run_cons, haccept, State.addclient, if_pos hadd]
  simp [wideStep, step, sendStep, State.sendTo, State.welcomed, State.accepting, h.reset]

theorem Joined.clients_welcomed
    {k : Nat}
    (h : Joined k s) :
    ∀ i < k + 1, (s.welcomed (4 + k)).clisockList i = 4 + i := by
  intro i hi
  simp only [State.welcomed, State.accepting, h.numChat, Function.update_apply]
  split_ifs with heq
  · rw [heq]
  · exact h.clients i (by omega)

/-- One more client joins, as long as there is room. -/
theorem Joined.join
    {k : Nat}
    (h : Joined k s)
    (hroom : k < MAXSOCK) :
    ∃ es s', run wideStep s es = some s' ∧ Joined (k + 1) s' := by
  have hnum : (s.welcomed (4 + k)).numChat = k + 1 := congrArg (· + 1) h.numChat
  have hquiet : ∀ i < (s.welcomed (4 + k)).numChat,
      (s.welcomed (4 + k)).readFds ((s.welcomed (4 + k)).clisockList i) = false := by
    intro i hi
    rw [h.clients_welcomed i (by omega)]
    simp only [State.welcomed, State.accepting, List.mem_singleton, decide_eq_false_iff_not]
    omega
  obtain ⟨es, hscan⟩ := exists_scan hquiet rfl (Nat.zero_le _)
  refine ⟨[.next, .select [3]] ++ [.accept (4 + k), .send] ++ es,
    { s.welcomed (4 + k) with pc := .top }, ?_, rfl, h.listenSock, hnum,
    h.clients_welcomed, ?_, h.reset⟩
  · rw [run_append, h.welcomes hroom]
    exact hscan
  · intro fd hfd
    have hne : fd ≠ 4 + k := by omega
    exact (Function.update_of_ne hne _ _).trans (h.unused fd (by omega))

/-- A table of any size up to `MAXSOCK` is reached. -/
theorem exists_joined
    {k : Nat}
    (hk : k ≤ MAXSOCK) :
    ∃ es s, run wideStep (State.start 3) es = some s ∧ Joined k s := by
  induction k with
  | zero =>
      exact ⟨[], _, rfl, joined_start⟩
  | succ k ih =>
      obtain ⟨es, s, hrun, hjoined⟩ := ih (Nat.le_of_succ_le hk)
      obtain ⟨es', s', hrun', hjoined'⟩ := hjoined.join hk
      refine ⟨es ++ es', s', ?_, hjoined'⟩
      rw [run_append, hrun]
      exact hrun'

/-- A client joins, and the connection breaks before the server calls `recv`. -/
def recvErrorRun : List Label :=
  [.next, .select [3], .accept 4, .send, .next, .next,
    .next, .select [4], .recv none]

/--
A failed `recv` writes to `buf[-1]`, and the client that comes when `MAXSOCK` clients are there
is stored behind `clisock_list`.
-/
theorem outOfBounds :
    ((∃ s, run wideStep (State.start 3) recvErrorRun = some s) ∧
      bufIndices (.recv none) = [-1] ∧
      ¬ Along wideStep InBounds (State.start 3) recvErrorRun) ∧
    ∃ es s, run wideStep (State.start 3) es = some s ∧
      s.pc = .accept ∧ s.numChat = MAXSOCK ∧
      listIndices s (.accept 1028) = [(MAXSOCK : Int)] ∧
      (∃ s', run wideStep (State.start 3) (es ++ [.accept 1028]) = some s') ∧
      ¬ Along wideStep InBounds (State.start 3) (es ++ [.accept 1028]) := by
  refine ⟨⟨⟨_, rfl⟩, rfl, ?_⟩, ?_⟩
  · rintro ⟨_, _, _, _, _, _, _, _, hbounds, _⟩
    have hbound := hbounds.buf (-1) (by simp [bufIndices])
    omega
  · obtain ⟨es, s, hrun, hjoined⟩ := exists_joined (Nat.le_refl MAXSOCK)
    have hfull : run wideStep (State.start 3) (es ++ [.next, .select [3]]) =
        some s.accepting := by
      rw [run_append, hrun]
      exact hjoined.listens
    have hnum : s.accepting.numChat = MAXSOCK := hjoined.numChat
    have hunused : Unused s.accepting 1028 := by
      refine ⟨by omega, ?_, hjoined.unused _ (by decide)⟩
      have hlisten : s.accepting.listenSock = 3 := hjoined.listenSock
      omega
    have haccept : wideStep s.accepting (.accept 1028) =
        some (s.accepting.addclient 1028) := if_pos ⟨rfl, hunused⟩
    have hindex : listIndices s.accepting (.accept 1028) = [(MAXSOCK : Int)] :=
      congrArg (fun n : Nat => [(n : Int)]) hnum
    refine ⟨_, _, hfull, rfl, hnum, hindex, ⟨s.accepting.addclient 1028, ?_⟩, ?_⟩
    · rw [run_append, hfull, Option.bind_some, run_cons, haccept]
      rfl
    · intro hbounds
      have hlast := (along_suffix hbounds hfull).1
      have hbound := hlast.clisockList MAXSOCK (by rw [hindex]; exact List.mem_singleton_self _)
      omega

end Full

end Chat
end SysProg
