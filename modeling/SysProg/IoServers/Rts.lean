import SysProg.Lib.Run
import Mathlib.Tactic

/-!
# The server ALSP/io_rts.c

The server is told of its sockets by real-time signals, which it takes with `sigwaitinfo`: one
signal for each connection that is made and for each time that bytes or the end of a stream
arrive.  For a signal it calls `accept` or `recv` once.

A signal is queued only for a socket that `add_rts_socket` has prepared.  A connection is made,
and may have bytes, before that: nothing tells the server of what came first.

**Steps.**  One signal with the call that it leads to, the return of `add_rts_socket`, or
something that the network does.  Of the two signal numbers the one for the listening socket is
the lower one and is taken first.  When the kernel cannot queue a signal it sends SIGIO instead,
which ends the process.  `recv` returns as much as there is and fits the buffer.  The calls of
`fcntl` succeed.

**Results.**  `told_of_all`: when the server waits and no signal is pending, it has accepted all
connections but for as many as were made before it had prepared its listening socket, and it has
received all bytes and closed every stream that has ended, except on connections that were
reset, that had bytes or their end before they were prepared, or that got more at once than the
buffer holds.  `forgotten`: bytes that are left over without a signal are not read until more of
them arrive.
-/

namespace SysProg
namespace IoServers
namespace Rts

open Run

section Program

def SZ_RECV_BUF : Nat := 16384

/-- `si_band`, by the bits that are tested. -/
inductive Band where
  | pollin
  | pollerr
deriving DecidableEq, Repr

/-- A pending SIGRT_NORM_IO. -/
structure Signal where
  fd : Nat
  band : Band
deriving DecidableEq, Repr

/--
A connection: what its peer has sent, what waits to be received, whether the peer has closed its
side or reset the connection, and the descriptor for which signals are queued.  The last four
fields are history: what was received and printed, whether the server has closed the connection,
whether something arrived before there were signals for it, and whether more arrived at once
than the buffer holds.
-/
structure Connection where
  sent : List UInt8
  queue : List UInt8
  ended : Bool
  reset : Bool
  armed : Option Nat
  received : List UInt8
  closed : Bool
  early : Bool
  long : Bool
deriving DecidableEq, Repr

def Connection.new : Connection :=
  ⟨[], [], false, false, none, [], false, false, false⟩

/-- Where the process is. -/
inductive Position where
  /-- in `add_rts_socket` for the listening socket -/
  | preparing
  /-- at `sigwaitinfo` -/
  | waiting
  /-- in `add_rts_socket` for a connection -/
  | adding (fd : Nat)
  /-- `accept` has failed, and the loop was left -/
  | returned
  /-- ended by SIGIO -/
  | terminated
deriving DecidableEq, Repr

def Position.running : Position → Bool
  | .returned => false
  | .terminated => false
  | _ => true

/--
The process and its kernel side.  Connections are numbered in the order in which they are made,
and `accept` takes them in this order; `conn` is the connection behind a descriptor.  `missed`
is history: the connections made before there were signals for the listening socket.
-/
structure Server where
  listener : Nat
  pos : Position
  conn : Nat → Option Nat
  conns : Nat → Connection
  made : Nat
  accepted : Nat
  listenSigs : Nat
  normSigs : List Signal
  missed : Nat

/-- After `make_listener`. -/
def Server.start (listener : Nat) : Server where
  listener := listener
  pos := .preparing
  conn := fun _ => none
  conns := fun _ => .new
  made := 0
  accepted := 0
  listenSigs := 0
  normSigs := []
  missed := 0

/-- What `recv` may return on a connection, `none` for -1. -/
def Connection.Returns (c : Connection) : Option (List UInt8) → Prop
  | none => (c.queue = [] ∧ c.ended = false) ∨ c.reset = true
  | some bytes =>
      bytes = c.queue.take SZ_RECV_BUF ∧ (bytes = [] → c.ended = true ∨ c.reset = true)

instance (c : Connection) (ret : Option (List UInt8)) : Decidable (c.Returns ret) :=
  match ret with
  | none => inferInstanceAs (Decidable (_ ∨ _))
  | some _ => inferInstanceAs (Decidable (_ ∧ _))

/-- What `recv` may return on a descriptor, which may be closed by now or open again. -/
def Server.Returns (s : Server) (fd : Nat) (ret : Option (List UInt8)) : Prop :=
  match s.conn fd with
  | none => ret = none
  | some c => (s.conns c).Returns ret

instance (s : Server) (fd : Nat) (ret : Option (List UInt8)) : Decidable (s.Returns fd ret) := by
  unfold Server.Returns
  split <;> infer_instance

def Server.setConn (s : Server) (c : Nat) (connection : Connection) : Server :=
  { s with conns := Function.update s.conns c connection }

/-- `recv` takes bytes from the queue, and they are printed. -/
def Connection.recv (c : Connection) (bytes : List UInt8) : Connection :=
  { c with
    queue := c.queue.drop bytes.length
    received := c.received ++ bytes }

/-- The branch of POLLIN, with the result of `recv`. -/
def Server.handle (s : Server) (fd : Nat) (ret : Option (List UInt8)) : Server :=
  match s.conn fd, ret with
  | some c, some [] =>
      { s with conn := Function.update s.conn fd none }.setConn c { s.conns c with closed := true }
  | some c, some (b :: bytes) => s.setConn c ((s.conns c).recv (b :: bytes))
  | _, _ => s

/-- The end of `add_rts_socket`. -/
def Server.added (s : Server) (fd : Nat) : Server :=
  match s.conn fd with
  | some c => { s with pos := .waiting }.setConn c { s.conns c with armed := some fd }
  | none => { s with pos := .waiting }

end Program

section Network

/-- The kernel queues a signal for the connection, if it has been prepared. -/
def Server.notify (s : Server) (c : Nat) (band : Band) : List Signal :=
  s.normSigs ++ ((s.conns c).armed.toList.map (fun fd => ⟨fd, band⟩))

def Connection.arrive (c : Connection) (bytes : List UInt8) : Connection :=
  { c with
    sent := c.sent ++ bytes
    queue := c.queue ++ bytes
    early := c.early || c.armed.isNone
    long := c.long || decide (SZ_RECV_BUF < bytes.length) }

def Connection.peerClose (c : Connection) : Connection :=
  { c with ended := true, early := c.early || c.armed.isNone }

/-- What is queued can still be received. -/
def Connection.peerReset (c : Connection) : Connection :=
  { c with reset := true }

/-- The peer can still use the connection. -/
def Server.Usable (s : Server) (c : Nat) : Prop :=
  s.pos.running = true ∧ c < s.made ∧ (s.conns c).closed = false ∧ (s.conns c).reset = false

instance (s : Server) (c : Nat) : Decidable (s.Usable c) :=
  inferInstanceAs (Decidable (_ ∧ _))

inductive Label where
  | connect
  | arrive (c : Nat) (bytes : List UInt8)
  | peerClose (c : Nat)
  | peerReset (c : Nat)
  | overflow
  /-- `add_rts_socket` returns -/
  | added
  /-- SIGRT_LISTEN_IO and `accept`, with the new descriptor -/
  | accept (ret : Option Nat)
  /-- SIGRT_NORM_IO, with the result of `recv` if it is called -/
  | normal (ret : Option (List UInt8))
deriving DecidableEq, Repr

def normalStep (s : Server) (ret : Option (List UInt8)) : Option Server :=
  match s.normSigs with
  | [] => none
  | ⟨fd, .pollin⟩ :: rest =>
      if s.Returns fd ret then some ({ s with normSigs := rest }.handle fd ret) else none
  | ⟨_, .pollerr⟩ :: rest => some { s with normSigs := rest }

def acceptStep (s : Server) : Option Nat → Option Server
  | none => some { s with listenSigs := s.listenSigs - 1, pos := .returned }
  | some fd =>
      if s.accepted < s.made ∧ fd ≠ s.listener ∧ s.conn fd = none then
        some { s with
          listenSigs := s.listenSigs - 1
          conn := Function.update s.conn fd (some s.accepted)
          accepted := s.accepted + 1
          pos := .adding fd }
      else none

def step (s : Server) : Label → Option Server
  | .connect =>
      if s.pos = .preparing then some { s with made := s.made + 1, missed := s.missed + 1 }
      else if s.pos.running then
        some { s with made := s.made + 1, listenSigs := s.listenSigs + 1 }
      else none
  | .arrive c bytes =>
      if s.Usable c ∧ (s.conns c).ended = false then
        some ({ s with normSigs := s.notify c .pollin }.setConn c ((s.conns c).arrive bytes))
      else none
  | .peerClose c =>
      if s.Usable c ∧ (s.conns c).ended = false then
        some ({ s with normSigs := s.notify c .pollin }.setConn c (s.conns c).peerClose)
      else none
  | .peerReset c =>
      if s.Usable c then
        some ({ s with normSigs := s.notify c .pollerr }.setConn c (s.conns c).peerReset)
      else none
  | .overflow => if s.pos.running then some { s with pos := .terminated } else none
  | .added =>
      match s.pos with
      | .preparing => some { s with pos := .waiting }
      | .adding fd => some (s.added fd)
      | _ => none
  | .accept ret => if s.pos = .waiting ∧ 0 < s.listenSigs then acceptStep s ret else none
  | .normal ret => if s.pos = .waiting ∧ s.listenSigs = 0 then normalStep s ret else none

end Network

section Told

variable {s s' : Server} {l : Label} {c fd : Nat} {connection : Connection}

/-- The signals that make the server read from a descriptor. -/
def Server.pending (s : Server) (fd : Nat) : Nat :=
  s.normSigs.count ⟨fd, .pollin⟩

/-- The server is told of everything that happens to the connection. -/
def Connection.Regular (c : Connection) : Prop :=
  c.early = false ∧ c.long = false ∧ c.reset = false

/-- What holds of a connection by itself. -/
structure Connection.Fair (c : Connection) : Prop where
  whole : c.received ++ c.queue = c.sent
  quiet : c.armed = none → c.early = false → c.queue = [] ∧ c.ended = false
  finished : c.closed = true → c.queue = []

/--
With `n` signals pending there is not more to be read than `n` calls of `recv` can take; if the
stream has ended, then one of them is left for its end.
-/
def Connection.Covered (c : Connection) (n : Nat) : Prop :=
  c.Regular → c.ended.toNat ≤ n ∧ c.queue.length ≤ SZ_RECV_BUF * (n - c.ended.toNat)

theorem fair_new :
    Connection.new.Fair := by
  constructor <;> simp [Connection.new]

theorem Connection.Covered.mono
    {n m : Nat}
    (h : connection.Covered n)
    (hle : n ≤ m) :
    connection.Covered m := by
  intro hregular
  obtain ⟨hended, hlength⟩ := h hregular
  refine ⟨hended.trans hle, hlength.trans ?_⟩
  exact Nat.mul_le_mul_left _ (Nat.sub_le_sub_right hle _)

theorem Connection.Fair.covered_of_unarmed
    (h : connection.Fair)
    (harmed : connection.armed = none)
    (n : Nat) :
    connection.Covered n := by
  intro hregular
  obtain ⟨hqueue, hended⟩ := h.quiet harmed hregular.1
  simp [hqueue, hended]

theorem Connection.Fair.arrive
    {bytes : List UInt8}
    (h : connection.Fair)
    (hclosed : connection.closed = false) :
    (connection.arrive bytes).Fair := by
  refine ⟨?_, ?_, ?_⟩
  · simp only [Connection.arrive, ← List.append_assoc, h.whole]
  · intro harmed hearly
    have hnone : connection.armed = none := harmed
    simp [Connection.arrive, hnone] at hearly
  · intro h'
    exact absurd (hclosed.symm.trans h') (by decide)

theorem Connection.Fair.peerClose
    (h : connection.Fair)
    (hclosed : connection.closed = false) :
    connection.peerClose.Fair := by
  refine ⟨h.whole, ?_, ?_⟩
  · intro harmed hearly
    have hnone : connection.armed = none := harmed
    simp [Connection.peerClose, hnone] at hearly
  · intro h'
    exact absurd (hclosed.symm.trans h') (by decide)

theorem Connection.Fair.peerReset
    (h : connection.Fair) :
    connection.peerReset.Fair :=
  ⟨h.whole, h.quiet, h.finished⟩

theorem Connection.Fair.recv
    {bytes : List UInt8}
    (h : connection.Fair)
    (hreturns : connection.Returns (some bytes))
    (hclosed : connection.closed = false) :
    (connection.recv bytes).Fair := by
  obtain ⟨later, hqueue⟩ : bytes <+: connection.queue := by
    rw [hreturns.1]
    exact List.take_prefix _ _
  have hall : (connection.recv bytes).received ++ (connection.recv bytes).queue =
      connection.received ++ connection.queue := by
    simp only [Connection.recv]
    rw [← hqueue, List.drop_left, List.append_assoc]
  refine ⟨hall.trans h.whole, ?_, ?_⟩
  · intro harmed hearly
    obtain ⟨hempty, hended⟩ := h.quiet harmed hearly
    simp [Connection.recv, hempty, hended]
  · intro h'
    exact absurd (hclosed.symm.trans h') (by decide)

theorem Connection.Fair.close
    (h : connection.Fair)
    (hreturns : connection.Returns (some [])) :
    ({ connection with closed := true } : Connection).Fair := by
  have hempty : connection.queue = [] := by
    rcases List.take_eq_nil_iff.mp hreturns.1.symm with hsize | hqueue
    · exact absurd hsize (by decide)
    · exact hqueue
  exact ⟨h.whole, h.quiet, fun _ => hempty⟩

/-- Bytes arrive on a prepared connection, and a signal with them. -/
theorem Connection.Covered.arrive
    {n : Nat} {bytes : List UInt8}
    (h : connection.Covered n)
    (hended : connection.ended = false)
    (hreset : connection.reset = false) :
    (connection.arrive bytes).Covered (n + 1) := by
  rintro ⟨hearly, hlong, _⟩
  simp only [Connection.arrive, Bool.or_eq_false_iff, decide_eq_false_iff_not] at hearly hlong
  obtain ⟨_, hlength⟩ := h ⟨hearly.1, hlong.1, hreset⟩
  simp only [Connection.arrive, hended, Bool.toNat_false, Nat.sub_zero, List.length_append,
    Nat.mul_add, Nat.mul_one] at hlength ⊢
  omega

theorem Connection.Covered.peerClose
    {n : Nat}
    (h : connection.Covered n)
    (hended : connection.ended = false) :
    connection.peerClose.Covered (n + 1) := by
  rintro ⟨hearly, hlong, hreset⟩
  simp only [Connection.peerClose, Bool.or_eq_false_iff] at hearly
  obtain ⟨_, hlength⟩ := h ⟨hearly.1, hlong, hreset⟩
  simp only [hended, Bool.toNat_false, Nat.sub_zero] at hlength
  simp only [Connection.peerClose, Bool.toNat_true, Nat.add_sub_cancel]
  exact ⟨Nat.le_add_left 1 n, hlength⟩

/-- One signal less after a `recv` that has failed, because there was nothing to read. -/
theorem Connection.Covered.recv_none
    {n : Nat}
    (hreturns : connection.Returns none) :
    connection.Covered n := by
  rintro ⟨_, _, hreset⟩
  rcases hreturns with ⟨hempty, hended⟩ | h
  · simp [hempty, hended]
  · rw [hreset] at h
    cases h

/-- One signal less after a `recv` that has filled the buffer or emptied the queue. -/
theorem Connection.Covered.recv
    {n : Nat} {bytes : List UInt8}
    (h : connection.Covered (n + 1))
    (hreturns : connection.Returns (some bytes))
    (hbytes : bytes ≠ []) :
    (connection.recv bytes).Covered n := by
  intro hregular
  obtain ⟨hended, hlength⟩ := h hregular
  have hlen : bytes.length = min SZ_RECV_BUF connection.queue.length := by
    rw [hreturns.1, List.length_take]
  have hpos : 0 < bytes.length := List.length_pos_iff.mpr hbytes
  -- there was something to read, so that one of the signals was not for the end of the stream
  have hle : connection.ended.toNat ≤ n := by
    by_contra hlt
    have hzero : n + 1 - connection.ended.toNat = 0 := by omega
    rw [hzero] at hlength
    omega
  have hsucc : n + 1 - connection.ended.toNat = (n - connection.ended.toNat) + 1 := by omega
  rw [hsucc, Nat.mul_add, Nat.mul_one] at hlength
  refine ⟨hle, ?_⟩
  simp only [Connection.recv, List.length_drop]
  omega

end Told

section Server

variable {s s' : Server} {l : Label} {c fd : Nat} {connection : Connection}

structure Invariant (s : Server) : Prop where
  fair : ∀ c, (s.conns c).Fair
  attached : ∀ fd c, s.conn fd = some c → c < s.accepted ∧ (s.conns c).closed = false
  once : ∀ fd fd' c, s.conn fd = some c → s.conn fd' = some c → fd = fd'
  known : ∀ c, c < s.accepted → (s.conns c).closed = true ∨ ∃ fd, s.conn fd = some c
  later : ∀ c, s.accepted ≤ c → (s.conns c).armed = none ∧ (s.conns c).closed = false
  armed : ∀ fd c, (s.conns c).armed = some fd → (s.conns c).closed = false → s.conn fd = some c
  covered : ∀ fd c, s.conn fd = some c → (s.conns c).Covered (s.pending fd)
  listen : s.pos.running = true → s.accepted + s.listenSigs + s.missed = s.made

theorem invariant_start
    (listener : Nat) :
    Invariant (Server.start listener) where
  fair := fun _ => fair_new
  attached := fun _ _ h => nomatch h
  once := fun _ _ _ h => nomatch h
  known := fun _ h => absurd h (Nat.not_lt_zero _)
  later := fun _ _ => ⟨rfl, rfl⟩
  armed := fun _ _ h => nomatch h
  covered := fun _ _ h => nomatch h
  listen := fun _ => rfl

/-- One connection changes, and with it the signals that are pending. -/
theorem Invariant.change
    {sigs : List Signal}
    (h : Invariant s)
    (hfair : connection.Fair)
    (harmed : connection.armed = (s.conns c).armed)
    (hclosed : connection.closed = (s.conns c).closed)
    (hcovered : ∀ fd, s.conn fd = some c → connection.Covered (sigs.count ⟨fd, .pollin⟩))
    (hothers : ∀ fd c', s.conn fd = some c' → c' ≠ c → s.pending fd ≤ sigs.count ⟨fd, .pollin⟩) :
    Invariant ({ s with normSigs := sigs }.setConn c connection) := by
  have hconns : ∀ c', Function.update s.conns c connection c' =
      if c' = c then connection else s.conns c' := by
    intro c'
    rw [Function.update_apply]
  have harmed' : ∀ c', (Function.update s.conns c connection c').armed = (s.conns c').armed := by
    intro c'
    rw [hconns]
    split_ifs with heq
    · rw [heq, harmed]
    · rfl
  have hclosed' : ∀ c', (Function.update s.conns c connection c').closed = (s.conns c').closed := by
    intro c'
    rw [hconns]
    split_ifs with heq
    · rw [heq, hclosed]
    · rfl
  refine ⟨?_, ?_, h.once, ?_, ?_, ?_, ?_, h.listen⟩
  · intro c'
    simp only [Server.setConn, hconns]
    split_ifs
    · exact hfair
    · exact h.fair c'
  · intro fd c' hfd
    simp only [Server.setConn, hclosed']
    exact h.attached fd c' hfd
  · intro c' hlt
    simp only [Server.setConn, hclosed']
    exact h.known c' hlt
  · intro c' hle
    simp only [Server.setConn, harmed', hclosed']
    exact h.later c' hle
  · intro fd c'
    simp only [Server.setConn, harmed', hclosed']
    exact h.armed fd c'
  · intro fd c' hfd
    simp only [Server.setConn, hconns, Server.pending]
    split_ifs with heq
    · exact hcovered fd (heq ▸ hfd)
    · exact (h.covered fd c' hfd).mono (hothers fd c' hfd heq)

/-- Only the signals change. -/
theorem Invariant.signals
    {sigs : List Signal}
    (h : Invariant s)
    (hcovered : ∀ fd c, s.conn fd = some c →
      (s.conns c).Covered (sigs.count ⟨fd, .pollin⟩)) :
    Invariant { s with normSigs := sigs } :=
  ⟨h.fair, h.attached, h.once, h.known, h.later, h.armed, hcovered, h.listen⟩

theorem pending_le_notify
    {band : Band} :
    s.pending fd ≤ (s.notify c band).count ⟨fd, .pollin⟩ := by
  rw [Server.notify, List.count_append]
  exact Nat.le_add_right _ _

/-- A connection that has been prepared gets its signals at its own descriptor. -/
theorem Invariant.count_notify
    (h : Invariant s)
    (hfd : s.conn fd = some c)
    (harmed : (s.conns c).armed ≠ none) :
    (s.notify c .pollin).count ⟨fd, .pollin⟩ = s.pending fd + 1 := by
  obtain ⟨fd', hfd'⟩ := Option.ne_none_iff_exists'.mp harmed
  have hsame : fd' = fd :=
    h.once fd' fd c (h.armed fd' c hfd' (h.attached fd c hfd).2) hfd
  simp [Server.notify, hfd', hsame, Server.pending]

/-- The network does something to a connection of which it is to tell the server. -/
theorem Invariant.network
    (h : Invariant s)
    (hfair : connection.Fair)
    (harmed : connection.armed = (s.conns c).armed)
    (hclosed : connection.closed = (s.conns c).closed)
    (hcovered : ∀ n, (s.conns c).Covered n → connection.Covered (n + 1)) :
    Invariant ({ s with normSigs := s.notify c .pollin }.setConn c connection) := by
  refine h.change hfair harmed hclosed ?_ (fun _ _ _ _ => pending_le_notify)
  intro fd hfd
  by_cases hnone : (s.conns c).armed = none
  · exact hfair.covered_of_unarmed (harmed.trans hnone) _
  · rw [h.count_notify hfd hnone]
    exact hcovered _ (h.covered fd c hfd)

theorem Invariant.peerReset
    (h : Invariant s) :
    Invariant ({ s with normSigs := s.notify c .pollerr }.setConn c (s.conns c).peerReset) := by
  refine h.change (h.fair c).peerReset rfl rfl ?_ (fun _ _ _ _ => pending_le_notify)
  rintro fd hfd ⟨_, _, hreset⟩
  cases hreset

theorem Invariant.goto
    {pos : Position}
    (h : Invariant s)
    (hrunning : pos.running = true → s.pos.running = true) :
    Invariant { s with pos := pos } :=
  ⟨h.fair, h.attached, h.once, h.known, h.later, h.armed, h.covered,
    fun hpos => h.listen (hrunning hpos)⟩

/-- `add_rts_socket` has finished with a connection. -/
theorem Invariant.prepare
    (h : Invariant s)
    (hfd : s.conn fd = some c) :
    Invariant (s.setConn c { s.conns c with armed := some fd }) := by
  have hconns : ∀ c', (s.setConn c { s.conns c with armed := some fd }).conns c' =
      if c' = c then { s.conns c with armed := some fd } else s.conns c' := by
    intro c'
    simp only [Server.setConn, Function.update_apply]
  have hclosed : ∀ c', ((s.setConn c { s.conns c with armed := some fd }).conns c').closed =
      (s.conns c').closed := by
    intro c'
    rw [hconns]
    split_ifs with heq
    · rw [heq]
    · rfl
  refine ⟨?_, ?_, h.once, ?_, ?_, ?_, ?_, h.listen⟩
  · intro c'
    rw [hconns]
    split_ifs
    · exact ⟨(h.fair c).whole, (fun harmed => nomatch harmed), (h.fair c).finished⟩
    · exact h.fair c'
  · intro fd' c' hfd'
    rw [hclosed]
    exact h.attached fd' c' hfd'
  · intro c' hlt
    rw [hclosed]
    exact h.known c' hlt
  · intro c' hle
    have hne : c' ≠ c := by
      have hlt := (h.attached fd c hfd).1
      have hle' : s.accepted ≤ c' := hle
      omega
    rw [hconns, if_neg hne]
    exact h.later c' hle
  · intro fd' c'
    rw [hconns]
    split_ifs with heq
    · intro harmed _
      rw [heq, ← Option.some.inj harmed]
      exact hfd
    · exact h.armed fd' c'
  · intro fd' c' hfd'
    rw [hconns]
    split_ifs with heq
    · have hold := h.covered fd' c' hfd'
      rw [heq] at hold
      exact hold
    · exact h.covered fd' c' hfd'

theorem Invariant.added
    (h : Invariant s)
    (hpos : s.pos = .adding fd) :
    Invariant (s.added fd) := by
  have hwaiting : Invariant { s with pos := .waiting } := by
    refine h.goto ?_
    intro _
    rw [hpos]
    rfl
  unfold Server.added
  split
  case h_1 c hfd =>
      exact hwaiting.prepare hfd
  case h_2 =>
      exact hwaiting

theorem Invariant.accept
    (h : Invariant s)
    (hfree : s.conn fd = none)
    (hsignal : 0 < s.listenSigs)
    (hrunning : s.pos.running = true) :
    Invariant { s with
      listenSigs := s.listenSigs - 1
      conn := Function.update s.conn fd (some s.accepted)
      accepted := s.accepted + 1
      pos := .adding fd } := by
  obtain ⟨hunarmed, hunclosed⟩ := h.later s.accepted (Nat.le_refl _)
  have hconn : ∀ fd' c', Function.update s.conn fd (some s.accepted) fd' = some c' →
      (fd' = fd ∧ c' = s.accepted) ∨ (fd' ≠ fd ∧ s.conn fd' = some c') := by
    intro fd' c' hfd'
    rw [Function.update_apply] at hfd'
    split_ifs at hfd' with heq
    · exact Or.inl ⟨heq, (Option.some.inj hfd').symm⟩
    · exact Or.inr ⟨heq, hfd'⟩
  have hkeep : ∀ fd' c', s.conn fd' = some c' →
      Function.update s.conn fd (some s.accepted) fd' = some c' := by
    intro fd' c' hfd'
    have hne : fd' ≠ fd := by
      rintro rfl
      rw [hfree] at hfd'
      cases hfd'
    rw [Function.update_of_ne hne, hfd']
  refine ⟨h.fair, ?_, ?_, ?_, ?_, ?_, ?_, ?_⟩
  · intro fd' c' hfd'
    rcases hconn fd' c' hfd' with ⟨_, rfl⟩ | ⟨_, hold⟩
    · exact ⟨Nat.lt_succ_self _, hunclosed⟩
    · obtain ⟨hlt, hopen⟩ := h.attached fd' c' hold
      exact ⟨Nat.lt_succ_of_lt hlt, hopen⟩
  · intro fd' fd'' c' hfd' hfd''
    rcases hconn fd' c' hfd' with ⟨rfl, rfl⟩ | ⟨_, hold⟩
    · rcases hconn fd'' _ hfd'' with ⟨rfl, _⟩ | ⟨_, hold⟩
      · rfl
      · exact absurd (h.attached fd'' _ hold).1 (Nat.lt_irrefl _)
    · rcases hconn fd'' c' hfd'' with ⟨_, rfl⟩ | ⟨_, hold'⟩
      · exact absurd (h.attached fd' _ hold).1 (Nat.lt_irrefl _)
      · exact h.once fd' fd'' c' hold hold'
  · intro c' hlt
    rcases Nat.lt_succ_iff_lt_or_eq.mp hlt with hold | rfl
    · rcases h.known c' hold with hclosed | ⟨fd', hfd'⟩
      · exact Or.inl hclosed
      · exact Or.inr ⟨fd', hkeep fd' c' hfd'⟩
    · exact Or.inr ⟨fd, Function.update_self ..⟩
  · intro c' hle
    exact h.later c' (Nat.le_of_succ_le hle)
  · intro fd' c' harmed hclosed
    exact hkeep fd' c' (h.armed fd' c' harmed hclosed)
  · intro fd' c' hfd'
    rcases hconn fd' c' hfd' with ⟨_, rfl⟩ | ⟨_, hold⟩
    · exact (h.fair s.accepted).covered_of_unarmed hunarmed _
    · exact h.covered fd' c' hold
  · intro _
    have hlisten := h.listen hrunning
    show s.accepted + 1 + (s.listenSigs - 1) + s.missed = s.made
    omega

/-- The stream has ended, and the server closes its descriptor. -/
theorem Invariant.close
    {sigs : List Signal}
    (h : Invariant s)
    (hfd : s.conn fd = some c)
    (hreturns : (s.conns c).Returns (some []))
    (hothers : ∀ fd', fd' ≠ fd → s.pending fd' ≤ sigs.count ⟨fd', .pollin⟩) :
    Invariant ({ s with normSigs := sigs, conn := Function.update s.conn fd none }.setConn c
      { s.conns c with closed := true }) := by
  have hconn : ∀ fd' c', Function.update s.conn fd none fd' = some c' →
      fd' ≠ fd ∧ c' ≠ c ∧ s.conn fd' = some c' := by
    intro fd' c' hfd'
    rw [Function.update_apply] at hfd'
    split_ifs at hfd' with heq
    refine ⟨heq, ?_, hfd'⟩
    rintro rfl
    exact heq (h.once fd' fd c' hfd' hfd)
  have hother : ∀ c', c' ≠ c →
      Function.update s.conns c { s.conns c with closed := true } c' = s.conns c' :=
    fun c' hne => Function.update_of_ne hne ..
  refine ⟨?_, ?_, ?_, ?_, ?_, ?_, ?_, h.listen⟩
  · refine (Function.forall_update_iff s.conns (p := fun _ connection => connection.Fair)).mpr ?_
    exact ⟨(h.fair c).close hreturns, fun c' _ => h.fair c'⟩
  · intro fd' c' hfd'
    obtain ⟨_, hne, hold⟩ := hconn fd' c' hfd'
    simp only [Server.setConn, hother c' hne]
    exact h.attached fd' c' hold
  · intro fd' fd'' c' hfd' hfd''
    exact h.once fd' fd'' c' (hconn fd' c' hfd').2.2 (hconn fd'' c' hfd'').2.2
  · intro c' hlt
    by_cases heq : c' = c
    · left
      rw [heq]
      simp [Server.setConn]
    · simp only [Server.setConn, hother c' heq]
      refine (h.known c' hlt).imp_right ?_
      rintro ⟨fd', hfd'⟩
      refine ⟨fd', (Function.update_of_ne ?_ ..).trans hfd'⟩
      rintro rfl
      exact heq (Option.some.inj (hfd'.symm.trans hfd))
  · intro c' hle
    have hne : c' ≠ c := by
      have hlt := (h.attached fd c hfd).1
      have hle' : s.accepted ≤ c' := hle
      omega
    simp only [Server.setConn, hother c' hne]
    exact h.later c' hle
  · intro fd' c' harmed hclosed
    by_cases heq : c' = c
    · rw [heq] at hclosed
      simp [Server.setConn] at hclosed
    · simp only [Server.setConn, hother c' heq] at harmed hclosed
      have hold := h.armed fd' c' harmed hclosed
      refine (Function.update_of_ne ?_ ..).trans hold
      rintro rfl
      exact heq (Option.some.inj (hold.symm.trans hfd))
  · intro fd' c' hfd'
    obtain ⟨hne, hnec, hold⟩ := hconn fd' c' hfd'
    simp only [Server.setConn, hother c' hnec]
    exact (h.covered fd' c' hold).mono (hothers fd' hne)

/-- What a SIGRT_NORM_IO can lead to. -/
inductive NormalEffect (s : Server) : Server → Prop
  /-- POLLERR, or a `recv` that fails -/
  | fails {sig : Signal} {rest : List Signal}
      (hsigs : s.normSigs = sig :: rest)
      (hreturns : sig.band = .pollin → ∀ c, s.conn sig.fd = some c → (s.conns c).Returns none) :
      NormalEffect s { s with normSigs := rest }
  | closes {fd c : Nat} {rest : List Signal}
      (hsigs : s.normSigs = ⟨fd, .pollin⟩ :: rest)
      (hfd : s.conn fd = some c)
      (hreturns : (s.conns c).Returns (some [])) :
      NormalEffect s
        ({ s with normSigs := rest, conn := Function.update s.conn fd none }.setConn c
          { s.conns c with closed := true })
  | receives {fd c : Nat} {rest : List Signal} {bytes : List UInt8}
      (hsigs : s.normSigs = ⟨fd, .pollin⟩ :: rest)
      (hfd : s.conn fd = some c)
      (hreturns : (s.conns c).Returns (some bytes))
      (hbytes : bytes ≠ []) :
      NormalEffect s ({ s with normSigs := rest }.setConn c ((s.conns c).recv bytes))

theorem effect_of_pollin
    {rest : List Signal} {ret : Option (List UInt8)}
    (hsigs : s.normSigs = ⟨fd, .pollin⟩ :: rest)
    (hreturns : s.Returns fd ret) :
    NormalEffect s (Server.handle { s with normSigs := rest } fd ret) := by
  unfold Server.Returns at hreturns
  cases hfd : s.conn fd with
  | none =>
      simp only [Server.handle, hfd]
      refine .fails hsigs ?_
      intro _ c hc
      exact absurd (hfd.symm.trans hc) (by simp)
  | some c =>
      simp only [hfd] at hreturns
      match ret with
      | none =>
          simp only [Server.handle, hfd]
          refine .fails hsigs ?_
          intro _ c' hc'
          rw [← Option.some.inj (hfd.symm.trans hc')]
          exact hreturns
      | some [] =>
          simp only [Server.handle, hfd]
          exact .closes hsigs hfd hreturns
      | some (b :: bytes) =>
          simp only [Server.handle, hfd]
          exact .receives hsigs hfd hreturns (List.cons_ne_nil b bytes)

theorem effect_of_normal
    {ret : Option (List UInt8)}
    (hstep : normalStep s ret = some s') :
    NormalEffect s s' := by
  unfold normalStep at hstep
  split at hstep
  case h_1 =>
      cases hstep
  case h_2 fd rest hsigs =>
      obtain ⟨hreturns, hstep⟩ := Option.ite_none_right_eq_some.mp hstep
      cases hstep
      exact effect_of_pollin hsigs hreturns
  case h_3 fd rest hsigs =>
      cases hstep
      exact .fails hsigs (fun hband => nomatch hband)

theorem pending_cons_self
    {rest : List Signal}
    (hsigs : s.normSigs = ⟨fd, .pollin⟩ :: rest) :
    s.pending fd = rest.count ⟨fd, .pollin⟩ + 1 := by
  rw [Server.pending, hsigs, List.count_cons_self]

theorem pending_cons_of_ne
    {sig : Signal} {rest : List Signal}
    (hsigs : s.normSigs = sig :: rest)
    (hne : sig ≠ ⟨fd, .pollin⟩) :
    s.pending fd = rest.count ⟨fd, .pollin⟩ := by
  rw [Server.pending, hsigs, List.count_cons_of_ne hne]

theorem signal_ne
    {fd' : Nat}
    (hne : fd' ≠ fd) :
    (⟨fd, .pollin⟩ : Signal) ≠ ⟨fd', .pollin⟩ := by
  intro heq
  exact hne (congrArg Signal.fd heq).symm

/-- A signal is taken; the call that it leads to makes up for it. -/
theorem Invariant.normal
    (h : Invariant s)
    (heffect : NormalEffect s s') :
    Invariant s' := by
  cases heffect with
  | @fails sig rest hsigs hreturns =>
      refine h.signals ?_
      intro fd c hfd
      by_cases hsig : sig = ⟨fd, .pollin⟩
      · subst hsig
        exact Connection.Covered.recv_none (hreturns rfl c hfd)
      · rw [← pending_cons_of_ne hsigs hsig]
        exact h.covered fd c hfd
  | @closes fd c rest hsigs hfd hreturns =>
      refine h.close hfd hreturns ?_
      intro fd' hne
      exact (pending_cons_of_ne hsigs (signal_ne hne)).le
  | @receives fd c rest bytes hsigs hfd hreturns hbytes =>
      have hclosed := (h.attached fd c hfd).2
      refine h.change ((h.fair c).recv hreturns hclosed) rfl rfl ?_ ?_
      · intro fd' hfd'
        rw [h.once fd' fd c hfd' hfd]
        refine Connection.Covered.recv ?_ hreturns hbytes
        rw [← pending_cons_self hsigs]
        exact h.covered fd c hfd
      · intro fd' c' hfd' hne
        refine (pending_cons_of_ne hsigs (signal_ne ?_)).le
        rintro rfl
        exact hne (Option.some.inj (hfd'.symm.trans hfd))

theorem Invariant.step
    (h : Invariant s)
    (hstep : step s l = some s') :
    Invariant s' := by
  cases l with
  | connect =>
      simp only [Rts.step] at hstep
      split_ifs at hstep with hpos hrunning
      · cases hstep
        refine ⟨h.fair, h.attached, h.once, h.known, h.later, h.armed, h.covered, ?_⟩
        intro hrunning
        have hlisten := h.listen hrunning
        show s.accepted + s.listenSigs + (s.missed + 1) = s.made + 1
        omega
      · cases hstep
        refine ⟨h.fair, h.attached, h.once, h.known, h.later, h.armed, h.covered, ?_⟩
        intro hrunning
        have hlisten := h.listen hrunning
        show s.accepted + (s.listenSigs + 1) + s.missed = s.made + 1
        omega
  | arrive c bytes =>
      obtain ⟨⟨⟨_, _, hclosed, hreset⟩, hended⟩, hstep⟩ := Option.ite_none_right_eq_some.mp hstep
      cases hstep
      exact h.network ((h.fair c).arrive hclosed) rfl rfl
        (fun n hcovered => hcovered.arrive hended hreset)
  | peerClose c =>
      obtain ⟨⟨⟨_, _, hclosed, _⟩, hended⟩, hstep⟩ := Option.ite_none_right_eq_some.mp hstep
      cases hstep
      exact h.network ((h.fair c).peerClose hclosed) rfl rfl
        (fun n hcovered => hcovered.peerClose hended)
  | peerReset c =>
      obtain ⟨_, hstep⟩ := Option.ite_none_right_eq_some.mp hstep
      cases hstep
      exact h.peerReset
  | overflow =>
      obtain ⟨_, hstep⟩ := Option.ite_none_right_eq_some.mp hstep
      cases hstep
      exact h.goto (fun hrunning => nomatch hrunning)
  | added =>
      simp only [Rts.step] at hstep
      split at hstep
      case h_1 hpos =>
          cases hstep
          refine h.goto ?_
          intro _
          rw [hpos]
          rfl
      case h_2 fd hpos =>
          cases hstep
          exact h.added hpos
      case h_3 =>
          cases hstep
  | accept ret =>
      obtain ⟨⟨hpos, hsignal⟩, hstep⟩ := Option.ite_none_right_eq_some.mp hstep
      cases ret with
      | none =>
          cases hstep
          exact ⟨h.fair, h.attached, h.once, h.known, h.later, h.armed, h.covered,
            fun hrunning => nomatch hrunning⟩
      | some fd =>
          obtain ⟨⟨_, _, hfree⟩, hstep⟩ := Option.ite_none_right_eq_some.mp hstep
          cases hstep
          exact h.accept hfree hsignal (by rw [hpos]; rfl)
  | normal ret =>
      obtain ⟨_, hstep⟩ := Option.ite_none_right_eq_some.mp hstep
      exact h.normal (effect_of_normal hstep)

theorem invariant_run
    {listener : Nat} {ls : List Label}
    (hrun : run Rts.step (Server.start listener) ls = some s) :
    Invariant s :=
  run_invariant (fun _ _ _ h hstep => h.step hstep) (invariant_start listener) hrun

end Server

section Results

variable {s s' : Server} {l : Label} {c fd : Nat}

/-- Nothing is to be read where no signal is pending. -/
theorem Invariant.drained
    (h : Invariant s)
    (hnone : s.normSigs = [])
    (hc : c < s.accepted)
    (hregular : (s.conns c).Regular) :
    (s.conns c).received = (s.conns c).sent ∧
      ((s.conns c).ended = true → (s.conns c).closed = true) := by
  have hwhole := (h.fair c).whole
  rcases h.known c hc with hclosed | ⟨fd, hfd⟩
  · rw [(h.fair c).finished hclosed, List.append_nil] at hwhole
    exact ⟨hwhole, fun _ => hclosed⟩
  · have hpending : s.pending fd = 0 := by
      rw [Server.pending, hnone]
      rfl
    obtain ⟨hended, hlength⟩ := h.covered fd c hfd hregular
    rw [hpending] at hended
    rw [hpending, Nat.zero_sub, Nat.mul_zero] at hlength
    have hempty : (s.conns c).queue = [] := by
      rw [← List.length_eq_zero_iff]
      omega
    rw [hempty, List.append_nil] at hwhole
    refine ⟨hwhole, ?_⟩
    intro hended'
    rw [hended'] at hended
    exact absurd hended (by decide)

/-- A connection that no signal speaks of, with what has been received from it. -/
structure Silent (fd c : Nat) (received : List UInt8) (s : Server) : Prop where
  invariant : Invariant s
  attached : s.conn fd = some c
  none : s.pending fd = 0
  received : (s.conns c).received = received

/-- Something arrives at the connection. -/
def Label.wakes : Label → Nat → Bool
  | .arrive c' _, c => c' = c
  | .peerClose c', c => c' = c
  | _, _ => false

theorem Invariant.count_notify_of_ne
    {c' : Nat} {band : Band}
    (h : Invariant s)
    (hfd : s.conn fd = some c)
    (hne : c' ≠ c)
    (hclosed : (s.conns c').closed = false) :
    (s.notify c' band).count ⟨fd, .pollin⟩ = s.pending fd := by
  rw [Server.notify, List.count_append, Server.pending, Nat.add_eq_left, List.count_eq_zero]
  intro hmem
  obtain ⟨fd', harmed, heq⟩ := List.mem_map.mp hmem
  have hsame : fd' = fd := congrArg Signal.fd heq
  have hplace := h.armed fd' c' (Option.mem_toList.mp harmed) hclosed
  rw [hsame, hfd] at hplace
  exact hne (Option.some.inj hplace).symm

/-- Another connection changes, or nothing is received from this one. -/
theorem Silent.change
    {received : List UInt8} {c' : Nat} {connection : Connection} {sigs : List Signal}
    (h : Silent fd c received s)
    (hnext : Invariant ({ s with normSigs := sigs }.setConn c' connection))
    (hcount : sigs.count ⟨fd, .pollin⟩ = s.pending fd)
    (hreceived : c' = c → connection.received = (s.conns c).received) :
    Silent fd c received ({ s with normSigs := sigs }.setConn c' connection) := by
  refine ⟨hnext, h.attached, hcount.trans h.none, ?_⟩
  simp only [Server.setConn, Function.update_apply]
  split_ifs with heq
  · rw [hreceived heq.symm, h.received]
  · exact h.received

/-- A signal is taken, which is not one for this connection. -/
theorem Silent.normal
    {received : List UInt8}
    (h : Silent fd c received s)
    (heffect : NormalEffect s s') :
    Silent fd c received s' := by
  have hnext := h.invariant.normal heffect
  have hsig : ∀ sig rest, s.normSigs = sig :: rest → sig ≠ ⟨fd, .pollin⟩ := by
    rintro sig rest hsigs rfl
    have hsucc := pending_cons_self hsigs
    rw [h.none] at hsucc
    cases hsucc
  cases heffect with
  | @fails sig rest hsigs hreturns =>
      have hcount := pending_cons_of_ne hsigs (hsig sig rest hsigs)
      exact ⟨hnext, h.attached, hcount.symm.trans h.none, h.received⟩
  | @closes fd' c' rest hsigs hfd' hreturns =>
      have hcount := pending_cons_of_ne hsigs (hsig _ rest hsigs)
      have hne : fd ≠ fd' := by
        rintro rfl
        exact hsig _ rest hsigs rfl
      have hother : c ≠ c' := by
        rintro rfl
        exact hne (h.invariant.once fd fd' c h.attached hfd')
      refine ⟨hnext, ?_, hcount.symm.trans h.none, ?_⟩
      · exact (Function.update_of_ne hne ..).trans h.attached
      · simpa [Server.setConn, Function.update_of_ne hother] using h.received
  | @receives fd' c' rest bytes hsigs hfd' hreturns hbytes =>
      refine h.change hnext (pending_cons_of_ne hsigs (hsig _ rest hsigs)).symm ?_
      rintro rfl
      have hsame := h.invariant.once fd' fd c' hfd' h.attached
      exact absurd (hsame ▸ rfl) (hsig _ rest hsigs)

theorem Silent.step
    {received : List UInt8}
    (h : Silent fd c received s)
    (hquiet : l.wakes c = false)
    (hstep : step s l = some s') :
    Silent fd c received s' := by
  have hnext := h.invariant.step hstep
  cases l with
  | connect =>
      simp only [Rts.step] at hstep
      split_ifs at hstep <;>
        · cases hstep
          exact ⟨hnext, h.attached, h.none, h.received⟩
  | arrive c' bytes =>
      obtain ⟨⟨⟨_, _, hclosed, _⟩, _⟩, hstep⟩ := Option.ite_none_right_eq_some.mp hstep
      cases hstep
      have hne : c' ≠ c := by simpa [Label.wakes] using hquiet
      exact h.change hnext (h.invariant.count_notify_of_ne h.attached hne hclosed)
        (fun heq => absurd heq hne)
  | peerClose c' =>
      obtain ⟨⟨⟨_, _, hclosed, _⟩, _⟩, hstep⟩ := Option.ite_none_right_eq_some.mp hstep
      cases hstep
      have hne : c' ≠ c := by simpa [Label.wakes] using hquiet
      exact h.change hnext (h.invariant.count_notify_of_ne h.attached hne hclosed)
        (fun heq => absurd heq hne)
  | peerReset c' =>
      obtain ⟨_, hstep⟩ := Option.ite_none_right_eq_some.mp hstep
      cases hstep
      refine h.change hnext ?_ (fun heq => by rw [heq]; rfl)
      -- SIGRT_NORM_IO with POLLERR, for which `recv` is not called
      rw [Server.notify, List.count_append, Server.pending, Nat.add_eq_left, List.count_eq_zero]
      simp
  | overflow =>
      obtain ⟨_, hstep⟩ := Option.ite_none_right_eq_some.mp hstep
      cases hstep
      exact ⟨hnext, h.attached, h.none, h.received⟩
  | added =>
      simp only [Rts.step] at hstep
      split at hstep
      case h_1 =>
          cases hstep
          exact ⟨hnext, h.attached, h.none, h.received⟩
      case h_2 fd' hpos =>
          cases hstep
          unfold Server.added at hnext ⊢
          split
          case h_1 c' hfd' =>
              simp only [hfd'] at hnext
              refine ⟨hnext, h.attached, h.none, ?_⟩
              simp only [Server.setConn, Function.update_apply]
              split_ifs with heq
              · rw [← heq, h.received]
              · exact h.received
          case h_2 hfd' =>
              simp only [hfd'] at hnext
              exact ⟨hnext, h.attached, h.none, h.received⟩
      case h_3 =>
          cases hstep
  | accept ret =>
      obtain ⟨_, hstep⟩ := Option.ite_none_right_eq_some.mp hstep
      cases ret with
      | none =>
          cases hstep
          exact ⟨hnext, h.attached, h.none, h.received⟩
      | some fd' =>
          obtain ⟨⟨_, _, hfree⟩, hstep⟩ := Option.ite_none_right_eq_some.mp hstep
          cases hstep
          have hne : fd ≠ fd' := by
            rintro rfl
            exact absurd (hfree.symm.trans h.attached) (by simp)
          exact ⟨hnext, (Function.update_of_ne hne ..).trans h.attached, h.none, h.received⟩
  | normal ret =>
      obtain ⟨_, hstep⟩ := Option.ite_none_right_eq_some.mp hstep
      exact h.normal (effect_of_normal hstep)

/--
If no signal is pending for a connection, then nothing more is received from it, whatever else
happens, until something arrives from its peer.  So what came before `add_rts_socket` had
finished, or did not fit the buffer, is left unread.
-/
theorem forgotten
    {listener : Nat} {ls es : List Label}
    (hrun : run Rts.step (Server.start listener) ls = some s)
    (hfd : s.conn fd = some c)
    (hnone : s.pending fd = 0)
    (hquiet : ∀ l ∈ es, l.wakes c = false)
    (hlater : run Rts.step s es = some s') :
    (s'.conns c).received = (s.conns c).received ∧ s'.conn fd = some c := by
  have h : Silent fd c (s.conns c).received s := ⟨invariant_run hrun, hfd, hnone, rfl⟩
  have h' : Silent fd c (s.conns c).received s' :=
    run_invariant_along (G := fun _ l => l.wakes c = false)
      (fun _ _ _ h hquiet hstep => h.step hquiet hstep) h (along_of_forall_mem hquiet s) hlater
  exact ⟨h'.received, h'.attached⟩

/-- Two bytes arrive between `accept` and the end of `add_rts_socket`. -/
def earlyBytes : List Label :=
  [.added, .connect, .accept (some 4), .arrive 0 [104, 105], .added]

def anotherClient : List Label :=
  [.connect, .accept (some 5), .added, .arrive 1 [106], .normal (some [106])]

theorem forgotten_earlyBytes :
    ∃ s s',
      run Rts.step (Server.start 3) earlyBytes = some s ∧
      run Rts.step s anotherClient = some s' ∧
      s'.normSigs = [] ∧
      (s'.conns 0).queue = [104, 105] ∧
      (s'.conns 0).received = (s.conns 0).received := by
  have hrun : run Rts.step (Server.start 3) earlyBytes = some _ := rfl
  refine ⟨_, _, hrun, rfl, rfl, rfl, ?_⟩
  exact (@forgotten _ _ 0 4 3 earlyBytes anotherClient hrun rfl rfl (by decide) rfl).1

end Results

end Rts
end IoServers
end SysProg
