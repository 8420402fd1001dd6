import SysProg.Lib.CString
import SysProg.Lib.Run
import SysProg.Lib.SlotTable
import Mathlib.Tactic

/-!
# The chat server sp/select/serv.c

The main loop hands all its sockets to `select`, accepts one client if the
listening socket is ready, and scans the client table: what a ready client sent
is sent to every client, unless it contains "exit", which removes the client like
a disconnect does.  A removal moves the last client into the freed slot.

**Steps.**  A label is one system call with its result, one turn of a loop that
makes no call (`next`), or the reset of a connection by its peer.

**Kernel.**  `conn` gives the connection behind every open descriptor; `accept`
returns any descriptor that is not open.  A `send` to a connection that the peer
has reset raises SIGPIPE, which ends the process.

**Undefined behaviour.**  The process leaves the defined behaviour of C, to the
state `undefined`, when `recv` returns -1 (`buf[-1] = 0`), when a client is stored
behind the end of the table, and when a descriptor outside the range of an
`fd_set` is used with `FD_SET` or `FD_ISSET`.
-/

namespace SysProg
namespace Chat

open SlotTable CString

def MAXLINE : Nat := 511
def MAXSOCK : Nat := 1024
def FD_SETSIZE : Int := 1024

/-- "exit" -/
def exitString : List UInt8 := [101, 120, 105, 116]

/-- "connected to char_server\n" -/
def startString : List UInt8 :=
  [99, 111, 110, 110, 101, 99, 116, 101, 100, 32, 116, 111, 32,
    99, 104, 97, 114, 95, 115, 101, 114, 118, 101, 114, 10]

section Program

/-- Where the main loop is. -/
inductive Pc where
  /-- the top of the loop, before the set for `select` is built -/
  | top
  | select
  | accept
  /-- the `send` of the start string to a new client -/
  | welcome (sock : Int)
  /-- the head of the scan loop -/
  | scan (i : Nat)
  /-- the head of the loop that sends what client `i` sent -/
  | broadcast (i j : Nat) (msg : List UInt8)
  | terminated
  | undefined
deriving DecidableEq, Repr

/--
The globals and locals of the program and the kernel's view of its sockets.  The
last three fields are history: for every connection the results of `recv` on it
and the messages broadcast for it, and all calls of `send`.
-/
structure State where
  listenSock : Int
  clisockList : Nat → Int
  numChat : Nat
  readFds : Int → Bool
  maxfdp1 : Int
  pc : Pc
  conn : Int → Option Nat
  nextConn : Nat
  reset : Nat → Bool
  rcvd : Nat → List (List UInt8)
  casts : Nat → List (List UInt8)
  sent : List (Int × List UInt8)

/-- The clients in the table. -/
def State.socks (s : State) : List Int :=
  live s.clisockList s.numChat

def FD_SET (fd : Int) (fds : Int → Bool) : Int → Bool :=
  Function.update fds fd true

/-- The descriptor has a bit in an `fd_set`. -/
def InSet (fd : Int) : Prop :=
  0 ≤ fd ∧ fd < FD_SETSIZE

instance (fd : Int) : Decidable (InSet fd) :=
  inferInstanceAs (Decidable (_ ∧ _))

/-- The set built at the top of the loop. -/
def State.selectFds (s : State) : Int → Bool :=
  s.socks.foldl (fun fds sock => FD_SET sock fds)
    (FD_SET s.listenSock (fun _ => false))

def State.getmax (s : State) : Int :=
  s.socks.foldl (fun max sock => if sock > max then sock else max) s.listenSock

/-- `addclient`, after `accept` has returned `sock` for a new connection. -/
def State.addclient (s : State) (sock : Int) : State :=
  if s.numChat < MAXSOCK then
    { s with
      clisockList := Function.update s.clisockList s.numChat sock
      numChat := s.numChat + 1
      conn := Function.update s.conn sock (some s.nextConn)
      nextConn := s.nextConn + 1
      pc := .welcome sock }
  else { s with pc := .undefined }

def State.removeclient (s : State) (i : Nat) : State :=
  { s with
    conn := Function.update s.conn (s.clisockList i) none
    clisockList := moveLast s.clisockList s.numChat i
    numChat := s.numChat - 1 }

/-- `strstr(buf, exit_string) != NULL` for a received message. -/
def exitsOn (msg : List UInt8) : Bool :=
  (strstr (cstr msg) exitString).isSome

/-- `send`, which raises SIGPIPE on a connection that the peer has reset. -/
def State.sendTo (s : State) (sock : Int) (bytes : List UInt8) (pc : Pc) : State :=
  match s.conn sock with
  | none => { s with pc := pc, sent := s.sent ++ [(sock, bytes)] }
  | some c =>
      if s.reset c then { s with pc := .terminated }
      else { s with pc := pc, sent := s.sent ++ [(sock, bytes)] }

/-- Add an entry to the history of a connection. -/
def record
    (history : Nat → List (List UInt8)) (c : Option Nat) (msg : List UInt8) :
    Nat → List (List UInt8) :=
  match c with
  | none => history
  | some c => Function.update history c (history c ++ [msg])

/-- The body of the scan loop for a ready client, with the result of `recv`. -/
def State.recvFrom (s : State) (i : Nat) : Option (List UInt8) → State
  | none => { s with pc := .undefined }
  | some [] => { s.removeclient i with pc := .scan (i + 1) }
  | some msg =>
      if exitsOn msg then
        { s.removeclient i with
          rcvd := record s.rcvd (s.conn (s.clisockList i)) msg
          pc := .scan (i + 1) }
      else
        { s with
          rcvd := record s.rcvd (s.conn (s.clisockList i)) msg
          casts := record s.casts (s.conn (s.clisockList i)) msg
          pc := .broadcast i 0 msg }

end Program

section System

inductive Label where
  | next
  | select (ready : List Int)
  | selectError
  | accept (sock : Int)
  | acceptError
  | nameinfoError
  | send
  /-- the bytes that `recv` returned, or -1 -/
  | recv (ret : Option (List UInt8))
  | peerReset (c : Nat)
deriving DecidableEq, Repr

/-- What the kernel may return from `select`. -/
def SelectReturns (s : State) (ready : List Int) : Prop :=
  ready ≠ [] ∧ ∀ fd ∈ ready, s.readFds fd = true ∧ fd < s.maxfdp1

instance (s : State) (ready : List Int) : Decidable (SelectReturns s ready) :=
  inferInstanceAs (Decidable (_ ∧ _))

/-- A descriptor that the kernel may return from `accept`. -/
def Unused (s : State) (sock : Int) : Prop :=
  0 ≤ sock ∧ sock ≠ s.listenSock ∧ s.conn sock = none

instance (s : State) (sock : Int) : Decidable (Unused s sock) :=
  inferInstanceAs (Decidable (_ ∧ _))

/-- What the kernel may return from `recv`; on a closed descriptor it fails. -/
def RecvReturns (s : State) (sock : Int) : Option (List UInt8) → Prop
  | none => True
  | some bytes => bytes.length ≤ MAXLINE ∧ s.conn sock ≠ none

instance (s : State) (sock : Int) (ret : Option (List UInt8)) :
    Decidable (RecvReturns s sock ret) :=
  match ret with
  | none => .isTrue trivial
  | some bytes => inferInstanceAs (Decidable (bytes.length ≤ MAXLINE ∧ s.conn sock ≠ none))

/-- The parts of the main loop without a system call. -/
def nextStep (s : State) : Option State :=
  match s.pc with
  | .top =>
      if ∀ fd ∈ s.listenSock :: s.socks, InSet fd then
        some
          { s with readFds := s.selectFds, maxfdp1 := s.getmax + 1, pc := .select }
      else some { s with pc := .undefined }
  | .scan i =>
      if i < s.numChat then
        if InSet (s.clisockList i) then
          if s.readFds (s.clisockList i) then none
          else some { s with pc := .scan (i + 1) }
        else some { s with pc := .undefined }
      else some { s with pc := .top }
  | .broadcast i j _ =>
      if j < s.numChat then none else some { s with pc := .scan (i + 1) }
  | _ => none

def sendStep (s : State) : Option State :=
  match s.pc with
  | .welcome sock => some (s.sendTo sock startString (.scan 0))
  | .broadcast i j msg =>
      if j < s.numChat then
        some (s.sendTo (s.clisockList j) msg (.broadcast i (j + 1) msg))
      else none
  | _ => none

def recvStep (s : State) (ret : Option (List UInt8)) : Option State :=
  match s.pc with
  | .scan i =>
      if i < s.numChat ∧ InSet (s.clisockList i) ∧
          s.readFds (s.clisockList i) = true ∧
          RecvReturns s (s.clisockList i) ret then
        some (s.recvFrom i ret)
      else none
  | _ => none

/-- One step of the server or of the network. -/
def step (s : State) : Label → Option State
  | .next => nextStep s
  | .select ready =>
      if s.pc = .select ∧ SelectReturns s ready then
        some
          { s with
            readFds := fun fd => decide (fd ∈ ready)
            pc := if s.listenSock ∈ ready then .accept else .scan 0 }
      else none
  | .selectError =>
      if s.pc = .select then some { s with pc := .terminated } else none
  | .accept sock =>
      if s.pc = .accept ∧ Unused s sock then some (s.addclient sock) else none
  | .acceptError =>
      if s.pc = .accept then some { s with pc := .terminated } else none
  | .nameinfoError =>
      if s.pc = .accept then some { s with pc := .terminated } else none
  | .send => sendStep s
  | .recv ret => recvStep s ret
  | .peerReset c =>
      if c < s.nextConn then
        some { s with reset := Function.update s.reset c true }
      else none

/-- The server with its listening socket and no client. -/
def State.start (listenSock : Int) : State where
  listenSock := listenSock
  clisockList := fun _ => 0
  numChat := 0
  readFds := fun _ => false
  maxfdp1 := 0
  pc := .top
  conn := fun _ => none
  nextConn := 0
  reset := fun _ => false
  rcvd := fun _ => []
  casts := fun _ => []
  sent := []

end System

section Effects

/--
What a step can do to the table, the connections and their histories.  All other
steps only move the control, the sets of `select` and the list of sends.
-/
inductive Effect (s : State) : Label → State → Prop
  | control {l : Label} {s' : State}
      (hlist : s'.clisockList = s.clisockList)
      (hnum : s'.numChat = s.numChat)
      (hconn : s'.conn = s.conn)
      (hnext : s'.nextConn = s.nextConn)
      (hreset : s'.reset = s.reset)
      (hrcvd : s'.rcvd = s.rcvd)
      (hcasts : s'.casts = s.casts) :
      Effect s l s'
  | reset {c : Nat}
      (hc : c < s.nextConn) :
      Effect s (.peerReset c) { s with reset := Function.update s.reset c true }
  | joined {sock : Int}
      (hsock : Unused s sock)
      (hroom : s.numChat < MAXSOCK) :
      Effect s (.accept sock)
        { s with
          clisockList := Function.update s.clisockList s.numChat sock
          numChat := s.numChat + 1
          conn := Function.update s.conn sock (some s.nextConn)
          nextConn := s.nextConn + 1
          pc := .welcome sock }
  /-- `recv` returned 0 -/
  | left {i c : Nat}
      (hi : i < s.numChat)
      (hc : s.conn (s.clisockList i) = some c) :
      Effect s (.recv (some [])) { s.removeclient i with pc := .scan (i + 1) }
  | exited {i c : Nat} {msg : List UInt8}
      (hi : i < s.numChat)
      (hc : s.conn (s.clisockList i) = some c)
      (hmsg : msg ≠ [] ∧ msg.length ≤ MAXLINE)
      (hexit : exitsOn msg = true) :
      Effect s (.recv (some msg))
        { s.removeclient i with
          rcvd := Function.update s.rcvd c (s.rcvd c ++ [msg])
          pc := .scan (i + 1) }
  | cast {i c : Nat} {msg : List UInt8}
      (hi : i < s.numChat)
      (hc : s.conn (s.clisockList i) = some c)
      (hmsg : msg ≠ [] ∧ msg.length ≤ MAXLINE)
      (hexit : exitsOn msg = false) :
      Effect s (.recv (some msg))
        { s with
          rcvd := Function.update s.rcvd c (s.rcvd c ++ [msg])
          casts := Function.update s.casts c (s.casts c ++ [msg])
          pc := .broadcast i 0 msg }

variable {s s' : State} {l : Label}

/-- A `send` ends the process or adds to the calls made. -/
theorem sendTo_eq_or
    (s : State) (sock : Int) (bytes : List UInt8) (pc : Pc) :
    s.sendTo sock bytes pc = { s with pc := .terminated } ∨
      s.sendTo sock bytes pc = { s with pc := pc, sent := s.sent ++ [(sock, bytes)] } := by
  unfold State.sendTo
  split
  · exact Or.inr rfl
  · split_ifs
    · exact Or.inl rfl
    · exact Or.inr rfl

theorem effect_sendTo
    (sock : Int) (bytes : List UInt8) (pc : Pc) :
    Effect s l (s.sendTo sock bytes pc) := by
  rcases sendTo_eq_or s sock bytes pc with heq | heq <;> rw [heq] <;>
    exact .control rfl rfl rfl rfl rfl rfl rfl

theorem nextStep_effect
    (hstep : nextStep s = some s') :
    Effect s l s' := by
  unfold nextStep at hstep
  split at hstep
  · split_ifs at hstep <;> cases hstep <;> exact .control rfl rfl rfl rfl rfl rfl rfl
  · split_ifs at hstep <;> cases hstep <;> exact .control rfl rfl rfl rfl rfl rfl rfl
  · split_ifs at hstep
    cases hstep
    exact .control rfl rfl rfl rfl rfl rfl rfl
  · cases hstep

theorem sendStep_effect
    (hstep : sendStep s = some s') :
    Effect s l s' := by
  unfold sendStep at hstep
  split at hstep
  · cases hstep
    exact effect_sendTo _ _ _
  · split_ifs at hstep
    cases hstep
    exact effect_sendTo _ _ _
  · cases hstep

theorem recvFrom_effect
    {i : Nat} {ret : Option (List UInt8)}
    (hi : i < s.numChat)
    (hret : RecvReturns s (s.clisockList i) ret) :
    Effect s (.recv ret) (s.recvFrom i ret) := by
  cases ret with
  | none =>
      exact .control rfl rfl rfl rfl rfl rfl rfl
  | some msg =>
      obtain ⟨hlen, hopen⟩ := hret
      obtain ⟨c, hc⟩ := Option.ne_none_iff_exists'.mp hopen
      cases msg with
      | nil =>
          exact .left hi hc
      | cons b msg =>
          simp only [State.recvFrom, hc, record]
          split_ifs with hexit
          · exact .exited hi hc ⟨by simp, hlen⟩ hexit
          · exact .cast hi hc ⟨by simp, hlen⟩ (by simpa using hexit)

theorem recvStep_effect
    {ret : Option (List UInt8)}
    (hstep : recvStep s ret = some s') :
    Effect s (.recv ret) s' := by
  unfold recvStep at hstep
  split at hstep
  · split_ifs at hstep with hready
    cases hstep
    exact recvFrom_effect hready.1 hready.2.2.2
  · cases hstep

/-- Every step has one of the effects. -/
theorem step_effect
    (hstep : step s l = some s') :
    Effect s l s' := by
  cases l with
  | next =>
      exact nextStep_effect hstep
  | select ready =>
      simp only [step] at hstep
      split_ifs at hstep <;> cases hstep <;> exact .control rfl rfl rfl rfl rfl rfl rfl
  | selectError =>
      simp only [step] at hstep
      split_ifs at hstep
      cases hstep
      exact .control rfl rfl rfl rfl rfl rfl rfl
  | accept sock =>
      simp only [step] at hstep
      split_ifs at hstep with haccept
      cases hstep
      unfold State.addclient
      split_ifs with hroom
      · exact .joined haccept.2 hroom
      · exact .control rfl rfl rfl rfl rfl rfl rfl
  | acceptError =>
      simp only [step] at hstep
      split_ifs at hstep
      cases hstep
      exact .control rfl rfl rfl rfl rfl rfl rfl
  | nameinfoError =>
      simp only [step] at hstep
      split_ifs at hstep
      cases hstep
      exact .control rfl rfl rfl rfl rfl rfl rfl
  | send =>
      exact sendStep_effect hstep
  | recv ret =>
      exact recvStep_effect hstep
  | peerReset c =>
      simp only [step] at hstep
      split_ifs at hstep with hc
      cases hstep
      exact .reset hc

/-- After a removal the other connections are open as before. -/
theorem removeclient_conn
    {i c : Nat} {sock : Int}
    (h : (s.removeclient i).conn sock = some c) :
    s.conn sock = some c ∧ sock ≠ s.clisockList i := by
  by_cases heq : sock = s.clisockList i
  · subst heq
    simp [State.removeclient] at h
  · exact ⟨by simpa [State.removeclient, Function.update_of_ne heq] using h, heq⟩

end Effects

end Chat
end SysProg
