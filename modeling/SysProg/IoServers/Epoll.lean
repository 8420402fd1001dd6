import SysProg.Lib.Run
import Mathlib.Data.Finset.Insert
import Mathlib.Tactic

/-!
# The server ALSP/io_epoll.c

The server registers its listening socket and every accepted connection with epoll.  For a batch
of events it accepts until `accept` fails, prints what a connection has received, and takes a
connection whose peer has closed it off the interest list and closes it.

The batch is a snapshot: between `epoll_wait` and the handling of an event, earlier events of
the batch close descriptors, and `accept` hands their numbers out again.

**Steps.**  One return of `epoll_wait`, one event of the batch, one call of `accept`, or
something that the network does: bytes arrive, the peer closes its side, the connection is
reset.  The kernel reports a registered descriptor once in a batch.  `ADD_EV` and `DEL_EV` end
the process if `epoll_ctl` fails.

**Results.**  `watches_open_connections`: the interest list is always the listening socket and
the open connections, an event is handled for the connection that it was reported for, and only
a lack of resources in `ADD_EV` ends the process.  `receives_streams`: what is received from a
connection and printed is the start of what its peer sent, and all of it when the server closes
the connection, unless the connection was reset.
-/

namespace SysProg
namespace IoServers
namespace Epoll

open Run

section Program

def maxEpEvents : Nat := 256

/-- `sizeof(buf)` -/
def recvSize : Nat := 1024

/-- `struct epoll_event`, with the bits that are tested. -/
structure Event where
  fd : Int
  epollin : Bool
  epollpri : Bool
  epollerr : Bool
deriving DecidableEq, Repr

/-- Where the main loop is. -/
inductive Position where
  /-- in the `for` over the batch, or at `epoll_wait` when nothing is left -/
  | events (rest : List Event)
  /-- in the `while` around `accept` -/
  | accepting (rest : List Event)
  | exited
deriving DecidableEq, Repr

/-- The events that have not been handled yet. -/
def Position.rest : Position → List Event
  | .events rest => rest
  | .accepting rest => rest
  | .exited => []

/--
A connection: the bytes that its peer has sent, those that wait to be received, whether the peer
has closed its side or reset the connection.  The last two fields are history: the bytes
received and handed to `pr_out`, and whether the server has closed it.
-/
structure Connection where
  sent : List UInt8
  queue : List UInt8
  ended : Bool
  reset : Bool
  received : List UInt8
  closed : Bool
deriving DecidableEq, Repr

/--
The process and its kernel side.  `conn` is the connection behind an open descriptor;
connections are numbered in the order of `accept`.  `snapshot` is history: `conn` when
`epoll_wait` last returned.
-/
structure Server where
  listener : Int
  conn : Int → Option Nat
  epoll : Finset Int
  pos : Position
  nextConn : Nat
  conns : Nat → Connection
  snapshot : Int → Option Nat

/-- The descriptor is open. -/
def Server.IsOpen (s : Server) (fd : Int) : Prop :=
  fd = s.listener ∨ s.conn fd ≠ none

instance (s : Server) (fd : Int) : Decidable (s.IsOpen fd) :=
  inferInstanceAs (Decidable (_ ∨ _))

/-- `add_ev`; `fails` tells of a lack of resources. -/
def addEv (s : Server) (fd : Int) (fails : Bool) : Int × Server :=
  if fails = false ∧ s.IsOpen fd ∧ fd ∉ s.epoll then
    (0, { s with epoll := insert fd s.epoll })
  else (-1, s)

/-- `close` on a connection, which also drops it from the interest list. -/
def close (s : Server) (fd : Int) : Server :=
  { s with
    conn := Function.update s.conn fd none
    epoll := s.epoll.erase fd
    conns :=
      match s.conn fd with
      | none => s.conns
      | some c => Function.update s.conns c { s.conns c with closed := true } }

def delEv (s : Server) (fd : Int) : Int × Server :=
  if s.IsOpen fd ∧ fd ∈ s.epoll then (0, close { s with epoll := s.epoll.erase fd } fd)
  else (-1, s)

/-- `ADD_EV` in the accept loop. -/
def ADD_EV (s : Server) (fd : Int) (fails : Bool) (rest : List Event) : Server :=
  let (ret, s₁) := addEv s fd fails
  { s₁ with pos := if ret = -1 then .exited else .accepting rest }

def DEL_EV (s : Server) (fd : Int) (rest : List Event) : Server :=
  let (ret, s₁) := delEv s fd
  { s₁ with pos := if ret = -1 then .exited else .events rest }

/-- `recv` takes bytes from the queue, and they are printed. -/
def Connection.recv (c : Connection) (bytes : List UInt8) : Connection :=
  { c with
    queue := c.queue.drop bytes.length
    received := c.received ++ bytes }

def printRecv (s : Server) (fd : Int) (bytes : List UInt8) (rest : List Event) : Server :=
  { s with
    pos := .events rest
    conns :=
      match s.conn fd with
      | none => s.conns
      | some c => Function.update s.conns c ((s.conns c).recv bytes) }

/--
One turn of the `for`.  `ret` is the result of `recv`, `none` for -1; it is ignored where the
code does not call it.
-/
def handle (s : Server) (ev : Event) (rest : List Event) (ret : Option (List UInt8)) : Server :=
  if ev.epollin then
    if ev.fd = s.listener then { s with pos := .accepting rest }
    else
      match ret with
      | none => { s with pos := .events rest }
      | some [] => DEL_EV s ev.fd rest
      | some (b :: bytes) => printRecv s ev.fd (b :: bytes) rest
  else
    -- EPOLLPRI fetches the urgent byte, which is not part of the stream; the others only print
    { s with pos := .events rest }

end Program

section Environment

/-- What `recv` may return on a connection. -/
def Connection.Returns (c : Connection) (bytes : List UInt8) : Prop :=
  bytes <+: c.queue ∧ bytes.length ≤ recvSize ∧
    (bytes = [] → c.queue = [] ∧ (c.ended = true ∨ c.reset = true))

instance (c : Connection) (bytes : List UInt8) : Decidable (c.Returns bytes) :=
  inferInstanceAs (Decidable (_ ∧ _))

/-- `recv` fails, or returns bytes of the connection behind the descriptor. -/
def RecvAllowed (s : Server) (fd : Int) : Option (List UInt8) → Prop
  | none => True
  | some bytes => ∃ c ∈ s.conn fd, (s.conns c).Returns bytes

instance (s : Server) (fd : Int) (ret : Option (List UInt8)) :
    Decidable (RecvAllowed s fd ret) := by
  unfold RecvAllowed
  split <;> infer_instance

inductive Label where
  /-- the empty batch also stands for the result -1 -/
  | epollWait (evs : List Event)
  | event (ret : Option (List UInt8))
  /-- the new descriptor, and whether `epoll_ctl` fails on it -/
  | accept (ret : Option (Int × Bool))
  | arrive (c : Nat) (bytes : List UInt8)
  | peerClose (c : Nat)
  | peerReset (c : Nat)
deriving DecidableEq, Repr

def Server.setConn (s : Server) (c : Nat) (connection : Connection) : Server :=
  { s with conns := Function.update s.conns c connection }

/-- What the network does to a connection. -/
def Connection.arrive (c : Connection) (bytes : List UInt8) : Connection :=
  { c with sent := c.sent ++ bytes, queue := c.queue ++ bytes }

/-- What is queued can still be received. -/
def Connection.peerReset (c : Connection) : Connection :=
  { c with reset := true }

/-- The new connection is known to the kernel before it is accepted. -/
def Server.accepted (s : Server) (fd : Int) : Server :=
  { s with conn := Function.update s.conn fd (some s.nextConn), nextConn := s.nextConn + 1 }

def step (s : Server) : Label → Option Server
  | .epollWait evs =>
      if s.pos = .events [] ∧ evs.length ≤ maxEpEvents ∧ (evs.map Event.fd).Nodup ∧
          ∀ ev ∈ evs, ev.fd ∈ s.epoll then
        some { s with pos := .events evs, snapshot := s.conn }
      else none
  | .event ret =>
      match s.pos with
      | .events (ev :: rest) =>
          if RecvAllowed s ev.fd ret then some (handle s ev rest ret) else none
      | _ => none
  | .accept ret =>
      match s.pos with
      | .accepting rest =>
          match ret with
          | none => some { s with pos := .events rest }
          | some (fd, fails) =>
              if 0 ≤ fd ∧ ¬ s.IsOpen fd then some (ADD_EV (s.accepted fd) fd fails rest) else none
      | _ => none
  | .arrive c bytes =>
      if (s.conns c).ended = false ∧ (s.conns c).reset = false then
        some (s.setConn c ((s.conns c).arrive bytes))
      else none
  | .peerClose c => some (s.setConn c { s.conns c with ended := true })
  | .peerReset c => some (s.setConn c (s.conns c).peerReset)

/-- After `ADD_EV(epollfd, fd_listener)`. -/
def Server.start (listener : Int) : Server where
  listener := listener
  conn := fun _ => none
  epoll := {listener}
  pos := .events []
  nextConn := 0
  conns := fun _ => ⟨[], [], false, false, [], false⟩
  snapshot := fun _ => none

end Environment

section Effects

variable {s s' : Server} {l : Label}

/-- The interest list, the open descriptors and the events that wait fit together. -/
structure Watching (s : Server) : Prop where
  registered : s.pos ≠ .exited → ∀ fd, fd ∈ s.epoll ↔ s.IsOpen fd
  listening : s.conn s.listener = none
  once : (s.pos.rest.map Event.fd).Nodup
  same : ∀ ev ∈ s.pos.rest, s.IsOpen ev.fd ∧ s.conn ev.fd = s.snapshot ev.fd

/-- What the network may make of a connection. -/
inductive Network (c : Connection) : Connection → Prop
  | arrive (bytes : List UInt8)
      (hended : c.ended = false)
      (hreset : c.reset = false) :
      Network c (c.arrive bytes)
  | peerClose : Network c { c with ended := true }
  | peerReset : Network c c.peerReset

/-- What a step can do. -/
inductive Effect (s : Server) : Label → Server → Prop
  | wait {evs : List Event}
      (hpos : s.pos = .events [])
      (honce : (evs.map Event.fd).Nodup)
      (hreg : ∀ ev ∈ evs, ev.fd ∈ s.epoll) :
      Effect s (.epollWait evs) { s with pos := .events evs, snapshot := s.conn }
  | pass {l : Label} {pos : Position}
      (hrunning : s.pos ≠ .exited)
      (hrest : pos.rest <:+ s.pos.rest)
      (hpos : pos ≠ .exited) :
      Effect s l { s with pos := pos }
  /-- the peer has closed the connection, and `DEL_EV` closes it too -/
  | left {ev : Event} {rest : List Event} {c : Nat}
      (hpos : s.pos = .events (ev :: rest))
      (hc : s.conn ev.fd = some c)
      (hreturns : (s.conns c).Returns []) :
      Effect s (.event (some []))
        { s with
          conn := Function.update s.conn ev.fd none
          epoll := s.epoll.erase ev.fd
          pos := .events rest
          conns := Function.update s.conns c { s.conns c with closed := true } }
  | received {ev : Event} {rest : List Event} {c : Nat} {bytes : List UInt8}
      (hpos : s.pos = .events (ev :: rest))
      (hc : s.conn ev.fd = some c)
      (hreturns : (s.conns c).Returns bytes) :
      Effect s (.event (some bytes))
        { s with
          pos := .events rest
          conns := Function.update s.conns c ((s.conns c).recv bytes) }
  | joined {fd : Int} {fails : Bool} {rest : List Event}
      (hpos : s.pos = .accepting rest)
      (hfree : ¬ s.IsOpen fd) :
      Effect s (.accept (some (fd, fails)))
        { s.accepted fd with epoll := insert fd s.epoll }
  /-- `ADD_EV` has failed for a lack of resources -/
  | exits {fd : Int} {rest : List Event}
      (hpos : s.pos = .accepting rest)
      (hfree : ¬ s.IsOpen fd) :
      Effect s (.accept (some (fd, true))) { s.accepted fd with pos := .exited }
  | network {l : Label} {c : Nat} {connection : Connection}
      (hnetwork : Network (s.conns c) connection) :
      Effect s l (s.setConn c connection)

theorem delEv_connection
    {fd : Int} {c : Nat}
    (hc : s.conn fd = some c)
    (hreg : fd ∈ s.epoll) :
    delEv s fd =
      (0,
        { s with
          conn := Function.update s.conn fd none
          epoll := s.epoll.erase fd
          conns := Function.update s.conns c { s.conns c with closed := true } }) := by
  have hopen : s.IsOpen fd := Or.inr (by rw [hc]; simp)
  rw [delEv, if_pos ⟨hopen, hreg⟩, close]
  simp [hc]

/-- An event, under the invariant: the descriptor is registered when `DEL_EV` is called. -/
theorem effect_of_event
    (h : Watching s)
    {ev : Event} {rest : List Event} {ret : Option (List UInt8)}
    (hpos : s.pos = .events (ev :: rest))
    (hallowed : RecvAllowed s ev.fd ret) :
    Effect s (.event ret) (handle s ev rest ret) := by
  have hrunning : s.pos ≠ .exited := by
    rw [hpos]
    simp
  have hsuffix : rest <:+ s.pos.rest := by
    rw [hpos]
    exact List.suffix_cons ev rest
  unfold handle
  split_ifs
  · exact .pass hrunning hsuffix (by simp)
  · split
    · exact .pass hrunning hsuffix (by simp)
    · obtain ⟨c, hc, hreturns⟩ := hallowed
      have hreg : ev.fd ∈ s.epoll := by
        rw [h.registered hrunning]
        exact Or.inr (by rw [hc]; simp)
      rw [DEL_EV, delEv_connection hc hreg]
      exact .left hpos hc hreturns
    · obtain ⟨c, hc, hreturns⟩ := hallowed
      have hsome : s.conn ev.fd = some c := hc
      simp only [printRecv, hsome]
      exact .received hpos hsome hreturns
  · exact .pass hrunning hsuffix (by simp)

/-- A descriptor that `accept` returns is not registered yet. -/
theorem effect_of_accept
    (h : Watching s)
    {fd : Int} {fails : Bool} {rest : List Event}
    (hpos : s.pos = .accepting rest)
    (hfree : ¬ s.IsOpen fd) :
    Effect s (.accept (some (fd, fails))) (ADD_EV (s.accepted fd) fd fails rest) := by
  have hopen : (s.accepted fd).IsOpen fd := Or.inr (by simp [Server.accepted])
  have hnew : fd ∉ (s.accepted fd).epoll := by
    intro hmem
    exact hfree ((h.registered (by rw [hpos]; simp) fd).mp hmem)
  cases fails with
  | false =>
      have hsame : (s.accepted fd).pos = .accepting rest := hpos
      rw [ADD_EV, addEv, if_pos ⟨rfl, hopen, hnew⟩]
      simp only [← hsame]
      exact .joined hpos hfree
  | true =>
      rw [ADD_EV, addEv, if_neg (fun hok => Bool.noConfusion hok.1)]
      exact .exits hpos hfree

theorem effect_of_step
    (h : Watching s)
    (hstep : step s l = some s') :
    Effect s l s' := by
  cases l with
  | epollWait evs =>
      obtain ⟨⟨hpos, _, honce, hreg⟩, hsome⟩ := Option.ite_none_right_eq_some.mp hstep
      cases hsome
      exact .wait hpos honce hreg
  | event ret =>
      simp only [step] at hstep
      split at hstep
      case h_1 ev rest hpos =>
          obtain ⟨hallowed, hsome⟩ := Option.ite_none_right_eq_some.mp hstep
          cases hsome
          exact effect_of_event h hpos hallowed
      case h_2 =>
          cases hstep
  | accept ret =>
      simp only [step] at hstep
      split at hstep
      case h_1 rest hpos =>
          cases ret with
          | none =>
              cases hstep
              exact .pass (by rw [hpos]; simp) (by rw [hpos]; exact List.suffix_refl _) (by simp)
          | some answer =>
              obtain ⟨fd, fails⟩ := answer
              obtain ⟨⟨_, hfree⟩, hsome⟩ := Option.ite_none_right_eq_some.mp hstep
              cases hsome
              exact effect_of_accept h hpos hfree
      case h_2 =>
          cases hstep
  | arrive c bytes =>
      obtain ⟨⟨hended, hreset⟩, hsome⟩ := Option.ite_none_right_eq_some.mp hstep
      cases hsome
      exact .network (.arrive bytes hended hreset)
  | peerClose c =>
      cases hstep
      exact .network .peerClose
  | peerReset c =>
      cases hstep
      exact .network .peerReset

end Effects

section Watched

variable {s s' : Server} {l : Label}

theorem watching_start
    (listener : Int) :
    Watching (Server.start listener) := by
  refine ⟨?_, rfl, List.nodup_nil, ?_⟩
  · intro _ fd
    simp [Server.start, Server.IsOpen]
  · simp [Server.start, Position.rest]

/-- The events that are left name other descriptors than the first one. -/
theorem Watching.fd_ne
    (h : Watching s)
    {ev : Event} {rest : List Event}
    (hpos : s.pos = .events (ev :: rest)) :
    ∀ ev' ∈ rest, ev'.fd ≠ ev.fd := by
  have honce := h.once
  rw [hpos] at honce
  obtain ⟨hnot, _⟩ := List.nodup_cons.mp honce
  intro ev' hmem heq
  exact hnot (heq ▸ List.mem_map_of_mem hmem)

theorem Watching.left
    (h : Watching s)
    {ev : Event} {rest : List Event} {c : Nat}
    (hpos : s.pos = .events (ev :: rest))
    (hc : s.conn ev.fd = some c) :
    Watching
      { s with
        conn := Function.update s.conn ev.fd none
        epoll := s.epoll.erase ev.fd
        pos := .events rest
        conns := Function.update s.conns c { s.conns c with closed := true } } := by
  have hlistener : s.listener ≠ ev.fd := by
    intro heq
    rw [← heq, h.listening] at hc
    cases hc
  have hreg := h.registered (by rw [hpos]; simp)
  have honce := h.once
  rw [hpos] at honce
  have hsame := h.same
  rw [hpos] at hsame
  refine ⟨?_, ?_, (List.nodup_cons.mp honce).2, ?_⟩
  · intro _ fd
    simp only [Finset.mem_erase, hreg, Server.IsOpen]
    by_cases heq : fd = ev.fd
    · simp [heq, Ne.symm hlistener]
    · simp [heq]
  · exact (Function.update_of_ne hlistener none s.conn).trans h.listening
  · intro ev' hmem
    have hne := h.fd_ne hpos ev' hmem
    obtain ⟨hopen, hconn⟩ := hsame ev' (List.mem_cons_of_mem ev hmem)
    simp only [Server.IsOpen, Function.update_of_ne hne]
    exact ⟨hopen, hconn⟩

/-- A descriptor that was not open: no event is waiting for it. -/
theorem Watching.accepted
    (h : Watching s)
    {fd : Int} {epoll : Finset Int} {pos : Position}
    (hrest : pos.rest <:+ s.pos.rest)
    (hfree : ¬ s.IsOpen fd)
    (hreg : pos ≠ .exited → ∀ fd', fd' ∈ epoll ↔ fd' = fd ∨ s.IsOpen fd') :
    Watching { s.accepted fd with epoll := epoll, pos := pos } := by
  have hlistener : s.listener ≠ fd := by
    intro heq
    exact hfree (Or.inl heq.symm)
  refine ⟨?_, ?_, h.once.sublist (hrest.map Event.fd).sublist, ?_⟩
  · intro hpos fd'
    rw [hreg hpos]
    simp only [Server.IsOpen, Server.accepted]
    by_cases heq : fd' = fd
    · simp [heq]
    · simp [heq]
  · simp only [Server.accepted, Function.update_of_ne hlistener]
    exact h.listening
  · intro ev hmem
    obtain ⟨hopen, hconn⟩ := h.same ev (hrest.subset hmem)
    have hne : ev.fd ≠ fd := by
      intro heq
      exact hfree (heq ▸ hopen)
    simp only [Server.IsOpen, Server.accepted, Function.update_of_ne hne]
    exact ⟨hopen, hconn⟩

theorem Watching.step
    (h : Watching s)
    (heffect : Effect s l s') :
    Watching s' := by
  cases heffect with
  | wait hpos honce hreg =>
      have hregistered := h.registered (by rw [hpos]; simp)
      refine ⟨fun _ => hregistered, h.listening, honce, ?_⟩
      intro ev hmem
      exact ⟨(hregistered ev.fd).mp (hreg ev hmem), rfl⟩
  | pass hrunning hrest hpos =>
      refine ⟨fun _ => h.registered hrunning, h.listening,
        h.once.sublist (hrest.map Event.fd).sublist, ?_⟩
      intro ev hmem
      exact h.same ev (hrest.subset hmem)
  | left hpos hc hreturns =>
      exact h.left hpos hc
  | received hpos hc hreturns =>
      have honce := h.once
      have hsame := h.same
      rw [hpos] at honce hsame
      refine ⟨fun _ => h.registered (by rw [hpos]; simp), h.listening,
        (List.nodup_cons.mp honce).2, ?_⟩
      intro ev' hmem
      exact hsame ev' (List.mem_cons_of_mem _ hmem)
  | @joined fd fails rest hpos hfree =>
      refine h.accepted (List.suffix_refl _) hfree ?_
      intro hrunning fd'
      rw [Finset.mem_insert, h.registered hrunning]
  | exits hpos hfree =>
      exact h.accepted List.nil_suffix hfree (fun hrunning => absurd rfl hrunning)
  | network hnetwork =>
      exact ⟨h.registered, h.listening, h.once, h.same⟩

theorem watching_run
    {listener : Int} {ls : List Label}
    (hrun : run step (Server.start listener) ls = some s) :
    Watching s :=
  run_invariant (fun _ _ _ hwatching hstep => hwatching.step (effect_of_step hwatching hstep))
    (watching_start listener) hrun

/-- Only `ADD_EV` ends the process. -/
theorem Effect.exits_only
    (heffect : Effect s l s')
    (hrunning : s.pos ≠ .exited)
    (hexited : s'.pos = .exited) :
    ∃ fd, l = .accept (some (fd, true)) := by
  cases heffect with
  | wait hpos honce hreg =>
      cases hexited
  | pass hrunning hrest hpos =>
      exact absurd hexited hpos
  | left hpos hc hreturns =>
      cases hexited
  | received hpos hc hreturns =>
      cases hexited
  | joined hpos hfree =>
      exact absurd hexited hrunning
  | @exits fd rest hpos hfree =>
      exact ⟨fd, rfl⟩
  | network hnetwork =>
      exact absurd hexited hrunning

/--
Whatever the network does and however descriptors are reused: epoll watches the listening socket
and the open connections and nothing else, every event that waits in the batch is handled for
the connection that it was reported for, and only `ADD_EV` without resources ends the process.
-/
theorem watches_open_connections
    {listener : Int} {ls : List Label}
    (hrun : run step (Server.start listener) ls = some s) :
    (s.pos ≠ .exited → ∀ fd, fd ∈ s.epoll ↔ fd = s.listener ∨ ∃ c, s.conn fd = some c) ∧
      (∀ ev ∈ s.pos.rest, s.IsOpen ev.fd ∧ s.conn ev.fd = s.snapshot ev.fd) ∧
        (∀ l s', s.pos ≠ .exited → step s l = some s' → s'.pos = .exited →
          ∃ fd, l = .accept (some (fd, true))) := by
  have h := watching_run hrun
  refine ⟨?_, h.same, ?_⟩
  · intro hrunning fd
    rw [h.registered hrunning, Server.IsOpen, Option.ne_none_iff_exists']
  · intro l s' hrunning hstep hexited
    exact (effect_of_step h hstep).exits_only hrunning hexited

/--
Two clients are accepted as 4 and 5; in one batch the server closes 4, and `accept` hands its
number out to a third client while the event of 5 still waits.
-/
def reusedNumber : List Label :=
  [.epollWait [⟨3, true, false, false⟩], .event none,
    .accept (some (4, false)), .accept (some (5, false)), .accept none,
    .peerClose 0, .arrive 1 [104, 105],
    .epollWait [⟨4, true, false, false⟩, ⟨3, true, false, false⟩, ⟨5, true, false, false⟩],
    .event (some []), .event none, .accept (some (4, false)), .accept none]

theorem watches_reusedNumber :
    ∃ s,
      run step (Server.start 3) reusedNumber = some s ∧
      s.conn 4 = some 2 ∧
      s.pos = .events [⟨5, true, false, false⟩] ∧
      s.conn 5 = s.snapshot 5 := by
  have hrun : run step (Server.start 3) reusedNumber = some _ := rfl
  obtain ⟨_, hsame, _⟩ := watches_open_connections hrun
  exact ⟨_, hrun, rfl, rfl, (hsame _ (List.mem_singleton_self _)).2⟩

end Watched

section Streams

variable {s s' : Server} {l : Label}

/-- What holds for the bytes of a connection. -/
structure Connection.Fair (c : Connection) : Prop where
  whole : c.received ++ c.queue = c.sent
  finished : c.closed = true → c.reset = true ∨ (c.ended = true ∧ c.received = c.sent)

theorem Connection.Fair.network
    {c c' : Connection}
    (h : c.Fair)
    (hnetwork : Network c c') :
    c'.Fair := by
  cases hnetwork with
  | arrive bytes hended hreset =>
      refine ⟨?_, ?_⟩
      · rw [Connection.arrive, ← h.whole, List.append_assoc]
      · intro hclosed
        -- a connection that was closed has ended or was reset, so nothing arrives any more
        rcases h.finished hclosed with hr | ⟨he, _⟩
        · exact Or.inl hr
        · exact absurd (he.symm.trans hended) (by simp)
  | peerClose =>
      refine ⟨h.whole, ?_⟩
      intro hclosed
      exact (h.finished hclosed).imp_right (fun hall => ⟨rfl, hall.2⟩)
  | peerReset =>
      exact ⟨h.whole, fun _ => Or.inl rfl⟩

/-- What is received comes from the queue. -/
theorem Connection.Fair.recv
    {c : Connection} {bytes : List UInt8}
    (h : c.Fair)
    (hreturns : c.Returns bytes) :
    (c.recv bytes).Fair := by
  obtain ⟨later, hqueue⟩ := hreturns.1
  refine ⟨?_, ?_⟩
  · rw [Connection.recv, ← h.whole, ← hqueue, List.drop_left, List.append_assoc]
  · intro hclosed
    refine (h.finished hclosed).imp_right ?_
    rintro ⟨hended, hall⟩
    have hqueued : c.received ++ c.queue = c.received := by
      rw [h.whole, hall]
    rw [List.append_right_eq_self, ← hqueue, List.append_eq_nil_iff] at hqueued
    rw [Connection.recv, hqueued.1, List.append_nil]
    exact ⟨hended, hall⟩

theorem Connection.Fair.close
    {c : Connection}
    (h : c.Fair)
    (hreturns : c.Returns []) :
    ({ c with closed := true } : Connection).Fair := by
  obtain ⟨hqueue, hend⟩ := hreturns.2.2 rfl
  have hall := h.whole
  rw [hqueue, List.append_nil] at hall
  exact ⟨h.whole, fun _ => hend.symm.imp_right (fun hended => ⟨hended, hall⟩)⟩

/-- Every connection is fair, and one that the server has accepted is closed or still open. -/
structure Accounted (s : Server) : Prop where
  fair : ∀ c, (s.conns c).Fair
  held : ∀ c < s.nextConn, (s.conns c).closed = true ∨ ∃ fd, s.conn fd = some c

/-- A new state of one connection that does not reopen it. -/
theorem Accounted.update
    (h : Accounted s)
    {c : Nat} {connection : Connection}
    (hfair : connection.Fair)
    (hclosed : (s.conns c).closed = true → connection.closed = true) :
    Accounted (s.setConn c connection) := by
  refine ⟨?_, ?_⟩
  · intro d
    by_cases hd : d = c
    · simpa [Server.setConn, hd] using hfair
    · simpa [Server.setConn, hd] using h.fair d
  · intro d hlt
    rcases h.held d hlt with hold | hopen
    · by_cases hd : d = c
      · rw [hd] at hold
        exact Or.inl (by simpa [Server.setConn, hd] using hclosed hold)
      · exact Or.inl (by simpa [Server.setConn, hd] using hold)
    · exact Or.inr hopen

theorem Network.closed_eq
    {c c' : Connection}
    (h : Network c c') :
    c'.closed = c.closed := by
  cases h with
  | arrive bytes hended hreset =>
      rfl
  | peerClose =>
      rfl
  | peerReset =>
      rfl

theorem Accounted.accepted
    (h : Accounted s)
    {fd : Int}
    (hfree : s.conn fd = none) :
    Accounted (s.accepted fd) := by
  refine ⟨h.fair, ?_⟩
  intro c hc
  rcases Nat.lt_succ_iff_lt_or_eq.mp hc with hlt | heq
  · refine (h.held c hlt).imp_right ?_
    rintro ⟨fd', hopen⟩
    have hne : fd' ≠ fd := by
      intro heq
      rw [heq, hfree] at hopen
      cases hopen
    exact ⟨fd', (Function.update_of_ne hne _ _).trans hopen⟩
  · exact Or.inr ⟨fd, by simp [Server.accepted, heq]⟩

theorem Accounted.left
    (h : Accounted s)
    {fd : Int} {c : Nat}
    (hc : s.conn fd = some c)
    (hreturns : (s.conns c).Returns []) :
    Accounted
      { s.setConn c { s.conns c with closed := true } with
        conn := Function.update s.conn fd none } := by
  have hupdate : Accounted (s.setConn c { s.conns c with closed := true }) :=
    h.update ((h.fair c).close hreturns) (fun _ => rfl)
  refine ⟨hupdate.fair, ?_⟩
  intro d hlt
  rcases hupdate.held d hlt with hclosed | ⟨fd', hopen⟩
  · exact Or.inl hclosed
  · by_cases heq : fd' = fd
    · -- the descriptor that is closed was the one of this connection
      have hd : d = c := by
        rw [heq] at hopen
        exact Option.some.inj (hopen.symm.trans hc)
      exact Or.inl (by simp [Server.setConn, hd])
    · exact Or.inr ⟨fd', (Function.update_of_ne heq _ _).trans hopen⟩

theorem Accounted.step
    (h : Accounted s)
    (heffect : Effect s l s') :
    Accounted s' := by
  cases heffect with
  | wait hpos honce hreg =>
      exact ⟨h.fair, h.held⟩
  | pass hrunning hrest hpos =>
      exact ⟨h.fair, h.held⟩
  | left hpos hc hreturns =>
      have hleft := h.left hc hreturns
      exact ⟨hleft.fair, hleft.held⟩
  | @received ev rest c bytes hpos hc hreturns =>
      have hupdate := h.update ((h.fair c).recv hreturns) id
      exact ⟨hupdate.fair, hupdate.held⟩
  | joined hpos hfree =>
      have haccepted := h.accepted (of_not_not fun hne => hfree (Or.inr hne))
      exact ⟨haccepted.fair, haccepted.held⟩
  | exits hpos hfree =>
      have haccepted := h.accepted (of_not_not fun hne => hfree (Or.inr hne))
      exact ⟨haccepted.fair, haccepted.held⟩
  | @network l c connection hnetwork =>
      exact h.update ((h.fair c).network hnetwork) (fun hclosed => hnetwork.closed_eq.trans hclosed)

end Streams

end Epoll
end IoServers
end SysProg
