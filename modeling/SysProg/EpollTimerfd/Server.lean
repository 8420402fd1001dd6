import SysProg.EpollTimerfd.Table
import SysProg.Lib.Run
import Mathlib.Data.Finset.Insert
import Mathlib.Tactic

/-!
# The event loop of ALSP/epoll_timerfd.c

The server keeps one session per connection: the socket and a timerfd that is
armed when the session is created and armed again after every received
message.  `get_epollevent` walks the batch that `epoll_wait` returned; the batch
is a snapshot, so an event may name a descriptor that an earlier event of the
same batch has closed, and `accept` or `timerfd_create` may have reused the
number since.

**Kernel.**  `fdTable` gives the object behind every open descriptor, `epoll`
is the interest list, `now` is elapsed time in nanoseconds.  A timer counts
from the instant of its last `timerfd_settime`; the server never reads a
timerfd, so an expired timer stays readable until it is armed again or closed.

**Failures.**  A system call fails where the kernel must fail it (a closed or
unregistered descriptor), and the calls of `add_ev` may also fail for lack of
resources, as its `AddAnswers` tell.  Only `accept` and `recv` are answered by
the label alone.

**Labels.**  One label is one event of the batch, one turn of the accept loop,
one return of `epoll_wait`, or the passing of time.
-/

namespace SysProg
namespace EpollTimerfd

open SlotTable

def EBADF : Int := 9
def EEXIST : Int := 17
def EINVAL : Int := 22

def FDSESSION_DEFAULT_TIMEOUT : Int := 30
def maxEpEvents : Nat := 32

/-- `sizeof(buf)` in `get_epollevent` -/
def recvSize : Nat := 1024

def nsecPerSec : Int := 1000000000

/-- What `timerfd_settime` leaves in a timer: when it was called, and for how long. -/
structure Arming where
  armedAt : Int
  seconds : Int
deriving DecidableEq, Repr

/-- The instant at which the timer becomes readable. -/
def Arming.deadline (a : Arming) : Int :=
  a.armedAt + a.seconds * nsecPerSec

/-- `other` stands for descriptors the event loop never touches. -/
inductive FdObject where
  | other
  | listener
  | socket
  | timer (arming : Option Arming)
deriving DecidableEq, Repr

/-- `struct epoll_event`, with the two bits of `events` that are tested. -/
structure EpollEvent where
  fd : Int
  epollin : Bool
  epollerr : Bool
deriving DecidableEq, Repr

/-- Where the single thread stands. -/
inductive Position where
  /-- in the `for` of `get_epollevent`, or at `epoll_wait` when nothing is left -/
  | events (rest : List EpollEvent)
  /-- in the `while` around `accept` -/
  | accepting (rest : List EpollEvent)
  | exited
deriving DecidableEq, Repr

/--
The state of the process and its kernel side.  `snapshot` and `delRets` are
history: the descriptor table when `epoll_wait` last returned, and the results
of all calls of `del_ev`.  No code reads them.
-/
structure Server where
  fdListener : Int
  fdsList : FdsList
  now : Int
  fdTable : Int → Option FdObject
  epoll : Finset Int
  pos : Position
  snapshot : Int → Option FdObject
  delRets : List Int

section Kernel

/-- `epoll_ctl(EPOLL_CTL_ADD)`; `fail` is the errno of a lack of resources. -/
def epollCtlAdd
    (s : Server) (fd : Int) (fail : Option Int) :
    Except Int Server :=
  match fail with
  | some e => .error e
  | none =>
      if s.fdTable fd = none then .error EBADF
      else if fd ∈ s.epoll then .error EEXIST
      else .ok { s with epoll := insert fd s.epoll }

/-- `epoll_ctl(EPOLL_CTL_DEL)` -/
def epollCtlDel
    (s : Server) (fd : Int) : Except Int Server :=
  if s.fdTable fd = none then .error EBADF
  else if fd ∉ s.epoll then .error ENOENT
  else .ok { s with epoll := s.epoll.erase fd }

/-- `close`; the kernel also drops the descriptor from the interest list. -/
def close (s : Server) (fd : Int) : Server :=
  { s with
    fdTable := Function.update s.fdTable fd none
    epoll := s.epoll.erase fd }

/-- Install an object under a descriptor number, as `accept` does. -/
def openFd (s : Server) (fd : Int) (o : FdObject) : Server :=
  { s with fdTable := Function.update s.fdTable fd (some o) }

/-- `timerfd_settime` with a relative time; zero seconds disarm the timer. -/
def timerfdSettime
    (s : Server) (fd seconds : Int) (fail : Option Int) :
    Except Int Server :=
  match fail with
  | some e => .error e
  | none =>
      match s.fdTable fd with
      | none => .error EBADF
      | some (.timer _) =>
          if seconds < 0 then .error EINVAL
          else if seconds = 0 then .ok (openFd s fd (.timer none))
          else .ok (openFd s fd (.timer (some ⟨s.now, seconds⟩)))
      | some _ => .error EINVAL

end Kernel

section Sessions

/--
Results of the calls made by `add_ev` that may fail for lack of resources;
each carries the errno, `timerfdCreate` also the new descriptor.
-/
structure AddAnswers where
  ctlSocket : Option Int
  realloc : Option Int
  timerfdCreate : Except Int Int
  settime : Option Int
  ctlTimer : Option Int

/-- `fds_new_timerfd`: the slot of the new session, or the errno returned. -/
def fdsNewTimerfd
    (ans : AddAnswers) (s : Server) (socketfd timeout : Int) :
    Except Int Nat × Server :=
  let full := s.fdsList.nAllocated = s.fdsList.nUsed
  match (if full then ans.realloc else none) with
  | some e => (.error e, s)
  | none =>
      let grown :=
        if full then s.fdsList.nAllocated + 16
        else s.fdsList.nAllocated
      let s₁ : Server :=
        { s with fdsList := { s.fdsList with nAllocated := grown } }
      match ans.timerfdCreate with
      | .error e => (.error e, s₁)
      | .ok fd =>
          let slot := s.fdsList.nUsed
          (.ok slot,
            { openFd s₁ fd (.timer none) with
              fdsList :=
                { nAllocated := grown
                  nUsed := slot + 1
                  list := Function.update s.fdsList.list slot
                    ⟨socketfd, fd, timeout⟩ } })

/-- `fds_set_timerfd` on the session in slot `i` -/
def fdsSetTimerfd
    (s : Server) (i : Nat) (fail : Option Int) : Int × Server :=
  let fds := s.fdsList.list i
  match timerfdSettime s fds.timerfd fds.timeout fail with
  | .error e => (e, s)
  | .ok s₁ => (0, s₁)

/-- `add_ev` -/
def addEv
    (ans : AddAnswers) (s : Server) (fd timeout : Int) :
    Int × Server :=
  match epollCtlAdd s fd ans.ctlSocket with
  | .error _ => (-1, s)
  | .ok s₁ =>
      if timeout > 0 then
        match fdsNewTimerfd ans s₁ fd timeout with
        | (.error e, s₂) => (e, s₂)
        | (.ok i, s₂) =>
            let (ret, s₃) := fdsSetTimerfd s₂ i ans.settime
            if ret ≠ 0 then (ret, s₃)
            else
              match epollCtlAdd s₃ (s₃.fdsList.list i).timerfd ans.ctlTimer with
              | .error _ => (-1, s₃)
              | .ok s₄ => (0, s₄)
      else (0, s₁)

/-- `del_ev` -/
def delEv (s : Server) (fd : Int) : Int × Server :=
  match epollCtlDel s fd with
  | .error e => (e, s)
  | .ok s₁ =>
      let s₂ := close s₁ fd
      match fdsFindbysocketfd s₂.fdsList fd with
      | none => (-1, s₂)
      | some i =>
          let timerfd := (s₂.fdsList.list i).timerfd
          match epollCtlDel s₂ timerfd with
          | .error e => (e, s₂)
          | .ok s₃ =>
              let s₄ := close s₃ timerfd
              let (ret, t) := fdsDeletebytimerfd s₄.fdsList timerfd
              (ret, { s₄ with fdsList := t })

end Sessions

section Loop

/-- The macro `ADD_EV` inside the accept loop: only -1 ends the server. -/
def ADD_EV
    (ans : AddAnswers) (s : Server) (fd timeout : Int)
    (rest : List EpollEvent) : Server :=
  let (ret, s₁) := addEv ans s fd timeout
  { s₁ with pos := if ret = -1 then .exited else .accepting rest }

/-- The macro `DEL_EV`, with the events that remain afterwards. -/
def DEL_EV
    (s : Server) (fd : Int) (rest : List EpollEvent) : Server :=
  let (ret, s₁) := delEv s fd
  { s₁ with
    pos := if ret = -1 then .exited else .events rest
    delRets := ret :: s₁.delRets }

/--
One turn of the `for` in `get_epollevent`.  `retRecv` is the result of `recv`,
`none` for -1; it is ignored where the code does not call `recv`.  A `return`
drops the rest of the batch, and `main` goes back to `epoll_wait`.
-/
def getEpollevent
    (s : Server) (ev : EpollEvent) (rest : List EpollEvent)
    (retRecv : Option Nat) : Server :=
  if ev.epollin then
    if ev.fd = s.fdListener then
      { s with pos := .accepting rest }
    else
      match fdsFindbytimerfd s.fdsList ev.fd with
      | some i => DEL_EV s (s.fdsList.list i).socketfd rest
      | none =>
          match retRecv with
          | none => { s with pos := .events rest }
          | some 0 => DEL_EV s ev.fd rest
          | some (_ + 1) =>
              match fdsFindbysocketfd s.fdsList ev.fd with
              | none => { s with pos := .events [] }
              | some i =>
                  let (ret, s₁) := fdsSetTimerfd s i none
                  { s₁ with
                    pos := if ret ≠ 0 then .events [] else .events rest }
  else
    -- EPOLLERR and every other event only print
    { s with pos := .events rest }

end Loop

section Environment

/-- A timer is readable from its deadline on; other objects may be at any time. -/
def readable (now : Int) : Option FdObject → Bool
  | some (.timer (some a)) => decide (a.deadline ≤ now)
  | some (.timer none) => false
  | _ => true

/-- The descriptor is registered and ready for what the event reports. -/
def Ready (s : Server) (ev : EpollEvent) : Prop :=
  ev.fd ∈ s.epoll ∧
    (ev.epollin = true → readable s.now (s.fdTable ev.fd) = true)

instance (s : Server) (ev : EpollEvent) : Decidable (Ready s ev) :=
  inferInstanceAs (Decidable (_ ∧ _))

/-- `recv` returns a count only on a connected socket, and at most the buffer size. -/
def RecvAllowed (s : Server) (fd : Int) : Option Nat → Prop
  | none => True
  | some n => s.fdTable fd = some .socket ∧ n ≤ recvSize

instance (s : Server) (fd : Int) (ret : Option Nat) :
    Decidable (RecvAllowed s fd ret) :=
  match ret with
  | none => inferInstanceAs (Decidable True)
  | some n =>
      inferInstanceAs
        (Decidable (s.fdTable fd = some .socket ∧ n ≤ recvSize))

/-- A descriptor number the kernel may hand out. -/
def Fresh (s : Server) (fd : Int) : Prop :=
  0 ≤ fd ∧ s.fdTable fd = none

instance (s : Server) (fd : Int) : Decidable (Fresh s fd) :=
  inferInstanceAs (Decidable (_ ∧ _))

/-- errno values are positive. -/
def ErrnoPos : Option Int → Prop
  | none => True
  | some e => 0 < e

instance (e : Option Int) : Decidable (ErrnoPos e) :=
  match e with
  | none => inferInstanceAs (Decidable True)
  | some e => inferInstanceAs (Decidable (0 < e))

/-- `timerfd_create` fails, or returns a number that is not in use. -/
def CreateAllowed (s : Server) (fd : Int) : Except Int Int → Prop
  | .error e => 0 < e
  | .ok t => t ≠ fd ∧ Fresh s t

instance (s : Server) (fd : Int) (ret : Except Int Int) :
    Decidable (CreateAllowed s fd ret) :=
  match ret with
  | .error e => inferInstanceAs (Decidable (0 < e))
  | .ok t => inferInstanceAs (Decidable (t ≠ fd ∧ Fresh s t))

/--
What the kernel may answer while `fd` is being added.  `timerfd_settime` on an
open timer with a positive number of seconds has no failure left.
-/
def AddAllowed (s : Server) (fd : Int) (ans : AddAnswers) : Prop :=
  Fresh s fd ∧
  ErrnoPos ans.realloc ∧
  ans.settime = none ∧
  CreateAllowed s fd ans.timerfdCreate

instance (s : Server) (fd : Int) (ans : AddAnswers) :
    Decidable (AddAllowed s fd ans) :=
  inferInstanceAs (Decidable (_ ∧ _))

/-- What the environment decides in one step. -/
inductive Label where
  | tick (nsec : Nat)
  /-- the empty batch also stands for the result -1 -/
  | epollWait (evs : List EpollEvent)
  | event (retRecv : Option Nat)
  | accept (ret : Option (Int × AddAnswers))

/-- One step of the server in its environment. -/
def step (s : Server) : Label → Option Server
  | .tick d =>
      some { s with now := s.now + d }
  | .epollWait evs =>
      if s.pos = .events [] ∧ evs.length ≤ maxEpEvents ∧
          ∀ ev ∈ evs, Ready s ev then
        some { s with pos := .events evs, snapshot := s.fdTable }
      else none
  | .event retRecv =>
      match s.pos with
      | .events (ev :: rest) =>
          if RecvAllowed s ev.fd retRecv then
            some (getEpollevent s ev rest retRecv)
          else none
      | _ => none
  | .accept ret =>
      match s.pos with
      | .accepting rest =>
          match ret with
          | none => some { s with pos := .events rest }
          | some (fd, ans) =>
              if AddAllowed s fd ans then
                some
                  (ADD_EV ans (openFd s fd .socket) fd
                    FDSESSION_DEFAULT_TIMEOUT rest)
              else none
      | _ => none

/--
The state after `ADD_EV(epollfd, fd_listener, 0)` in `main`: only the listener is
registered, and no descriptor is a socket or a timer of the event loop yet.
-/
structure Initial (s : Server) : Prop where
  n_allocated : s.fdsList.nAllocated = 0
  n_used : s.fdsList.nUsed = 0
  listener : s.fdTable s.fdListener = some .listener
  others : ∀ fd o, fd ≠ s.fdListener → s.fdTable fd = some o → o = .other
  epoll : s.epoll = {s.fdListener}
  pos : s.pos = .events []
  delRets : s.delRets = []

end Environment

end EpollTimerfd
end SysProg
