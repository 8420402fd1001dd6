import SysProg.Lib.Run
import SysProg.Lib.TypedQueue
import SysProg.MsgSender.SysV
import Mathlib.Tactic

/-!
# The receivers of ALSP/sysv_msg.c

A sender puts the lines of a file into the queue, as in `SysV`, while any number of receivers
take messages out and print them, each with the type from its command line: a positive type, 0
for any message, or a negative number for the lowest types.

**Steps.**  One turn of the loop of `start_msq_sender`, up to a `msgsnd` that finds room or not;
one `msgrcv` with its line; and the removal of the queue by `sysv_msgrm`, which every one of the
programs calls before it ends, so that it may happen at any time.  A message is never longer
than the buffer of a receiver.

**Result.**  `received_in_order`: the messages of each type are received in the order of the
file, each of them once, by receivers that ask for it, and those that are missing are still in
the queue or were removed with it.  A receiver whose type no other one asks for prints all of
them.
-/

namespace SysProg
namespace MsgSender
namespace Receivers

open CString Lines Run SysV TypedQueue

section Program

/--
The pieces that `fgets` has still to return and whether the sender is in its loop; the queue,
unless it was removed.  `sent` and `received` are history, the latter with the receivers.
-/
structure State where
  pieces : List (List UInt8)
  sending : Bool
  queue : Option (List MqBuf)
  sent : List MqBuf
  received : List (Nat × MqBuf)
deriving DecidableEq, Repr

def State.start (file : List UInt8) : State where
  pieces := chunks newline (LEN_MQ_MTEXT - 1) file
  sending := true
  queue := some []
  sent := []
  received := []

inductive Label where
  /-- a turn of the loop; whether `msgsnd` finds room -/
  | send (room : Bool)
  | receive (k : Nat)
  | sysvMsgrm
deriving DecidableEq, Repr

/-- A turn of `start_msq_sender`. -/
def sendStep (s : State) (room : Bool) : Option State :=
  if s.sending then
    match s.pieces with
    | [] => some { s with sending := false }
    | rbuf :: pieces =>
        match s.queue with
        | none => some { s with sending := false }
        | some q =>
            if taken (fun _ => room) 0 rbuf then
              some { s with
                pieces := pieces
                queue := some (q ++ [mqBuf rbuf])
                sent := s.sent ++ [mqBuf rbuf] }
            else some { s with sending := false }
  else none

/-- A turn of `start_msq_receiver(mtype)` by receiver `k`. -/
def receiveStep (mtype : Int) (s : State) (k : Nat) : Option State :=
  s.queue.bind (fun q =>
    (rcv MqBuf.mtype mtype q).map (fun (m, rest) =>
      { s with queue := some rest, received := s.received ++ [(k, m)] }))

/-- `mtype k` is the argument of receiver `k`. -/
def step (mtype : Nat → Int) (s : State) : Label → Option State
  | .send room => sendStep s room
  | .receive k => receiveStep (mtype k) s k
  | .sysvMsgrm => some { s with queue := none }

end Program

section Order

variable {mtype : Nat → Int} {file : List UInt8} {s s' : State} {l : Label}

/-- The messages of a type that have been received, in the order of their receipt. -/
def State.receivedOf (s : State) (t : Int) : List MqBuf :=
  typed MqBuf.mtype t (s.received.map Prod.snd)

structure Invariant (mtype : Nat → Int) (file : List UInt8) (s : State) : Prop where
  file : s.sent ++ s.pieces.map mqBuf = (chunks newline (LEN_MQ_MTEXT - 1) file).map mqBuf
  all : ∀ q, s.queue = some q → ∀ t,
    s.receivedOf t ++ typed MqBuf.mtype t q = typed MqBuf.mtype t s.sent
  begun : ∀ t, s.receivedOf t <+: typed MqBuf.mtype t s.sent
  asked : ∀ line ∈ s.received, Asked (mtype line.1) line.2.mtype

theorem invariant_start :
    Invariant mtype file (State.start file) := by
  refine ⟨rfl, ?_, ?_, ?_⟩
  · intro q hq t
    cases hq
    rfl
  · intro t
    exact List.prefix_refl _
  · intro line hline
    cases hline

theorem Invariant.sendStep
    {room : Bool}
    (h : Invariant mtype file s)
    (hstep : sendStep s room = some s') :
    Invariant mtype file s' := by
  obtain ⟨_, hstep⟩ := Option.ite_none_right_eq_some.mp hstep
  split at hstep
  case h_1 =>
      cases hstep
      exact ⟨h.file, h.all, h.begun, h.asked⟩
  case h_2 rbuf pieces hpieces =>
      split at hstep
      case h_1 =>
          cases hstep
          exact ⟨h.file, h.all, h.begun, h.asked⟩
      case h_2 q hq =>
          split_ifs at hstep
          · cases hstep
            refine ⟨?_, ?_, ?_, h.asked⟩
            · have hfile := h.file
              rw [hpieces] at hfile
              simpa using hfile
            · intro q' hq' t
              cases hq'
              rw [typed_append, typed_append, ← h.all q hq t, List.append_assoc]
              rfl
            · intro t
              rw [typed_append]
              exact (h.begun t).trans (List.prefix_append _ _)
          · cases hstep
            exact ⟨h.file, h.all, h.begun, h.asked⟩

theorem Invariant.receiveStep
    {k : Nat}
    (h : Invariant mtype file s)
    (hstep : receiveStep (mtype k) s k = some s') :
    Invariant mtype file s' := by
  obtain ⟨q, hq, hstep⟩ := Option.bind_eq_some_iff.mp hstep
  obtain ⟨⟨m, rest⟩, hrcv, rfl⟩ := Option.map_eq_some_iff.mp hstep
  have hall : ∀ t, typed MqBuf.mtype t ((s.received ++ [(k, m)]).map Prod.snd) ++
      typed MqBuf.mtype t rest = typed MqBuf.mtype t s.sent := by
    intro t
    rw [List.map_append, typed_append, List.append_assoc, ← h.all q hq t]
    exact congrArg (s.receivedOf t ++ ·) (typed_rcv hrcv t)
  refine ⟨h.file, ?_, fun t => ⟨_, hall t⟩, ?_⟩
  · intro q' hq' t
    cases hq'
    exact hall t
  · intro line hline
    rcases List.mem_append.mp hline with hold | hnew
    · exact h.asked line hold
    · rw [List.mem_singleton.mp hnew]
      exact asked_rcv hrcv

theorem Invariant.step
    (h : Invariant mtype file s)
    (hstep : step mtype s l = some s') :
    Invariant mtype file s' := by
  cases l with
  | send room =>
      exact h.sendStep hstep
  | receive k =>
      exact h.receiveStep hstep
  | sysvMsgrm =>
      cases hstep
      refine ⟨h.file, ?_, h.begun, h.asked⟩
      intro q hq
      cases hq

/-- What receiver `k` has printed. -/
def State.printed (s : State) (k : Nat) : List MqBuf :=
  (s.received.filter (fun line => line.1 = k)).map Prod.snd

/-- A type that only receiver `k` asks for is received by it. -/
theorem Invariant.printed_eq
    {k : Nat}
    (h : Invariant mtype file s)
    (hpos : 0 < mtype k)
    (hother : ∀ j, j ≠ k → ¬ Asked (mtype j) (mtype k)) :
    s.printed k = s.receivedOf (mtype k) := by
  rw [State.printed, State.receivedOf, typed, List.filter_map]
  refine congrArg (List.map Prod.snd) (List.filter_congr ?_)
  intro line hline
  have hasked := h.asked line hline
  simp only [Function.comp_apply, decide_eq_decide]
  constructor
  · intro heq
    rw [heq, Asked] at hasked
    omega
  · intro heq
    by_contra hne
    rw [heq] at hasked
    exact hother line.1 hne hasked

/--
In every run, with any receivers and a removal of the queue at any time: the messages of each
type are received in the order in which they were sent, none of them twice; as long as the queue
exists, those that are missing are in it, a receiver waits only if it asks for none of them, and
one whose type nobody else asks for has printed the others.
-/
theorem received_in_order
    {ls : List Label}
    (hrun : run (Receivers.step mtype) (State.start file) ls = some s) :
    s.sent <+: (chunks newline (LEN_MQ_MTEXT - 1) file).map mqBuf ∧
    (∀ t, s.receivedOf t <+: typed MqBuf.mtype t s.sent) ∧
    (∀ line ∈ s.received, Asked (mtype line.1) line.2.mtype) ∧
    ∀ q, s.queue = some q →
      (∀ t, s.receivedOf t ++ typed MqBuf.mtype t q = typed MqBuf.mtype t s.sent) ∧
      (∀ k, Receivers.step mtype s (.receive k) = none → ∀ m ∈ q, ¬ Asked (mtype k) m.mtype) ∧
      (∀ k, 0 < mtype k → (∀ j, j ≠ k → ¬ Asked (mtype j) (mtype k)) →
        s.printed k ++ typed MqBuf.mtype (mtype k) q = typed MqBuf.mtype (mtype k) s.sent) := by
  have h : Invariant mtype file s :=
    run_invariant (fun _ _ _ h hstep => h.step hstep) invariant_start hrun
  refine ⟨⟨_, h.file⟩, h.begun, h.asked, ?_⟩
  intro q hq
  refine ⟨h.all q hq, ?_, ?_⟩
  · intro k hwaits
    simp only [Receivers.step, Receivers.receiveStep, hq, Option.bind_some,
      Option.map_eq_none_iff] at hwaits
    exact rcv_eq_none_iff.mp hwaits
  · intro k hpos hother
    rw [h.printed_eq hpos hother]
    exact h.all q hq (mtype k)

/-- "2 b\\n1 a\\n2 c\\n" -/
def threeMessages : List UInt8 :=
  [50, 32, 98, 10, 49, 32, 97, 10, 50, 32, 99, 10]

/-- Receiver 1 asks for the type 2, and everybody else for the types up to 1. -/
def onlyOneForTwo (k : Nat) : Int :=
  if k = 1 then 2 else -1

theorem received_threeMessages :
    ∃ s q,
      run (Receivers.step onlyOneForTwo) (State.start threeMessages)
        [.send true, .send true, .receive 0, .send true, .receive 1] = some s ∧
      s.queue = some q ∧
      s.printed 1 = [⟨2, [98]⟩] ∧
      q = [⟨2, [99]⟩] ∧
      s.printed 1 ++ typed MqBuf.mtype 2 q = typed MqBuf.mtype 2 s.sent := by
  have hrun : run (Receivers.step onlyOneForTwo) (State.start threeMessages)
      [.send true, .send true, .receive 0, .send true, .receive 1] = some _ := rfl
  refine ⟨_, _, hrun, rfl, rfl, rfl, ?_⟩
  refine ((received_in_order hrun).2.2.2 _ rfl).2.2 1 (by decide) ?_
  intro j hj
  simp [onlyOneForTwo, hj, Asked]

end Order

end Receivers
end MsgSender
end SysProg
