import SysProg.Lib.NotifyQueue
import SysProg.Lib.Run
import Mathlib.Tactic

/-!
# The receivers of ALSP/posix_msg_sigev.c

In each turn of its loop a receiver registers for notification with the number of the turn, goes
on if this fails with EBUSY, and receives one message.  The handler of the signal prints the
number.

**Steps.**  The arrival of a message, `mq_notify`, `mq_receive` up to the line or until it has
to wait, and the delivery of a signal, by any number of receivers in any order.  All messages
have the priority 0.  The handler is installed with SA_RESTART: a receiver that waits calls
`mq_receive` again after it.

**Results.**  `received_once`: every message is received once and in the order of sending,
whatever the registrations do; each successful `mq_notify` gives at most one signal, the signals
of a receiver come in the order of its turns, and every turn has registered or has reported
EBUSY.  `told_unless_between`: with one receiver, a message that arrives at the empty queue is
either received at once or leads to a signal, unless it arrives before the first `mq_notify` or
between `mq_receive` and the next one.
-/

namespace SysProg
namespace MsgSender
namespace Notification

open NotifyQueue Run

section Program

/-- Where a receiver is in its loop. -/
inductive Pc where
  | mqNotify
  | mqReceive
  /-- within `mq_receive` -/
  | waiting
deriving DecidableEq, Repr

/--
The queue, and of each receiver its place, its turn `i` and the values of its pending signals.
The rest is history: the messages sent and received, and of each receiver the turns in which it
has registered, the number of turns with EBUSY, and the values that its handler has printed.
-/
structure State where
  queue : NotifyQueue (List UInt8)
  pc : Nat → Pc
  turn : Nat → Nat
  pending : Nat → List Nat
  sent : List (List UInt8)
  received : List (Nat × List UInt8)
  regs : Nat → List Nat
  busy : Nat → Nat
  shown : Nat → List Nat

def State.start : State where
  queue := .empty
  pc := fun _ => .mqNotify
  turn := fun _ => 0
  pending := fun _ => []
  sent := []
  received := []
  regs := fun _ => []
  busy := fun _ => 0
  shown := fun _ => []

inductive Label where
  | send (m : List UInt8)
  | mqNotify (k : Nat)
  | mqReceive (k : Nat)
  /-- `chk_rt` -/
  | deliver (k : Nat)
deriving DecidableEq, Repr

/-- A receiver prints a message and goes on to its next turn. -/
def State.prints (s : State) (k : Nat) (m : List UInt8) : State :=
  { s with
    received := s.received ++ [(k, m)]
    pc := Function.update s.pc k .mqNotify }

def State.arrival (s : State) (m : List UInt8) : Arrival → State
  | .handed k => s.prints k m
  | .queued => s
  | .signalled k v => { s with pending := Function.update s.pending k (s.pending k ++ [v]) }

def sendStep (s : State) (m : List UInt8) : State :=
  { s.arrival m (s.queue.send m).1 with
    queue := (s.queue.send m).2
    sent := s.sent ++ [m] }

/-- `i++` and `mq_notify` with `i` -/
def notifyStep (s : State) (k : Nat) : State :=
  let i := s.turn k + 1
  let s₁ := { s with
    turn := Function.update s.turn k i
    pc := Function.update s.pc k .mqReceive
    queue := (s.queue.notify k i).2 }
  if (s.queue.notify k i).1 then { s₁ with regs := Function.update s.regs k (s.regs k ++ [i]) }
  else { s₁ with busy := Function.update s.busy k (s.busy k + 1) }

def receiveStep (s : State) (k : Nat) : State :=
  let s₁ := { s with queue := (s.queue.receive k).2 }
  match (s.queue.receive k).1 with
  | some m => s₁.prints k m
  | none => { s₁ with pc := Function.update s.pc k .waiting }

def deliverStep (s : State) (k : Nat) : Option State :=
  match s.pending k with
  | [] => none
  | v :: rest =>
      let s₁ := { s with
        pending := Function.update s.pending k rest
        shown := Function.update s.shown k (s.shown k ++ [v]) }
      if s.pc k = .waiting then
        some { s₁ with queue := s.queue.leave k, pc := Function.update s.pc k .mqReceive }
      else some s₁

/-- A sender that finds the queue full waits. -/
def step (maxmsg : Nat) (s : State) : Label → Option State
  | .send m => if s.queue.msgs.length < maxmsg then some (sendStep s m) else none
  | .mqNotify k => if s.pc k = .mqNotify then some (notifyStep s k) else none
  | .mqReceive k => if s.pc k = .mqReceive then some (receiveStep s k) else none
  | .deliver k => deliverStep s k

end Program

section Accounts

variable {maxmsg k : Nat} {s s' : State} {l : Label} {m : List UInt8}

/-- How many lines a receiver has printed. -/
def State.lines (s : State) (k : Nat) : Nat :=
  s.received.countP (fun line => line.1 = k)

/-- The receiver has begun a turn that it has not finished. -/
def Pc.inTurn : Pc → Nat
  | .mqNotify => 0
  | _ => 1

structure Invariant (s : State) : Prop where
  sound : s.queue.Sound
  order : s.received.map Prod.snd ++ s.queue.msgs = s.sent
  blocked : ∀ k, k ∈ s.queue.waiting ↔ s.pc k = .waiting
  once : s.queue.waiting.Nodup
  signals : ∀ k, s.shown k ++ s.pending k ++ s.queue.registeredFor k = s.regs k
  increasing : ∀ k, (s.regs k).Pairwise (fun v v' => v < v')
  bounded : ∀ k, ∀ v ∈ s.regs k, v ≤ s.turn k
  turns : ∀ k, (s.regs k).length + s.busy k = s.turn k
  lines : ∀ k, s.lines k + (s.pc k).inTurn = s.turn k

theorem invariant_start :
    Invariant State.start := by
  constructor <;> simp [State.start, empty, Sound, registeredFor, State.lines, Pc.inTurn]

/-- What a line changes in the numbers of a receiver. -/
theorem lines_append
    {k' : Nat} :
    (s.received ++ [(k', m)]).countP (fun line => line.1 = k) =
      s.lines k + if k' = k then 1 else 0 := by
  rw [List.countP_append, State.lines, List.countP_singleton]
  simp

theorem Invariant.lines_prints
    {k' : Nat}
    (h : Invariant s)
    (hturn : (s.pc k').inTurn = 1) :
    (s.received ++ [(k', m)]).countP (fun line => line.1 = k) +
      (Function.update s.pc k' .mqNotify k).inTurn = s.turn k := by
  have hlines := h.lines k
  rw [lines_append, Function.update_apply]
  by_cases heq : k = k'
  · subst heq
    simp only [↓reduceIte, Pc.inTurn]
    omega
  · simp only [Ne.symm heq, heq, ↓reduceIte]
    omega

theorem Invariant.sendStep
    (h : Invariant s) :
    Invariant (sendStep s m) := by
  have hspec := send_spec s.queue m
  unfold Notification.sendStep
  generalize (s.queue.send m).1 = arrival, (s.queue.send m).2 = q at hspec ⊢
  have hsound := hspec.sound h.sound
  cases hspec with
  | @handed k' waiting hwaiting =>
      have hmem : k' ∈ s.queue.waiting := by
        rw [hwaiting]
        exact List.mem_cons_self
      have hpc := (h.blocked k').mp hmem
      have hempty : s.queue.msgs = [] := h.sound (List.ne_nil_of_mem hmem)
      have hnodup := h.once
      rw [hwaiting, List.nodup_cons] at hnodup
      refine ⟨hsound, ?_, ?_, hnodup.2, h.signals, h.increasing, h.bounded, h.turns, ?_⟩
      · have horder := h.order
        rw [hempty, List.append_nil] at horder
        simp [State.arrival, State.prints, hempty, horder]
      · intro k
        have hold := h.blocked k
        rw [hwaiting, List.mem_cons] at hold
        simp only [State.arrival, State.prints, Function.update_apply]
        split_ifs with heq
        · subst heq
          exact iff_of_false hnodup.1 (by simp)
        · rw [← hold]
          simp [heq]
      · intro k
        exact h.lines_prints (by rw [hpc]; rfl)
  | queued hwaiting hsilent =>
      refine ⟨hsound, ?_, h.blocked, h.once, h.signals, h.increasing, h.bounded, h.turns, h.lines⟩
      simp [State.arrival, ← h.order]
  | @signalled k' v hwaiting hmsgs hregistered =>
      refine ⟨hsound, ?_, h.blocked, h.once, ?_, h.increasing, h.bounded, h.turns, h.lines⟩
      · have horder := h.order
        rw [hmsgs, List.append_nil] at horder
        simp [State.arrival, horder]
      · intro k
        have hold := h.signals k
        rw [registeredFor_some hregistered] at hold
        simp only [State.arrival, Function.update_apply]
        rw [registeredFor_none rfl, ← hold]
        by_cases heq : k = k'
        · subst heq
          simp
        · simp [heq, Ne.symm heq]

/-- The counters of the turn that begins with `mq_notify`. -/
theorem Invariant.lines_begins
    {k' : Nat}
    (h : Invariant s)
    (hpc : s.pc k' = .mqNotify) :
    s.lines k + (Function.update s.pc k' .mqReceive k).inTurn =
      Function.update s.turn k' (s.turn k' + 1) k := by
  have hlines := h.lines k
  rw [Function.update_apply, Function.update_apply]
  split_ifs with heq
  · subst heq
    rw [hpc] at hlines
    simp only [Pc.inTurn] at hlines ⊢
    omega
  · exact hlines

/-- A receiver goes on within its turn. -/
theorem Invariant.lines_stays
    {k' : Nat} {pc : Pc}
    (h : Invariant s)
    (hturn : pc.inTurn = (s.pc k').inTurn) :
    s.lines k + (Function.update s.pc k' pc k).inTurn = s.turn k := by
  rw [← h.lines k, Function.update_apply]
  split_ifs with heq
  · rw [heq, hturn]
  · rfl

theorem Invariant.bounded_begins
    {j v : Nat}
    (h : Invariant s)
    (hv : v ∈ s.regs j) :
    v ≤ Function.update s.turn k (s.turn k + 1) j := by
  have hle := h.bounded j v hv
  rw [Function.update_apply]
  split_ifs with heq
  · rw [heq] at hle
    omega
  · exact hle

/-- The registrations of receiver `j` when `k` has registered with the number of its new turn. -/
def State.regsWith (s : State) (k j : Nat) : List Nat :=
  s.regs j ++ if k = j then [s.turn k + 1] else []

theorem regsWith_eq
    (j : Nat) :
    Function.update s.regs k (s.regs k ++ [s.turn k + 1]) j = s.regsWith k j := by
  rw [Function.update_apply, State.regsWith]
  by_cases heq : j = k
  · simp [heq]
  · simp [heq, Ne.symm heq]

theorem Invariant.increasing_regsWith
    (h : Invariant s)
    (j : Nat) :
    (s.regsWith k j).Pairwise (fun v v' => v < v') := by
  refine List.pairwise_append.mpr ⟨h.increasing j, by split_ifs <;> simp, ?_⟩
  intro v hv v' hv'
  split_ifs at hv' with heq
  · have hle := h.bounded j v hv
    rw [List.mem_singleton] at hv'
    rw [← heq] at hle
    omega
  · cases hv'

theorem Invariant.bounded_regsWith
    {j v : Nat}
    (h : Invariant s)
    (hv : v ∈ s.regsWith k j) :
    v ≤ Function.update s.turn k (s.turn k + 1) j := by
  rcases List.mem_append.mp hv with hold | hnew
  · exact h.bounded_begins hold
  · split_ifs at hnew with heq
    · rw [List.mem_singleton] at hnew
      rw [hnew, ← heq]
      simp
    · cases hnew

theorem Invariant.turns_regsWith
    (h : Invariant s)
    (j : Nat) :
    (s.regsWith k j).length + s.busy j = Function.update s.turn k (s.turn k + 1) j := by
  have hturns := h.turns j
  simp only [State.regsWith, List.length_append, Function.update_apply]
  by_cases heq : j = k
  · subst heq
    simp only [↓reduceIte, List.length_singleton]
    omega
  · simp only [heq, Ne.symm heq, ↓reduceIte, List.length_nil]
    omega

theorem Invariant.notifyStep
    (h : Invariant s)
    (hpc : s.pc k = .mqNotify) :
    Invariant (notifyStep s k) := by
  have hblocked : ∀ j, j ∈ s.queue.waiting ↔ Function.update s.pc k .mqReceive j = .waiting := by
    intro j
    rw [h.blocked j, Function.update_apply]
    split_ifs with heq
    · rw [heq, hpc]
      simp
    · rfl
  have hlines := fun j => h.lines_begins (k := j) hpc
  simp only [Notification.notifyStep]
  cases hreg : s.queue.registered with
  | none =>
      simp only [notify, hreg, ↓reduceIte]
      refine ⟨h.sound, h.order, hblocked, h.once, ?_, ?_, ?_, ?_, hlines⟩ <;>
        simp only [regsWith_eq]
      · intro j
        have hold := h.signals j
        rw [registeredFor_none hreg, List.append_nil] at hold
        simp only [State.regsWith, registeredFor, ← hold]
      · exact h.increasing_regsWith
      · exact fun j v hv => h.bounded_regsWith hv
      · exact h.turns_regsWith
  | some registration =>
      simp only [notify, hreg, Bool.false_eq_true, ↓reduceIte]
      refine ⟨h.sound, h.order, hblocked, h.once, h.signals, h.increasing,
        fun j v hv => h.bounded_begins hv, ?_, hlines⟩
      intro j
      have hturns := h.turns j
      simp only [Function.update_apply]
      split_ifs with heq
      · rw [heq] at hturns ⊢
        omega
      · exact hturns

theorem Invariant.receiveStep
    (h : Invariant s)
    (hpc : s.pc k = .mqReceive) :
    Invariant (receiveStep s k) := by
  have hout : k ∉ s.queue.waiting := by
    rw [h.blocked k, hpc]
    simp
  simp only [Notification.receiveStep]
  cases hmsgs : s.queue.msgs with
  | nil =>
      simp only [receive, hmsgs]
      refine ⟨fun _ => rfl, ?_, ?_, ?_, h.signals, h.increasing, h.bounded, h.turns,
        fun j => h.lines_stays (by rw [hpc]; rfl)⟩
      · have horder := h.order
        rw [hmsgs] at horder
        exact horder
      · intro j
        simp only [List.mem_append, List.mem_singleton, h.blocked j, Function.update_apply]
        split_ifs with heq
        · simp [heq]
        · simp [heq]
      · refine List.nodup_append.mpr ⟨h.once, List.nodup_singleton k, ?_⟩
        rintro j hj j' hj' rfl
        rw [List.mem_singleton] at hj'
        exact hout (hj' ▸ hj)
  | cons m msgs =>
      have hnobody : s.queue.waiting = [] := by
        by_contra hne
        exact absurd (h.sound hne) (by rw [hmsgs]; exact List.cons_ne_nil m msgs)
      simp only [receive, hmsgs, State.prints]
      refine ⟨?_, ?_, ?_, h.once, h.signals, h.increasing, h.bounded, h.turns, ?_⟩
      · intro hne
        exact absurd hnobody hne
      · have horder := h.order
        rw [hmsgs] at horder
        simp [← horder]
      · intro j
        have hold := h.blocked j
        simp only [hnobody, List.not_mem_nil, false_iff] at hold ⊢
        rw [Function.update_apply]
        split_ifs
        · simp
        · exact hold
      · intro j
        exact h.lines_prints (by rw [hpc]; rfl)

theorem Invariant.deliverStep
    (h : Invariant s)
    (hstep : deliverStep s k = some s') :
    Invariant s' := by
  unfold Notification.deliverStep at hstep
  split at hstep
  case h_1 =>
      cases hstep
  case h_2 v rest hpending =>
      have hsignals : ∀ j, Function.update s.shown k (s.shown k ++ [v]) j ++
          Function.update s.pending k rest j ++ s.queue.registeredFor j = s.regs j := by
        intro j
        rw [← h.signals j, Function.update_apply, Function.update_apply]
        split_ifs with heq
        · rw [heq, hpending]
          simp
        · rfl
      split_ifs at hstep with hpc
      · cases hstep
        refine ⟨?_, h.order, ?_, h.once.erase k, hsignals, h.increasing, h.bounded, h.turns,
          fun j => h.lines_stays (by rw [hpc]; rfl)⟩
        · intro hne
          refine h.sound ?_
          rintro hempty
          simp [leave, hempty] at hne
        · intro j
          simp only [leave, h.once.mem_erase_iff, h.blocked j, Function.update_apply]
          split_ifs with heq
          · simp [heq]
          · simp [heq]
      · cases hstep
        exact ⟨h.sound, h.order, h.blocked, h.once, hsignals, h.increasing, h.bounded, h.turns,
          h.lines⟩

theorem Invariant.step
    (h : Invariant s)
    (hstep : step maxmsg s l = some s') :
    Invariant s' := by
  cases l with
  | send m =>
      obtain ⟨_, hstep⟩ := Option.ite_none_right_eq_some.mp hstep
      cases hstep
      exact h.sendStep
  | mqNotify k =>
      obtain ⟨hpc, hstep⟩ := Option.ite_none_right_eq_some.mp hstep
      cases hstep
      exact h.notifyStep hpc
  | mqReceive k =>
      obtain ⟨hpc, hstep⟩ := Option.ite_none_right_eq_some.mp hstep
      cases hstep
      exact h.receiveStep hpc
  | deliver k =>
      exact h.deliverStep hstep

/--
In every run, with any number of receivers: the messages received and those in the queue are the
messages sent, in this order, and a receiver waits only if the queue is empty.  The signals of a
receiver and its registration are the turns in which it has registered, each once and in order,
and in each of its other turns it has reported EBUSY.
-/
theorem received_once
    {ls : List Label}
    (hrun : run (Notification.step maxmsg) State.start ls = some s) :
    s.received.map Prod.snd ++ s.queue.msgs = s.sent ∧
    (∀ k, s.pc k = .waiting → s.queue.msgs = []) ∧
    ∀ k,
      s.shown k ++ s.pending k ++ s.queue.registeredFor k = s.regs k ∧
      (s.regs k).Pairwise (fun v v' => v < v') ∧
      (s.regs k).length + s.busy k = s.lines k + (s.pc k).inTurn := by
  have h : Invariant s := run_invariant (fun _ _ _ h hstep => h.step hstep) invariant_start hrun
  refine ⟨h.order, ?_, ?_⟩
  · intro k hpc
    exact h.sound (List.ne_nil_of_mem ((h.blocked k).mpr hpc))
  · intro k
    exact ⟨h.signals k, h.increasing k, (h.turns k).trans (h.lines k).symm⟩

/-- Two receivers; the second one finds the first registered, and a message comes between. -/
def twoReceivers : List Label :=
  [.mqNotify 1, .mqNotify 2, .send [97], .mqReceive 2, .mqReceive 1, .deliver 1, .mqReceive 1,
    .send [98]]

theorem received_twoReceivers :
    ∃ s,
      run (Notification.step 10) State.start twoReceivers = some s ∧
      s.shown 1 = [1] ∧
      s.busy 2 = 1 ∧
      s.received.map Prod.snd ++ s.queue.msgs = s.sent := by
  have hrun : run (Notification.step 10) State.start twoReceivers = some _ := rfl
  exact ⟨_, hrun, rfl, rfl, (received_once hrun).1⟩

end Accounts

section OneReceiver

variable {maxmsg k : Nat} {s s' : State} {l : Label} {m : List UInt8}

/-- The step is not one of another receiver. -/
def Label.only (k : Nat) : Label → Bool
  | .send _ => true
  | .mqNotify k' => k' = k
  | .mqReceive k' => k' = k
  | .deliver k' => k' = k

/-- A receiver that is alone has registered, unless it has been signalled for a message. -/
structure Alone (k : Nat) (s : State) : Prop where
  invariant : Invariant s
  others : ∀ j, j ≠ k → s.pc j = .mqNotify ∧ s.regs j = []
  receive : s.pc k = .mqReceive → s.queue.registered ≠ none ∨ s.queue.msgs ≠ []
  waiting : s.pc k = .waiting → s.queue.registered ≠ none

theorem alone_start :
    Alone k State.start := by
  refine ⟨invariant_start, fun _ _ => ⟨rfl, rfl⟩, ?_, ?_⟩
  · intro hpc
    cases hpc
  · intro hpc
    cases hpc

theorem Alone.eq_of_waiting
    {j : Nat}
    (h : Alone k s)
    (hj : j ∈ s.queue.waiting) :
    j = k := by
  by_contra hne
  have hpc := (h.invariant.blocked j).mp hj
  rw [(h.others j hne).1] at hpc
  cases hpc

theorem Alone.eq_of_registered
    {j v : Nat}
    (h : Alone k s)
    (hregistered : s.queue.registered = some (j, v)) :
    j = k := by
  by_contra hne
  have hsignals := h.invariant.signals j
  rw [registeredFor_some hregistered, if_pos rfl, (h.others j hne).2] at hsignals
  simp at hsignals

theorem Alone.sendStep
    (h : Alone k s) :
    Alone k (sendStep s m) := by
  have hnext : Invariant (Notification.sendStep s m) := h.invariant.sendStep
  have hspec := send_spec s.queue m
  unfold Notification.sendStep at hnext ⊢
  generalize (s.queue.send m).1 = arrival, (s.queue.send m).2 = q at hspec hnext ⊢
  cases hspec with
  | @handed j waiting hwaiting =>
      have heq : j = k := h.eq_of_waiting (by rw [hwaiting]; exact List.mem_cons_self)
      subst heq
      refine ⟨hnext, ?_, ?_, ?_⟩
      · intro i hne
        exact ⟨(Function.update_of_ne hne ..).trans (h.others i hne).1, (h.others i hne).2⟩
      · intro hpc
        simp [State.arrival, State.prints] at hpc
      · intro hpc
        simp [State.arrival, State.prints] at hpc
  | queued hwaiting hsilent =>
      exact ⟨hnext, h.others, fun _ => Or.inr (by simp), h.waiting⟩
  | @signalled j v hwaiting hmsgs hregistered =>
      refine ⟨hnext, h.others, fun _ => Or.inr (by simp), ?_⟩
      intro hpc
      have hmem := (h.invariant.blocked k).mpr hpc
      rw [hwaiting] at hmem
      cases hmem

theorem Alone.notifyStep
    (h : Alone k s)
    (hpc : s.pc k = .mqNotify) :
    Alone k (notifyStep s k) := by
  have hnext := h.invariant.notifyStep hpc
  simp only [Notification.notifyStep] at hnext ⊢
  cases hreg : s.queue.registered with
  | none =>
      simp only [notify, hreg, ↓reduceIte] at hnext ⊢
      refine ⟨hnext, ?_, fun _ => Or.inl (by simp), fun _ => by simp⟩
      intro j hne
      exact ⟨(Function.update_of_ne hne ..).trans (h.others j hne).1,
        (Function.update_of_ne hne ..).trans (h.others j hne).2⟩
  | some registration =>
      have hsome : s.queue.registered ≠ none := by
        rw [hreg]
        exact Option.some_ne_none _
      simp only [notify, hreg, Bool.false_eq_true, ↓reduceIte] at hnext ⊢
      refine ⟨hnext, ?_, fun _ => Or.inl hsome, fun _ => hsome⟩
      intro j hne
      exact ⟨(Function.update_of_ne hne ..).trans (h.others j hne).1, (h.others j hne).2⟩

theorem Alone.receiveStep
    (h : Alone k s)
    (hpc : s.pc k = .mqReceive) :
    Alone k (receiveStep s k) := by
  have hnext := h.invariant.receiveStep hpc
  simp only [Notification.receiveStep] at hnext ⊢
  cases hmsgs : s.queue.msgs with
  | nil =>
      simp only [NotifyQueue.receive, hmsgs] at hnext ⊢
      refine ⟨hnext, ?_, ?_, ?_⟩
      · intro j hne
        exact ⟨(Function.update_of_ne hne ..).trans (h.others j hne).1, (h.others j hne).2⟩
      · intro hpc'
        simp at hpc'
      · intro _
        exact (h.receive hpc).resolve_right (not_not.mpr hmsgs)
  | cons m msgs =>
      simp only [NotifyQueue.receive, hmsgs, State.prints] at hnext ⊢
      refine ⟨hnext, ?_, ?_, ?_⟩
      · intro j hne
        exact ⟨(Function.update_of_ne hne ..).trans (h.others j hne).1, (h.others j hne).2⟩
      · intro hpc'
        simp at hpc'
      · intro hpc'
        simp at hpc'

theorem Alone.deliverStep
    (h : Alone k s)
    (hstep : deliverStep s k = some s') :
    Alone k s' := by
  have hnext := h.invariant.deliverStep hstep
  unfold Notification.deliverStep at hstep
  split at hstep
  case h_1 =>
      cases hstep
  case h_2 v rest hpending =>
      split_ifs at hstep with hpc
      · cases hstep
        refine ⟨hnext, ?_, fun _ => Or.inl (h.waiting hpc), ?_⟩
        · intro j hne
          exact ⟨(Function.update_of_ne hne ..).trans (h.others j hne).1, (h.others j hne).2⟩
        · intro hpc'
          simp at hpc'
      · cases hstep
        exact ⟨hnext, h.others, h.receive, h.waiting⟩

theorem Alone.step
    (h : Alone k s)
    (honly : l.only k = true)
    (hstep : step maxmsg s l = some s') :
    Alone k s' := by
  cases l with
  | send m =>
      obtain ⟨_, hstep⟩ := Option.ite_none_right_eq_some.mp hstep
      cases hstep
      exact h.sendStep
  | mqNotify j =>
      obtain rfl : j = k := of_decide_eq_true honly
      obtain ⟨hpc, hstep⟩ := Option.ite_none_right_eq_some.mp hstep
      cases hstep
      exact h.notifyStep hpc
  | mqReceive j =>
      obtain rfl : j = k := of_decide_eq_true honly
      obtain ⟨hpc, hstep⟩ := Option.ite_none_right_eq_some.mp hstep
      cases hstep
      exact h.receiveStep hpc
  | deliver j =>
      obtain rfl : j = k := of_decide_eq_true honly
      exact h.deliverStep hstep

/--
With one receiver, a message that arrives at the empty queue is received at once or the receiver
is signalled, unless the receiver is on its way to `mq_notify`.
-/
theorem told_unless_between
    {ls : List Label}
    (honly : ∀ l ∈ ls, l.only k = true)
    (hrun : run (Notification.step maxmsg) State.start ls = some s)
    (hmsgs : s.queue.msgs = [])
    (hpc : s.pc k ≠ .mqNotify)
    (hstep : Notification.step maxmsg s (.send m) = some s') :
    s'.received = s.received ++ [(k, m)] ∨ ∃ v, s'.pending k = s.pending k ++ [v] := by
  have h : Alone k s :=
    run_invariant_along (G := fun _ l => l.only k = true)
      (fun _ _ _ h honly hstep => h.step honly hstep) alone_start (along_of_forall_mem honly _) hrun
  obtain ⟨_, hstep⟩ := Option.ite_none_right_eq_some.mp hstep
  cases hstep
  have hspec := send_spec s.queue m
  unfold sendStep
  generalize (s.queue.send m).1 = arrival, (s.queue.send m).2 = q at hspec ⊢
  cases hspec with
  | @handed j waiting hwaiting =>
      left
      have heq : j = k := h.eq_of_waiting (by rw [hwaiting]; exact List.mem_cons_self)
      simp [State.arrival, State.prints, heq]
  | queued hwaiting hsilent =>
      have hnone : s.queue.registered = none := hsilent.resolve_left (not_not.mpr hmsgs)
      cases hplace : s.pc k with
      | mqNotify =>
          exact absurd hplace hpc
      | mqReceive =>
          rcases h.receive hplace with hregistered | hnonempty
          · exact absurd hnone hregistered
          · exact absurd hmsgs hnonempty
      | waiting =>
          exact absurd hnone (h.waiting hplace)
  | @signalled j v hwaiting hmsgs hregistered =>
      right
      have heq : j = k := h.eq_of_registered hregistered
      exact ⟨v, by simp [State.arrival, heq]⟩

/-- The receiver has registered and is on its way to `mq_receive`. -/
theorem told_beforeReceive :
    ∃ s s',
      run (Notification.step 10) State.start [.mqNotify 0] = some s ∧
      Notification.step 10 s (.send [97]) = some s' ∧
      s'.received = [] ∧
      (s'.received = s.received ++ [(0, [97])] ∨ ∃ v, s'.pending 0 = s.pending 0 ++ [v]) := by
  have hrun : run (Notification.step 10) State.start [.mqNotify 0] = some _ := rfl
  refine ⟨_, _, hrun, rfl, rfl, ?_⟩
  exact @told_unless_between 10 0 _ _ [97] _ (by decide) hrun rfl (by decide) rfl

end OneReceiver

end Notification
end MsgSender
end SysProg
