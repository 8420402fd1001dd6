import Mathlib.Tactic

/-!
# A message queue with notification

A queue of messages from which processes receive; a process that finds it empty waits.  A
process may register for notification, with a value of its own.  When a message arrives at the
empty queue, it is handed to the process that has waited longest; only if there is none, the
registered process is signalled, and its registration is used up.
-/

namespace SysProg

universe u

/-- The messages, the processes that wait for one, and the registered process with its value. -/
structure NotifyQueue (μ : Type u) where
  msgs : List μ
  waiting : List Nat
  registered : Option (Nat × Nat)
deriving DecidableEq, Repr

namespace NotifyQueue

variable {μ : Type u} {q : NotifyQueue μ} {m : μ} {k : Nat}

section Operations

def empty : NotifyQueue μ :=
  ⟨[], [], none⟩

/-- What becomes of a message that arrives. -/
inductive Arrival where
  | handed (k : Nat)
  | queued
  | signalled (k v : Nat)
deriving DecidableEq, Repr

def send (q : NotifyQueue μ) (m : μ) : Arrival × NotifyQueue μ :=
  match q.waiting with
  | k :: waiting => (.handed k, { q with waiting := waiting })
  | [] =>
      match q.msgs, q.registered with
      | [], some (k, v) => (.signalled k v, { q with msgs := [m], registered := none })
      | msgs, _ => (.queued, { q with msgs := msgs ++ [m] })

/-- The first message, or the process waits. -/
def receive (q : NotifyQueue μ) (k : Nat) : Option μ × NotifyQueue μ :=
  match q.msgs with
  | m :: msgs => (some m, { q with msgs := msgs })
  | [] => (none, { q with waiting := q.waiting ++ [k] })

/-- A process stops waiting. -/
def leave (q : NotifyQueue μ) (k : Nat) : NotifyQueue μ :=
  { q with waiting := q.waiting.erase k }

/-- Registers a process, unless one is registered. -/
def notify (q : NotifyQueue μ) (k v : Nat) : Bool × NotifyQueue μ :=
  match q.registered with
  | none => (true, { q with registered := some (k, v) })
  | some _ => (false, q)

end Operations

section Specification

/-- What `send` does. -/
inductive Sends (q : NotifyQueue μ) (m : μ) : Arrival → NotifyQueue μ → Prop
  | handed {k : Nat} {waiting : List Nat}
      (hwaiting : q.waiting = k :: waiting) :
      Sends q m (.handed k) { q with waiting := waiting }
  | queued
      (hwaiting : q.waiting = [])
      (hsilent : q.msgs ≠ [] ∨ q.registered = none) :
      Sends q m .queued { q with msgs := q.msgs ++ [m] }
  | signalled {k v : Nat}
      (hwaiting : q.waiting = [])
      (hmsgs : q.msgs = [])
      (hregistered : q.registered = some (k, v)) :
      Sends q m (.signalled k v) { q with msgs := [m], registered := none }

theorem send_spec
    (q : NotifyQueue μ) (m : μ) :
    Sends q m (q.send m).1 (q.send m).2 := by
  unfold send
  split
  case h_1 k waiting hwaiting =>
      exact .handed hwaiting
  case h_2 hwaiting =>
      split
      case h_1 k v hmsgs hregistered =>
          exact .signalled hwaiting hmsgs hregistered
      case h_2 hother =>
          refine .queued hwaiting ?_
          by_contra hnot
          obtain ⟨hmsgs, hregistered⟩ := not_or.mp hnot
          obtain ⟨⟨k, v⟩, hsome⟩ := Option.ne_none_iff_exists'.mp hregistered
          exact hother k v (not_not.mp hmsgs) hsome

/-- Nobody waits while there is a message. -/
def Sound (q : NotifyQueue μ) : Prop :=
  q.waiting ≠ [] → q.msgs = []

/-- The value for which a process is registered. -/
def registeredFor (q : NotifyQueue μ) (k : Nat) : List Nat :=
  match q.registered with
  | some (k', v) => if k' = k then [v] else []
  | none => []

theorem registeredFor_none
    (h : q.registered = none) :
    q.registeredFor k = [] := by
  rw [registeredFor, h]

theorem registeredFor_some
    {k' v : Nat}
    (h : q.registered = some (k', v)) :
    q.registeredFor k = if k' = k then [v] else [] := by
  rw [registeredFor, h]

theorem Sends.sound
    {arrival : Arrival} {q' : NotifyQueue μ}
    (hsends : Sends q m arrival q')
    (h : q.Sound) :
    q'.Sound := by
  cases hsends with
  | handed hwaiting =>
      intro _
      exact h (by rw [hwaiting]; exact List.cons_ne_nil _ _)
  | queued hwaiting hsilent =>
      intro hne
      exact absurd hwaiting hne
  | signalled hwaiting hmsgs hregistered =>
      intro hne
      exact absurd hwaiting hne

end Specification

end NotifyQueue
end SysProg
