import SysProg.Lib.Run
import Mathlib.Tactic

/-!
# Bounded queues and ring buffers

`Fifo` is the meaning of a bounded queue: a list that takes as much of a batch as
there is room for, and gives its entries back in the order in which they came.

A ring buffer keeps such a list in an array of `cap` slots.  `window mem cap start n`
are the `n` entries from `start` on, with the slots taken modulo `cap`; the lemmas say
what a write behind the window and a move of its start do to that list.
-/

namespace SysProg
namespace RingBuffer

universe u

variable {α : Type u}

section Fifo

/-- The calls of a bounded queue. -/
inductive Op (α : Type u) where
  | push (items : List α)
  | pop
deriving Repr

/-- What the calls return: how many entries were taken, or the entry given back. -/
inductive Ret (α : Type u) where
  | pushed (r : Nat)
  | popped (item : α)
deriving DecidableEq, Repr

/-- The entries in the queue, and what the calls so far have returned. -/
structure Fifo (α : Type u) where
  queue : List α
  rets : List (Ret α)
deriving DecidableEq, Repr

def Fifo.empty : Fifo α :=
  ⟨[], []⟩

/-- Take the first entries of a batch, as many as there is room for. -/
def Fifo.push (cap : Nat) (f : Fifo α) (items : List α) : Fifo α :=
  let r := min items.length (cap - f.queue.length)
  ⟨f.queue ++ items.take r, f.rets ++ [.pushed r]⟩

/-- Give back the oldest entry; there must be one. -/
def Fifo.pop (f : Fifo α) : Option (Fifo α) :=
  match f.queue with
  | [] => none
  | item :: rest => some ⟨rest, f.rets ++ [.popped item]⟩

def Fifo.step (cap : Nat) (f : Fifo α) : Op α → Option (Fifo α)
  | .push items => some (f.push cap items)
  | .pop => f.pop

end Fifo

section Window

/-- The `n` entries from `start` on, around the end of the array. -/
def window (mem : Nat → α) (cap start n : Nat) : List α :=
  (List.range n).map (fun k => mem ((start + k) % cap))

variable {mem : Nat → α} {cap start n : Nat}

@[simp] theorem window_zero :
    window mem cap start 0 = [] := by
  rfl

@[simp] theorem length_window :
    (window mem cap start n).length = n := by
  simp [window]

/-- Less than one round apart, two places are different slots. -/
theorem slot_ne
    {k : Nat}
    (hk : k < n)
    (hn : n < cap) :
    (start + k) % cap ≠ (start + n) % cap := by
  intro heq
  have hmod : start + k ≡ start + n [MOD cap] := heq
  have hkn : k ≡ n [MOD cap] := Nat.ModEq.add_left_cancel' start hmod
  rw [Nat.ModEq, Nat.mod_eq_of_lt (hk.trans hn), Nat.mod_eq_of_lt hn] at hkn
  omega

/-- A write to the slot behind the window appends to it. -/
theorem window_push
    (a : α)
    (hn : n < cap) :
    window (Function.update mem ((start + n) % cap) a) cap start (n + 1) =
      window mem cap start n ++ [a] := by
  rw [window, List.range_succ, List.map_append, window]
  congr 1
  · apply List.map_congr_left
    intro k hk
    exact Function.update_of_ne (slot_ne (List.mem_range.mp hk) hn) a mem
  · simp

/-- A move of the start drops the first entry. -/
theorem window_pop :
    window mem cap start (n + 1) =
      mem (start % cap) :: window mem cap (start + 1) n := by
  rw [window, List.range_succ_eq_map, List.map_cons, List.map_map, window]
  congr 1
  apply List.map_congr_left
  intro k _
  simp only [Function.comp_apply]
  congr 2
  omega

/-- The start counts modulo the number of slots. -/
theorem window_mod :
    window mem cap (start % cap) n = window mem cap start n := by
  apply List.map_congr_left
  intro k _
  rw [Nat.mod_add_mod]

end Window

end RingBuffer
end SysProg
