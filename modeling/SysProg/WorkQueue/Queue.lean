import SysProg.Lib.RingBuffer
import SysProg.Lib.Run
import Mathlib.Tactic

/-!
# The work queue of ALSP/cond_var.c

`struct workqueue` keeps at most `MAX_ITEMS` items in an array.  `idx` is the slot of
the oldest item and may rest at `MAX_ITEMS` until the next `pop_item` wraps it;
`push_item` computes the first free slot with `%` and wraps it inside its loop.

Both functions are modelled with the mutex held.  An access outside the array makes
the result `none`.

`workqueue_refines_fifo`: from the zeroed structure on, every sequence of calls is a
sequence of calls of a bounded queue, with the same results.
-/

namespace SysProg
namespace WorkQueue

open RingBuffer Run

def MAX_ITEMS : Nat := 64

section Code

structure Workqueue where
  item : Nat → Int
  idx : Int
  cnt : Int

/-- The structure as `calloc` returns it. -/
def Workqueue.zero : Workqueue :=
  ⟨fun _ => 0, 0, 0⟩

/-- An index of the array `item`. -/
def InItems (j : Int) : Prop :=
  0 ≤ j ∧ j < MAX_ITEMS

instance (j : Int) : Decidable (InItems j) :=
  inferInstanceAs (Decidable (_ ∧ _))

/-- The loop of `push_item`, with `cnt - i` turns left. -/
def pushLoop (item : Nat → Int8) :
    Nat → Nat → Int → Workqueue → Option (Nat × Workqueue)
  | 0, i, _, wq => some (i, wq)
  | n + 1, i, j, wq =>
      if wq.cnt = MAX_ITEMS then some (i, wq)
      else
        let j := if j = MAX_ITEMS then 0 else j
        if InItems j then
          pushLoop item n (i + 1) (j + 1)
            { wq with
              item := Function.update wq.item j.toNat (item i).toInt
              cnt := wq.cnt + 1 }
        else none

/-- `push_item`, with its return value. -/
def Workqueue.pushItem
    (wq : Workqueue) (item : Nat → Int8) (cnt : Int) :
    Option (Nat × Workqueue) :=
  pushLoop item cnt.toNat 0 ((wq.idx + wq.cnt).tmod MAX_ITEMS) wq

/-- What the loop of `pop_item` does when it has the mutex. -/
inductive Pop where
  | taken (item : Int) (wq : Workqueue)
  | condWait

def Workqueue.popItem (wq : Workqueue) : Option Pop :=
  if wq.cnt > 0 then
    let idx := if wq.idx = MAX_ITEMS then 0 else wq.idx
    if InItems idx then
      some (.taken (wq.item idx.toNat) { wq with idx := idx + 1, cnt := wq.cnt - 1 })
    else none
  else some .condWait

end Code

section Contents

/-- The queued items, the oldest first. -/
def Workqueue.items (wq : Workqueue) : List Int :=
  window wq.item MAX_ITEMS wq.idx.toNat wq.cnt.toNat

/-- The first `n` of a batch of characters, as they are stored. -/
def batch (item : Nat → Int8) (n : Nat) : List Int :=
  (List.range n).map (fun i => (item i).toInt)

structure Bounded (wq : Workqueue) : Prop where
  idx_nonneg : 0 ≤ wq.idx
  idx_le : wq.idx ≤ MAX_ITEMS
  cnt_nonneg : 0 ≤ wq.cnt
  cnt_le : wq.cnt ≤ MAX_ITEMS

theorem bounded_zero :
    Bounded Workqueue.zero := by
  constructor <;> decide

variable {wq : Workqueue}

theorem length_items
    (h : Bounded wq) :
    (wq.items.length : Int) = wq.cnt := by
  simp [Workqueue.items, h.cnt_nonneg]

/-- The slot behind the queued items, as the loop of `push_item` finds it. -/
theorem slot_eq
    {j : Int}
    (h : Bounded wq)
    (hj : 0 ≤ j ∧ j ≤ MAX_ITEMS)
    (hmod : j % MAX_ITEMS = (wq.idx + wq.cnt) % MAX_ITEMS) :
    (if j = MAX_ITEMS then 0 else j) =
      (((wq.idx.toNat + wq.cnt.toNat) % MAX_ITEMS : Nat) : Int) := by
  have hidx := h.idx_nonneg
  have hcnt := h.cnt_nonneg
  simp only [MAX_ITEMS] at *
  split_ifs <;> omega

/-- One turn of the loop of `push_item` that stores a character. -/
theorem items_store
    {j : Int}
    (h : Bounded wq)
    (hroom : wq.cnt ≠ MAX_ITEMS)
    (hj : j = (((wq.idx.toNat + wq.cnt.toNat) % MAX_ITEMS : Nat) : Int))
    (x : Int) :
    ({ wq with
        item := Function.update wq.item j.toNat x
        cnt := wq.cnt + 1 } : Workqueue).items = wq.items ++ [x] := by
  have hcnt : (wq.cnt + 1).toNat = wq.cnt.toNat + 1 := by
    have := h.cnt_nonneg
    omega
  have hlt : wq.cnt.toNat < MAX_ITEMS := by
    have := h.cnt_le
    have := h.cnt_nonneg
    omega
  simp only [Workqueue.items, hcnt, hj, Int.toNat_natCast]
  exact window_push x hlt

@[simp] theorem length_batch
    (item : Nat → Int8) (n : Nat) :
    (batch item n).length = n := by
  simp [batch]

theorem batch_succ
    (item : Nat → Int8) (n : Nat) :
    batch item (n + 1) = (item 0).toInt :: batch (fun k => item (k + 1)) n := by
  rw [batch, List.range_succ_eq_map, List.map_cons, List.map_map]
  rfl

theorem take_batch
    (item : Nat → Int8) (r n : Nat) :
    (batch item n).take (min n r) = batch item (min n r) := by
  rw [batch, ← List.map_take, List.take_range, batch]
  congr 2
  omega

/-- The loop of `push_item` appends what there is room for. -/
theorem pushLoop_spec
    (item : Nat → Int8) (n i : Nat) (j : Int) (wq : Workqueue)
    (h : Bounded wq)
    (hj : 0 ≤ j ∧ j ≤ MAX_ITEMS)
    (hmod : j % MAX_ITEMS = (wq.idx + wq.cnt) % MAX_ITEMS) :
    ∃ wq',
      pushLoop item n i j wq =
        some (i + min n (MAX_ITEMS - wq.items.length), wq') ∧
      Bounded wq' ∧
      wq'.items =
        wq.items ++
          batch (fun k => item (i + k)) (min n (MAX_ITEMS - wq.items.length)) := by
  induction n generalizing i j wq with
  | zero =>
      exact ⟨wq, by simp [pushLoop], h, by simp [batch]⟩
  | succ n ih =>
      have hlen := length_items h
      by_cases hfull : wq.cnt = MAX_ITEMS
      · have hnone : MAX_ITEMS - wq.items.length = 0 := by omega
        refine ⟨wq, by simp [pushLoop, hfull, hnone], h, ?_⟩
        simp [hnone, batch]
      · have hslot := slot_eq h hj hmod
        have hidx := h.idx_nonneg
        have hcnt := h.cnt_nonneg
        have hle := h.cnt_le
        -- the slot is inside the array, and the next one is again the slot behind the items
        have hin : InItems (if j = MAX_ITEMS then 0 else j) := by
          rw [hslot]
          simp only [InItems, MAX_ITEMS]
          omega
        have hstore := items_store h hfull hslot (item i).toInt
        obtain ⟨wq', hloop, hbound, hitems⟩ :=
          ih (i + 1) ((if j = MAX_ITEMS then 0 else j) + 1)
            { wq with
              item := Function.update wq.item (if j = MAX_ITEMS then 0 else j).toNat
                (item i).toInt
              cnt := wq.cnt + 1 }
            ⟨hidx, h.idx_le, by simp only; omega, by simp only; omega⟩
            (by rw [hslot]; simp only [MAX_ITEMS]; omega)
            (by rw [hslot]; simp only [MAX_ITEMS]; omega)
        have hroom : min (n + 1) (MAX_ITEMS - wq.items.length) =
            min n (MAX_ITEMS - (wq.items.length + 1)) + 1 := by
          omega
        rw [hstore, List.length_append, List.length_singleton] at hloop hitems
        refine ⟨wq', ?_, hbound, ?_⟩
        · rw [pushLoop, if_neg hfull]
          simp only [if_pos hin]
          rw [hloop, hroom]
          congr 2
          omega
        · rw [hitems, hroom, batch_succ, List.append_assoc]
          simp only [List.singleton_append, Nat.add_zero, Nat.add_assoc, Nat.add_comm 1]

/-- `push_item` takes the first items of the batch, as many as there is room for. -/
theorem pushItem_spec
    (h : Bounded wq)
    (item : Nat → Int8) (cnt : Int) :
    ∃ wq',
      wq.pushItem item cnt =
        some (min cnt.toNat (MAX_ITEMS - wq.items.length), wq') ∧
      Bounded wq' ∧
      wq'.items =
        wq.items ++ batch item (min cnt.toNat (MAX_ITEMS - wq.items.length)) := by
  have hidx := h.idx_nonneg
  have hcnt := h.cnt_nonneg
  have hmod : (wq.idx + wq.cnt).tmod MAX_ITEMS = (wq.idx + wq.cnt) % MAX_ITEMS :=
    Int.tmod_eq_emod_of_nonneg (by omega)
  have hloop := pushLoop_spec item cnt.toNat 0 ((wq.idx + wq.cnt).tmod MAX_ITEMS) wq h
    (by rw [hmod]; simp only [MAX_ITEMS]; omega)
    (by rw [hmod, Int.emod_emod])
  simp only [Nat.zero_add] at hloop
  exact hloop

/-- `pop_item` waits if the queue is empty and gives the oldest item otherwise. -/
theorem popItem_spec
    (h : Bounded wq) :
    (wq.items = [] ∧ wq.popItem = some .condWait) ∨
    ∃ item wq',
      wq.popItem = some (.taken item wq') ∧
      Bounded wq' ∧
      wq.items = item :: wq'.items := by
  have hidx := h.idx_nonneg
  have hidx' := h.idx_le
  have hcnt := h.cnt_nonneg
  have hcnt' := h.cnt_le
  by_cases hpos : wq.cnt > 0
  · right
    -- `idx` or its wrapped value is the first slot of the window
    have hslot : (if wq.idx = MAX_ITEMS then 0 else wq.idx) =
        ((wq.idx.toNat % MAX_ITEMS : Nat) : Int) := by
      simp only [MAX_ITEMS] at *
      split_ifs <;> omega
    have hin : InItems (if wq.idx = MAX_ITEMS then 0 else wq.idx) := by
      rw [hslot]
      simp only [InItems, MAX_ITEMS]
      omega
    refine ⟨_, _, (if_pos hpos).trans (if_pos hin), ?_, ?_⟩
    · rw [hslot]
      refine ⟨?_, ?_, ?_, ?_⟩ <;> simp only [MAX_ITEMS] at * <;> omega
    · obtain ⟨n, hn⟩ : ∃ n, wq.cnt.toNat = n + 1 := ⟨wq.cnt.toNat - 1, by omega⟩
      have hn' : (wq.cnt - 1).toNat = n := by omega
      have hnext : (((wq.idx.toNat % MAX_ITEMS : Nat) : Int) + 1).toNat =
          wq.idx.toNat % MAX_ITEMS + 1 := by
        omega
      simp only [Workqueue.items, hn, hn', hslot, hnext, Int.toNat_natCast]
      rw [← window_mod, window_pop, Nat.mod_mod]
  · left
    have hzero : wq.cnt.toNat = 0 := by omega
    refine ⟨by simp [Workqueue.items, hzero], ?_⟩
    simp [Workqueue.popItem, hpos]

end Contents

section Refinement

/-- The calls of the two functions; `pop_item` is called when the queue has an item. -/
inductive Call where
  | pushItem (item : Nat → Int8) (cnt : Int)
  | popItem

/-- The queue and what the calls so far have returned. -/
structure Calls where
  wq : Workqueue
  rets : List (Ret Int)

def Calls.zero : Calls :=
  ⟨Workqueue.zero, []⟩

def Calls.step (c : Calls) : Call → Option Calls
  | .pushItem item cnt =>
      match c.wq.pushItem item cnt with
      | some (r, wq) => some ⟨wq, c.rets ++ [.pushed r]⟩
      | none => none
  | .popItem =>
      match c.wq.popItem with
      | some (.taken item wq) => some ⟨wq, c.rets ++ [.popped item]⟩
      | some .condWait => none
      | none => none

/-- The call of the bounded queue that a call stands for. -/
def Call.op : Call → Op Int
  | .pushItem item cnt => .push (batch item cnt.toNat)
  | .popItem => .pop

structure Refines (c : Calls) (f : Fifo Int) : Prop where
  bounded : Bounded c.wq
  items : c.wq.items = f.queue
  rets : c.rets = f.rets

theorem refines_zero :
    Refines Calls.zero Fifo.empty :=
  ⟨bounded_zero, rfl, rfl⟩

theorem step_refines
    {c : Calls} {f : Fifo Int}
    (h : Refines c f)
    (call : Call) :
    Option.Rel Refines (c.step call) (f.step MAX_ITEMS call.op) := by
  cases call with
  | pushItem item cnt =>
      obtain ⟨wq', hpush, hbound, hitems⟩ := pushItem_spec h.bounded item cnt
      simp only [Calls.step, hpush, Call.op, Fifo.step]
      refine .some ⟨hbound, ?_, ?_⟩
      · simp only [Fifo.push, ← h.items, hitems, length_batch, take_batch]
      · simp only [Fifo.push, ← h.items, h.rets, length_batch]
  | popItem =>
      rcases popItem_spec h.bounded with ⟨hempty, hpop⟩ | ⟨item, wq', hpop, hbound, hitems⟩
      · rw [h.items] at hempty
        simp only [Calls.step, hpop, Call.op, Fifo.step, Fifo.pop, hempty]
        exact .none
      · rw [h.items] at hitems
        simp only [Calls.step, hpop, Call.op, Fifo.step, Fifo.pop, hitems]
        exact .some ⟨hbound, rfl, by rw [h.rets]⟩

/--
Every sequence of calls, `pop_item` only when there is an item, is carried out within
the array and the bounds of `idx` and `cnt`, and gives the results of a bounded queue.
-/
theorem workqueue_refines_fifo
    (calls : List Call) :
    Option.Rel Refines
      (run Calls.step Calls.zero calls)
      (run (fun f call => Fifo.step MAX_ITEMS f (Call.op call)) Fifo.empty calls) :=
  run_rel (fun _ _ call h => step_refines h call) refines_zero calls

end Refinement

end WorkQueue
end SysProg
