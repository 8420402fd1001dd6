import Mathlib.Data.List.Nodup
import Mathlib.Logic.Function.Basic
import Mathlib.Tactic

/-!
# Singly linked lists in memory

A memory of nodes, each with a value and the address of the next node or a null pointer.  A
segment is a way from one pointer to another along the `next` fields; a list that ends with a
null pointer is a segment to it.
-/

namespace SysProg
namespace LinkedList

universe u v

variable {α : Type u} {ν : Type v}

structure Node (α : Type u) (ν : Type v) where
  num : ν
  next : Option α
deriving DecidableEq, Repr

/-- From the pointer `p` one comes to `q` over the nodes at the addresses `as`. -/
def Segment (mem : α → Node α ν) : Option α → List α → Option α → Prop
  | p, [], q => p = q
  | p, a :: as, q => p = some a ∧ Segment mem (mem a).next as q

section Rules

variable {mem mem' : α → Node α ν} {p q r : Option α} {a : α} {as bs : List α}

theorem segment_append_iff :
    Segment mem p (as ++ bs) q ↔ ∃ r, Segment mem p as r ∧ Segment mem r bs q := by
  induction as generalizing p with
  | nil =>
      constructor
      · intro h
        exact ⟨p, rfl, h⟩
      · rintro ⟨r, rfl, h⟩
        exact h
  | cons a as ih =>
      simp only [List.cons_append, Segment, ih]
      constructor
      · rintro ⟨hp, r, hfirst, hsecond⟩
        exact ⟨r, ⟨hp, hfirst⟩, hsecond⟩
      · rintro ⟨r, ⟨hp, hfirst⟩, hsecond⟩
        exact ⟨hp, r, hfirst, hsecond⟩

/-- Only the nodes on the way matter. -/
theorem Segment.congr
    (h : Segment mem p as q)
    (hsame : ∀ a ∈ as, (mem' a).next = (mem a).next) :
    Segment mem' p as q := by
  induction as generalizing p with
  | nil =>
      exact h
  | cons a as ih =>
      obtain ⟨hp, hrest⟩ := h
      refine ⟨hp, ?_⟩
      rw [hsame a (by simp)]
      exact ih hrest (fun b hb => hsame b (by simp [hb]))

/-- The segment becomes longer by the node that it leads to. -/
theorem Segment.snoc
    (h : Segment mem p as (some a))
    (hnext : (mem a).next = q) :
    Segment mem p (as ++ [a]) q :=
  segment_append_iff.mpr ⟨some a, h, rfl, hnext⟩

/-- A list is entered at its first node. -/
theorem Segment.eq_head?
    (h : Segment mem p as none) :
    p = as.head? := by
  cases as with
  | nil => exact h
  | cons a as => exact h.1

end Rules

end LinkedList
end SysProg
