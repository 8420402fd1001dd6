import Mathlib.Tactic
import Mathlib.Data.List.Perm.Basic

/-!
# Slot tables with removal by moving the last slot

Several servers keep their clients in an array together with a count of used
slots.  A new entry goes to the first unused slot, and an entry is removed by
overwriting it with the last used one and decreasing the count.

Here the array is a memory `mem : Nat → α`, and `live mem n` is the list of
the `n` used slots.  The lemmas say what the two updates do to that list: an
addition appends, and a removal leaves a permutation of the other entries.  The
last section says the same of the slots from a place on, for loops that remove
while they go through the table.
-/

namespace SysProg
namespace SlotTable

universe u

section SlotTable

variable {α : Type u}

/-- The used slots, in slot order. -/
def live (mem : Nat → α) (n : Nat) : List α :=
  (List.range n).map mem

/-- Overwrite slot `i` with the last of `n` used slots, unless it is the last. -/
def moveLast (mem : Nat → α) (n i : Nat) : Nat → α :=
  if i ≠ n - 1 then
    Function.update mem i (mem (n - 1))
  else
    mem

@[simp] theorem live_zero
    (mem : Nat → α) :
    live mem 0 = [] := by
  rfl

theorem live_succ
    (mem : Nat → α) (n : Nat) :
    live mem (n + 1) = live mem n ++ [mem n] := by
  simp [live, List.range_succ]

theorem mem_live_iff
    {mem : Nat → α} {n : Nat} {a : α} :
    a ∈ live mem n ↔ ∃ i, i < n ∧ mem i = a := by
  simp [live]

/-- If the used slots hold different things, a slot is known by what it holds. -/
theorem live_injective
    {f : Nat → α} {n j k : Nat}
    (h : (live f n).Nodup)
    (hj : j < n)
    (hk : k < n)
    (heq : f j = f k) :
    j = k :=
  List.inj_on_of_nodup_map h (List.mem_range.mpr hj) (List.mem_range.mpr hk) heq

/-- Slots from `n` on do not show in the used part. -/
theorem live_congr
    {mem mem' : Nat → α} {n : Nat}
    (h : ∀ i, i < n → mem i = mem' i) :
    live mem n = live mem' n := by
  apply List.map_congr_left
  intro i hi
  exact h i (List.mem_range.mp hi)

theorem live_update_of_le
    (mem : Nat → α) {n k : Nat} (a : α)
    (hk : n ≤ k) :
    live (Function.update mem k a) n = live mem n := by
  apply live_congr
  intro i hi
  have hik : i ≠ k := by omega
  exact Function.update_of_ne hik a mem

/-- Filling the first unused slot appends to the used part. -/
theorem live_push
    (mem : Nat → α) (n : Nat) (a : α) :
    live (Function.update mem n a) (n + 1) = live mem n ++ [a] := by
  rw [live_succ, live_update_of_le mem a (Nat.le_refl n)]
  simp

/-- Overwriting a used slot replaces the entry at that place. -/
theorem live_update
    (mem : Nat → α) {n i : Nat} (a : α)
    (hi : i < n) :
    (mem i :: live (Function.update mem i a) n).Perm (a :: live mem n) := by
  induction n with
  | zero =>
      omega
  | succ n ih =>
      rw [live_succ, live_succ]
      by_cases hin : i = n
      · subst hin
        rw [live_update_of_le mem a (Nat.le_refl i)]
        simp only [Function.update_self]
        have hleft : (mem i :: (live mem i ++ [a])).Perm
            (mem i :: a :: live mem i) :=
          (List.perm_append_singleton a (live mem i)).cons (mem i)
        have hright : (a :: (live mem i ++ [mem i])).Perm
            (a :: mem i :: live mem i) :=
          (List.perm_append_singleton (mem i) (live mem i)).cons a
        exact hleft.trans ((List.Perm.swap _ _ _).trans hright.symm)
      · rw [Function.update_of_ne (fun h => hin h.symm)]
        exact (ih (by omega)).append_right [mem n]

/--
Removing slot `i` by moving the last slot: the removed entry together with the
remaining ones is a permutation of the entries before.
-/
theorem live_moveLast
    (mem : Nat → α) {n i : Nat}
    (hi : i < n) :
    (mem i :: live (moveLast mem n i) (n - 1)).Perm (live mem n) := by
  obtain ⟨m, rfl⟩ : ∃ m, n = m + 1 := ⟨n - 1, by omega⟩
  rw [live_succ]
  simp only [moveLast, Nat.add_sub_cancel]
  by_cases him : i = m
  · subst him
    rw [if_neg (by simp)]
    exact (List.perm_append_singleton _ _).symm
  · rw [if_pos him]
    have hperm := live_update mem (mem m) (show i < m by omega)
    exact hperm.trans (List.perm_append_singleton _ _).symm

end SlotTable

section Suffixes

variable {α : Type u}

theorem length_live
    (mem : Nat → α) (n : Nat) :
    (live mem n).length = n := by
  simp [live]

/-- The used slots from slot `i` on. -/
theorem drop_live_of_lt
    (mem : Nat → α) {n i : Nat}
    (hi : i < n) :
    (live mem n).drop i = mem i :: (live mem n).drop (i + 1) := by
  rw [List.drop_eq_getElem_cons (by simpa [length_live] using hi)]
  simp [live]

theorem drop_live_of_le
    (mem : Nat → α) {n i : Nat}
    (hi : n ≤ i) :
    (live mem n).drop i = [] :=
  List.drop_eq_nil_of_le (by simpa [length_live] using hi)

theorem drop_live_update_of_lt
    (mem : Nat → α) (n : Nat) {k i : Nat} (a : α)
    (hk : k < i) :
    (live (Function.update mem k a) n).drop i = (live mem n).drop i := by
  rw [live, live, ← List.map_drop, ← List.map_drop]
  apply List.map_congr_left
  intro j hj
  have hij : i ≤ j := by
    rw [List.mem_drop_iff_getElem] at hj
    obtain ⟨m, hm, rfl⟩ := hj
    simp
  have hjk : j ≠ k := by omega
  exact Function.update_of_ne hjk a mem

/-- Behind slot `i`, a removal there takes away the last entry. -/
theorem drop_succ_live_moveLast
    (mem : Nat → α) {n i : Nat}
    (hi : i + 1 < n) :
    (live mem n).drop (i + 1) =
      (live (moveLast mem n i) (n - 1)).drop (i + 1) ++ [mem (n - 1)] := by
  obtain ⟨m, rfl⟩ : ∃ m, n = m + 1 := ⟨n - 1, by omega⟩
  have hne : i ≠ m + 1 - 1 := by omega
  rw [moveLast, if_pos hne, drop_live_update_of_lt _ _ _ (Nat.lt_succ_self i), live_succ,
    Nat.add_sub_cancel]
  exact List.drop_append_of_le_length (by rw [length_live]; omega)

/-- From slot `i` on, a removal there leaves the entries behind it. -/
theorem drop_live_moveLast_perm
    (mem : Nat → α) {n i : Nat}
    (hi : i < n) :
    ((live (moveLast mem n i) (n - 1)).drop i).Perm ((live mem n).drop (i + 1)) := by
  by_cases hlast : i = n - 1
  · rw [drop_live_of_le _ (by omega), drop_live_of_le _ (by omega)]
  · have hmoved : moveLast mem n i i = mem (n - 1) := by
      rw [moveLast, if_pos hlast, Function.update_self]
    rw [drop_live_of_lt _ (show i < n - 1 by omega), hmoved,
      drop_succ_live_moveLast mem (show i + 1 < n by omega)]
    exact (List.perm_append_singleton _ _).symm

/-- With distinct keys, a search for the key of a used slot finds this slot. -/
theorem find?_range_key
    {β : Type u} [BEq β] [LawfulBEq β]
    {mem : Nat → α} {n i : Nat} (key : α → β)
    (hnodup : ((live mem n).map key).Nodup)
    (hi : i < n) :
    (List.range n).find? (fun j => key (mem j) == key (mem i)) = some i := by
  rw [List.find?_range_eq_some]
  refine ⟨by simp, List.mem_range.mpr hi, ?_⟩
  intro j hj
  simp only [Bool.not_eq_eq_eq_not, Bool.not_true, beq_eq_false_iff_ne, ne_eq]
  intro heq
  rw [live, List.map_map] at hnodup
  have hji := List.inj_on_of_nodup_map hnodup (List.mem_range.mpr (hj.trans hi))
    (List.mem_range.mpr hi) heq
  omega

end Suffixes

end SlotTable
end SysProg
