import Mathlib.Tactic

/-!
# Counting processes

A system of numbered processes is a function `f : Nat → α`, of which the first `n` exist.
`census p f n` is how many of these satisfy `p`.  The lemmas say how the number changes
when one process moves or a new one starts, and what a small number says about who is
counted.
-/

namespace SysProg
namespace Census

universe u v

variable {α : Type u} {p q : α → Bool} {f : Nat → α} {n k : Nat}

/-- How many of the first `n` processes satisfy `p`. -/
def census (p : α → Bool) (f : Nat → α) (n : Nat) : Nat :=
  (List.range n).countP (fun k => p (f k))

@[simp] theorem census_zero :
    census p f 0 = 0 := by
  rfl

theorem census_succ :
    census p f (n + 1) = census p f n + (p (f n)).toNat := by
  rw [census, List.range_succ, List.countP_append, census]
  cases hp : p (f n) <;> simp [hp]

/-- Two systems with the same answers have the same number. -/
theorem census_congr
    {g : Nat → α}
    (h : ∀ k, k < n → p (f k) = q (g k)) :
    census p f n = census q g n := by
  apply List.countP_congr
  intro k hk
  rw [h k (List.mem_range.mp hk)]

/-- A process that does not exist yet does not count. -/
theorem census_update_of_le
    (a : α)
    (hk : n ≤ k) :
    census p (Function.update f k a) n = census p f n := by
  apply census_congr
  intro i hi
  have hne : i ≠ k := by omega
  rw [Function.update_of_ne hne]

/-- When one process moves, the number changes by what it was and what it becomes. -/
theorem census_update
    (a : α)
    (hk : k < n) :
    census p (Function.update f k a) n + (p (f k)).toNat =
      census p f n + (p a).toNat := by
  induction n with
  | zero =>
      omega
  | succ n ih =>
      rw [census_succ, census_succ]
      by_cases hkn : k = n
      · subst hkn
        rw [census_update_of_le a (Nat.le_refl k), Function.update_self]
        omega
      · rw [Function.update_of_ne (fun h => hkn h.symm)]
        have := ih (by omega)
        omega

theorem census_pos
    (hk : k < n)
    (hp : p (f k) = true) :
    0 < census p f n := by
  rw [census, List.countP_pos_iff]
  exact ⟨k, List.mem_range.mpr hk, hp⟩

/-- More processes, of which more are counted. -/
theorem census_le
    {β : Type v} {q : β → Bool} {g : Nat → β} {m : Nat}
    (hle : m ≤ n)
    (h : ∀ k, k < m → q (g k) = true → p (f k) = true) :
    census q g m ≤ census p f n := by
  calc
    census q g m ≤ census p f m :=
      List.countP_mono_left (fun k hk => h k (List.mem_range.mp hk))
    _ ≤ census p f n := List.Sublist.countP_le (List.range_sublist.mpr hle)

/-- Only the first `m` are counted. -/
theorem census_eq_of_rest
    {β : Type v} {q : β → Bool} {g : Nat → β} {m : Nat}
    (hle : m ≤ n)
    (h : ∀ k, k < m → p (f k) = q (g k))
    (hrest : ∀ k, m ≤ k → k < n → p (f k) = false) :
    census p f n = census q g m := by
  induction n, hle using Nat.le_induction with
  | base =>
      apply List.countP_congr
      intro k hk
      rw [h k (List.mem_range.mp hk)]
  | succ n hle ih =>
      rw [census_succ, ih (fun k hk hlt => hrest k hk (by omega)), hrest n hle (by omega)]
      rfl

/-- When as many are counted as there are, all are. -/
theorem forall_of_le_census
    (h : n ≤ census p f n) :
    ∀ k, k < n → p (f k) = true := by
  have hall : (List.range n).countP (fun k => p (f k)) = (List.range n).length := by
    refine Nat.le_antisymm List.countP_le_length ?_
    rw [List.length_range]
    exact h
  intro k hk
  exact List.countP_eq_length.mp hall k (List.mem_range.mpr hk)

theorem census_eq_of_forall
    (h : ∀ k, k < n → p (f k) = true) :
    census p f n = n := by
  rw [census, List.countP_eq_length.mpr (fun k hk => h k (List.mem_range.mp hk)), List.length_range]

/-- If at most one is counted, two that are counted are the same. -/
theorem eq_of_census_le_one
    {i j : Nat}
    (h : census p f n ≤ 1)
    (hi : i < n)
    (hj : j < n)
    (hpi : p (f i) = true)
    (hpj : p (f j) = true) :
    i = j := by
  induction n with
  | zero =>
      omega
  | succ n ih =>
      rw [census_succ] at h
      by_cases hlast : p (f n) = true
      · -- the last one is counted, so none of the others is
        rw [hlast, Bool.toNat_true] at h
        have hnone : ∀ k, k < n → p (f k) = true → False := by
          intro k hk hp
          have := census_pos hk hp
          omega
        have hin : i = n := by
          by_contra hne
          exact hnone i (by omega) hpi
        have hjn : j = n := by
          by_contra hne
          exact hnone j (by omega) hpj
        omega
      · have hin : i ≠ n := fun heq => hlast (heq ▸ hpi)
        have hjn : j ≠ n := fun heq => hlast (heq ▸ hpj)
        exact ih (by omega) (by omega) (by omega)

end Census
end SysProg
