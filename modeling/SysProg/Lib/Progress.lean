import SysProg.Lib.Run
import Mathlib.Algebra.Order.BigOperators.Group.Finset
import Mathlib.Tactic

/-!
# Runs that end

A system each of whose steps lowers a measure has no run longer than the measure.  For numbered
threads that only go forward in their programs the measure is the sum of the steps that each of
them has left at most.
-/

namespace SysProg
namespace Progress

open Run

universe u v w

section Measure

variable {σ : Type u} {ε : Type v} {step : σ → ε → Option σ}

theorem length_add_measure_le
    {P : σ → Prop}
    (measure : σ → Nat)
    (hstep : ∀ s e t, P s → step s e = some t → P t ∧ measure t < measure s)
    {s t : σ} {es : List ε}
    (hs : P s)
    (hrun : run step s es = some t) :
    es.length + measure t ≤ measure s := by
  induction es generalizing s with
  | nil =>
      simp only [run_nil, Option.some.injEq] at hrun
      subst hrun
      simp
  | cons e es ih =>
      obtain ⟨m, hm, hrest⟩ := run_cons_success hrun
      obtain ⟨hmP, hlt⟩ := hstep s e m hs hm
      have hle := ih hmP hrest
      rw [List.length_cons]
      omega

/-- The same with steps that set the system back: each of them is paid for by one step more. -/
theorem length_add_measure_le_add
    {P : σ → Prop}
    (measure : σ → Nat)
    (setback : ε → Bool)
    (hstep : ∀ s e t, P s → step s e = some t →
      P t ∧ measure t + 1 ≤ measure s + 2 * (setback e).toNat)
    {s t : σ} {es : List ε}
    (hs : P s)
    (hrun : run step s es = some t) :
    es.length + measure t ≤ measure s + 2 * es.countP setback := by
  induction es generalizing s with
  | nil =>
      simp only [run_nil, Option.some.injEq] at hrun
      subst hrun
      simp
  | cons e es ih =>
      obtain ⟨m, hm, hrest⟩ := run_cons_success hrun
      obtain ⟨hmP, hle⟩ := hstep s e m hs hm
      have hlength := ih hmP hrest
      rw [List.length_cons, List.countP_cons]
      cases hback : setback e with
      | false =>
          simp only [hback, Bool.toNat_false, Bool.false_eq_true, ↓reduceIte] at hle ⊢
          omega
      | true =>
          simp only [hback, Bool.toNat_true, ↓reduceIte] at hle ⊢
          omega

end Measure

section Threads

variable {ρ : Type w} {n k : Nat}

/-- What all threads together have left. -/
def total (rank : ρ → Nat) (pc : Nat → ρ) (n : Nat) : Nat :=
  ∑ k ∈ Finset.range n, rank (pc k)

theorem total_le
    {rank : ρ → Nat} {pc : Nat → ρ} {bound : Nat}
    (h : ∀ p, rank p ≤ bound) :
    total rank pc n ≤ n * bound := by
  calc
    total rank pc n ≤ (Finset.range n).card • bound :=
      Finset.sum_le_card_nsmul _ _ _ (fun k _ => h (pc k))
    _ = n * bound := by rw [Finset.card_range, smul_eq_mul]

/-- When one thread moves, the total changes by what it had left and what it has left now. -/
theorem total_update
    {rank : ρ → Nat} {pc : Nat → ρ}
    (p : ρ)
    (hk : k < n) :
    total rank (Function.update pc k p) n + rank (pc k) = total rank pc n + rank p := by
  have hmem : k ∈ Finset.range n := Finset.mem_range.mpr hk
  have hothers : ∑ j ∈ (Finset.range n).erase k, rank (Function.update pc k p j) =
      ∑ j ∈ (Finset.range n).erase k, rank (pc j) := by
    refine Finset.sum_congr rfl ?_
    intro j hj
    rw [Function.update_of_ne (Finset.ne_of_mem_erase hj)]
  have hafter := Finset.add_sum_erase (Finset.range n)
    (fun j => rank (Function.update pc k p j)) hmem
  have hbefore := Finset.add_sum_erase (Finset.range n) (fun j => rank (pc j)) hmem
  simp only [Function.update_self, hothers] at hafter
  rw [total, total, ← hafter, ← hbefore]
  omega

/-- A thread that goes forward lowers the total. -/
theorem total_update_lt
    {rank : ρ → Nat} {pc : Nat → ρ} {p : ρ}
    (hk : k < n)
    (hlt : rank p < rank (pc k)) :
    total rank (Function.update pc k p) n < total rank pc n := by
  have hupdate : total rank (Function.update pc k p) n + rank (pc k) = total rank pc n + rank p :=
    total_update p hk
  omega

theorem total_const
    {rank : ρ → Nat} {pc : Nat → ρ} {bound : Nat}
    (h : ∀ k, k < n → rank (pc k) = bound) :
    total rank pc n = n * bound := by
  rw [total, Finset.sum_congr rfl (fun k hk => h k (Finset.mem_range.mp hk)), Finset.sum_const,
    Finset.card_range, smul_eq_mul]

end Threads

end Progress
end SysProg
