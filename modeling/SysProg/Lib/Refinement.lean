import SysProg.Lib.Run
import Mathlib.Tactic

/-!
# A system that is another one with more detail

The detailed system has a map to the states of the plain one.  If each of its steps is there a
run, of one step or of none, then each of its runs is one of the plain system, which therefore
has all properties that were proved about runs there.
-/

namespace SysProg
namespace Refinement

open Run

universe u v w x

variable {σ : Type u} {ε : Type v} {τ : Type w} {ε' : Type x}
variable {step : σ → ε → Option σ} {step' : τ → ε' → Option τ}

/-- A step of the detailed system is one step of the plain one, or none. -/
def Simulates (step : σ → ε → Option σ) (step' : τ → ε' → Option τ) (f : σ → τ) : Prop :=
  ∀ s e t, step s e = some t → f t = f s ∨ ∃ e', step' (f s) e' = some (f t)

theorem Simulates.exists_run
    {f : σ → τ}
    (h : Simulates step step' f)
    {s t : σ} {es : List ε}
    (hrun : run step s es = some t) :
    ∃ es', run step' (f s) es' = some (f t) := by
  induction es generalizing s with
  | nil =>
      simp only [run_nil, Option.some.injEq] at hrun
      subst hrun
      exact ⟨[], rfl⟩
  | cons e es ih =>
      obtain ⟨m, hm, hrest⟩ := run_cons_success hrun
      obtain ⟨es', hes'⟩ := ih hrest
      rcases h s e m hm with hsame | ⟨e', he'⟩
      · exact ⟨es', hsame ▸ hes'⟩
      · refine ⟨e' :: es', ?_⟩
        rw [run_cons, he']
        exact hes'

end Refinement
end SysProg
