import Mathlib.Logic.Function.Basic
import Mathlib.Tactic

/-!
# A lock and the places of its threads

Every thread is at some place of its program, and at some places it owns the lock.
`Owned` says that the lock knows its owner: the thread it names is at such a place, and no
other thread is.  It is kept by the three kinds of steps there are (`Change`): a step that
leaves the lock alone, one that takes the free lock and one by which the owner gives it back.
-/

namespace SysProg
namespace Lock

universe u v

variable {κ : Type u} {ρ : Type v}

/-- The threads at places that own the lock are those that the lock names. -/
def Owned (owns : ρ → Bool) (owner : Option κ) (pc : κ → ρ) : Prop :=
  ∀ k, owner = some k ↔ owns (pc k) = true

/-- What a step of thread `k` from place `p` to place `q` may do to the lock. -/
inductive Change
    (owns : ρ → Bool) (owner : Option κ) (k : κ) (p q : ρ) (owner' : Option κ) : Prop
  | stay
      (howns : owns q = owns p)
      (howner : owner' = owner)
  | lock
      (hfree : owner = none)
      (hq : owns q = true)
      (howner : owner' = some k)
  | unlock
      (hp : owns p = true)
      (hq : owns q = false)
      (howner : owner' = none)

variable {owns : ρ → Bool} {owner owner' : Option κ} {pc : κ → ρ} {k : κ} {p : ρ}

theorem owned_start
    (h : ∀ k, owns (pc k) = false) :
    Owned owns none pc := by
  intro k
  simp [h k]

variable [DecidableEq κ]

theorem Owned.stay
    (h : Owned owns owner pc)
    (hp : owns p = owns (pc k)) :
    Owned owns owner (Function.update pc k p) := by
  refine (Function.forall_update_iff pc (fun j q => owner = some j ↔ owns q = true)).mpr
    ⟨?_, fun j _ => h j⟩
  rw [hp]
  exact h k

theorem Owned.lock
    (h : Owned owns none pc)
    (hp : owns p = true) :
    Owned owns (some k) (Function.update pc k p) := by
  refine (Function.forall_update_iff pc (fun j q => some k = some j ↔ owns q = true)).mpr
    ⟨by simp [hp], fun j hj => ?_⟩
  -- nobody owned the lock before
  have hfree : owns (pc j) = false := by simpa using (h j).mpr
  simp [hfree, Ne.symm hj]

theorem Owned.unlock
    (h : Owned owns owner pc)
    (hk : owns (pc k) = true)
    (hp : owns p = false) :
    Owned owns none (Function.update pc k p) := by
  refine (Function.forall_update_iff pc (fun j q => none = some j ↔ owns q = true)).mpr
    ⟨by simp [hp], fun j hj => ?_⟩
  have hother : owns (pc j) = false := by
    by_contra howns
    have hboth := ((h k).mpr hk).symm.trans ((h j).mpr (by simpa using howns))
    exact hj (Option.some.inj hboth).symm
  simp [hother]

theorem Owned.change
    (h : Owned owns owner pc)
    (hchange : Change owns owner k (pc k) p owner') :
    Owned owns owner' (Function.update pc k p) := by
  cases hchange with
  | stay howns howner =>
      rw [howner]
      exact h.stay howns
  | lock hfree hq howner =>
      rw [hfree] at h
      rw [howner]
      exact h.lock hq
  | unlock hp hq howner =>
      rw [howner]
      exact h.unlock hp hq

end Lock
end SysProg
