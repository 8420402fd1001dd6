import Mathlib.Logic.Function.Basic
import Mathlib.Tactic

/-!
# POSIX mutexes

A mutex of one of the three types, robust or not, with the results of its operations.  A thread
that locks a mutex that it owns waits for itself, is told so, or owns it once more, by the type.
The death of the owner of a robust mutex is told to the next thread that locks it; if that
thread unlocks the mutex without having called `pthread_mutex_consistent`, the mutex is lost.

`view` is what the mutex knows of one thread: how often that thread owns it, and whether the
data behind it is consistent.  No operation of a thread changes the view of another one.
`Agrees` says that the places of all threads fit these views; `Agrees.move` keeps it, from what
an operation does to the thread that makes it.

`Protects` is the use of a mutex that is locked and unlocked in turn: data that only the owner
accesses has an invariant while the mutex is free, and what the owner knows of it depends on its
place.  There is one rule for each kind of step.
-/

namespace SysProg
namespace PosixMutex

universe u v w

inductive Kind where
  | normal
  | errorcheck
  | recursive
deriving DecidableEq, Repr

inductive Own (κ : Type u) where
  | free
  | held (k : κ) (count : Nat) (consistent : Bool)
  | ownerDead
  | notRecoverable
deriving DecidableEq, Repr

structure Mutex (κ : Type u) where
  kind : Kind
  robust : Bool
  own : Own κ
deriving DecidableEq, Repr

/-- The result of an operation: 0 or an error number. -/
inductive Ret where
  | ok
  | edeadlk
  | eownerdead
  | enotrecoverable
  | eperm
deriving DecidableEq, Repr

section Operations

variable {κ : Type u} [DecidableEq κ]

/-- `pthread_mutex_lock`, or nothing while the thread waits. -/
def Mutex.lock (m : Mutex κ) (k : κ) : Option (Ret × Mutex κ) :=
  match m.own with
  | .free => some (.ok, { m with own := .held k 1 true })
  | .held j count consistent =>
      if j = k then
        match m.kind with
        | .normal => none
        | .errorcheck => some (.edeadlk, m)
        | .recursive => some (.ok, { m with own := .held k (count + 1) consistent })
      else none
  | .ownerDead => some (.eownerdead, { m with own := .held k 1 false })
  | .notRecoverable => some (.enotrecoverable, m)

/--
`pthread_mutex_unlock`.  Nothing is the result where the behaviour is undefined: a thread
unlocks a plain mutex of the type `normal` that it does not own.
-/
def Mutex.unlock (m : Mutex κ) (k : κ) : Option (Ret × Mutex κ) :=
  match m.own with
  | .held j count consistent =>
      if j = k then
        if 1 < count then some (.ok, { m with own := .held k (count - 1) consistent })
        else some (.ok, { m with own := if consistent then .free else .notRecoverable })
      else if m.kind = .normal ∧ m.robust = false then none
      else some (.eperm, m)
  | _ => if m.kind = .normal ∧ m.robust = false then none else some (.eperm, m)

/-- `pthread_mutex_consistent`; its result is not modelled. -/
def Mutex.markConsistent (m : Mutex κ) (k : κ) : Mutex κ :=
  match m.own with
  | .held j count _ => if j = k then { m with own := .held k count true } else m
  | _ => m

/-- The thread ends. -/
def Mutex.die (m : Mutex κ) (k : κ) : Mutex κ :=
  match m.own with
  | .held j _ _ => if j = k ∧ m.robust = true then { m with own := .ownerDead } else m
  | _ => m

/-- How often the thread owns the mutex, and whether the data is consistent. -/
def Own.view (own : Own κ) (k : κ) : Option (Nat × Bool) :=
  match own with
  | .held j count consistent => if j = k then some (count, consistent) else none
  | _ => none

end Operations

section Views

variable {κ : Type u} [DecidableEq κ] {m m' : Mutex κ} {j k : κ} {ret : Ret}

theorem view_eq_some_iff
    {own : Own κ} {count : Nat} {consistent : Bool} :
    own.view k = some (count, consistent) ↔ own = .held k count consistent := by
  cases own with
  | held j count' consistent' =>
      by_cases hj : j = k
      · simp [Own.view, hj]
      · simp [Own.view, hj]
  | free => simp [Own.view]
  | ownerDead => simp [Own.view]
  | notRecoverable => simp [Own.view]

@[simp] theorem view_held_self
    {count : Nat} {consistent : Bool} :
    (Own.held k count consistent).view k = some (count, consistent) := by
  simp [Own.view]

theorem view_held_of_ne
    {count : Nat} {consistent : Bool}
    (hj : j ≠ k) :
    (Own.held k count consistent).view j = none := by
  simp [Own.view, Ne.symm hj]

/-- Only one thread has a view. -/
theorem eq_of_view
    {own : Own κ}
    (hj : own.view j ≠ none)
    (hk : own.view k ≠ none) :
    j = k := by
  obtain ⟨⟨count, consistent⟩, hview⟩ := Option.ne_none_iff_exists'.mp hj
  rw [view_eq_some_iff.mp hview] at hk
  by_contra hne
  exact hk (view_held_of_ne (Ne.symm hne))

/-- What `pthread_mutex_lock` can do. -/
inductive LockSpec (m : Mutex κ) (k : κ) : Ret → Mutex κ → Prop
  | first
      (hown : m.own = .free) :
      LockSpec m k .ok { m with own := .held k 1 true }
  | relock {count : Nat} {consistent : Bool}
      (hown : m.own = .held k count consistent)
      (hkind : m.kind = .recursive) :
      LockSpec m k .ok { m with own := .held k (count + 1) consistent }
  | deadlock {count : Nat} {consistent : Bool}
      (hown : m.own = .held k count consistent)
      (hkind : m.kind = .errorcheck) :
      LockSpec m k .edeadlk m
  | inherit
      (hown : m.own = .ownerDead) :
      LockSpec m k .eownerdead { m with own := .held k 1 false }
  | lost
      (hown : m.own = .notRecoverable) :
      LockSpec m k .enotrecoverable m

theorem lock_spec
    (hlock : m.lock k = some (ret, m')) :
    LockSpec m k ret m' := by
  unfold Mutex.lock at hlock
  split at hlock
  case h_1 hown =>
      cases hlock
      exact .first hown
  case h_2 j count consistent hown =>
      split_ifs at hlock with hj
      subst hj
      split at hlock
      case h_1 =>
          cases hlock
      case h_2 hkind =>
          cases hlock
          exact .deadlock hown hkind
      case h_3 hkind =>
          cases hlock
          exact .relock hown hkind
  case h_3 hown =>
      cases hlock
      exact .inherit hown
  case h_4 hown =>
      cases hlock
      exact .lost hown

/-- A thread waits for the owner, which is itself only in the type `normal`. -/
theorem lock_eq_none_iff :
    m.lock k = none ↔
      ∃ j count consistent, m.own = .held j count consistent ∧ (j = k → m.kind = .normal) := by
  constructor
  · intro hlock
    unfold Mutex.lock at hlock
    split at hlock
    case h_2 j count consistent hown =>
        refine ⟨j, count, consistent, hown, ?_⟩
        intro hj
        rw [if_pos hj] at hlock
        split at hlock
        case h_1 hkind => exact hkind
        case h_2 => cases hlock
        case h_3 => cases hlock
    all_goals cases hlock
  · rintro ⟨j, count, consistent, hown, hkind⟩
    unfold Mutex.lock
    rw [hown]
    by_cases hj : j = k
    · simp [hj, hkind hj]
    · simp [hj]

theorem lock_view_of_ne
    (hlock : m.lock k = some (ret, m'))
    (hj : j ≠ k) :
    m'.own.view j = m.own.view j := by
  cases lock_spec hlock with
  | first hown =>
      rw [hown, view_held_of_ne hj]
      rfl
  | relock hown hkind =>
      rw [hown, view_held_of_ne hj, view_held_of_ne hj]
  | deadlock hown hkind =>
      rfl
  | inherit hown =>
      rw [hown, view_held_of_ne hj]
      rfl
  | lost hown =>
      rfl

/-- The owner unlocks the mutex for the last time. -/
theorem unlock_last
    {consistent : Bool}
    (hview : m.own.view k = some (1, consistent)) :
    m.unlock k =
      some (.ok, { m with own := if consistent then .free else .notRecoverable }) := by
  simp [Mutex.unlock, view_eq_some_iff.mp hview]

/-- The owner unlocks it as often as it has locked it. -/
theorem unlock_inner
    {count : Nat} {consistent : Bool}
    (hview : m.own.view k = some (count + 2, consistent)) :
    m.unlock k = some (.ok, { m with own := .held k (count + 1) consistent }) := by
  simp [Mutex.unlock, view_eq_some_iff.mp hview]

theorem unlock_last_view_of_ne
    {consistent : Bool}
    (hview : m.own.view k = some (1, consistent))
    (hj : j ≠ k) :
    (if consistent then Own.free else Own.notRecoverable).view j = m.own.view j := by
  rw [view_eq_some_iff.mp hview, view_held_of_ne hj]
  split_ifs <;> rfl

theorem markConsistent_view_of_ne
    (hj : j ≠ k) :
    (m.markConsistent k).own.view j = m.own.view j := by
  unfold Mutex.markConsistent
  split
  case h_1 i count consistent hown =>
      by_cases hi : i = k
      · rw [if_pos hi, hown, hi, view_held_of_ne hj, view_held_of_ne hj]
      · rw [if_neg hi]
  case h_2 =>
      rfl

theorem markConsistent_view
    {count : Nat} {consistent : Bool}
    (hview : m.own.view k = some (count, consistent)) :
    (m.markConsistent k).own.view k = some (count, true) := by
  simp [Mutex.markConsistent, view_eq_some_iff.mp hview]

theorem die_view_of_ne
    (hj : j ≠ k) :
    (m.die k).own.view j = m.own.view j := by
  unfold Mutex.die
  split
  case h_1 i count consistent hown =>
      split_ifs with hi
      · rw [hown, hi.1, view_held_of_ne hj]
        rfl
      · rfl
  case h_2 =>
      rfl

end Views

section Agreement

variable {κ : Type u} {ρ : Type v} [DecidableEq κ]
variable {view : κ → ρ → Option (Nat × Bool)} {own own' : Own κ} {pc : κ → ρ} {k : κ} {p : ρ}

/-- What a place of the program says about the mutex is what the mutex knows of the thread. -/
def Agrees (view : κ → ρ → Option (Nat × Bool)) (own : Own κ) (pc : κ → ρ) : Prop :=
  ∀ k, own.view k = view k (pc k)

theorem agrees_start
    (h : ∀ k, view k (pc k) = none) :
    Agrees view (.free : Own κ) pc := by
  intro k
  rw [h k]
  rfl

theorem Agrees.move
    (h : Agrees view own pc)
    (hframe : ∀ j, j ≠ k → own'.view j = own.view j)
    (hk : own'.view k = view k p) :
    Agrees view own' (Function.update pc k p) := by
  refine (Function.forall_update_iff pc (fun j q => own'.view j = view j q)).mpr ⟨hk, ?_⟩
  intro j hj
  rw [hframe j hj]
  exact h j

/-- A step that does not touch the mutex. -/
theorem Agrees.stay
    (h : Agrees view own pc)
    (hp : view k p = view k (pc k)) :
    Agrees view own (Function.update pc k p) :=
  h.move (fun _ _ => rfl) ((h k).trans hp.symm)

/-- Two threads are never both at places that own the mutex. -/
theorem Agrees.exclusive
    (h : Agrees view own pc)
    {i j : κ}
    (hi : view i (pc i) ≠ none)
    (hj : view j (pc j) ≠ none) :
    i = j := by
  rw [← h i] at hi
  rw [← h j] at hj
  exact eq_of_view hi hj

end Agreement

section Resource

variable {κ : Type u} {ρ : Type v} {δ : Type w} [DecidableEq κ]
variable {view : κ → ρ → Option (Nat × Bool)} {inv : δ → Prop} {known : κ → ρ → δ → Prop}
variable {m m' : Mutex κ} {pc : κ → ρ} {d d' : δ} {k : κ} {p : ρ} {ret : Ret}

/-- The mutex protects the data: `inv` while it is free, `known` for its owner. -/
structure Protects (view : κ → ρ → Option (Nat × Bool)) (inv : δ → Prop)
    (known : κ → ρ → δ → Prop) (own : Own κ) (pc : κ → ρ) (d : δ) : Prop where
  agrees : Agrees view own pc
  usable : own ≠ .ownerDead ∧ own ≠ .notRecoverable
  free : own = .free → inv d
  held : ∀ k, view k (pc k) ≠ none → known k (pc k) d

theorem protects_start
    (hview : ∀ k, view k (pc k) = none)
    (hd : inv d) :
    Protects view inv known (.free : Own κ) pc d :=
  ⟨agrees_start hview, by simp, fun _ => hd, fun k hk => absurd (hview k) hk⟩

/-- A step of a thread that does not own the mutex. -/
theorem Protects.outside
    (h : Protects view inv known m.own pc d)
    (hpc : view k (pc k) = none)
    (hp : view k p = none) :
    Protects view inv known m.own (Function.update pc k p) d := by
  refine ⟨h.agrees.stay (hp.trans hpc.symm), h.usable, h.free, ?_⟩
  exact (Function.forall_update_iff pc (fun j q => view j q ≠ none → known j q d)).mpr
    ⟨fun hne => absurd hp hne, fun j _ => h.held j⟩

theorem Protects.lock
    (h : Protects view inv known m.own pc d)
    (hpc : view k (pc k) = none)
    (hp : view k p = some (1, true))
    (hlock : m.lock k = some (ret, m'))
    (hknown : inv d → known k p d) :
    ret = .ok ∧ Protects view inv known m'.own (Function.update pc k p) d := by
  have hnone : m.own.view k = none := (h.agrees k).trans hpc
  have hframe := fun j (hj : j ≠ k) => lock_view_of_ne hlock hj
  cases lock_spec hlock with
  | first hown =>
      refine ⟨rfl, h.agrees.move hframe (view_held_self.trans hp.symm), by simp, by simp, ?_⟩
      exact (Function.forall_update_iff pc (fun j q => view j q ≠ none → known j q d)).mpr
        ⟨fun _ => hknown (h.free hown), fun j _ => h.held j⟩
  | relock hown hkind =>
      rw [hown, view_held_self] at hnone
      cases hnone
  | deadlock hown hkind =>
      rw [hown, view_held_self] at hnone
      cases hnone
  | inherit hown =>
      exact absurd hown h.usable.1
  | lost hown =>
      exact absurd hown h.usable.2

/-- The owner reads or writes the data. -/
theorem Protects.access
    (h : Protects view inv known m.own pc d)
    {count : Nat} {consistent : Bool}
    (hpc : view k (pc k) = some (count, consistent))
    (hp : view k p = some (count, consistent))
    (hknown : known k (pc k) d → known k p d') :
    Protects view inv known m.own (Function.update pc k p) d' := by
  have hne : view k (pc k) ≠ none := by
    rw [hpc]
    simp
  have hview : m.own.view k = some (count, consistent) := (h.agrees k).trans hpc
  refine ⟨h.agrees.stay (hp.trans hpc.symm), h.usable, ?_, ?_⟩
  · intro hfree
    rw [hfree] at hview
    cases hview
  · refine (Function.forall_update_iff pc (fun j q => view j q ≠ none → known j q d')).mpr
      ⟨fun _ => hknown (h.held k hne), ?_⟩
    -- no other thread is at a place that owns the mutex
    intro j hj hother
    exact absurd (h.agrees.exclusive hother hne) hj

theorem Protects.unlock
    (h : Protects view inv known m.own pc d)
    (hpc : view k (pc k) = some (1, true))
    (hp : view k p = none)
    (hunlock : m.unlock k = some (ret, m'))
    (hinv : known k (pc k) d → inv d) :
    ret = .ok ∧ Protects view inv known m'.own (Function.update pc k p) d := by
  have hne : view k (pc k) ≠ none := by
    rw [hpc]
    simp
  have hview : m.own.view k = some (1, true) := (h.agrees k).trans hpc
  rw [unlock_last hview] at hunlock
  cases hunlock
  refine ⟨rfl, h.agrees.move (fun j hj => unlock_last_view_of_ne hview hj) hp.symm, by simp,
    fun _ => hinv (h.held k hne), ?_⟩
  exact (Function.forall_update_iff pc (fun j q => view j q ≠ none → known j q d)).mpr
    ⟨fun hother => absurd hp hother, fun j _ => h.held j⟩

/-- When no thread owns the mutex, it is free. -/
theorem Protects.inv_of_outside
    (h : Protects view inv known m.own pc d)
    (hview : ∀ k, view k (pc k) = none) :
    inv d := by
  refine h.free ?_
  cases hown : m.own with
  | free =>
      rfl
  | held j count consistent =>
      have hj := h.agrees j
      rw [hown, view_held_self, hview j] at hj
      cases hj
  | ownerDead =>
      exact absurd hown h.usable.1
  | notRecoverable =>
      exact absurd hown h.usable.2

/-- Who waits, waits for a thread that owns the mutex. -/
theorem Protects.lock_eq_none
    (h : Protects view inv known m.own pc d)
    (hlock : m.lock k = none) :
    ∃ j, view j (pc j) ≠ none := by
  obtain ⟨j, count, consistent, hown, _⟩ := lock_eq_none_iff.mp hlock
  refine ⟨j, ?_⟩
  rw [← h.agrees j, hown, view_held_self]
  simp

/-- The owner can unlock the mutex. -/
theorem Protects.unlock_ne_none
    (h : Protects view inv known m.own pc d)
    (hpc : view k (pc k) = some (1, true)) :
    m.unlock k ≠ none := by
  rw [unlock_last ((h.agrees k).trans hpc)]
  simp

end Resource

end PosixMutex
end SysProg
