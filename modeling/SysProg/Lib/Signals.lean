import Mathlib.Tactic

/-!
# Signals of one process

A process with its signal mask, the pending signals and the handlers on its stack.  A handler
runs with its own signal blocked in addition to what was blocked before; when it returns, the
mask of before comes back.  A jump out of the handlers leaves all of them at once; the mask is
then what the program says.

**Steps.**  `raise` delivers a signal at once, or leaves it pending if it is blocked.  Whenever
the mask changes, `settle` delivers what it lets through, so that a signal that is pending is
blocked.  A signal that is raised while it is pending is merged with it.

**Results.**  `Sound base` is kept by all operations: the mask is `base` with the signals of the
handlers on the stack, none of which is there twice, and everything that is pending is blocked.
`count` follows one signal through the operations.
-/

namespace SysProg
namespace Signals

universe u v

/-- A handler on the stack: its signal, where it is, and the mask from before. -/
structure Frame (ι : Type u) (π : Type v) where
  sig : ι
  place : π
  mask : ι → Bool

/-- The handlers, with the innermost first, the mask and the pending signals. -/
structure Process (ι : Type u) (π : Type v) where
  frames : List (Frame ι π)
  mask : ι → Bool
  pending : ι → Bool

section Operations

variable {ι : Type u} {π : Type v} [DecidableEq ι]

/-- The handler of `i` is entered at `entry i`. -/
def Process.deliver (entry : ι → π) (p : Process ι π) (i : ι) : Process ι π where
  frames := ⟨i, entry i, p.mask⟩ :: p.frames
  mask := Function.update p.mask i true
  pending := Function.update p.pending i false

/-- What is pending is delivered in the order of `sigs`, unless it is blocked. -/
def Process.settle (entry : ι → π) : List ι → Process ι π → Process ι π
  | [], p => p
  | i :: sigs, p =>
      Process.settle entry sigs
        (if p.pending i = true ∧ p.mask i = false then p.deliver entry i else p)

def Process.raise (entry : ι → π) (p : Process ι π) (i : ι) : Process ι π :=
  if p.mask i = true then { p with pending := Function.update p.pending i true }
  else p.deliver entry i

/-- The innermost handler returns. -/
def Process.sigreturn (entry : ι → π) (sigs : List ι) (p : Process ι π) : Option (Process ι π) :=
  match p.frames with
  | [] => none
  | f :: frames => some (Process.settle entry sigs { p with frames := frames, mask := f.mask })

/-- A jump out of all handlers, with the mask set to `mask`. -/
def Process.jump
    (entry : ι → π) (sigs : List ι) (p : Process ι π) (mask : ι → Bool) :
    Process ι π :=
  Process.settle entry sigs { p with frames := [], mask := mask }

/-- The innermost handler goes on to another place. -/
def Process.proceed (p : Process ι π) (place : π) : Process ι π :=
  match p.frames with
  | [] => p
  | f :: frames => { p with frames := { f with place := place } :: frames }

end Operations

section Nesting

variable {ι : Type u} {π : Type v} [DecidableEq ι]
variable {base mask : ι → Bool} {frames : List (Frame ι π)} {f : Frame ι π} {i j : ι}

/-- Each handler was entered with its signal not blocked, on top of those below it. -/
inductive Nested (base : ι → Bool) : List (Frame ι π) → (ι → Bool) → Prop
  | nil :
      Nested base [] base
  | cons {frames : List (Frame ι π)} {mask : ι → Bool} {i : ι} {place : π}
      (hbelow : Nested base frames mask)
      (hfree : mask i = false) :
      Nested base (⟨i, place, mask⟩ :: frames) (Function.update mask i true)

theorem Nested.mask_iff
    (h : Nested base frames mask) :
    ∀ i, mask i = true ↔ base i = true ∨ i ∈ frames.map Frame.sig := by
  induction h with
  | nil =>
      simp
  | @cons frames mask k place _ _ ih =>
      intro i
      rw [Function.update_apply, List.map_cons, List.mem_cons]
      split_ifs with hi
      · simp [hi]
      · simp [ih i, hi]

/-- No handler is on the stack twice. -/
theorem Nested.nodup
    (h : Nested base frames mask) :
    (frames.map Frame.sig).Nodup := by
  induction h with
  | nil =>
      exact List.nodup_nil
  | @cons frames mask k place hbelow hfree ih =>
      rw [List.map_cons, List.nodup_cons]
      refine ⟨?_, ih⟩
      intro hmem
      rw [(hbelow.mask_iff k).mpr (Or.inr hmem)] at hfree
      cases hfree

theorem Nested.tail
    (h : Nested base (f :: frames) mask) :
    Nested base frames f.mask := by
  cases h with
  | cons hbelow hfree => exact hbelow

theorem Nested.sig_not_mem
    (h : Nested base (f :: frames) mask) :
    f.sig ∉ frames.map Frame.sig := by
  have hnodup := h.nodup
  rw [List.map_cons, List.nodup_cons] at hnodup
  exact hnodup.1

theorem Nested.eq_base
    (h : Nested base ([] : List (Frame ι π)) mask) :
    mask = base := by
  cases h
  rfl

theorem Nested.mask_eq
    (h : Nested base (f :: frames) mask) :
    mask = Function.update f.mask f.sig true := by
  cases h
  rfl

/-- The place of the innermost handler does not matter. -/
theorem Nested.proceed
    (h : Nested base (f :: frames) mask)
    (place : π) :
    Nested base ({ f with place := place } :: frames) mask := by
  cases h with
  | cons hbelow hfree => exact .cons hbelow hfree

end Nesting

section Soundness

variable {ι : Type u} {π : Type v} [DecidableEq ι]
variable {entry : ι → π} {sigs : List ι} {base mask : ι → Bool} {p p' : Process ι π} {i j : ι}

/-- The handlers are nested above `base`, and what is pending is blocked. -/
structure Sound (base : ι → Bool) (p : Process ι π) : Prop where
  nested : Nested base p.frames p.mask
  settled : ∀ i, p.pending i = true → p.mask i = true

theorem Nested.deliver
    (h : Nested base p.frames p.mask)
    (hfree : p.mask i = false) :
    Nested base (p.deliver entry i).frames (p.deliver entry i).mask :=
  .cons h hfree

/-- The delivery of one signal settles it, and unsettles no other one. -/
theorem settled_deliver
    (h : p.pending j = true → p.mask j = true) :
    (p.deliver entry i).pending j = true → (p.deliver entry i).mask j = true := by
  simp only [Process.deliver, Function.update_apply]
  split_ifs with hj
  · intro _
    rfl
  · exact h

/-- One signal is delivered if it can be. -/
theorem settle_one
    (entry : ι → π)
    (i : ι)
    (h : Nested base p.frames p.mask) :
    ∃ q,
      q = (if p.pending i = true ∧ p.mask i = false then p.deliver entry i else p) ∧
      Nested base q.frames q.mask ∧
      (q.pending i = true → q.mask i = true) ∧
      ∀ j, (p.pending j = true → p.mask j = true) → q.pending j = true → q.mask j = true := by
  refine ⟨_, rfl, ?_⟩
  split_ifs with hfree
  · refine ⟨h.deliver hfree.2, ?_, fun j hj => settled_deliver hj⟩
    intro hpending
    simp [Process.deliver] at hpending
  · refine ⟨h, ?_, fun j hj => hj⟩
    intro hpending
    by_contra hmask
    exact hfree ⟨hpending, by simpa using hmask⟩

/-- After `settle` the signals of `sigs` are settled, and those that were before. -/
theorem Nested.settle
    (entry : ι → π)
    (sigs : List ι)
    (h : Nested base p.frames p.mask) :
    Nested base (p.settle entry sigs).frames (p.settle entry sigs).mask ∧
      ∀ j, j ∈ sigs ∨ (p.pending j = true → p.mask j = true) →
        (p.settle entry sigs).pending j = true → (p.settle entry sigs).mask j = true := by
  induction sigs generalizing p with
  | nil =>
      refine ⟨h, ?_⟩
      intro j hj
      exact hj.resolve_left List.not_mem_nil
  | cons i sigs ih =>
      obtain ⟨q, hq, hnested, hone, hothers⟩ := settle_one entry i h
      obtain ⟨hafter, hsettled⟩ := ih hnested
      simp only [Process.settle, ← hq]
      refine ⟨hafter, ?_⟩
      intro j hj
      apply hsettled j
      rcases hj with hmem | hbefore
      · rcases List.mem_cons.mp hmem with rfl | hmem
        · exact Or.inr hone
        · exact Or.inl hmem
      · exact Or.inr (hothers j hbefore)

theorem Sound.raise
    (h : Sound base p)
    (i : ι) :
    Sound base (p.raise entry i) := by
  unfold Process.raise
  split_ifs with hmask
  · refine ⟨h.nested, ?_⟩
    intro j hj
    simp only [Function.update_apply] at hj
    split_ifs at hj with heq
    · rw [heq]
      exact hmask
    · exact h.settled j hj
  · exact ⟨h.nested.deliver (by simpa using hmask), fun j => settled_deliver (h.settled j)⟩

theorem Sound.sigreturn
    (hsigs : ∀ i, i ∈ sigs)
    (h : Sound base p)
    (hreturn : p.sigreturn entry sigs = some p') :
    Sound base p' := by
  have hnested := h.nested
  unfold Process.sigreturn at hreturn
  split at hreturn
  case h_1 => cases hreturn
  case h_2 f frames hframes =>
      cases hreturn
      rw [hframes] at hnested
      have hsettle := Nested.settle entry sigs
        (p := { p with frames := frames, mask := f.mask }) hnested.tail
      exact ⟨hsettle.1, fun j => hsettle.2 j (Or.inl (hsigs j))⟩

theorem sound_jump
    (hsigs : ∀ i, i ∈ sigs)
    (p : Process ι π)
    (mask : ι → Bool) :
    Sound mask (p.jump entry sigs mask) := by
  have hsettle := Nested.settle entry sigs
    (p := { p with frames := [], mask := mask }) .nil
  exact ⟨hsettle.1, fun j => hsettle.2 j (Or.inl (hsigs j))⟩

theorem Sound.proceed
    (h : Sound base p)
    (place : π) :
    Sound base (p.proceed place) := by
  have hnested := h.nested
  unfold Process.proceed
  split
  case h_1 => exact h
  case h_2 f frames hframes =>
      rw [hframes] at hnested
      exact ⟨hnested.proceed place, h.settled⟩

end Soundness

section Counting

variable {ι : Type u} {π : Type v} [DecidableEq ι]
variable {entry : ι → π} {sigs : List ι} {base mask : ι → Bool} {p p' : Process ι π} {i j : ι}
variable {f : Frame ι π} {frames : List (Frame ι π)}

/-- How often the handler of a signal is on the stack or is still to be entered. -/
def Process.count (p : Process ι π) (i : ι) : Nat :=
  (p.pending i).toNat + (p.frames.map Frame.sig).count i

theorem count_deliver_of_ne
    (hj : j ≠ i) :
    (p.deliver entry i).count j = p.count j := by
  have hij : i ≠ j := fun heq => hj heq.symm
  simp [Process.count, Process.deliver, Function.update_of_ne hj, hij]

theorem count_deliver_self
    (entry : ι → π)
    (p : Process ι π)
    (i : ι) :
    (p.deliver entry i).count i + (p.pending i).toNat = p.count i + 1 := by
  simp only [Process.count, Process.deliver, Function.update_self, Bool.toNat_false, List.map_cons,
    List.count_cons_self]
  omega

@[simp] theorem count_settle :
    (p.settle entry sigs).count j = p.count j := by
  induction sigs generalizing p with
  | nil =>
      rfl
  | cons i sigs ih =>
      rw [Process.settle, ih]
      split_ifs with hfree
      · by_cases hj : j = i
        · subst hj
          have hcount := count_deliver_self entry p j
          rw [hfree.1, Bool.toNat_true] at hcount
          omega
        · exact count_deliver_of_ne hj
      · rfl

theorem count_raise_of_ne
    (hj : j ≠ i) :
    (p.raise entry i).count j = p.count j := by
  unfold Process.raise
  split_ifs with hmask
  · simp [Process.count, Function.update_of_ne hj]
  · exact count_deliver_of_ne hj

theorem count_raise_self_le :
    (p.raise entry i).count i ≤ p.count i + 1 := by
  unfold Process.raise
  split_ifs with hmask
  · simp only [Process.count, Function.update_self, Bool.toNat_true]
    omega
  · have hcount := count_deliver_self entry p i
    omega

/-- A signal of which there was nothing is there once. -/
theorem count_raise_self
    (h : p.count i = 0) :
    (p.raise entry i).count i = 1 := by
  have hpending : (p.pending i).toNat = 0 := by
    rw [Process.count] at h
    omega
  unfold Process.raise
  split_ifs with hmask
  · simp only [Process.count, Function.update_self, Bool.toNat_true] at h ⊢
    omega
  · have hcount := count_deliver_self entry p i
    omega

/-- A handler that returns takes its own signal with it. -/
theorem count_sigreturn
    (hframes : p.frames = f :: frames)
    (hreturn : p.sigreturn entry sigs = some p') :
    p'.count j + (if f.sig = j then 1 else 0) = p.count j := by
  simp only [Process.sigreturn, hframes, Option.some.injEq] at hreturn
  subst hreturn
  rw [count_settle]
  simp only [Process.count, hframes, List.map_cons, List.count_cons, beq_iff_eq]
  omega

@[simp] theorem count_jump :
    (p.jump entry sigs mask).count j = (p.pending j).toNat := by
  rw [Process.jump, count_settle]
  simp [Process.count]

theorem count_pos_of_top
    (hframes : p.frames = f :: frames) :
    (p.pending f.sig).toNat + 1 ≤ p.count f.sig := by
  simp only [Process.count, hframes, List.map_cons, List.count_cons_self]
  omega

/-- A signal that is not blocked is not pending: without handlers there is nothing of it. -/
theorem Sound.count_eq_zero
    (h : Sound base p)
    (hframes : p.frames = [])
    (hfree : base i = false) :
    p.count i = 0 := by
  have hnested := h.nested
  rw [hframes] at hnested
  have hpending : p.pending i = false := by
    by_contra hpending
    have hmask := h.settled i (by simpa using hpending)
    rw [hnested.eq_base, hfree] at hmask
    cases hmask
  simp [Process.count, hframes, hpending]

end Counting

section Entering

variable {ι : Type u} {π : Type v} [DecidableEq ι]
variable {entry : ι → π} {sigs : List ι} {base mask : ι → Bool} {p p' : Process ι π} {i : ι}
variable {f : Frame ι π} {frames : List (Frame ι π)}

/-- New handlers stand at their entries, above those that were there. -/
def Entered (entry : ι → π) (frames frames' : List (Frame ι π)) : Prop :=
  ∃ new, frames' = new ++ frames ∧ ∀ f ∈ new, f.place = entry f.sig

omit [DecidableEq ι] in
theorem Entered.refl
    (frames : List (Frame ι π)) :
    Entered entry frames frames :=
  ⟨[], rfl, by simp⟩

theorem entered_deliver :
    Entered entry p.frames (p.deliver entry i).frames :=
  ⟨[⟨i, entry i, p.mask⟩], rfl, by simp⟩

theorem entered_settle :
    Entered entry p.frames (p.settle entry sigs).frames := by
  induction sigs generalizing p with
  | nil => exact Entered.refl _
  | cons i sigs ih =>
      rw [Process.settle]
      split_ifs with hfree
      · obtain ⟨new, hframes, hplace⟩ := ih (p := p.deliver entry i)
        refine ⟨new ++ [⟨i, entry i, p.mask⟩], ?_, ?_⟩
        · rw [hframes, List.append_assoc]
          rfl
        · intro f hf
          rcases List.mem_append.mp hf with hnew | hfirst
          · exact hplace f hnew
          · rw [List.mem_singleton.mp hfirst]
      · exact ih

theorem entered_raise
    (entry : ι → π)
    (p : Process ι π)
    (i : ι) :
    Entered entry p.frames (p.raise entry i).frames := by
  unfold Process.raise
  split_ifs
  · exact Entered.refl _
  · exact entered_deliver

theorem entered_sigreturn
    (hframes : p.frames = f :: frames)
    (hreturn : p.sigreturn entry sigs = some p') :
    Entered entry frames p'.frames := by
  simp only [Process.sigreturn, hframes, Option.some.injEq] at hreturn
  subst hreturn
  exact entered_settle

theorem entered_jump
    (entry : ι → π)
    (sigs : List ι)
    (p : Process ι π)
    (mask : ι → Bool) :
    Entered entry [] (p.jump entry sigs mask).frames :=
  entered_settle

end Entering

end Signals
end SysProg
