import SysProg.Lib.Progress
import SysProg.Lib.Run
import Mathlib.Tactic

/-!
# Opening FIFOs

`open` on a FIFO waits until the other end has been opened.  The kernel counts the ends that are
open and the calls of `open`: a process that opens an end adds itself to both, returns at once
if there is another end, and otherwise waits until the number of calls for the other end
changes.  A signal takes it off again, and `open` fails with EINTR.

Two processes that open the same FIFOs in the same order, from different ends, and repeat a call
that was interrupted, do not wait for each other in vain (`Invariant.opened`).
-/

namespace SysProg
namespace FifoOpen

open Progress Run

universe u

variable {φ : Type u}

inductive Mode where
  | rd
  | wr
deriving DecidableEq, Repr

def Mode.other : Mode → Mode
  | .rd => .wr
  | .wr => .rd

/-- The other end of the FIFO. -/
def partner (e : φ × Mode) : φ × Mode :=
  (e.1, e.2.other)

section Kernel

inductive Phase where
  /-- about to call `open` -/
  | calling
  /-- within `open`, with the number of calls for the other end at the beginning -/
  | waiting (seen : Nat)
deriving DecidableEq, Repr

/-- For each of two processes its place in the list of its calls, and the counters of the kernel. -/
structure State (φ : Type u) where
  pos : Bool → Nat
  phase : Bool → Phase
  ends : φ × Mode → Nat
  calls : φ × Mode → Nat

def State.start : State φ where
  pos := fun _ => 0
  phase := fun _ => .calling
  ends := fun _ => 0
  calls := fun _ => 0

inductive Label where
  /-- `open` is called -/
  | call (x : Bool)
  /-- `open` returns a descriptor after it has waited -/
  | wake (x : Bool)
  /-- `open` fails with EINTR -/
  | interrupt (x : Bool)
deriving DecidableEq, Repr

def State.advance (s : State φ) (x : Bool) : State φ :=
  { s with
    pos := Function.update s.pos x (s.pos x + 1)
    phase := Function.update s.phase x .calling }

variable [DecidableEq φ]

def State.enter (s : State φ) (x : Bool) (e : φ × Mode) : State φ :=
  let s₁ := { s with
    ends := Function.update s.ends e (s.ends e + 1)
    calls := Function.update s.calls e (s.calls e + 1) }
  if s.ends (partner e) = 0 then
    { s₁ with phase := Function.update s.phase x (.waiting (s.calls (partner e))) }
  else s₁.advance x

def State.leave (s : State φ) (x : Bool) (e : φ × Mode) : State φ :=
  { s with
    ends := Function.update s.ends e (s.ends e - 1)
    phase := Function.update s.phase x .calling }

/-- `plan` has the calls of the two processes in their order. -/
def step (plan : Bool → List (φ × Mode)) (s : State φ) : Label → Option (State φ)
  | .call x =>
      if s.phase x = .calling then (plan x)[s.pos x]?.map (s.enter x) else none
  | .wake x =>
      match s.phase x with
      | .calling => none
      | .waiting seen =>
          (plan x)[s.pos x]?.bind (fun e =>
            if s.calls (partner e) ≠ seen then some (s.advance x) else none)
  | .interrupt x =>
      match s.phase x with
      | .calling => none
      | .waiting seen =>
          (plan x)[s.pos x]?.bind (fun e =>
            if s.calls (partner e) = seen then some (s.leave x e) else none)

end Kernel

section Paired

variable {plan : Bool → List (φ × Mode)} {x y : Bool} {k k' : Nat} {e e' : φ × Mode}

/-- The same FIFOs in the same order, from different ends, and each of them once. -/
structure Paired (plan : Bool → List (φ × Mode)) : Prop where
  same : plan true = (plan false).map partner
  once : ((plan false).map Prod.fst).Nodup

theorem partner_partner
    (e : φ × Mode) :
    partner (partner e) = e := by
  rcases e with ⟨f, m⟩
  cases m <;> rfl

theorem partner_ne
    (e : φ × Mode) :
    partner e ≠ e := by
  rcases e with ⟨f, m⟩
  intro h
  have hmode := congrArg Prod.snd h
  cases m <;> cases hmode

theorem Paired.length_eq
    (h : Paired plan) :
    (plan x).length = (plan false).length := by
  cases x with
  | false =>
      rfl
  | true =>
      rw [h.same, List.length_map]

theorem Paired.other
    (h : Paired plan)
    (he : (plan x)[k]? = some e) :
    (plan !x)[k]? = some (partner e) := by
  cases x with
  | false =>
      rw [Bool.not_false, h.same, List.getElem?_map, he]
      rfl
  | true =>
      rw [h.same, List.getElem?_map] at he
      obtain ⟨e', he', rfl⟩ := Option.map_eq_some_iff.mp he
      rw [Bool.not_true, he', partner_partner]

theorem Paired.fst
    (h : Paired plan)
    (he : (plan x)[k]? = some e) :
    ((plan false).map Prod.fst)[k]? = some e.1 := by
  cases x with
  | false =>
      rw [List.getElem?_map, he]
      rfl
  | true =>
      have hother : (plan false)[k]? = some (partner e) := h.other he
      rw [List.getElem?_map, hother]
      rfl

/-- An end is opened by one of the processes, in one place. -/
theorem Paired.unique
    (h : Paired plan)
    (he : (plan x)[k]? = some e)
    (he' : (plan y)[k']? = some e) :
    x = y ∧ k = k' := by
  have hk : k = k' := by
    have hfst := h.fst he
    obtain ⟨hlt, _⟩ := List.getElem?_eq_some_iff.mp hfst
    exact (List.getElem?_inj hlt h.once).mp (hfst.trans (h.fst he').symm)
  refine ⟨?_, hk⟩
  by_contra hne
  have hy : y = !x := by
    cases x <;> cases y <;> simp_all
  rw [hy, ← hk, h.other he] at he'
  exact partner_ne e (Option.some.inj he')

end Paired

section Progress

variable {plan : Bool → List (φ × Mode)} {s s' : State φ} {l : Label} {x : Bool} {e : φ × Mode}

/-- The process has its end of the FIFO, or waits for the other one. -/
def State.Holds (s : State φ) (x : Bool) (k : Nat) : Prop :=
  k < s.pos x ∨ (k = s.pos x ∧ s.phase x ≠ .calling)

instance (s : State φ) (x : Bool) (k : Nat) : Decidable (s.Holds x k) :=
  inferInstanceAs (Decidable (_ ∨ _))

structure Invariant (plan : Bool → List (φ × Mode)) (s : State φ) : Prop where
  bound : ∀ x, s.pos x ≤ (plan x).length
  ends : ∀ x k e, (plan x)[k]? = some e → s.ends e = if s.Holds x k then 1 else 0
  /-- the call for the other end that a process waits for has not been counted when it began -/
  waits : ∀ x seen e, s.phase x = .waiting seen → (plan x)[s.pos x]? = some e →
    seen ≤ s.calls (partner e) ∧ (s.ends (partner e) ≠ 0 → seen < s.calls (partner e))
  inside : ∀ x seen, s.phase x = .waiting seen → s.pos x < (plan x).length
  counted : ∀ e, s.ends e ≤ s.calls e

theorem invariant_start :
    Invariant plan (State.start : State φ) := by
  refine ⟨fun _ => Nat.zero_le _, ?_, ?_, ?_, fun _ => Nat.le_refl _⟩
  · intro x k e _
    simp [State.start, State.Holds]
  · intro x seen e hphase
    cases hphase
  · intro x seen hphase
    cases hphase

/-- What a change of one process does to what the processes hold. -/
theorem ends_of_change
    {s' : State φ} {k : Nat}
    (hplan : Paired plan)
    (h : Invariant plan s)
    (he : (plan x)[k]? = some e)
    (hself : s'.ends e = if s'.Holds x k then 1 else 0)
    (hends : ∀ e', e' ≠ e → s'.ends e' = s.ends e')
    (hholds : ∀ y k', (y, k') ≠ (x, k) → (s'.Holds y k' ↔ s.Holds y k')) :
    ∀ y k' e', (plan y)[k']? = some e' → s'.ends e' = if s'.Holds y k' then 1 else 0 := by
  intro y k' e' he'
  by_cases hplace : (y, k') = (x, k)
  · cases hplace
    cases he.symm.trans he'
    exact hself
  · have hne : e' ≠ e := by
      rintro rfl
      obtain ⟨rfl, rfl⟩ := hplan.unique he he'
      exact hplace rfl
    rw [hends e' hne, h.ends y k' e' he']
    simp only [hholds y k' hplace]

theorem Invariant.advance
    (h : Invariant plan s)
    (hwaits : s.phase x ≠ .calling)
    (hlt : s.pos x < (plan x).length) :
    Invariant plan (s.advance x) := by
  have hholds : ∀ y k, (s.advance x).Holds y k ↔ s.Holds y k := by
    intro y k
    simp only [State.Holds, State.advance, Function.update_apply]
    split_ifs with heq
    · subst heq
      simp only [ne_eq, not_true_eq_false, and_false, or_false, hwaits, not_false_eq_true, and_true]
      omega
    · rfl
  refine ⟨?_, ?_, ?_, ?_, h.counted⟩
  · intro y
    simp only [State.advance, Function.update_apply]
    split_ifs with heq
    · rw [heq]
      exact hlt
    · exact h.bound y
  · intro y k e he
    simp only [hholds]
    exact h.ends y k e he
  · intro y seen e
    simp only [State.advance, Function.update_apply]
    split_ifs
    · intro hphase
      cases hphase
    · exact h.waits y seen e
  · intro y seen
    simp only [State.advance, Function.update_apply]
    split_ifs
    · intro hphase
      cases hphase
    · exact h.inside y seen

variable [DecidableEq φ]

/-- The process is counted, and not yet back from the call. -/
theorem Invariant.enter_waiting
    (hplan : Paired plan)
    (h : Invariant plan s)
    (hphase : s.phase x = .calling)
    (he : (plan x)[s.pos x]? = some e)
    {seen : Nat}
    (hseen : seen ≤ s.calls (partner e) ∧ (s.ends (partner e) ≠ 0 → seen < s.calls (partner e))) :
    Invariant plan
      { s with
        ends := Function.update s.ends e (s.ends e + 1)
        calls := Function.update s.calls e (s.calls e + 1)
        phase := Function.update s.phase x (.waiting seen) } := by
  have hfree : s.ends e = 0 := by
    rw [h.ends x (s.pos x) e he, if_neg]
    simp [State.Holds, hphase]
  have hlt : s.pos x < (plan x).length := (List.getElem?_eq_some_iff.mp he).1
  refine ⟨h.bound, ?_, ?_, ?_, ?_⟩
  · refine ends_of_change hplan h he ?_ ?_ ?_
    · simp [State.Holds, hfree]
    · intro e' hne
      exact Function.update_of_ne hne ..
    · intro y k hne
      simp only [State.Holds, Function.update_apply]
      split_ifs with heq
      · subst heq
        have hk : k ≠ s.pos y := by
          rintro rfl
          exact hne rfl
        simp [hk]
      · rfl
  · intro y seen' e' hphase' he'
    have hne := partner_ne e
    simp only [Function.update_apply] at hphase'
    split_ifs at hphase' with heq
    · subst heq
      cases hphase'
      cases he.symm.trans he'
      simp only [Function.update_of_ne hne]
      exact hseen
    · obtain ⟨hle, hlt⟩ := h.waits y seen' e' hphase' he'
      simp only [Function.update_apply]
      split_ifs with hsame
      · rw [hsame] at hle
        omega
      · exact ⟨hle, hlt⟩
  · intro y seen' hphase'
    simp only [Function.update_apply] at hphase'
    split_ifs at hphase' with heq
    · rw [heq]
      exact hlt
    · exact h.inside y seen' hphase'
  · intro e'
    have hle := h.counted e'
    simp only [Function.update_apply]
    split_ifs with hsame
    · rw [hsame] at hle
      omega
    · exact hle

theorem Invariant.enter
    (hplan : Paired plan)
    (h : Invariant plan s)
    (hphase : s.phase x = .calling)
    (he : (plan x)[s.pos x]? = some e) :
    Invariant plan (s.enter x e) := by
  have hlt : s.pos x < (plan x).length := (List.getElem?_eq_some_iff.mp he).1
  unfold State.enter
  split_ifs with hnone
  · exact h.enter_waiting hplan hphase he ⟨Nat.le_refl _, fun hne => absurd hnone hne⟩
  · -- as if it had waited for a call that has been counted already
    have hcounted := h.counted (partner e)
    have hseen : 0 ≤ s.calls (partner e) ∧ (s.ends (partner e) ≠ 0 → 0 < s.calls (partner e)) :=
      ⟨Nat.zero_le _, fun _ => by omega⟩
    have hwaiting := h.enter_waiting hplan hphase he hseen
    have hadvance := hwaiting.advance (x := x) (by simp) hlt
    simpa [State.advance, Function.update_idem] using hadvance

/-- The process is taken off again. -/
theorem Invariant.leave
    (hplan : Paired plan)
    (h : Invariant plan s)
    (hwaits : s.phase x ≠ .calling)
    (he : (plan x)[s.pos x]? = some e) :
    Invariant plan (s.leave x e) := by
  have hone : s.ends e = 1 := by
    rw [h.ends x (s.pos x) e he, if_pos]
    exact Or.inr ⟨rfl, hwaits⟩
  refine ⟨h.bound, ?_, ?_, ?_, ?_⟩
  · refine ends_of_change hplan h he ?_ ?_ ?_
    · simp [State.leave, State.Holds, hone]
    · intro e' hne
      exact Function.update_of_ne hne ..
    · intro y k hne
      simp only [State.leave, State.Holds, Function.update_apply]
      split_ifs with heq
      · subst heq
        have hk : k ≠ s.pos y := by
          rintro rfl
          exact hne rfl
        simp [hk]
      · rfl
  · intro y seen e' hphase' he'
    simp only [State.leave, Function.update_apply] at hphase' ⊢
    split_ifs at hphase' with heq
    obtain ⟨hle, hlt⟩ := h.waits y seen e' hphase' he'
    refine ⟨hle, ?_⟩
    split_ifs with hsame
    · omega
    · exact hlt
  · intro y seen hphase'
    simp only [State.leave, Function.update_apply] at hphase'
    split_ifs at hphase' with heq
    exact h.inside y seen hphase'
  · intro e'
    have hle := h.counted e'
    simp only [State.leave, Function.update_apply]
    split_ifs with hsame
    · rw [hsame] at hle
      omega
    · exact hle

/-- What a step can do. -/
inductive Effect (plan : Bool → List (φ × Mode)) (s : State φ) : Label → State φ → Prop
  | enters {x : Bool} {e : φ × Mode}
      (hphase : s.phase x = .calling)
      (he : (plan x)[s.pos x]? = some e) :
      Effect plan s (.call x) (s.enter x e)
  | wakes {x : Bool} {seen : Nat} {e : φ × Mode}
      (hphase : s.phase x = .waiting seen)
      (he : (plan x)[s.pos x]? = some e)
      (hcalls : s.calls (partner e) ≠ seen) :
      Effect plan s (.wake x) (s.advance x)
  | leaves {x : Bool} {seen : Nat} {e : φ × Mode}
      (hphase : s.phase x = .waiting seen)
      (he : (plan x)[s.pos x]? = some e) :
      Effect plan s (.interrupt x) (s.leave x e)

theorem effect_of_step
    (hstep : step plan s l = some s') :
    Effect plan s l s' := by
  cases l with
  | call x =>
      obtain ⟨hphase, hstep⟩ := Option.ite_none_right_eq_some.mp hstep
      obtain ⟨e, he, rfl⟩ := Option.map_eq_some_iff.mp hstep
      exact .enters hphase he
  | wake x =>
      simp only [step] at hstep
      split at hstep
      case h_1 =>
          cases hstep
      case h_2 seen hphase =>
          obtain ⟨e, he, hstep⟩ := Option.bind_eq_some_iff.mp hstep
          obtain ⟨hcalls, hstep⟩ := Option.ite_none_right_eq_some.mp hstep
          cases hstep
          exact .wakes hphase he hcalls
  | interrupt x =>
      simp only [step] at hstep
      split at hstep
      case h_1 =>
          cases hstep
      case h_2 seen hphase =>
          obtain ⟨e, he, hstep⟩ := Option.bind_eq_some_iff.mp hstep
          obtain ⟨_, hstep⟩ := Option.ite_none_right_eq_some.mp hstep
          cases hstep
          exact .leaves hphase he

theorem Invariant.step
    (hplan : Paired plan)
    (h : Invariant plan s)
    (hstep : step plan s l = some s') :
    Invariant plan s' := by
  cases effect_of_step hstep with
  | enters hphase he =>
      exact h.enter hplan hphase he
  | wakes hphase he hcalls =>
      exact h.advance (by rw [hphase]; simp) (h.inside _ _ hphase)
  | leaves hphase he =>
      exact h.leave hplan (by rw [hphase]; simp) he

end Progress

section Results

variable {plan : Bool → List (φ × Mode)} {s s' : State φ} {l : Label} {x : Bool}

/-- The calls and returns that a process has before it. -/
def State.leftOf (plan : Bool → List (φ × Mode)) (s : State φ) (x : Bool) : Nat :=
  2 * ((plan x).length - s.pos x) - if s.phase x = .calling then 0 else 1

def State.left (plan : Bool → List (φ × Mode)) (s : State φ) : Nat :=
  s.leftOf plan false + s.leftOf plan true

/-- The other process has before it what it had. -/
theorem left_of_leftOf
    {d d' : Nat}
    (hself : s'.leftOf plan x + d ≤ s.leftOf plan x + d')
    (hother : s'.leftOf plan (!x) = s.leftOf plan (!x)) :
    s'.left plan + d ≤ s.left plan + d' := by
  cases x with
  | false =>
      rw [Bool.not_false] at hother
      simp only [State.left]
      omega
  | true =>
      rw [Bool.not_true] at hother
      simp only [State.left]
      omega

variable [DecidableEq φ]

def Label.interrupts : Label → Bool
  | .interrupt _ => true
  | _ => false

theorem Invariant.left_step
    (h : Invariant plan s)
    (hstep : FifoOpen.step plan s l = some s') :
    s'.left plan + 1 ≤ s.left plan + 2 * l.interrupts.toNat := by
  cases effect_of_step hstep with
  | @enters x e hphase he =>
      have hlt : s.pos x < (plan x).length := (List.getElem?_eq_some_iff.mp he).1
      unfold State.enter
      split_ifs
      · refine left_of_leftOf (x := x) ?_ (by simp [State.leftOf])
        simp only [State.leftOf, Function.update_self, reduceCtorEq, ↓reduceIte, hphase,
          Label.interrupts, Bool.toNat_false]
        omega
      · refine left_of_leftOf (x := x) ?_ (by simp [State.leftOf, State.advance])
        simp only [State.leftOf, State.advance, Function.update_self, ↓reduceIte, hphase,
          Label.interrupts, Bool.toNat_false]
        omega
  | @wakes x seen e hphase he hcalls =>
      have hlt := h.inside x seen hphase
      refine left_of_leftOf (x := x) ?_ (by simp [State.leftOf, State.advance])
      simp only [State.leftOf, State.advance, Function.update_self, ↓reduceIte, hphase,
        reduceCtorEq, Label.interrupts, Bool.toNat_false]
      omega
  | @leaves x seen e hphase he =>
      have hlt := h.inside x seen hphase
      refine left_of_leftOf (x := x) ?_ (by simp [State.leftOf, State.leave])
      simp only [State.leftOf, State.leave, Function.update_self, ↓reduceIte, hphase,
        reduceCtorEq, Label.interrupts, Bool.toNat_true]
      omega

/-- Nothing but an interruption can happen. -/
def Halted (plan : Bool → List (φ × Mode)) (s : State φ) : Prop :=
  ∀ x, step plan s (.call x) = none ∧ step plan s (.wake x) = none

/-- A process that cannot go on and has not opened all its FIFOs is ahead of the other one. -/
theorem Invariant.behind
    (hplan : Paired plan)
    (h : Invariant plan s)
    (hend : Halted plan s)
    (hlt : s.pos x < (plan x).length) :
    s.phase x ≠ .calling ∧ ¬ s.Holds (!x) (s.pos x) := by
  obtain ⟨hcall, hwake⟩ := hend x
  have he : (plan x)[s.pos x]? = some ((plan x)[s.pos x]) := List.getElem?_eq_getElem hlt
  cases hphase : s.phase x with
  | calling =>
      simp [FifoOpen.step, hphase, he] at hcall
  | waiting seen =>
      refine ⟨by simp, ?_⟩
      intro hholds
      simp only [FifoOpen.step, hphase, he, Option.bind_some, ite_eq_right_iff, reduceCtorEq,
        imp_false, not_not] at hwake
      have hends := h.ends (!x) (s.pos x) _ (hplan.other he)
      rw [if_pos hholds] at hends
      have hlate := (h.waits x seen _ hphase he).2 (by rw [hends]; exact Nat.one_ne_zero)
      omega

/-- If nothing but an interruption can happen, both processes have opened all FIFOs. -/
theorem Invariant.opened
    (hplan : Paired plan)
    (h : Invariant plan s)
    (hend : Halted plan s) :
    ∀ x, s.pos x = (plan x).length := by
  -- whoever is not done is strictly ahead of the other one, which then is not done either
  have hahead : ∀ x, s.pos x < (plan x).length → s.pos (!x) < s.pos x := by
    intro x hlt
    obtain ⟨_, hfree⟩ := h.behind hplan hend hlt
    obtain ⟨hle, hnot⟩ := not_or.mp hfree
    have hlength : (plan !x).length = (plan x).length := by
      rw [hplan.length_eq, hplan.length_eq (x := x)]
    have hother := (h.behind hplan hend (x := !x) (by omega)).1
    have hne : s.pos x ≠ s.pos (!x) := fun heq => hnot ⟨heq, hother⟩
    omega
  intro x
  by_contra hne
  have hbound := h.bound x
  have hfirst := hahead x (by omega)
  have hlength : (plan !x).length = (plan x).length := by
    rw [hplan.length_eq, hplan.length_eq (x := x)]
  have hsecond := hahead (!x) (by omega)
  rw [Bool.not_not] at hsecond
  omega

end Results

end FifoOpen
end SysProg
