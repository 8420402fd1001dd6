import SysProg.Lib.Progress
import SysProg.Lib.Run
import SysProg.Lib.Signals
import Mathlib.Tactic

/-!
# The function sleep2 of APUE/sleep1.c

`sleep2` sets an alarm and calls `pause`.  The handler of SIGALRM jumps back to the `setjmp`
before, so that an alarm that comes before `pause` is not lost; the handler of SIGINT,
`sig_int`, returns after a while and is left for good when the alarm comes in the meantime.

**Steps.**  The calls of `sleep2`, each second of the alarm clock, a SIGINT, and the ends of the
handlers, in any order.  A signal makes `pause` return after its handler, so it is at the call
that follows already when the handler is entered.  `longjmp` restores the mask of `setjmp` in
some systems and leaves the mask as it is in others: `savesMask`.  SIGALRM comes from the alarm
clock only, which is not set when `sleep2` is called.

**Results.**  `sleep2_returns`: if SIGALRM is not blocked and there is something to sleep,
`sleep2` cannot get stuck; what it returns and the seconds that it slept add up to what was
asked for.  `sleep2_again`: where `longjmp` leaves the mask, a call that slept to its end leaves
SIGALRM blocked, and a second call does not return without a SIGINT.
-/

namespace SysProg
namespace Alarms
namespace Sleep2

open Progress Run Signals

section Program

inductive Sig where
  | int
  | alrm
deriving DecidableEq, Repr

def sigs : List Sig := [.int, .alrm]

theorem mem_sigs
    (i : Sig) :
    i ∈ sigs := by
  cases i <;> decide

/-- Handlers have no places to tell apart: `sig_int` is running, `sig_alrm` is at `longjmp`. -/
def entry (_ : Sig) : Unit :=
  ()

inductive Pc where
  | signal
  | setjmp
  | alarm
  /-- `alarm` has returned, `pause` is not called yet -/
  | armed
  /-- in `pause` -/
  | pausing
  /-- at `alarm(0)` -/
  | cancel
  | returned (unslept : Nat)
deriving DecidableEq, Repr

/--
The call, the jump buffer and the alarm clock; then the seconds slept, and if there was a jump.
-/
structure State where
  pc : Pc
  proc : Process Sig Unit
  envAlrm : Option (Sig → Bool)
  clock : Option Nat
  slept : Nat
  jumped : Bool

/-- A call with a mask and what is pending behind it. -/
def State.start (mask pending : Sig → Bool) : State where
  pc := .signal
  proc := ⟨[], mask, pending⟩
  envAlrm := none
  clock := none
  slept := 0
  jumped := false

/-- `pause` returns after the handler of a signal. -/
def State.wake (s : State) : State :=
  if s.pc = .pausing ∧ s.proc.frames ≠ [] then { s with pc := .cancel } else s

def mainStep (seconds : Nat) (s : State) : Option State :=
  match s.pc with
  | .signal => some { s with pc := .setjmp }
  | .setjmp => some { s with pc := .alarm, envAlrm := some s.proc.mask }
  | .alarm => some { s with pc := .armed, clock := if seconds = 0 then none else some seconds }
  | .armed => some { s with pc := .pausing }
  | .pausing => none
  | .cancel => some { s with pc := .returned (s.clock.getD 0), clock := none }
  | .returned _ => none

/-- The innermost handler. -/
def handlerStep (savesMask : Bool) (s : State) (sig : Sig) : Option State :=
  match sig with
  | .int => (s.proc.sigreturn entry sigs).map (fun proc => { s with proc := proc })
  | .alrm =>
      s.envAlrm.map (fun saved =>
        { s with
          pc := .cancel
          proc := s.proc.jump entry sigs (if savesMask then saved else s.proc.mask)
          jumped := true })

def runStep (seconds : Nat) (savesMask : Bool) (s : State) : Option State :=
  match s.proc.frames with
  | [] => mainStep seconds s
  | f :: _ => handlerStep savesMask s f.sig

def tickStep (s : State) : Option State :=
  match s.clock with
  | some (c + 1) =>
      some
        (if c = 0 then
          State.wake { s with
            clock := none
            slept := s.slept + 1
            proc := s.proc.raise entry .alrm }
        else { s with clock := some c, slept := s.slept + 1 })
  | _ => none

inductive Label where
  | run
  | signalFails
  | tick
  | interrupt
deriving DecidableEq, Repr

def Label.interrupts : Label → Bool
  | .interrupt => true
  | _ => false

def Pc.hasReturned : Pc → Bool
  | .returned _ => true
  | _ => false

/-- The steps until `sleep2` has returned. -/
def step (seconds : Nat) (savesMask : Bool) (s : State) (l : Label) : Option State :=
  if s.pc.hasReturned then none
  else
    match l with
    | .run => runStep seconds savesMask s
    | .signalFails =>
        if s.pc = .signal ∧ s.proc.frames = [] then
          some { s with pc := .returned seconds }
        else none
    | .tick => tickStep s
    | .interrupt => some (State.wake { s with proc := s.proc.raise entry .int })

end Program

section Invariant

variable {seconds : Nat} {savesMask : Bool} {s s' : State} {l : Label} {mask base : Sig → Bool}

def Pc.isEarly : Pc → Bool
  | .signal => true
  | .setjmp => true
  | .alarm => true
  | _ => false

def Pc.isArmed : Pc → Bool
  | .armed => true
  | .pausing => true
  | .cancel => true
  | _ => false

/--
The handlers are nested above `base`, the mask of the call or what a jump has left.  Until the
alarm is over the clock and the seconds slept make up the whole time; afterwards there is one
SIGALRM, until the jump.
-/
structure Core (seconds : Nat) (savesMask : Bool) (mask base : Sig → Bool) (s : State) : Prop where
  sound : Sound base s.proc
  kept : s.jumped = false ∨ savesMask = true → base = mask
  blocked : s.jumped = true → savesMask = false → base .alrm = true
  early : s.pc.isEarly = true →
    s.clock = none ∧ s.proc.count .alrm = 0 ∧ s.slept = 0 ∧ s.jumped = false
  env : s.pc = .alarm ∨ s.pc.isArmed = true → s.envAlrm = some mask
  running : ∀ c, s.clock = some c →
    0 < c ∧ c + s.slept = seconds ∧ s.proc.count .alrm = 0 ∧ s.jumped = false
  fired : s.pc.isArmed = true → s.clock = none → s.slept = seconds
  whole : 0 < seconds → s.slept = seconds → s.jumped = false → s.proc.count .alrm = 1
  single : s.proc.count .alrm ≤ 1
  waits : s.pc = .armed ∨ s.pc = .pausing → s.jumped = false
  once : s.jumped = true → s.proc.count .alrm = 0 ∧ s.slept = seconds
  returned : ∀ unslept, s.pc = .returned unslept → unslept + s.slept = seconds ∧ s.proc.frames = []

/-- In `pause` there is no handler. -/
structure Invariant (seconds : Nat) (savesMask : Bool) (mask base : Sig → Bool) (s : State) : Prop
    extends Core seconds savesMask mask base s where
  alone : s.pc = .pausing → s.proc.frames = []

theorem Core.wake
    (h : Core seconds savesMask mask base s) :
    Invariant seconds savesMask mask base s.wake := by
  unfold State.wake
  split_ifs with hwake
  · have harmed : s.pc.isArmed = true := by
      rw [hwake.1]
      rfl
    refine ⟨⟨h.sound, h.kept, h.blocked, nofun, fun _ => h.env (Or.inr harmed), h.running,
      fun _ => h.fired harmed, h.whole, h.single, ?_, h.once, nofun⟩, nofun⟩
    rintro (hpc | hpc) <;> cases hpc
  · refine ⟨h, ?_⟩
    intro hpc
    by_contra hframes
    exact hwake ⟨hpc, hframes⟩

theorem invariant_start
    {pending : Sig → Bool}
    (hsettled : ∀ i, pending i = true → mask i = true)
    (hpending : pending .alrm = false) :
    Invariant seconds savesMask mask mask (.start mask pending) := by
  refine ⟨⟨⟨.nil, hsettled⟩, ?_, ?_, ?_, ?_, ?_, ?_, ?_, ?_, ?_, ?_, ?_⟩, ?_⟩ <;>
    simp [State.start, Pc.isEarly, Pc.isArmed, Process.count, hpending]
  omega

theorem Invariant.mask_eq
    (h : Invariant seconds savesMask mask base s)
    (hframes : s.proc.frames = [])
    (hjumped : s.jumped = false) :
    s.proc.mask = mask := by
  have hnested := h.sound.nested
  rw [hframes] at hnested
  rw [hnested.eq_base, h.kept (Or.inl hjumped)]

theorem Invariant.mainStep
    (h : Invariant seconds savesMask mask base s)
    (hframes : s.proc.frames = [])
    (hstep : mainStep seconds s = some s') :
    Invariant seconds savesMask mask base s' := by
  unfold Sleep2.mainStep at hstep
  split at hstep
  case h_1 hpc =>
      cases hstep
      have hearly := h.early (by rw [hpc]; rfl)
      exact ⟨⟨h.sound, h.kept, h.blocked, fun _ => hearly, by simp [Pc.isArmed], h.running,
        by simp [Pc.isArmed], h.whole, h.single, by simp, h.once, by simp⟩, by simp⟩
  case h_2 hpc =>
      cases hstep
      have hearly := h.early (by rw [hpc]; rfl)
      have hmask := h.mask_eq hframes hearly.2.2.2
      exact ⟨⟨h.sound, h.kept, h.blocked, fun _ => hearly, fun _ => congrArg some hmask, h.running,
        by simp [Pc.isArmed], h.whole, h.single, by simp, h.once, by simp⟩, by simp⟩
  case h_3 hpc =>
      cases hstep
      obtain ⟨_, hcount, hslept, hjumped⟩ := h.early (by rw [hpc]; rfl)
      refine ⟨⟨h.sound, h.kept, h.blocked, by simp [Pc.isEarly], fun _ => h.env (Or.inl hpc),
        ?_, ?_, h.whole, h.single, fun _ => hjumped, h.once, by simp⟩, by simp⟩
      · intro c hc
        simp only at hc
        split_ifs at hc with hzero
        cases hc
        exact ⟨Nat.pos_of_ne_zero hzero, by rw [hslept]; rfl, hcount, hjumped⟩
      · intro _ hnone
        simp only at hnone
        split_ifs at hnone with hzero
        exact hslept.trans hzero.symm
  case h_4 hpc =>
      cases hstep
      have harmed : s.pc.isArmed = true := by
        rw [hpc]
        rfl
      exact ⟨⟨h.sound, h.kept, h.blocked, by simp [Pc.isEarly], fun _ => h.env (Or.inr harmed),
        h.running, fun _ => h.fired harmed, h.whole, h.single, fun _ => h.waits (Or.inl hpc),
        h.once, by simp⟩, fun _ => hframes⟩
  case h_5 => cases hstep
  case h_6 hpc =>
      cases hstep
      have harmed : s.pc.isArmed = true := by
        rw [hpc]
        rfl
      refine ⟨⟨h.sound, h.kept, h.blocked, by simp [Pc.isEarly], by simp [Pc.isArmed], by simp,
        by simp [Pc.isArmed], h.whole, h.single, by simp, h.once, ?_⟩, by simp⟩
      intro unslept hunslept
      cases hunslept
      refine ⟨?_, hframes⟩
      cases hclock : s.clock with
      | none => simpa using h.fired harmed hclock
      | some c => simpa using (h.running c hclock).2.1
  case h_7 => cases hstep

/-- The handler of SIGINT returns. -/
theorem Invariant.sigreturn
    {f : Frame Sig Unit} {frames : List (Frame Sig Unit)} {proc : Process Sig Unit}
    (h : Invariant seconds savesMask mask base s)
    (hframes : s.proc.frames = f :: frames)
    (hsig : f.sig = .int)
    (hlive : s.pc.hasReturned = false)
    (hreturn : s.proc.sigreturn entry sigs = some proc) :
    Invariant seconds savesMask mask base { s with proc := proc } := by
  have hcount : proc.count .alrm = s.proc.count .alrm := by
    have hcount := count_sigreturn (j := .alrm) hframes hreturn
    simpa [hsig] using hcount
  refine ⟨⟨h.sound.sigreturn mem_sigs hreturn, h.kept, h.blocked, ?_, h.env, ?_, h.fired, ?_, ?_,
    h.waits, ?_, ?_⟩, ?_⟩
  · simpa only [hcount] using h.early
  · simpa only [hcount] using h.running
  · simpa only [hcount] using h.whole
  · exact hcount.trans_le h.single
  · simpa only [hcount] using h.once
  · intro unslept hpc
    have hpc' : s.pc = .returned unslept := hpc
    rw [hpc'] at hlive
    cases hlive
  · intro hpc
    rw [h.alone hpc] at hframes
    cases hframes

/-- The handler of SIGALRM jumps. -/
theorem Invariant.longjmp
    {f : Frame Sig Unit} {frames : List (Frame Sig Unit)} {saved : Sig → Bool}
    (h : Invariant seconds savesMask mask base s)
    (hframes : s.proc.frames = f :: frames)
    (hsig : f.sig = .alrm)
    (hlive : s.pc.hasReturned = false)
    (henv : s.envAlrm = some saved) :
    Invariant seconds savesMask mask (if savesMask then saved else s.proc.mask)
      { s with
        pc := .cancel
        proc := s.proc.jump entry sigs (if savesMask then saved else s.proc.mask)
        jumped := true } := by
  have htop := count_pos_of_top hframes
  rw [hsig] at htop
  have hsingle := h.single
  have hpending : (s.proc.pending .alrm).toNat = 0 := by omega
  have harmed : s.pc.isArmed = true := by
    have hearly := h.early
    cases hpc : s.pc <;> simp_all [Pc.isEarly, Pc.isArmed, Pc.hasReturned]
  have hsaved : saved = mask := Option.some.inj (henv.symm.trans (h.env (Or.inr harmed)))
  have hclock : s.clock = none := by
    cases hclock : s.clock with
    | none => rfl
    | some c =>
        have hzero := (h.running c hclock).2.2.1
        omega
  have hblocked : s.proc.mask .alrm = true := by
    rw [h.sound.nested.mask_iff, hframes, List.map_cons, hsig]
    exact Or.inr List.mem_cons_self
  refine ⟨⟨sound_jump mem_sigs _ _, ?_, ?_, by simp [Pc.isEarly], fun _ => hsaved ▸ henv, ?_, ?_,
    by simp, ?_, by simp, ?_, by simp⟩, by simp⟩
  · intro hsaves
    rw [if_pos (hsaves.resolve_left (by simp)), hsaved]
  · intro _ hleaves
    simpa [hleaves] using hblocked
  · intro c hc
    rw [hclock] at hc
    cases hc
  · intro _ _
    exact h.fired harmed hclock
  · simp only [count_jump]
    omega
  · intro _
    simp only [count_jump]
    exact ⟨hpending, h.fired harmed hclock⟩

theorem Invariant.tick
    (h : Invariant seconds savesMask mask base s)
    (hlive : s.pc.hasReturned = false)
    (hstep : tickStep s = some s') :
    Invariant seconds savesMask mask base s' := by
  unfold tickStep at hstep
  split at hstep
  case h_2 => cases hstep
  case h_1 c hclock =>
      obtain ⟨_, hsum, hcount, hjumped⟩ := h.running _ hclock
      have harmed : s.pc.isArmed = true := by
        have hearly := h.early
        cases hpc : s.pc <;> simp_all [Pc.isEarly, Pc.isArmed, Pc.hasReturned]
      have hearly : s.pc.isEarly = false := by
        cases hpc : s.pc <;> simp_all [Pc.isEarly, Pc.isArmed]
      have hpc : ∀ unslept, s.pc ≠ .returned unslept := by
        rintro unslept heq
        rw [heq] at hlive
        cases hlive
      cases hstep
      split_ifs with hlast
      · have hraise : (s.proc.raise entry .alrm).count .alrm = 1 := count_raise_self hcount
        refine Core.wake ⟨h.sound.raise _, h.kept, h.blocked, ?_, h.env, by simp, ?_,
          fun _ _ _ => hraise, hraise.le, h.waits, ?_, ?_⟩
        · simp [hearly]
        · intro _ _
          dsimp only
          omega
        · simp [hjumped]
        · intro unslept heq
          exact absurd heq (hpc unslept)
      · refine ⟨⟨h.sound, h.kept, h.blocked, ?_, h.env, ?_, by simp, ?_, h.single, h.waits, ?_, ?_⟩,
          h.alone⟩
        · simp [hearly]
        · intro c' hc'
          cases hc'
          refine ⟨Nat.pos_of_ne_zero hlast, ?_, hcount, hjumped⟩
          dsimp only
          omega
        · intro _ hwhole
          dsimp only at hwhole
          omega
        · simp [hjumped]
        · intro unslept heq
          exact absurd heq (hpc unslept)

theorem Invariant.interrupt
    (h : Invariant seconds savesMask mask base s)
    (hlive : s.pc.hasReturned = false) :
    Invariant seconds savesMask mask base
      (State.wake { s with proc := s.proc.raise entry .int }) := by
  have hcount : (s.proc.raise entry .int).count .alrm = s.proc.count .alrm :=
    count_raise_of_ne (by decide)
  refine Core.wake
    ⟨h.sound.raise _, h.kept, h.blocked, ?_, h.env, ?_, h.fired, ?_, ?_, h.waits, ?_, ?_⟩
  · simpa only [hcount] using h.early
  · simpa only [hcount] using h.running
  · simpa only [hcount] using h.whole
  · exact hcount.trans_le h.single
  · simpa only [hcount] using h.once
  · intro unslept hpc
    have hpc' : s.pc = .returned unslept := hpc
    rw [hpc'] at hlive
    cases hlive

theorem Invariant.signalFails
    (h : Invariant seconds savesMask mask base s)
    (hpc : s.pc = .signal)
    (hframes : s.proc.frames = []) :
    Invariant seconds savesMask mask base { s with pc := .returned seconds } := by
  obtain ⟨_, _, hslept, _⟩ := h.early (by rw [hpc]; rfl)
  refine ⟨⟨h.sound, h.kept, h.blocked, by simp [Pc.isEarly], by simp [Pc.isArmed], h.running,
    by simp [Pc.isArmed], h.whole, h.single, by simp, h.once, ?_⟩, by simp⟩
  intro unslept hunslept
  cases hunslept
  exact ⟨by rw [hslept]; rfl, hframes⟩

theorem Invariant.step
    (h : Invariant seconds savesMask mask base s)
    (hstep : step seconds savesMask s l = some s') :
    ∃ base', Invariant seconds savesMask mask base' s' := by
  obtain ⟨hreturned, hstep⟩ := Option.ite_none_left_eq_some.mp hstep
  have hlive : s.pc.hasReturned = false := by simpa using hreturned
  cases l with
  | run =>
      simp only [runStep] at hstep
      split at hstep
      case h_1 hframes => exact ⟨base, h.mainStep hframes hstep⟩
      case h_2 f frames hframes =>
          cases hsig : f.sig with
          | int =>
              rw [hsig] at hstep
              obtain ⟨proc, hreturn, rfl⟩ := Option.map_eq_some_iff.mp hstep
              exact ⟨base, h.sigreturn hframes hsig hlive hreturn⟩
          | alrm =>
              rw [hsig] at hstep
              obtain ⟨saved, henv, rfl⟩ := Option.map_eq_some_iff.mp hstep
              exact ⟨_, h.longjmp hframes hsig hlive henv⟩
  | signalFails =>
      obtain ⟨⟨hpc, hframes⟩, hstep⟩ := Option.ite_none_right_eq_some.mp hstep
      cases hstep
      exact ⟨base, h.signalFails hpc hframes⟩
  | tick => exact ⟨base, h.tick hlive hstep⟩
  | interrupt =>
      cases hstep
      exact ⟨base, h.interrupt hlive⟩

end Invariant

section Results

variable {seconds : Nat} {savesMask : Bool} {s s' : State} {l : Label}
variable {mask base pending : Sig → Bool}

def Pc.left (seconds : Nat) : Pc → Nat
  | .signal => 2 * seconds + 6
  | .setjmp => 2 * seconds + 5
  | .alarm => 2 * seconds + 4
  | .armed => 3
  | .pausing => 2
  | .cancel => 1
  | .returned _ => 0

/-- The steps that are left at most, without further interruptions. -/
def State.left (seconds : Nat) (s : State) : Nat :=
  s.pc.left seconds + 2 * s.clock.getD 0 + s.proc.count .int + s.proc.count .alrm

theorem left_wake_le :
    s.wake.left seconds ≤ s.left seconds := by
  unfold State.wake
  split_ifs with hwake
  · simp only [State.left, hwake.1, Pc.left]
    omega
  · exact Nat.le_refl _

theorem left_mainStep
    (hstep : mainStep seconds s = some s') :
    s'.left seconds < s.left seconds := by
  unfold mainStep at hstep
  split at hstep
  case h_3 hpc =>
      cases hstep
      simp only [State.left, hpc, Pc.left]
      split_ifs with hzero
      · simp only [Option.getD_none]
        omega
      · simp only [Option.getD_some]
        omega
  case h_5 => cases hstep
  case h_7 => cases hstep
  all_goals
    rename_i hpc
    cases hstep
    simp only [State.left, hpc, Pc.left, Option.getD_none]
    omega

theorem left_handlerStep
    {f : Frame Sig Unit} {frames : List (Frame Sig Unit)}
    (hlive : s.pc.hasReturned = false)
    (hframes : s.proc.frames = f :: frames)
    (hstep : handlerStep savesMask s f.sig = some s') :
    s'.left seconds < s.left seconds := by
  cases hsig : f.sig with
  | int =>
      rw [hsig] at hstep
      obtain ⟨proc, hreturn, rfl⟩ := Option.map_eq_some_iff.mp hstep
      have hint := count_sigreturn (j := .int) hframes hreturn
      have halrm := count_sigreturn (j := .alrm) hframes hreturn
      simp only [hsig, ↓reduceIte, reduceCtorEq] at hint halrm
      simp only [State.left]
      omega
  | alrm =>
      rw [hsig] at hstep
      obtain ⟨saved, henv, rfl⟩ := Option.map_eq_some_iff.mp hstep
      have htop := count_pos_of_top hframes
      have hint : (s.proc.pending .int).toNat ≤ s.proc.count .int := Nat.le_add_right _ _
      have hpc : 1 ≤ s.pc.left seconds := by
        cases hpc : s.pc <;> simp_all [Pc.left, Pc.hasReturned]
      have hcancel : Pc.cancel.left seconds = 1 := rfl
      rw [hsig] at htop
      simp only [State.left, count_jump, hcancel]
      omega

theorem left_tickStep
    (hstep : tickStep s = some s') :
    s'.left seconds < s.left seconds := by
  unfold tickStep at hstep
  split at hstep
  case h_2 => cases hstep
  case h_1 c hclock =>
      cases hstep
      split_ifs with hlast
      · refine Nat.lt_of_le_of_lt left_wake_le ?_
        have halrm : (s.proc.raise entry .alrm).count .alrm ≤ s.proc.count .alrm + 1 :=
          count_raise_self_le
        have hint : (s.proc.raise entry .alrm).count .int = s.proc.count .int :=
          count_raise_of_ne (by decide)
        simp only [State.left, hclock, hint, Option.getD_none, Option.getD_some]
        omega
      · simp only [State.left, hclock, Option.getD_some]
        omega

theorem left_step
    (hstep : step seconds savesMask s l = some s') :
    s'.left seconds + 1 ≤ s.left seconds + 2 * l.interrupts.toNat := by
  obtain ⟨hreturned, hstep⟩ := Option.ite_none_left_eq_some.mp hstep
  cases l with
  | run =>
      simp only [runStep] at hstep
      split at hstep
      case h_1 => exact left_mainStep hstep
      case h_2 f frames hframes =>
          exact left_handlerStep (Bool.eq_false_of_not_eq_true hreturned) hframes hstep
  | signalFails =>
      obtain ⟨⟨hpc, _⟩, hstep⟩ := Option.ite_none_right_eq_some.mp hstep
      cases hstep
      simp only [State.left, hpc, Pc.left]
      omega
  | tick =>
      exact left_tickStep hstep
  | interrupt =>
      cases hstep
      refine (Nat.add_le_add_right left_wake_le 1).trans ?_
      have hint : (s.proc.raise entry .int).count .int ≤ s.proc.count .int + 1 :=
        count_raise_self_le
      have halrm : (s.proc.raise entry .int).count .alrm = s.proc.count .alrm :=
        count_raise_of_ne (by decide)
      simp only [State.left, halrm, Label.interrupts, Bool.toNat_true]
      omega

/-- Only in `pause` there is nothing to do, and then only without an alarm. -/
theorem Invariant.pausing_of_stuck
    (h : Invariant seconds savesMask mask base s)
    (hlive : s.pc.hasReturned = false)
    (hrun : Sleep2.step seconds savesMask s .run = none)
    (htick : Sleep2.step seconds savesMask s .tick = none) :
    s.pc = .pausing ∧ s.proc.frames = [] ∧ s.clock = none := by
  simp only [Sleep2.step, hlive, Bool.false_eq_true, ↓reduceIte] at hrun htick
  have hclock : s.clock = none := by
    cases hclock : s.clock with
    | none => rfl
    | some c =>
        obtain ⟨c, rfl⟩ := Nat.exists_eq_succ_of_ne_zero (h.running c hclock).1.ne'
        simp [tickStep, hclock] at htick
  cases hframes : s.proc.frames with
  | nil =>
      refine ⟨?_, rfl, hclock⟩
      simp only [runStep, hframes] at hrun
      cases hpc : s.pc <;> simp_all [Sleep2.mainStep, Pc.hasReturned]
  | cons f frames =>
      exfalso
      simp only [runStep, hframes] at hrun
      cases hsig : f.sig with
      | int => simp [handlerStep, hsig, Process.sigreturn, hframes] at hrun
      | alrm =>
          have htop := count_pos_of_top hframes
          rw [hsig] at htop
          have harmed : s.pc.isArmed = true := by
            have hearly := h.early
            cases hpc : s.pc <;> simp_all [Pc.isEarly, Pc.isArmed, Pc.hasReturned]
          simp [handlerStep, hsig, h.env (Or.inr harmed)] at hrun

/-- With the alarm not blocked, nothing of it is left outside the handlers. -/
theorem Invariant.jumped_of_whole
    (h : Invariant seconds savesMask mask base s)
    (hfree : mask .alrm = false)
    (hpos : 0 < seconds)
    (hframes : s.proc.frames = [])
    (hwhole : s.slept = seconds) :
    s.jumped = true := by
  by_contra hjumped
  have hnot : s.jumped = false := by simpa using hjumped
  have hone := h.whole hpos hwhole hnot
  have hzero := h.sound.count_eq_zero hframes (i := .alrm) (by rw [h.kept (Or.inl hnot), hfree])
  omega

theorem not_pending_of_free
    (hsettled : ∀ i, pending i = true → mask i = true)
    (hfree : mask .alrm = false) :
    pending .alrm = false := by
  by_contra hpending
  have hmask := hsettled .alrm (by simpa using hpending)
  rw [hfree] at hmask
  cases hmask

theorem invariant_run
    {ls : List Label}
    (hsettled : ∀ i, pending i = true → mask i = true)
    (hfree : mask .alrm = false)
    (hrun : run (step seconds savesMask) (.start mask pending) ls = some s) :
    ∃ base, Invariant seconds savesMask mask base s :=
  run_invariant (P := fun s => ∃ base, Invariant seconds savesMask mask base s)
    (fun _ _ _ h hstep => h.elim fun _ h => h.step hstep)
    ⟨mask, invariant_start hsettled (not_pending_of_free hsettled hfree)⟩ hrun

/--
A call that has something to sleep, with SIGALRM not blocked: it is never stuck, and it returns
after finitely many steps for each SIGINT.  What it returns and what it has slept add up.
Afterwards the mask is as before, unless the whole time was slept and `longjmp` leaves the mask
alone.
-/
theorem sleep2_returns
    {ls : List Label}
    (hpos : 0 < seconds)
    (hfree : mask .alrm = false)
    (hsettled : ∀ i, pending i = true → mask i = true)
    (hrun : run (step seconds savesMask) (.start mask pending) ls = some s) :
    (∀ unslept, s.pc = .returned unslept →
      unslept + s.slept = seconds ∧
      (s.proc.mask = mask ∨
        savesMask = false ∧ s.slept = seconds ∧ s.proc.mask .alrm = true)) ∧
    ls.length ≤ 2 * seconds + 7 + 2 * ls.countP Label.interrupts ∧
    (s.pc.hasReturned = false →
      step seconds savesMask s .run ≠ none ∨ step seconds savesMask s .tick ≠ none) := by
  obtain ⟨base, h⟩ := invariant_run hsettled hfree hrun
  refine ⟨?_, ?_, ?_⟩
  · intro unslept hpc
    obtain ⟨hsum, hframes⟩ := h.returned unslept hpc
    have hnested := h.sound.nested
    rw [hframes] at hnested
    refine ⟨hsum, ?_⟩
    rw [hnested.eq_base]
    by_cases hkept : s.jumped = false ∨ savesMask = true
    · exact Or.inl (h.kept hkept)
    · simp only [not_or, Bool.not_eq_false, Bool.not_eq_true] at hkept
      exact Or.inr ⟨hkept.2, (h.once hkept.1).2, h.blocked hkept.1 hkept.2⟩
  · have hlength := length_add_measure_le_add (P := fun _ => True) (State.left seconds)
      Label.interrupts (fun _ _ _ _ hstep => ⟨trivial, left_step hstep⟩) trivial hrun
    have hone : (pending .int).toNat ≤ 1 := Bool.toNat_le _
    have hstart : (State.start mask pending).left seconds =
        2 * seconds + 6 + (pending .int).toNat := by
      simp [State.left, State.start, Pc.left, Process.count, not_pending_of_free hsettled hfree]
    omega
  · intro hlive
    by_contra hstuck
    simp only [not_or, not_not] at hstuck
    obtain ⟨hpc, hframes, hclock⟩ := h.pausing_of_stuck hlive hstuck.1 hstuck.2
    have hwhole := h.fired (by rw [hpc]; rfl) hclock
    have hjumped := h.jumped_of_whole hfree hpos hframes hwhole
    rw [h.waits (Or.inr hpc)] at hjumped
    cases hjumped

/-- A SIGINT comes first, and the alarm while its handler is running. -/
def alarmInHandler : List Label :=
  [.run, .run, .run, .run, .interrupt, .tick, .run, .run]

theorem sleep2_returns_alarmInHandler :
    ∃ s,
      run (step 1 false) (.start (fun _ => false) (fun _ => false)) alarmInHandler = some s ∧
      s.pc = .returned 0 ∧
      s.proc.mask .int = true ∧
      alarmInHandler.length ≤ 2 * 1 + 7 + 2 * alarmInHandler.countP Label.interrupts := by
  have hrun : run (step 1 false) (.start (fun _ => false) (fun _ => false)) alarmInHandler =
      some _ := rfl
  exact ⟨_, hrun, rfl, rfl, (sleep2_returns (by decide) rfl (by simp) hrun).2.1⟩

/-- A call with SIGALRM blocked gets into `pause` and stays there. -/
structure Quiet (s : State) : Prop where
  frames : s.proc.frames = []
  mask : s.proc.mask .alrm = true
  place : s.pc.isEarly = true ∨ s.pc = .armed ∨ s.pc = .pausing

theorem Quiet.step
    (h : Quiet s)
    (hl : l = .run ∨ l = .tick)
    (hstep : step seconds savesMask s l = some s') :
    Quiet s' := by
  obtain ⟨_, hstep⟩ := Option.ite_none_left_eq_some.mp hstep
  rcases hl with rfl | rfl
  · simp only [runStep, h.frames] at hstep
    unfold mainStep at hstep
    split at hstep
    case h_5 => cases hstep
    case h_6 hpc =>
        have hplace := h.place
        simp [hpc, Pc.isEarly] at hplace
    case h_7 => cases hstep
    all_goals
      cases hstep
      exact ⟨h.frames, h.mask, by simp [Pc.isEarly]⟩
  · simp only [tickStep] at hstep
    split at hstep
    case h_2 => cases hstep
    case h_1 c hclock =>
        cases hstep
        split_ifs with hlast
        · simp only [Process.raise, h.mask, ↓reduceIte, State.wake, h.frames, ne_eq,
            not_true_eq_false, and_false]
          exact ⟨rfl, h.mask, h.place⟩
        · exact ⟨h.frames, h.mask, h.place⟩

/--
Where `longjmp` leaves the mask alone, a call that has slept the whole time leaves SIGALRM
blocked: a second call never returns, unless a SIGINT comes or `signal` fails.
-/
theorem sleep2_again
    {seconds' : Nat} {ls ls' : List Label}
    (hpos : 0 < seconds)
    (hfree : mask .alrm = false)
    (hsettled : ∀ i, pending i = true → mask i = true)
    (hfirst : run (step seconds false) (.start mask pending) ls = some s)
    (hreturned : s.pc = .returned 0)
    (hquiet : ∀ l ∈ ls', l = .run ∨ l = .tick)
    (hsecond : run (step seconds' false) (.start s.proc.mask s.proc.pending) ls' = some s') :
    s.proc.mask .alrm = true ∧ s'.pc.hasReturned = false := by
  obtain ⟨base, h⟩ := invariant_run hsettled hfree hfirst
  obtain ⟨hsum, hframes⟩ := h.returned 0 hreturned
  have hjumped := h.jumped_of_whole hfree hpos hframes (by omega)
  have hnested := h.sound.nested
  rw [hframes] at hnested
  have hmask : s.proc.mask .alrm = true := by
    rw [hnested.eq_base]
    exact h.blocked hjumped rfl
  have hstart : Quiet (.start s.proc.mask s.proc.pending) := ⟨rfl, hmask, Or.inl rfl⟩
  have hstays : Quiet s' :=
    run_invariant_along (G := fun _ (l : Label) => l = .run ∨ l = .tick)
      (fun _ _ _ h hl hstep => h.step hl hstep) hstart (along_of_forall_mem hquiet _) hsecond
  refine ⟨hmask, ?_⟩
  rcases hstays.place with hearly | hpc | hpc
  · cases hpc : s'.pc <;> simp_all [Pc.isEarly, Pc.hasReturned]
  · rw [hpc]
    rfl
  · rw [hpc]
    rfl

/-- The second call goes through a whole second as well. -/
def wholeSecond : List Label :=
  [.run, .run, .run, .run, .tick]

theorem sleep2_again_wholeSecond :
    ∃ s s',
      run (step 1 false) (.start (fun _ => false) (fun _ => false)) (wholeSecond ++ [.run, .run]) =
        some s ∧
      run (step 1 false) (.start s.proc.mask s.proc.pending) wholeSecond = some s' ∧
      s'.slept = 1 ∧
      s.proc.mask .alrm = true ∧
      s'.pc.hasReturned = false := by
  have hfirst : run (step 1 false) (.start (fun _ => false) (fun _ => false))
      (wholeSecond ++ [.run, .run]) = some _ := rfl
  refine ⟨_, _, hfirst, rfl, rfl, ?_⟩
  exact @sleep2_again 1 _ _ _ _ 1 _ wholeSecond (by decide) rfl (by simp) hfirst rfl (by decide) rfl

end Results

end Sleep2
end Alarms
end SysProg
