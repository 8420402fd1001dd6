import SysProg.Lib.CString
import SysProg.Lib.Decimal
import SysProg.Lib.Run
import Mathlib.Tactic

/-!
# `sum_strnum` with a mutex and with private buffers

ALSP/sum_strnum_mutex.c formats the sum of two numbers into a static buffer while it holds
a mutex, and returns the buffer; the caller prints it later.  In
ALSP/OpenMP/omp_sum_strnum_tls.c each thread has a buffer of its own.

**Steps.**  A thread locks, formats, unlocks and prints, each at once; with private buffers
it formats and prints.  There is any number of threads, with any numerals as arguments, and
they are scheduled in any order.

**Results.**  The mutex protects the formatting only.  A thread prints what the last thread
has formatted, and this is the sum of its own arguments only if that thread has the same
sum, and the sum was computed without an overflow (`correct_iff_undisturbed`).
-/

namespace SysProg
namespace SumStrnum

universe u

open CString Decimal Run

section Program

def LEN_SUM_STR : Nat := 16

/-- The arguments `x` and `y` of a thread. -/
structure ThreadArg where
  x : Numeral
  y : Numeral

/-- `atoi(s1) + atoi(s2)` -/
def ThreadArg.sum (arg : ThreadArg) : Int :=
  addInt (atoi arg.x.bytes) (atoi arg.y.bytes)

/-- The sum of the numbers that are written in the arguments. -/
def ThreadArg.total (arg : ThreadArg) : Int :=
  arg.x.number + arg.y.number

/--
The sum is in the range of `int`, and what `strtol` cuts off from the numbers, if they are
out of the range of `long`, makes no difference.
-/
def ThreadArg.Exact (arg : ThreadArg) : Prop :=
  IntFits arg.total ∧
    (arg.total - (toLong arg.x.number + toLong arg.y.number)) % 2 ^ 32 = 0

instance (arg : ThreadArg) : Decidable arg.Exact :=
  inferInstanceAs (Decidable (_ ∧ _))

/-- `snprintf` of the sum; the buffer is zero behind the given bytes. -/
def ThreadArg.snprintf (arg : ThreadArg) : List UInt8 :=
  (printInt arg.sum).take (LEN_SUM_STR - 1)

variable {κ : Type u} [DecidableEq κ]

inductive Pc where
  | lock
  | snprintf
  | unlock
  | printf
  | exited
deriving DecidableEq, Repr

/--
The threads, the mutex and the static buffer.  `last` is the thread that has formatted last,
and `printed` are the sums that were printed, each with its thread.
-/
structure State (κ : Type u) where
  pc : κ → Pc
  mutex : Option κ
  bufSum : List UInt8
  last : Option κ
  printed : List (κ × List UInt8)

def State.start : State κ where
  pc := fun _ => .lock
  mutex := none
  bufSum := []
  last := none
  printed := []

/-- The next step of `start_func` in a thread, unless it waits or has ended. -/
def step (arg : κ → ThreadArg) (s : State κ) (k : κ) : Option (State κ) :=
  match s.pc k with
  | .lock =>
      if s.mutex = none then
        some { s with mutex := some k, pc := Function.update s.pc k .snprintf }
      else none
  | .snprintf =>
      some { s with
        bufSum := (arg k).snprintf
        last := some k
        pc := Function.update s.pc k .unlock }
  | .unlock => some { s with mutex := none, pc := Function.update s.pc k .printf }
  | .printf =>
      some { s with
        printed := s.printed ++ [(k, cstr s.bufSum)]
        pc := Function.update s.pc k .exited }
  | .exited => none

end Program

section Private

variable {κ : Type u} [DecidableEq κ]

inductive PrivatePc where
  | snprintf
  | printf
  | done
deriving DecidableEq, Repr

/-- The threads with their buffers `tls_str`. -/
structure PrivateState (κ : Type u) where
  pc : κ → PrivatePc
  tlsStr : κ → List UInt8
  printed : List (κ × List UInt8)

def PrivateState.start : PrivateState κ where
  pc := fun _ => .snprintf
  tlsStr := fun _ => []
  printed := []

/-- The next step of a section of `main` that runs in a thread. -/
def privateStep (arg : κ → ThreadArg) (s : PrivateState κ) (k : κ) :
    Option (PrivateState κ) :=
  match s.pc k with
  | .snprintf =>
      some { s with
        tlsStr := Function.update s.tlsStr k (arg k).snprintf
        pc := Function.update s.pc k .printf }
  | .printf =>
      some { s with
        printed := s.printed ++ [(k, cstr (s.tlsStr k))]
        pc := Function.update s.pc k .done }
  | .done => none

end Private

section Sums

variable {κ : Type u} [DecidableEq κ] {arg : κ → ThreadArg}

/-- The buffer is long enough for every `int`. -/
theorem snprintf_eq
    (arg : ThreadArg) :
    arg.snprintf = printInt arg.sum := by
  have hlen := length_printInt_le (toInt_fits (atoi arg.x.bytes + atoi arg.y.bytes))
  refine List.take_of_length_le (Nat.le_trans hlen ?_)
  decide

theorem cstr_snprintf
    (arg : ThreadArg) :
    cstr arg.snprintf = printInt arg.sum := by
  rw [snprintf_eq, cstr_eq_self (zero_not_mem_printInt _)]

theorem sum_eq_total_iff
    (arg : ThreadArg) :
    arg.sum = arg.total ↔ arg.Exact := by
  have hsum : arg.sum = toInt (toLong arg.x.number + toLong arg.y.number) := by
    rw [ThreadArg.sum, atoi_bytes, atoi_bytes]
    exact (Int.add_bmod _ _ _).symm
  rw [hsum, toInt_eq_iff]
  exact Iff.rfl

/-- Every thread that has formatted has its sum in its own buffer. -/
structure PrivateInv (arg : κ → ThreadArg) (s : PrivateState κ) : Prop where
  buffer : ∀ k, s.pc k = .printf → s.tlsStr k = (arg k).snprintf
  printed : ∀ p ∈ s.printed, p.2 = printInt (arg p.1).sum

theorem privateInv_step
    {s s' : PrivateState κ} {k : κ}
    (h : PrivateInv arg s)
    (hstep : privateStep arg s k = some s') :
    PrivateInv arg s' := by
  cases hpc : s.pc k with
  | snprintf =>
      simp only [privateStep, hpc] at hstep
      cases hstep
      refine ⟨fun j hj => ?_, h.printed⟩
      by_cases hjk : j = k
      · subst hjk
        exact Function.update_self ..
      · simp only [Function.update_of_ne hjk] at hj ⊢
        exact h.buffer j hj
  | printf =>
      simp only [privateStep, hpc] at hstep
      cases hstep
      refine ⟨?_, ?_⟩
      · exact (Function.forall_update_iff s.pc
          (fun j p => p = .printf → s.tlsStr j = (arg j).snprintf)).mpr
          ⟨by simp, fun j _ => h.buffer j⟩
      · rw [List.forall_mem_append, List.forall_mem_singleton, h.buffer k hpc]
        exact ⟨h.printed, cstr_snprintf (arg k)⟩
  | done =>
      simp [privateStep, hpc] at hstep

/-- With private buffers, each thread prints its own sum. -/
theorem private_printed
    {es : List κ} {t : PrivateState κ} {k : κ} {text : List UInt8}
    (hrun : run (privateStep arg) PrivateState.start es = some t)
    (hprinted : (k, text) ∈ t.printed) :
    text = printInt (arg k).sum := by
  have hstart : PrivateInv arg PrivateState.start :=
    ⟨by simp [PrivateState.start], by simp [PrivateState.start]⟩
  have hinv := run_invariant (fun _ _ _ => privateInv_step) hstart hrun
  exact hinv.printed (k, text) hprinted

/-- And each thread can do so. -/
theorem exists_private_printed
    (arg : κ → ThreadArg) (k : κ) :
    ∃ t, run (privateStep arg) PrivateState.start [k, k] = some t ∧
      (k, printInt (arg k).sum) ∈ t.printed := by
  simp [privateStep, PrivateState.start, cstr_snprintf]

end Sums

section Shared

variable {κ : Type u} {arg : κ → ThreadArg} {s s' : State κ} {k : κ}

/--
A thread that prints has arguments with an exact sum, and the thread that has formatted
last has the same sum.
-/
def Undisturbed (arg : κ → ThreadArg) (s : State κ) (k : κ) : Prop :=
  s.pc k = .printf →
    (arg k).Exact ∧ ∀ j ∈ s.last, (arg j).sum = (arg k).sum

instance (arg : κ → ThreadArg) (s : State κ) (k : κ) : Decidable (Undisturbed arg s k) :=
  inferInstanceAs (Decidable (_ → _ ∧ _))

/-- What a thread prints is right in both ways. -/
def Right (arg : κ → ThreadArg) (p : κ × List UInt8) : Prop :=
  p.2 = printInt (arg p.1).total ∧ p.2 = printInt (arg p.1).sum

/-- The buffer holds the text of the last thread, which is there when one prints. -/
structure Buffer (arg : κ → ThreadArg) (s : State κ) : Prop where
  text : ∀ j ∈ s.last, s.bufSum = (arg j).snprintf
  formatted : ∀ k, s.pc k = .unlock ∨ s.pc k = .printf → s.last ≠ none

/-- What is printed is right exactly if the thread was not disturbed. -/
theorem Buffer.right_iff
    (h : Buffer arg s)
    (hpc : s.pc k = .printf) :
    Right arg (k, cstr s.bufSum) ↔ Undisturbed arg s k := by
  obtain ⟨j, hj⟩ := Option.ne_none_iff_exists'.mp (h.formatted k (Or.inr hpc))
  have htext : cstr s.bufSum = printInt (arg j).sum := by
    rw [h.text j hj, cstr_snprintf]
  have hlast : ∀ i ∈ s.last, i = j := by
    intro i hi
    rw [hj] at hi
    exact (Option.mem_some_iff.mp hi).symm
  rw [Right, htext]
  simp only [printInt_injective.eq_iff]
  constructor
  · rintro ⟨htotal, hsum⟩ _
    refine ⟨(sum_eq_total_iff (arg k)).mp (hsum.symm.trans htotal), fun i hi => ?_⟩
    rw [hlast i hi]
    exact hsum
  · intro hundisturbed
    obtain ⟨hexact, hsame⟩ := hundisturbed hpc
    have hsum := hsame j hj
    exact ⟨hsum.trans ((sum_eq_total_iff (arg k)).mpr hexact), hsum⟩

/-- What a step does: it prints the buffer, or nothing. -/
inductive Effect (s : State κ) (k : κ) (s' : State κ) : Prop
  | quiet
      (hpc : s.pc k ≠ .printf)
      (hprinted : s'.printed = s.printed)
  | prints
      (hpc : s.pc k = .printf)
      (hprinted : s'.printed = s.printed ++ [(k, cstr s.bufSum)])

variable [DecidableEq κ]

/--
The threads have printed the sums of their arguments, and the same as with private buffers.
-/
structure Correct (arg : κ → ThreadArg) (s : State κ) : Prop where
  total : ∀ p ∈ s.printed, p.2 = printInt (arg p.1).total
  asPrivate : ∀ p ∈ s.printed, ∀ es t text,
    run (privateStep arg) PrivateState.start es = some t → (p.1, text) ∈ t.printed →
      p.2 = text

theorem correct_iff_right :
    Correct arg s ↔ ∀ p ∈ s.printed, Right arg p := by
  constructor
  · intro h p hp
    obtain ⟨t, hrun, hprinted⟩ := exists_private_printed arg p.1
    exact ⟨h.total p hp, h.asPrivate p hp _ t _ hrun hprinted⟩
  · intro h
    refine ⟨fun p hp => (h p hp).1, fun p hp es t text hrun hprinted => ?_⟩
    rw [(h p hp).2, private_printed hrun hprinted]

theorem Buffer.formatted_update
    {p : Pc}
    (h : Buffer arg s)
    (hp : p = .unlock ∨ p = .printf → s.last ≠ none) :
    ∀ j, Function.update s.pc k p j = .unlock ∨ Function.update s.pc k p j = .printf →
      s.last ≠ none :=
  (Function.forall_update_iff s.pc
    (fun _ q => q = .unlock ∨ q = .printf → s.last ≠ none)).mpr ⟨hp, fun j _ => h.formatted j⟩

theorem buffer_step
    (h : Buffer arg s)
    (hstep : step arg s k = some s') :
    Buffer arg s' ∧ Effect s k s' := by
  cases hpc : s.pc k with
  | lock =>
      simp only [step, hpc] at hstep
      split_ifs at hstep
      cases hstep
      exact ⟨⟨h.text, h.formatted_update (by simp)⟩, .quiet (by simp [hpc]) rfl⟩
  | snprintf =>
      simp only [step, hpc] at hstep
      cases hstep
      exact ⟨⟨by simp, by simp⟩, .quiet (by simp [hpc]) rfl⟩
  | unlock =>
      simp only [step, hpc] at hstep
      cases hstep
      have hlast := h.formatted k (Or.inl hpc)
      exact ⟨⟨h.text, h.formatted_update (fun _ => hlast)⟩, .quiet (by simp [hpc]) rfl⟩
  | printf =>
      simp only [step, hpc] at hstep
      cases hstep
      exact ⟨⟨h.text, h.formatted_update (by simp)⟩, .prints hpc rfl⟩
  | exited =>
      simp [step, hpc] at hstep

theorem right_step
    (h : Buffer arg s ∧ ∀ p ∈ s.printed, Right arg p)
    (hundisturbed : Undisturbed arg s k)
    (hstep : step arg s k = some s') :
    Buffer arg s' ∧ ∀ p ∈ s'.printed, Right arg p := by
  obtain ⟨hbuffer, hright⟩ := h
  obtain ⟨hbuffer', heffect⟩ := buffer_step hbuffer hstep
  refine ⟨hbuffer', ?_⟩
  cases heffect with
  | quiet _ hprinted =>
      rw [hprinted]
      exact hright
  | prints hpc hprinted =>
      rw [hprinted, List.forall_mem_append, List.forall_mem_singleton]
      exact ⟨hright, (hbuffer.right_iff hpc).mpr hundisturbed⟩

theorem wrong_of_disturbed
    (h : Buffer arg s)
    (hdisturbed : ¬ Undisturbed arg s k)
    (hstep : step arg s k = some s') :
    ∃ p ∈ s'.printed, ¬ Right arg p := by
  obtain ⟨_, heffect⟩ := buffer_step h hstep
  cases heffect with
  | quiet hpc _ =>
      exact absurd (fun hprintf => absurd hprintf hpc) hdisturbed
  | prints hpc hprinted =>
      refine ⟨(k, cstr s.bufSum), by simp [hprinted], ?_⟩
      rw [h.right_iff hpc]
      exact hdisturbed

/-- What was printed stays printed. -/
theorem wrong_step
    (h : Buffer arg s ∧ ∃ p ∈ s.printed, ¬ Right arg p)
    (hstep : step arg s k = some s') :
    Buffer arg s' ∧ ∃ p ∈ s'.printed, ¬ Right arg p := by
  obtain ⟨hbuffer, p, hp, hwrong⟩ := h
  obtain ⟨hbuffer', heffect⟩ := buffer_step hbuffer hstep
  refine ⟨hbuffer', p, ?_, hwrong⟩
  cases heffect with
  | quiet _ hprinted =>
      rw [hprinted]
      exact hp
  | prints _ hprinted =>
      rw [hprinted]
      exact List.mem_append_left _ hp

/--
In every run of any threads with any numerals, the threads print the sums of their own
arguments, and the same as with private buffers, exactly if no thread is disturbed between
its formatting and its printing.
-/
theorem correct_iff_undisturbed
    (arg : κ → ThreadArg) {es : List κ} {t : State κ}
    (hrun : run (step arg) State.start es = some t) :
    Correct arg t ↔ Along (step arg) (Undisturbed arg) State.start es := by
  have hstart : Buffer arg (State.start : State κ) ∧
      ∀ p ∈ (State.start : State κ).printed, Right arg p :=
    ⟨⟨by simp [State.start], by simp [State.start]⟩, by simp [State.start]⟩
  rw [correct_iff_right]
  rcases good_or_bad (fun _ _ _ => right_step)
      (fun _ _ _ h hnot hstep =>
        ⟨(buffer_step h.1 hstep).1, wrong_of_disturbed h.1 hnot hstep⟩)
      (fun _ _ _ => wrong_step) hstart hrun with
    ⟨halong, _, hright⟩ | ⟨hnot, _, p, hp, hwrong⟩
  · exact iff_of_true hright halong
  · exact iff_of_false (fun hright => hwrong (hright p hp)) hnot

end Shared

section Example

def one : Numeral := printed 1
def three : Numeral := printed 3
def four : Numeral := printed 4

/-- The arguments of the first two threads of the program. -/
def args : Bool → ThreadArg
  | false => ⟨one, three⟩
  | true => ⟨four, four⟩

/-- One thread after the other. -/
def inTurns : List Bool :=
  [false, false, false, false, true, true, true, true]

theorem correct_inTurns :
    ∃ t, run (step args) State.start inTurns = some t ∧
      t.printed = [(false, [52]), (true, [56])] ∧
      Correct args t :=
  ⟨_, rfl, by decide, (@correct_iff_undisturbed _ _ args inTurns _ rfl).mpr (by decide)⟩

/-- The second thread formats before the first one prints. -/
def overtaken : List Bool :=
  [false, false, false, true, true, true, false]

theorem overtaken_not_correct :
    ∃ t, run (step args) State.start overtaken = some t ∧
      t.printed = [(false, [56])] ∧
      ¬ Correct args t := by
  refine ⟨_, rfl, by decide, ?_⟩
  intro hcorrect
  exact absurd (hcorrect.total (false, [56]) (by decide)) (by decide)

end Example

end SumStrnum
end SysProg
