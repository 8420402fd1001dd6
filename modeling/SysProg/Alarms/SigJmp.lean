import SysProg.Lib.Run
import SysProg.Lib.Signals
import Mathlib.Tactic

/-!
# The jump of APUE/sigjmp.c

The program shows its signal mask with `pr_mask` (APUE/pr_mask.c) in `main` and in two handlers.
The handler of SIGUSR1 sets an alarm, waits longer than it takes and jumps back to `main` with
`siglongjmp`; the handler of SIGALRM returns.  `canjump` keeps the first handler from jumping
before `sigsetjmp` was called.

`pr_mask` reads the mask once and prints its line in two to six calls of `printf`, with nothing
blocked.  A handler that comes in between prints inside of the line, and a line of the handler
of SIGALRM that SIGUSR1 interrupts is never finished, because the handler of SIGUSR1 does not
return.

**Steps.**  Each call, in `main` or in the innermost handler, and each signal.  SIGALRM may come
at any time, from the alarm clock or from elsewhere.  A signal without a handler ends the
process.  The calls of `signal` and `sigprocmask` succeed, and no other signals are sent.

**Result.**  `masks_shown`: `main` and the handler of SIGUSR1 print their four lines in the
order of the program, with pieces of the handler of SIGALRM anywhere among theirs; those make up
whole lines, of which the jump may have cut one.  A handler shows its own signal as blocked, and
`main` shows the same mask at its end as at its start.  The handler never jumps to where
`sigsetjmp` has not been.
-/

namespace SysProg
namespace Alarms
namespace SigJmp

open Run Signals

section Program

/-- The signals with a handler. -/
inductive Sig where
  | usr1
  | alrm
deriving DecidableEq, Repr

def sigs : List Sig := [.usr1, .alrm]

theorem mem_sigs
    (i : Sig) :
    i ∈ sigs := by
  cases i <;> decide

/-- Whether the other signals are blocked that `pr_mask` looks for; nothing changes that. -/
structure Others where
  int : Bool
  quit : Bool
deriving DecidableEq, Repr

/-- The calls of `printf` for a mask. -/
def prMask (others : Others) (str : String) (mask : Sig → Bool) : List String :=
  [str] ++ (if others.int then [" SIGINT"] else []) ++ (if others.quit then [" SIGQUIT"] else []) ++
    (if mask .usr1 then [" SIGUSER1"] else []) ++ (if mask .alrm then [" SIGALRM"] else []) ++
    ["\n"]

/-- Where a handler is. -/
inductive Place where
  /-- `sig_usr1` looks at `canjump` -/
  | check
  | starting
  /-- `alarm(3)` and the loop -/
  | waiting
  | finishing
  /-- at `canjump = 0` -/
  | clear
  | siglongjmp
  /-- `sig_alrm` before its line -/
  | inAlrm
  | leave
deriving DecidableEq, Repr

def entry : Sig → Place
  | .usr1 => .check
  | .alrm => .inAlrm

inductive Pc where
  | signalUsr1
  | signalAlrm
  | starting
  | sigsetjmp
  /-- at `canjump = 1` -/
  | setCanjump
  | pausing
  | ending
  /-- at `exit(0)` -/
  | exiting
  | exited
  /-- by a signal without a handler -/
  | killed
deriving DecidableEq, Repr

def Pc.installed : Pc → Sig → Bool
  | .signalUsr1, _ => false
  | .signalAlrm, .alrm => false
  | _, _ => true

def Pc.isLive : Pc → Bool
  | .exited => false
  | .killed => false
  | _ => true

/-- Who calls `pr_mask`. -/
inductive Writer where
  | main
  | handler (i : Sig)
deriving DecidableEq, Repr

/--
A call of `pr_mask` that has read the mask stands in `left` with the pieces that it has not
printed.  There is one entry for a handler, which does not interrupt itself.
-/
structure State where
  pc : Pc
  proc : Process Sig Place
  jmpbuf : Option (Sig → Bool)
  canjump : Bool
  left : Writer → List String
  out : List (Writer × String)

def State.start (mask pending : Sig → Bool) : State where
  pc := .signalUsr1
  proc := ⟨[], mask, pending⟩
  jmpbuf := none
  canjump := false
  left := fun _ => []
  out := []

/-- Who runs: the innermost handler, or `main`. -/
def State.writer (s : State) : Writer :=
  match s.proc.frames with
  | [] => .main
  | f :: _ => .handler f.sig

/-- The call of `sigprocmask` in `pr_mask`. -/
def State.call (others : Others) (s : State) (str : String) : State :=
  { s with left := Function.update s.left s.writer (prMask others str s.proc.mask) }

def State.printf (s : State) (str : String) (rest : List String) : State :=
  { s with
    left := Function.update s.left s.writer rest
    out := s.out ++ [(s.writer, str)] }

def State.goto (s : State) (pc : Pc) : State :=
  { s with pc := pc }

def mainStep (others : Others) (s : State) : Option State :=
  match s.pc with
  | .signalUsr1 => some (s.goto .signalAlrm)
  | .signalAlrm => some (s.goto .starting)
  | .starting => some ((s.call others "starting main: ").goto .sigsetjmp)
  | .sigsetjmp => some { s with pc := .setCanjump, jmpbuf := some s.proc.mask }
  | .setCanjump => some { s with pc := .pausing, canjump := true }
  | .pausing => none
  | .ending => some ((s.call others "ending main: ").goto .exiting)
  | .exiting => some (s.goto .exited)
  | .exited => none
  | .killed => none

/-- The innermost handler goes on to `place`. -/
def State.proceed (s : State) (place : Place) : State :=
  { s with proc := s.proc.proceed place }

def State.sigreturn (s : State) : Option State :=
  (s.proc.sigreturn entry sigs).map (fun proc => { s with proc := proc })

/-- No call that the jump leaves is finished. -/
def State.siglongjmp (s : State) : Option State :=
  s.jmpbuf.map (fun saved =>
    { s with pc := .ending, proc := s.proc.jump entry sigs saved, left := fun _ => [] })

def handlerStep (others : Others) (s : State) : Place → Option State
  | .check => if s.canjump = false then s.sigreturn else some (s.proceed .starting)
  | .starting => some ((s.call others "starting sig_usr1: ").proceed .waiting)
  | .waiting => some (s.proceed .finishing)
  | .finishing => some ((s.call others "finishing sig_usr1: ").proceed .clear)
  | .clear => some ({ s with canjump := false }.proceed .siglongjmp)
  | .siglongjmp => s.siglongjmp
  | .inAlrm => some ((s.call others "in sig_alrm: ").proceed .leave)
  | .leave => s.sigreturn

/-- What runs goes on, first of all with its call of `pr_mask`. -/
def State.goesOn (others : Others) (s : State) : Option State :=
  match s.left s.writer with
  | str :: rest => some (s.printf str rest)
  | [] =>
      match s.proc.frames with
      | [] => mainStep others s
      | f :: _ => handlerStep others s f.place

inductive Label where
  | run
  | raise (i : Sig)
deriving DecidableEq, Repr

def step (others : Others) (s : State) (l : Label) : Option State :=
  if s.pc.isLive then
    match l with
    | .run => s.goesOn others
    | .raise i =>
        if s.pc.installed i = true ∨ s.proc.mask i = true then
          some { s with proc := s.proc.raise entry i }
        else some (s.goto .killed)
  else none

end Program

section Output

/-- What `main` and `sig_usr1` have printed, and what `sig_alrm` has. -/
def programText (out : List (Writer × String)) : List String :=
  (out.filter (fun p => p.1 ≠ .handler .alrm)).map Prod.snd

def alarmText (out : List (Writer × String)) : List String :=
  (out.filter (fun p => p.1 = .handler .alrm)).map Prod.snd

/-- A mask inside of a handler: the mask of the start, and the handler's own signal. -/
structure Blocks (mask now : Sig → Bool) (i : Sig) : Prop where
  kept : ∀ j, mask j = true → now j = true
  own : now i = true

/--
The lines of `main` and `sig_usr1`.  `sig_usr1` has the same mask in both of its lines, `main`
has the mask of the start.
-/
def program (others : Others) (mask now : Sig → Bool) : List (List String) :=
  [prMask others "starting main: " mask, prMask others "starting sig_usr1: " now,
    prMask others "finishing sig_usr1: " now, prMask others "ending main: " mask]

/--
The pieces of `sig_alrm` and what it has still to print: one line after the other, of which the
jump leaves at most one unfinished.
-/
inductive Shown (others : Others) (mask : Sig → Bool) :
    (jumped : Bool) → (left : List String) → List String → Prop
  | nothing :
      Shown others mask false [] []
  | starts {jumped : Bool} {text : List String} {now : Sig → Bool}
      (h : Shown others mask jumped [] text)
      (hblocks : Blocks mask now .alrm) :
      Shown others mask jumped (prMask others "in sig_alrm: " now) text
  | piece {jumped : Bool} {str : String} {left text : List String}
      (h : Shown others mask jumped (str :: left) text) :
      Shown others mask jumped left (text ++ [str])
  | jump {left text : List String}
      (h : Shown others mask false left text) :
      Shown others mask true [] text

/-- How many of the calls of `pr_mask` `main` and `sig_usr1` have made. -/
inductive Stage where
  | nothing
  | started
  | inUsr1
  | finished
  | ended
deriving DecidableEq, Repr

def Stage.calls : Stage → Nat
  | .nothing => 0
  | .started => 1
  | .inUsr1 => 2
  | .finished => 3
  | .ended => 4

def called (others : Others) (mask now : Sig → Bool) (stage : Stage) : List String :=
  ((program others mask now).take stage.calls).flatten

theorem called_prefix_flatten
    (others : Others) (mask now : Sig → Bool) (stage : Stage) :
    called others mask now stage <+: (program others mask now).flatten :=
  (List.take_prefix _ _).flatten

theorem programText_append
    (out : List (Writer × String)) {w : Writer} {str : String}
    (hw : w ≠ .handler .alrm) :
    programText (out ++ [(w, str)]) = programText out ++ [str] := by
  simp [programText, hw]

theorem programText_append_alrm
    (out : List (Writer × String)) (str : String) :
    programText (out ++ [(.handler .alrm, str)]) = programText out := by
  simp [programText]

theorem alarmText_append
    (out : List (Writer × String)) {w : Writer} {str : String}
    (hw : w ≠ .handler .alrm) :
    alarmText (out ++ [(w, str)]) = alarmText out := by
  simp [alarmText, hw]

theorem alarmText_append_alrm
    (out : List (Writer × String)) (str : String) :
    alarmText (out ++ [(.handler .alrm, str)]) = alarmText out ++ [str] := by
  simp [alarmText]

end Output

section Invariant

variable {others : Others} {mask now : Sig → Bool} {s s' : State} {l : Label} {stage : Stage}
variable {f : Frame Sig Place} {frames : List (Frame Sig Place)}

/-- The places of `sig_usr1` behind its look at `canjump`. -/
def Place.isActive : Place → Bool
  | .starting => true
  | .waiting => true
  | .finishing => true
  | .clear => true
  | .siglongjmp => true
  | _ => false

/-- The places that follow a call of `pr_mask`. -/
def Place.inCall : Place → Bool
  | .waiting => true
  | .clear => true
  | .leave => true
  | _ => false

def Place.sig : Place → Sig
  | .inAlrm => .alrm
  | .leave => .alrm
  | _ => .usr1

def Pc.hasJumped : Pc → Bool
  | .ending => true
  | .exiting => true
  | .exited => true
  | _ => false

/-- Without an active handler the place in `main` says how far the lines have come. -/
def Rest (s : State) : Stage → Prop
  | .nothing => s.canjump = false ∧
      (s.pc = .signalUsr1 ∨ s.pc = .signalAlrm ∨ s.pc = .starting ∨ s.pc = .killed)
  | .started => s.canjump = false ∧ (s.pc = .sigsetjmp ∨ s.pc = .setCanjump) ∨
      s.canjump = true ∧ s.pc = .pausing
  | .inUsr1 => False
  | .finished => s.canjump = false ∧ s.pc = .ending
  | .ended => s.canjump = false ∧ (s.pc = .exiting ∨ s.pc = .exited)

/-- What an active handler says about it. -/
def Fits (now : Sig → Bool) (s : State) (stage : Stage) (f : Frame Sig Place) : Prop :=
  s.pc = .pausing ∧
    match f.place with
    | .starting => s.canjump = true ∧ stage = .started
    | .waiting => stage = .inUsr1 ∧ now = Function.update f.mask .usr1 true
    | .finishing => stage = .inUsr1 ∧ now = Function.update f.mask .usr1 true
    | .clear => stage = .finished
    | .siglongjmp => s.canjump = false ∧ stage = .finished
    | _ => False

structure Invariant
    (others : Others) (mask now : Sig → Bool) (s : State) (stage : Stage) : Prop where
  sound : Sound mask s.proc
  blocks : Blocks mask now .usr1
  shown : programText s.out ++ s.left .main ++ s.left (.handler .usr1) =
    called others mask now stage
  alarms : Shown others mask s.pc.hasJumped (s.left (.handler .alrm)) (alarmText s.out)
  places : ∀ f ∈ s.proc.frames, f.place.sig = f.sig
  calls : ∀ i, s.left (.handler i) ≠ [] → ∃ f ∈ s.proc.frames, f.sig = i ∧ f.place.inCall = true
  mainCalls : s.left .main ≠ [] → s.pc = .sigsetjmp ∨ s.pc = .exiting
  jmpbuf : s.pc = .setCanjump ∨ s.pc = .pausing → s.jmpbuf = some mask
  rest : (∀ f ∈ s.proc.frames, f.place.isActive = false) → Rest s stage
  active : ∀ f ∈ s.proc.frames, f.place.isActive = true → Fits now s stage f

/-- How far the lines are when no handler is active. -/
def Pc.stageAt : Pc → Stage
  | .sigsetjmp => .started
  | .setCanjump => .started
  | .pausing => .started
  | .ending => .finished
  | .exiting => .ended
  | .exited => .ended
  | _ => .nothing

theorem Rest.stage_eq
    (h : Rest s stage) :
    stage = s.pc.stageAt := by
  cases stage with
  | nothing =>
      obtain ⟨_, hpc | hpc | hpc | hpc⟩ := h <;> rw [hpc] <;> rfl
  | started =>
      obtain ⟨_, hpc | hpc⟩ | ⟨_, hpc⟩ := h <;> rw [hpc] <;> rfl
  | inUsr1 =>
      exact h.elim
  | finished =>
      rw [h.2]
      rfl
  | ended =>
      obtain ⟨_, hpc | hpc⟩ := h <;> rw [hpc] <;> rfl

theorem Rest.canjump_eq
    (h : Rest s stage) :
    s.canjump = decide (s.pc = .pausing) := by
  cases stage with
  | nothing =>
      obtain ⟨hcan, hpc | hpc | hpc | hpc⟩ := h <;> rw [hcan, hpc] <;> rfl
  | started =>
      obtain ⟨hcan, hpc | hpc⟩ | ⟨hcan, hpc⟩ := h <;> rw [hcan, hpc] <;> rfl
  | inUsr1 =>
      exact h.elim
  | finished =>
      rw [h.1, h.2]
      rfl
  | ended =>
      obtain ⟨hcan, hpc | hpc⟩ := h <;> rw [hcan, hpc] <;> rfl

theorem invariant_start
    {pending : Sig → Bool}
    (hsettled : ∀ i, pending i = true → mask i = true) :
    Invariant others mask (Function.update mask .usr1 true) (.start mask pending) .nothing := by
  have hblocks : Blocks mask (Function.update mask .usr1 true) .usr1 := by
    refine ⟨?_, by simp⟩
    intro j hj
    rw [Function.update_apply, hj, ite_self]
  refine ⟨⟨.nil, hsettled⟩, hblocks, rfl, .nothing, ?_, ?_, ?_, ?_, ?_, ?_⟩ <;>
    simp [State.start, Rest]

theorem isActive_of_sig
    {place : Place}
    (h : place.sig = .alrm) :
    place.isActive = false := by
  cases place <;> first | rfl | cases h

theorem isActive_of_inCall
    {place : Place}
    (hcall : place.inCall = true)
    (hsig : place.sig = .usr1) :
    place.isActive = true := by
  cases place with
  | waiting => rfl
  | clear => rfl
  | leave => cases hsig
  | _ => cases hcall

theorem entry_spec
    (i : Sig) :
    (entry i).sig = i ∧ (entry i).isActive = false := by
  cases i <;> decide

theorem mem_of_top
    (hframes : s.proc.frames = f :: frames) :
    f ∈ s.proc.frames := by
  rw [hframes]
  exact List.mem_cons_self

theorem writer_of_top
    (hframes : s.proc.frames = f :: frames) :
    s.writer = .handler f.sig := by
  rw [State.writer, hframes]

theorem writer_of_main
    (hframes : s.proc.frames = []) :
    s.writer = .main := by
  rw [State.writer, hframes]

/-- A call changes nothing but what its caller has to print. -/
theorem call_left_self
    {w : Writer} {str : String}
    (hw : s.writer = w) :
    (s.call others str).left w = prMask others str s.proc.mask := by
  simp only [State.call, hw, Function.update_self]

theorem call_left_of_ne
    {w w' : Writer} {str : String}
    (hw : s.writer = w)
    (hne : w' ≠ w) :
    (s.call others str).left w' = s.left w' := by
  simp only [State.call, hw, Function.update_of_ne hne]

/-- The mask of the start stays blocked, and a handler has its own signal blocked. -/
theorem Invariant.blocks_of_top
    (h : Invariant others mask now s stage)
    (hframes : s.proc.frames = f :: frames) :
    Blocks mask s.proc.mask f.sig := by
  have hmask := h.sound.nested.mask_iff
  constructor
  · intro i hi
    exact (hmask i).mpr (Or.inl hi)
  · exact (hmask _).mpr (Or.inr (List.mem_map_of_mem (mem_of_top hframes)))

/-- Only one handler of SIGUSR1 is on the stack. -/
theorem Invariant.inactive_of_top
    (h : Invariant others mask now s stage)
    (hframes : s.proc.frames = f :: frames)
    (hsig : f.sig = .usr1) :
    ∀ g ∈ frames, g.place.isActive = false := by
  intro g hg
  have hnested := h.sound.nested
  rw [hframes] at hnested
  have hne : g.sig ≠ .usr1 := by
    intro heq
    refine hnested.sig_not_mem ?_
    rw [hsig, ← heq]
    exact List.mem_map_of_mem hg
  apply isActive_of_sig
  rw [h.places g (by rw [hframes]; exact List.mem_cons_of_mem _ hg)]
  cases hgsig : g.sig with
  | usr1 => exact absurd hgsig hne
  | alrm => rfl

/-- `sig_usr1` is active only while `main` waits in `pause`. -/
theorem Invariant.inactive_of_pc
    (h : Invariant others mask now s stage)
    (hpc : s.pc ≠ .pausing) :
    ∀ f ∈ s.proc.frames, f.place.isActive = false := by
  intro f hf
  by_contra hactive
  exact hpc (h.active f hf (by simpa using hactive)).1

/-- While `sig_usr1` is active, `main` has nothing to print. -/
theorem Invariant.left_main
    (h : Invariant others mask now s stage)
    (hf : f ∈ s.proc.frames)
    (hactive : f.place.isActive = true) :
    s.left .main = [] := by
  by_contra hleft
  have hpc := h.mainCalls hleft
  rw [(h.active f hf hactive).1] at hpc
  simp at hpc

/-- Without an active handler `sig_usr1` has nothing to print. -/
theorem Invariant.left_usr1
    (h : Invariant others mask now s stage)
    (hnone : ∀ f ∈ s.proc.frames, f.place.isActive = false) :
    s.left (.handler .usr1) = [] := by
  by_contra hleft
  obtain ⟨f, hf, hsig, hcall⟩ := h.calls .usr1 hleft
  have hactive := isActive_of_inCall hcall ((h.places f hf).trans hsig)
  rw [hnone f hf] at hactive
  cases hactive

/-- Handlers that are not active and have nothing to print come and go. -/
theorem Invariant.change
    {proc : Process Sig Place}
    (h : Invariant others mask now s stage)
    (hsound : Sound mask proc)
    (hsub : ∀ g ∈ proc.frames,
      g ∈ s.proc.frames ∨ g.place.sig = g.sig ∧ g.place.isActive = false)
    (hback : ∀ g ∈ s.proc.frames,
      g.place.isActive = true ∨ s.left (.handler g.sig) ≠ [] → g ∈ proc.frames) :
    Invariant others mask now { s with proc := proc } stage := by
  refine ⟨hsound, h.blocks, h.shown, h.alarms, ?_, ?_, h.mainCalls, h.jmpbuf, ?_, ?_⟩
  · intro g hg
    rcases hsub g hg with hold | hnew
    · exact h.places g hold
    · exact hnew.1
  · intro i hi
    obtain ⟨g, hg, hsig, hcall⟩ := h.calls i hi
    exact ⟨g, hback g hg (Or.inr (hsig ▸ hi)), hsig, hcall⟩
  · intro hnone
    refine h.rest ?_
    intro g hg
    by_contra hactive
    have hactive' : g.place.isActive = true := by simpa using hactive
    exact hactive (hnone g (hback g hg (Or.inl hactive')))
  · intro g hg hactive
    rcases hsub g hg with hold | hnew
    · exact h.active g hold hactive
    · rw [hnew.2] at hactive
      cases hactive

theorem Invariant.raise
    (h : Invariant others mask now s stage)
    (i : Sig) :
    Invariant others mask now { s with proc := s.proc.raise entry i } stage := by
  obtain ⟨new, hframes, hplace⟩ := entered_raise entry s.proc i
  refine h.change (h.sound.raise i) ?_ ?_
  · intro g hg
    rw [hframes] at hg
    rcases List.mem_append.mp hg with hnew | hold
    · rw [hplace g hnew]
      exact Or.inr (entry_spec g.sig)
    · exact Or.inl hold
  · intro g hg _
    rw [hframes]
    exact List.mem_append_right _ hg

theorem Invariant.sigreturn
    (h : Invariant others mask now s stage)
    (hframes : s.proc.frames = f :: frames)
    (hleft : s.left (.handler f.sig) = [])
    (hinactive : f.place.isActive = false)
    (hstep : s.sigreturn = some s') :
    Invariant others mask now s' stage := by
  obtain ⟨proc, hreturn, rfl⟩ := Option.map_eq_some_iff.mp hstep
  obtain ⟨new, hnew, hplace⟩ := entered_sigreturn hframes hreturn
  refine h.change (h.sound.sigreturn mem_sigs hreturn) ?_ ?_
  · intro g hg
    rw [hnew] at hg
    rcases List.mem_append.mp hg with hg | hg
    · rw [hplace g hg]
      exact Or.inr (entry_spec g.sig)
    · rw [hframes]
      exact Or.inl (List.mem_cons_of_mem _ hg)
  · intro g hg hbusy
    rw [hframes] at hg
    rcases List.mem_cons.mp hg with rfl | hg
    · rcases hbusy with hactive | hprints
      · rw [hinactive] at hactive
        cases hactive
      · exact absurd hleft hprints
    · rw [hnew]
      exact List.mem_append_right _ hg

/-- The handler of SIGUSR1 goes on to an active place, perhaps with a call of `pr_mask`. -/
theorem Invariant.proceed
    {place : Place} {left : Writer → List String} {now' : Sig → Bool} {stage' : Stage}
    (h : Invariant others mask now s stage)
    (canjump : Bool)
    (hframes : s.proc.frames = f :: frames)
    (hsig : f.sig = .usr1)
    (hblocks : Blocks mask now' .usr1)
    (hshown : programText s.out ++ s.left .main ++ left (.handler .usr1) =
      called others mask now' stage')
    (hothers : ∀ w, w ≠ .handler .usr1 → left w = s.left w)
    (hcall : left (.handler .usr1) ≠ [] → place.inCall = true)
    (hplace : place.sig = .usr1 ∧ place.isActive = true)
    (hfits : Fits now' { s with canjump := canjump } stage' { f with place := place }) :
    Invariant others mask now'
      { s with canjump := canjump, left := left, proc := s.proc.proceed place } stage' := by
  have hinactive := h.inactive_of_top hframes hsig
  have hafter : (s.proc.proceed place).frames = { f with place := place } :: frames := by
    simp [Process.proceed, hframes]
  have hmain : left .main = s.left .main := hothers _ (by simp)
  have halrm : left (.handler .alrm) = s.left (.handler .alrm) := hothers _ (by simp)
  refine ⟨h.sound.proceed place, hblocks, ?_, ?_, ?_, ?_, ?_, h.jmpbuf, ?_, ?_⟩
  · simp only [hmain, hshown]
  · simp only [halrm]
    exact h.alarms
  · intro g hg
    rw [hafter] at hg
    rcases List.mem_cons.mp hg with rfl | hg
    · exact hplace.1.trans hsig.symm
    · exact h.places g (by rw [hframes]; exact List.mem_cons_of_mem _ hg)
  · intro i hi
    cases i with
    | usr1 =>
        exact ⟨{ f with place := place }, by rw [hafter]; exact List.mem_cons_self, hsig, hcall hi⟩
    | alrm =>
        simp only [halrm] at hi
        obtain ⟨g, hg, hgsig, hgcall⟩ := h.calls .alrm hi
        rw [hframes] at hg
        rcases List.mem_cons.mp hg with rfl | hg
        · rw [hsig] at hgsig
          cases hgsig
        · exact ⟨g, by rw [hafter]; exact List.mem_cons_of_mem _ hg, hgsig, hgcall⟩
  · simp only [hmain]
    exact h.mainCalls
  · intro hnone
    have hnot := hnone { f with place := place } (by rw [hafter]; exact List.mem_cons_self)
    rw [hplace.2] at hnot
    cases hnot
  · intro g hg hg'
    rw [hafter] at hg
    rcases List.mem_cons.mp hg with rfl | hg
    · exact hfits
    · rw [hinactive g hg] at hg'
      cases hg'

/-- What was printed before a call by `sig_usr1`. -/
theorem Invariant.text_eq
    (h : Invariant others mask now s stage)
    (hf : f ∈ s.proc.frames)
    (hactive : f.place.isActive = true)
    (hleft : s.left (.handler .usr1) = []) :
    programText s.out = called others mask now stage := by
  have hshown := h.shown
  rwa [h.left_main hf hactive, hleft, List.append_nil, List.append_nil] at hshown

/-- `sig_usr1` goes on without a call. -/
theorem Invariant.quiet
    {place : Place}
    (h : Invariant others mask now s stage)
    (canjump : Bool)
    (hframes : s.proc.frames = f :: frames)
    (hsig : f.sig = .usr1)
    (hleft : s.left (.handler .usr1) = [])
    (hplace : place.sig = .usr1 ∧ place.isActive = true)
    (hfits : Fits now { s with canjump := canjump } stage { f with place := place }) :
    Invariant others mask now
      { s with canjump := canjump, proc := s.proc.proceed place } stage :=
  h.proceed canjump hframes hsig h.blocks h.shown (fun _ _ => rfl) (absurd hleft) hplace hfits

/-- `sig_usr1` calls `pr_mask`. -/
theorem Invariant.callUsr1
    {place : Place} {str : String} {now' : Sig → Bool} {stage' : Stage}
    (h : Invariant others mask now s stage)
    (hframes : s.proc.frames = f :: frames)
    (hsig : f.sig = .usr1)
    (hactive : f.place.isActive = true)
    (hleft : s.left (.handler .usr1) = [])
    (hcalled : called others mask now stage ++ prMask others str s.proc.mask =
      called others mask now' stage')
    (hblocks : Blocks mask now' .usr1)
    (hcall : place.inCall = true)
    (hplace : place.sig = .usr1)
    (hfits : Fits now' s stage' { f with place := place }) :
    Invariant others mask now' ((s.call others str).proceed place) stage' := by
  have htop := mem_of_top hframes
  have hwriter : s.writer = .handler .usr1 := by rw [writer_of_top hframes, hsig]
  refine h.proceed s.canjump hframes hsig hblocks ?_ (fun w => call_left_of_ne hwriter)
    (fun _ => hcall) ⟨hplace, isActive_of_inCall hcall hplace⟩ hfits
  rw [call_left_self hwriter, h.left_main htop hactive, List.append_nil,
    h.text_eq htop hactive hleft, hcalled]

theorem Invariant.siglongjmp
    (h : Invariant others mask now s stage)
    (hframes : s.proc.frames = f :: frames)
    (hplace : f.place = .siglongjmp)
    (hleft : s.left (.handler .usr1) = [])
    (hstep : s.siglongjmp = some s') :
    Invariant others mask now s' .finished := by
  obtain ⟨saved, hsaved, rfl⟩ := Option.map_eq_some_iff.mp hstep
  have htop := mem_of_top hframes
  have hactive : f.place.isActive = true := by
    rw [hplace]
    rfl
  have hfits := h.active f htop hactive
  simp only [Fits, hplace] at hfits
  obtain ⟨hpc, hcanjump, rfl⟩ := hfits
  obtain rfl : saved = mask := Option.some.inj (hsaved.symm.trans (h.jmpbuf (Or.inr hpc)))
  have hentered : ∀ g ∈ (s.proc.jump entry sigs saved).frames, g.place = entry g.sig := by
    intro g hg
    obtain ⟨new, hnew, hentry⟩ := entered_jump entry sigs s.proc saved
    rw [hnew, List.append_nil] at hg
    exact hentry g hg
  have halarms := h.alarms
  rw [hpc] at halarms
  refine ⟨sound_jump mem_sigs _ _, h.blocks, ?_, halarms.jump, ?_, ?_, ?_, ?_,
    fun _ => ⟨hcanjump, rfl⟩, ?_⟩
  · simp [h.text_eq htop hactive hleft]
  · intro g hg
    rw [hentered g hg]
    exact (entry_spec g.sig).1
  · simp
  · simp
  · simp
  · intro g hg hentry
    rw [hentered g hg, (entry_spec g.sig).2] at hentry
    cases hentry

/-- `sig_alrm` calls `pr_mask`. -/
theorem Invariant.callAlrm
    (h : Invariant others mask now s stage)
    (hframes : s.proc.frames = f :: frames)
    (hplace : f.place = .inAlrm)
    (hsig : f.sig = .alrm)
    (hleft : s.left (.handler .alrm) = []) :
    Invariant others mask now ((s.call others "in sig_alrm: ").proceed .leave) stage := by
  have hafter : (s.proc.proceed .leave).frames = { f with place := .leave } :: frames := by
    simp [Process.proceed, hframes]
  have hproceeds : Invariant others mask now (s.proceed .leave) stage := by
    refine h.change (h.sound.proceed .leave) ?_ ?_
    · intro g hg
      rw [hafter] at hg
      rcases List.mem_cons.mp hg with rfl | hg
      · exact Or.inr ⟨hsig.symm, rfl⟩
      · rw [hframes]
        exact Or.inl (List.mem_cons_of_mem _ hg)
    · intro g hg hbusy
      rw [hframes] at hg
      rw [hafter]
      rcases List.mem_cons.mp hg with rfl | hg
      · rw [hplace, hsig] at hbusy
        simp [Place.isActive, hleft] at hbusy
      · exact List.mem_cons_of_mem _ hg
  have hblocks := h.blocks_of_top hframes
  rw [hsig] at hblocks
  have hwriter : s.writer = .handler .alrm := by rw [writer_of_top hframes, hsig]
  have hself : (s.call others "in sig_alrm: ").left (.handler .alrm) =
      prMask others "in sig_alrm: " s.proc.mask := call_left_self hwriter
  have hothers : ∀ w, w ≠ .handler .alrm → (s.call others "in sig_alrm: ").left w = s.left w :=
    fun w => call_left_of_ne hwriter
  have halarms := h.alarms
  rw [hleft] at halarms
  refine ⟨hproceeds.sound, h.blocks, ?_, ?_, hproceeds.places, ?_, ?_, h.jmpbuf,
    hproceeds.rest, hproceeds.active⟩
  · simp only [State.proceed, hothers .main (by simp), hothers (.handler .usr1) (by simp)]
    exact h.shown
  · simp only [State.proceed, hself]
    exact halarms.starts hblocks
  · intro i hi
    cases i with
    | usr1 =>
        simp only [State.proceed, hothers (.handler .usr1) (by simp)] at hi
        exact hproceeds.calls .usr1 hi
    | alrm =>
        exact ⟨{ f with place := .leave }, by
          rw [State.proceed, State.call, hafter]
          exact List.mem_cons_self, hsig, rfl⟩
  · simp only [State.proceed, hothers .main (by simp)]
    exact h.mainCalls

/-- `sig_usr1` is entered for the first time after `canjump` was set. -/
theorem Invariant.check
    (h : Invariant others mask now s stage)
    (hframes : s.proc.frames = f :: frames)
    (hplace : f.place = .check)
    (hsig : f.sig = .usr1)
    (hleft : s.left (.handler .usr1) = [])
    (hcanjump : s.canjump = true) :
    Invariant others mask now (s.proceed .starting) .started := by
  have hrest : Rest s stage := by
    apply h.rest
    intro g hg
    rw [hframes] at hg
    rcases List.mem_cons.mp hg with rfl | hg
    · rw [hplace]
      rfl
    · exact h.inactive_of_top hframes hsig g hg
  have hpc : s.pc = .pausing := by
    rw [hrest.canjump_eq] at hcanjump
    exact of_decide_eq_true hcanjump
  obtain rfl : stage = .started := by
    rw [hrest.stage_eq, hpc]
    rfl
  exact h.quiet s.canjump hframes hsig hleft ⟨rfl, rfl⟩ ⟨hpc, hcanjump, rfl⟩

theorem Invariant.handlerStep
    (h : Invariant others mask now s stage)
    (hframes : s.proc.frames = f :: frames)
    (hleft : s.left (.handler f.sig) = [])
    (hstep : handlerStep others s f.place = some s') :
    ∃ now' stage', Invariant others mask now' s' stage' := by
  have htop := mem_of_top hframes
  have hsig := h.places f htop
  have hfits := h.active f htop
  have hblocks := h.blocks_of_top hframes
  have hmask := (hframes ▸ h.sound.nested).mask_eq
  have hown := hleft
  rw [← hsig] at hown hblocks hmask
  cases hplace : f.place with
  | check =>
      rw [hplace] at hstep hsig hown
      simp only [SigJmp.handlerStep] at hstep
      split_ifs at hstep with hcanjump
      · exact ⟨now, stage, h.sigreturn hframes hleft (by rw [hplace]; rfl) hstep⟩
      · cases hstep
        exact ⟨now, _, h.check hframes hplace hsig.symm hown (Bool.of_not_eq_false hcanjump)⟩
  | starting =>
      rw [hplace] at hstep hsig hown hblocks hmask
      simp only [hplace, Fits] at hfits
      obtain ⟨hpc, hcan, rfl⟩ := hfits rfl
      cases hstep
      refine ⟨s.proc.mask, .inUsr1, h.callUsr1 hframes hsig.symm (by rw [hplace]; rfl) hown ?_
        hblocks rfl rfl ⟨hpc, rfl, hmask⟩⟩
      simp [called, program, Stage.calls]
  | waiting =>
      rw [hplace] at hstep hsig hown
      simp only [hplace, Fits] at hfits
      obtain ⟨hpc, rfl, hnow⟩ := hfits rfl
      cases hstep
      exact ⟨now, _, h.quiet s.canjump hframes hsig.symm hown ⟨rfl, rfl⟩ ⟨hpc, rfl, hnow⟩⟩
  | finishing =>
      rw [hplace] at hstep hsig hown hmask
      simp only [hplace, Fits] at hfits
      obtain ⟨hpc, rfl, hnow⟩ := hfits rfl
      cases hstep
      refine ⟨now, .finished, h.callUsr1 hframes hsig.symm (by rw [hplace]; rfl) hown ?_
        h.blocks rfl rfl ⟨hpc, rfl⟩⟩
      have hsame : s.proc.mask = now := hmask.trans hnow.symm
      simp [hsame, called, program, Stage.calls]
  | clear =>
      rw [hplace] at hstep hsig hown
      simp only [hplace, Fits] at hfits
      obtain ⟨hpc, rfl⟩ := hfits rfl
      cases hstep
      exact ⟨now, _, h.quiet false hframes hsig.symm hown ⟨rfl, rfl⟩ ⟨hpc, rfl, rfl⟩⟩
  | siglongjmp =>
      rw [hplace] at hstep hown
      exact ⟨now, _, h.siglongjmp hframes hplace hown hstep⟩
  | inAlrm =>
      rw [hplace] at hstep hsig hown
      cases hstep
      exact ⟨now, stage, h.callAlrm hframes hplace hsig.symm hown⟩
  | leave =>
      rw [hplace] at hstep
      exact ⟨now, stage, h.sigreturn hframes hleft (by rw [hplace]; rfl) hstep⟩

/-- In `main` there are no handlers. -/
theorem invariant_of_main
    (hsound : Sound mask s.proc)
    (hframes : s.proc.frames = [])
    (hblocks : Blocks mask now .usr1)
    (hidle : ∀ i, s.left (.handler i) = [])
    (hshown : programText s.out ++ s.left .main = called others mask now stage)
    (halarms : Shown others mask s.pc.hasJumped [] (alarmText s.out))
    (hcalls : s.left .main ≠ [] → s.pc = .sigsetjmp ∨ s.pc = .exiting)
    (hjmpbuf : s.pc = .setCanjump ∨ s.pc = .pausing → s.jmpbuf = some mask)
    (hrest : Rest s stage) :
    Invariant others mask now s stage := by
  refine ⟨hsound, hblocks, ?_, ?_, ?_, ?_, hcalls, hjmpbuf, fun _ => hrest, ?_⟩
  · rw [hidle, List.append_nil, hshown]
  · rw [hidle]
    exact halarms
  · simp [hframes]
  · intro i hi
    exact absurd (hidle i) hi
  · simp [hframes]

/-- `main` goes on without a call of `pr_mask`. -/
theorem Invariant.mainQuiet
    (h : Invariant others mask now s stage)
    (hframes : s.proc.frames = [])
    (hleft : s.left .main = [])
    {pc : Pc} {jmpbuf : Option (Sig → Bool)} {canjump : Bool}
    (hjumped : pc.hasJumped = s.pc.hasJumped)
    (hjmpbuf : pc = .setCanjump ∨ pc = .pausing → jmpbuf = some mask)
    (hrest : Rest { s with pc := pc, jmpbuf := jmpbuf, canjump := canjump } stage) :
    Invariant others mask now
      { s with pc := pc, jmpbuf := jmpbuf, canjump := canjump } stage := by
  refine ⟨h.sound, h.blocks, h.shown, ?_, h.places, h.calls, absurd hleft, hjmpbuf,
    fun _ => hrest, ?_⟩
  · simp only [hjumped]
    exact h.alarms
  · simp [hframes]

/-- `main` calls `pr_mask`. -/
theorem Invariant.mainCall
    (h : Invariant others mask now s stage)
    (hframes : s.proc.frames = [])
    (hleft : s.left .main = [])
    {pc : Pc} {str : String} {stage' : Stage}
    (hpc : pc = .sigsetjmp ∨ pc = .exiting)
    (hjumped : pc.hasJumped = s.pc.hasJumped)
    (hcalled : called others mask now stage ++ prMask others str mask =
      called others mask now stage')
    (hrest : Rest { s with pc := pc } stage') :
    Invariant others mask now ((s.call others str).goto pc) stage' := by
  have hidle : ∀ i, s.left (.handler i) = [] := by
    intro i
    by_contra hi
    obtain ⟨f, hf, -⟩ := h.calls i hi
    rw [hframes] at hf
    cases hf
  have hshown := h.shown
  have halarms := h.alarms
  rw [hleft, hidle, List.append_nil, List.append_nil] at hshown
  rw [hidle, ← hjumped] at halarms
  have hmask : s.proc.mask = mask := (hframes ▸ h.sound.nested).eq_base
  have hwriter := writer_of_main hframes
  refine invariant_of_main h.sound hframes h.blocks ?_ ?_ halarms (fun _ => hpc) ?_ hrest
  · intro i
    exact (call_left_of_ne hwriter (by simp)).trans (hidle i)
  · simp only [State.goto, call_left_self hwriter, hmask]
    exact (congrArg (· ++ _) hshown).trans hcalled
  · rcases hpc with rfl | rfl <;> simp [State.goto]

theorem Invariant.mainStep
    (h : Invariant others mask now s stage)
    (hframes : s.proc.frames = [])
    (hleft : s.left .main = [])
    (hstep : mainStep others s = some s') :
    ∃ stage', Invariant others mask now s' stage' := by
  have hrest := h.rest (by simp [hframes])
  have hmask : s.proc.mask = mask := (hframes ▸ h.sound.nested).eq_base
  have hstage := hrest.stage_eq
  have hcan := hrest.canjump_eq
  unfold SigJmp.mainStep at hstep
  split at hstep
  case h_1 hpc =>
      cases hstep
      rw [hpc] at hstage hcan
      subst hstage
      exact ⟨_, h.mainQuiet hframes hleft (by rw [hpc]; rfl) (by simp) ⟨hcan, by simp⟩⟩
  case h_2 hpc =>
      cases hstep
      rw [hpc] at hstage hcan
      subst hstage
      exact ⟨_, h.mainQuiet hframes hleft (by rw [hpc]; rfl) (by simp) ⟨hcan, by simp⟩⟩
  case h_3 hpc =>
      cases hstep
      rw [hpc] at hstage hcan
      subst hstage
      exact ⟨.started, h.mainCall hframes hleft (Or.inl rfl) (by rw [hpc]; rfl)
        (by simp [called, program, Stage.calls, Pc.stageAt]) (Or.inl ⟨hcan, Or.inl rfl⟩)⟩
  case h_4 hpc =>
      cases hstep
      rw [hpc] at hstage hcan
      subst hstage
      exact ⟨_, h.mainQuiet hframes hleft (by rw [hpc]; rfl) (fun _ => congrArg some hmask)
        (Or.inl ⟨hcan, by simp⟩)⟩
  case h_5 hpc =>
      cases hstep
      rw [hpc] at hstage
      subst hstage
      exact ⟨_, h.mainQuiet hframes hleft (by rw [hpc]; rfl) (fun _ => h.jmpbuf (Or.inl hpc))
        (Or.inr ⟨rfl, rfl⟩)⟩
  case h_6 => cases hstep
  case h_7 hpc =>
      cases hstep
      rw [hpc] at hstage hcan
      subst hstage
      exact ⟨.ended, h.mainCall hframes hleft (Or.inr rfl) (by rw [hpc]; rfl)
        (by simp [called, program, Stage.calls, Pc.stageAt]) ⟨hcan, Or.inl rfl⟩⟩
  case h_8 hpc =>
      cases hstep
      rw [hpc] at hstage hcan
      subst hstage
      exact ⟨_, h.mainQuiet hframes hleft (by rw [hpc]; rfl) (by simp) ⟨hcan, Or.inr rfl⟩⟩
  case h_9 => cases hstep
  case h_10 => cases hstep

/-- A piece is printed by the one who runs. -/
theorem Invariant.texts_printf
    {str : String} {rest : List String}
    (h : Invariant others mask now s stage)
    (hleft : s.left s.writer = str :: rest) :
    programText (s.printf str rest).out ++ (s.printf str rest).left .main ++
        (s.printf str rest).left (.handler .usr1) = called others mask now stage ∧
      Shown others mask s.pc.hasJumped ((s.printf str rest).left (.handler .alrm))
        (alarmText (s.printf str rest).out) := by
  have hshown := h.shown
  have halarms := h.alarms
  simp only [State.printf]
  cases hframes : s.proc.frames with
  | nil =>
      have hidle := h.left_usr1 (by simp [hframes])
      rw [writer_of_main hframes] at hleft ⊢
      rw [hleft] at hshown
      rw [programText_append _ (by simp), alarmText_append _ (by simp)]
      refine ⟨?_, by simpa using halarms⟩
      simpa [hidle] using hshown
  | cons f frames =>
      rw [writer_of_top hframes] at hleft ⊢
      cases hsig : f.sig with
      | usr1 =>
          rw [hsig] at hleft
          obtain ⟨g, hg, hgsig, hcall⟩ := h.calls .usr1 (by simp [hleft])
          have hmain := h.left_main hg
            (isActive_of_inCall hcall ((h.places g hg).trans hgsig))
          rw [hleft] at hshown
          rw [programText_append _ (by simp), alarmText_append _ (by simp)]
          refine ⟨?_, by simpa using halarms⟩
          simpa [hmain] using hshown
      | alrm =>
          rw [hsig] at hleft
          rw [hleft] at halarms
          rw [programText_append_alrm, alarmText_append_alrm]
          refine ⟨by simpa using hshown, ?_⟩
          simpa using halarms.piece

theorem Invariant.printf
    {str : String} {rest : List String}
    (h : Invariant others mask now s stage)
    (hleft : s.left s.writer = str :: rest) :
    Invariant others mask now (s.printf str rest) stage := by
  have hsub : ∀ w, (s.printf str rest).left w ≠ [] → s.left w ≠ [] := by
    intro w hw
    simp only [State.printf, Function.update_apply] at hw
    split_ifs at hw with heq
    · rw [heq, hleft]
      exact List.cons_ne_nil _ _
    · exact hw
  obtain ⟨hshown, halarms⟩ := h.texts_printf hleft
  exact ⟨h.sound, h.blocks, hshown, halarms, h.places, fun i hi => h.calls i (hsub _ hi),
    fun hi => h.mainCalls (hsub _ hi), h.jmpbuf, h.rest, h.active⟩

theorem Invariant.goesOn
    (h : Invariant others mask now s stage)
    (hstep : s.goesOn others = some s') :
    ∃ now' stage', Invariant others mask now' s' stage' := by
  unfold State.goesOn at hstep
  split at hstep
  case h_1 str rest hleft =>
      cases hstep
      exact ⟨now, stage, h.printf hleft⟩
  case h_2 hleft =>
      split at hstep
      case h_1 hframes =>
          rw [writer_of_main hframes] at hleft
          exact ⟨now, h.mainStep hframes hleft hstep⟩
      case h_2 f frames hframes =>
          rw [writer_of_top hframes] at hleft
          exact h.handlerStep hframes hleft hstep

/-- A signal before its handler is there. -/
theorem Invariant.killed
    {i : Sig}
    (h : Invariant others mask now s stage)
    (hmissing : s.pc.installed i = false) :
    Invariant others mask now (s.goto .killed) stage := by
  have hpc : s.pc = .signalUsr1 ∨ s.pc = .signalAlrm := by
    cases hpc : s.pc <;> simp_all [Pc.installed]
  have hnone := h.inactive_of_pc (by rcases hpc with hpc | hpc <;> simp [hpc])
  have hrest := h.rest hnone
  obtain rfl : stage = .nothing := by
    rw [hrest.stage_eq]
    rcases hpc with hpc | hpc <;> rw [hpc] <;> rfl
  have hcan : s.canjump = false := by
    rw [hrest.canjump_eq]
    rcases hpc with hpc | hpc <;> rw [hpc] <;> rfl
  have hjumped : s.pc.hasJumped = false := by
    rcases hpc with hpc | hpc <;> rw [hpc] <;> rfl
  have halarms := h.alarms
  rw [hjumped] at halarms
  refine ⟨h.sound, h.blocks, h.shown, halarms, h.places, h.calls, ?_, by simp [State.goto],
    fun _ => ⟨hcan, by simp [State.goto]⟩, ?_⟩
  · intro hleft
    rcases h.mainCalls hleft with hcalls | hcalls <;> simp [hcalls] at hpc
  · intro f hf hactive
    rw [hnone f hf] at hactive
    cases hactive

theorem Invariant.step
    (h : Invariant others mask now s stage)
    (hstep : step others s l = some s') :
    ∃ now' stage', Invariant others mask now' s' stage' := by
  obtain ⟨hlive, hstep⟩ := Option.ite_none_right_eq_some.mp hstep
  cases l with
  | run => exact h.goesOn hstep
  | raise i =>
      simp only at hstep
      split_ifs at hstep with hinstalled
      · cases hstep
        exact ⟨now, stage, h.raise i⟩
      · cases hstep
        exact ⟨now, stage, h.killed (i := i) (by simpa using (not_or.mp hinstalled).1)⟩

end Invariant

section Result

variable {others : Others} {mask pending now : Sig → Bool} {s : State} {stage : Stage}

/-- A handler can always go on; for the jump there is a buffer. -/
theorem Invariant.goes_on
    (h : Invariant others mask now s stage)
    (hlive : s.pc.isLive = true)
    (hframes : s.proc.frames ≠ []) :
    SigJmp.step others s .run ≠ none := by
  obtain ⟨f, frames, hcons⟩ := List.exists_cons_of_ne_nil hframes
  have hreturn : s.sigreturn ≠ none := by
    simp [State.sigreturn, Process.sigreturn, hcons]
  simp only [SigJmp.step, hlive, ↓reduceIte, State.goesOn]
  cases hleft : s.left s.writer with
  | cons str rest => simp
  | nil =>
      simp only [hcons]
      cases hplace : f.place with
      | check =>
          simp only [SigJmp.handlerStep]
          split_ifs
          · exact hreturn
          · simp
      | siglongjmp =>
          have hfits := h.active f (mem_of_top hcons) (by rw [hplace]; rfl)
          simp [SigJmp.handlerStep, State.siglongjmp, h.jmpbuf (Or.inr hfits.1)]
      | leave => exact hreturn
      | _ => simp [SigJmp.handlerStep]

theorem Invariant.exited
    (h : Invariant others mask now s stage)
    (hpc : s.pc = .exited) :
    programText s.out = (program others mask now).flatten := by
  have hnone := h.inactive_of_pc (by simp [hpc])
  have hmain : s.left .main = [] := by
    by_contra hleft
    have hcalls := h.mainCalls hleft
    rw [hpc] at hcalls
    simp at hcalls
  obtain rfl : stage = .ended := by
    rw [(h.rest hnone).stage_eq, hpc]
    rfl
  have hshown := h.shown
  rwa [hmain, h.left_usr1 hnone, List.append_nil, List.append_nil] at hshown

/--
In every run, whenever the two signals come: `main` and `sig_usr1` have printed a beginning of
the lines of the program, and all of them when it has come to its end; `sig_alrm` has printed
line after line but for the one that the jump cuts, and has nothing left to print when it is not
on the stack.  The handlers never get stuck.
-/
theorem masks_shown
    {ls : List Label}
    (hsettled : ∀ i, pending i = true → mask i = true)
    (hrun : run (step others) (.start mask pending) ls = some s) :
    (∃ now, Blocks mask now .usr1 ∧
      programText s.out <+: (program others mask now).flatten ∧
      (s.pc = .exited → programText s.out = (program others mask now).flatten)) ∧
    Shown others mask s.pc.hasJumped (s.left (.handler .alrm)) (alarmText s.out) ∧
    ((∀ f ∈ s.proc.frames, f.sig ≠ .alrm) → s.left (.handler .alrm) = []) ∧
    (s.pc.isLive = true → s.proc.frames ≠ [] → step others s .run ≠ none) := by
  obtain ⟨now, stage, h⟩ : ∃ now stage, Invariant others mask now s stage :=
    run_invariant (P := fun s => ∃ now stage, Invariant others mask now s stage)
      (fun _ _ _ ⟨_, _, h⟩ hstep => h.step hstep) ⟨_, .nothing, invariant_start hsettled⟩ hrun
  refine ⟨⟨now, h.blocks, ?_, h.exited⟩, h.alarms, ?_, h.goes_on⟩
  · refine List.IsPrefix.trans ?_ (called_prefix_flatten others mask now stage)
    rw [← h.shown, List.append_assoc]
    exact List.prefix_append _ _
  · intro hnone
    by_contra hleft
    obtain ⟨f, hf, hsig, -⟩ := h.calls .alrm hleft
    exact hnone f hf hsig

/--
SIGUSR1 comes once too early.  SIGALRM comes while `main` waits, and SIGUSR1 inside of its line,
which stays unfinished; SIGALRM comes again inside of the last line.
-/
def splitLines : List Label :=
  [.run, .raise .usr1, .run, .run, .run, .run, .run, .run, .run, .raise .alrm, .run, .run,
    .raise .usr1, .run, .run, .run, .run, .run, .run, .run, .run, .run, .run, .run, .run, .run,
    .run, .run, .run, .raise .alrm, .run, .run, .run, .run, .run, .run, .run]

def splitText : List String :=
  ["starting main: ", "
", "in sig_alrm: ",
    "starting sig_usr1: ", " SIGUSER1", " SIGALRM", "
",
    "finishing sig_usr1: ", " SIGUSER1", " SIGALRM", "
",
    "ending main: ", "in sig_alrm: ", " SIGALRM", "
", "
"]

theorem masks_shown_splitLines :
    ∃ s,
      run (step ⟨false, false⟩) (.start (fun _ => false) (fun _ => false)) splitLines = some s ∧
      s.pc = .exited ∧
      s.out.map Prod.snd = splitText ∧
      (∃ now, Blocks (fun _ => false) now .usr1 ∧
        programText s.out = (program ⟨false, false⟩ (fun _ => false) now).flatten) ∧
      Shown ⟨false, false⟩ (fun _ => false) true (s.left (.handler .alrm)) (alarmText s.out) := by
  have hout : (run (step ⟨false, false⟩) (.start (fun _ => false) (fun _ => false)) splitLines).map
      (fun s => (s.pc, s.out.map Prod.snd)) = some (.exited, splitText) := by
    decide +kernel
  obtain ⟨s, hrun, heq⟩ := Option.map_eq_some_iff.mp hout
  obtain ⟨hpc, htext⟩ := Prod.mk.inj heq
  obtain ⟨⟨now, hblocks, -, hexited⟩, halarms, -⟩ := masks_shown (by simp) hrun
  rw [hpc] at halarms
  exact ⟨s, hrun, hpc, htext, ⟨now, hblocks, hexited hpc⟩, halarms⟩

end Result

end SigJmp
end Alarms
end SysProg
