import Mathlib.Tactic

/-!
# Replaying labelled runs

A program with its environment is presented as a guarded step function
`step : σ → ε → Option σ`: the label carries what the environment answers
(results of system calls, arrivals, the passing of time), and `none` means
that the environment cannot give that answer in that state.

A run is the replay of a list of labels.  Besides the replay this module fixes
the two ways in which later modules speak about all steps of a run:

* `Along step G s es`: every step of the replay of `es` from `s` satisfies `G`,
  read in the state before the step;
* the invariant rules `run_invariant` and `run_invariant_along`, which lift a
  one-step fact to whole runs, and `good_or_bad`, which makes the end of a run tell whether
  all of its steps met a condition.

A loop that the environment does not steer is the case of one label, `turn`; it ends
when its turns lower a measure (`exists_ends`), and `Reaches` says that it comes to a given
kind of state.
-/

namespace SysProg
namespace Run

universe u v w

section Replay

variable {σ : Type u} {τ : Type w}
variable {ε : Type v}

/-- Replay a list of labels; a disabled label stops the replay. -/
def run (step : σ → ε → Option σ) : σ → List ε → Option σ
  | s, [] => some s
  | s, e :: es => (step s e).bind (fun t => run step t es)

/-- Every step of the replay satisfies `G` in the state before the step. -/
def Along
    (step : σ → ε → Option σ)
    (G : σ → ε → Prop) :
    σ → List ε → Prop
  | _, [] => True
  | s, e :: es =>
      G s e ∧
        match step s e with
        | none => True
        | some t => Along step G t es

/-- Whether a run meets a decidable condition can be computed. -/
instance decidableAlong
    (step : σ → ε → Option σ)
    (G : σ → ε → Prop)
    [∀ s e, Decidable (G s e)] :
    (s : σ) → (es : List ε) → Decidable (Along step G s es)
  | _, [] => .isTrue trivial
  | s, e :: es =>
      have tail :
          Decidable
            (match step s e with
            | none => True
            | some t => Along step G t es) :=
        match step s e with
        | none => .isTrue trivial
        | some t => decidableAlong step G t es
      @instDecidableAnd (G s e) _ _ tail

variable {step : σ → ε → Option σ}

@[simp] theorem run_nil
    (s : σ) :
    run step s [] = some s := by
  rfl

@[simp] theorem run_cons
    (s : σ) (e : ε) (es : List ε) :
    run step s (e :: es) =
      (step s e).bind (fun t => run step t es) := by
  rfl

/-- Peel the first step from a replay that reaches a state. -/
theorem run_cons_success
    {s t : σ} {e : ε} {es : List ε}
    (hrun : run step s (e :: es) = some t) :
    ∃ m : σ,
      step s e = some m ∧
      run step m es = some t := by
  rw [run_cons] at hrun
  cases hstep : step s e with
  | none =>
      simp [hstep] at hrun
  | some m =>
      refine ⟨m, rfl, ?_⟩
      simpa [hstep] using hrun

theorem run_append
    (s : σ) (es fs : List ε) :
    run step s (es ++ fs) =
      (run step s es).bind (fun t => run step t fs) := by
  induction es generalizing s with
  | nil =>
      simp
  | cons e es ih =>
      cases hstep : step s e with
      | none =>
          simp [hstep]
      | some m =>
          simp [hstep, ih]

/-- An invariant of every step is an invariant of every run. -/
theorem run_invariant
    {P : σ → Prop}
    (hstep : ∀ s e t, P s → step s e = some t → P t)
    {s t : σ} {es : List ε}
    (hs : P s)
    (hrun : run step s es = some t) :
    P t := by
  induction es generalizing s with
  | nil =>
      simp only [run_nil, Option.some.injEq] at hrun
      subst hrun
      exact hs
  | cons e es ih =>
      obtain ⟨m, hm, hrest⟩ := run_cons_success hrun
      exact ih (hstep s e m hs hm) hrest

/-- An invariant of the steps that satisfy `G` holds along runs made of them. -/
theorem run_invariant_along
    {P : σ → Prop} {G : σ → ε → Prop}
    (hstep : ∀ s e t, P s → G s e → step s e = some t → P t)
    {s t : σ} {es : List ε}
    (hs : P s)
    (hG : Along step G s es)
    (hrun : run step s es = some t) :
    P t := by
  induction es generalizing s with
  | nil =>
      simp only [run_nil, Option.some.injEq] at hrun
      subst hrun
      exact hs
  | cons e es ih =>
      obtain ⟨m, hm, hrest⟩ := run_cons_success hrun
      obtain ⟨hGe, hGrest⟩ := hG
      rw [hm] at hGrest
      exact ih (hstep s e m hs hGe hm) hGrest hrest

/--
What an invariant gives at every step holds along the whole run.  The
invariant may rely on the condition `G` of the run, and so may the conclusion.
-/
theorem along_of_invariant
    {P : σ → Prop} {G Q : σ → ε → Prop}
    (hstep : ∀ s e t, P s → G s e → step s e = some t → P t)
    (hQ : ∀ s e, P s → G s e → Q s e)
    {s : σ} {es : List ε}
    (hs : P s)
    (hG : Along step G s es) :
    Along step Q s es := by
  induction es generalizing s with
  | nil =>
      trivial
  | cons e es ih =>
      obtain ⟨hGe, hGrest⟩ := hG
      refine ⟨hQ s e hs hGe, ?_⟩
      cases hm : step s e with
      | none =>
          trivial
      | some t =>
          rw [hm] at hGrest
          exact ih (hstep s e t hs hGe hm) hGrest

/-- A condition on labels alone holds along every run made of such labels. -/
theorem along_of_forall_mem
    {G : ε → Prop}
    {es : List ε}
    (h : ∀ e ∈ es, G e)
    (s : σ) :
    Along step (fun _ e => G e) s es := by
  induction es generalizing s with
  | nil =>
      trivial
  | cons e es ih =>
      refine ⟨h e (by simp), ?_⟩
      cases step s e with
      | none =>
          trivial
      | some t =>
          exact ih (fun f hf => h f (List.mem_cons_of_mem e hf)) t

theorem along_of_append
    {G : σ → ε → Prop}
    {s : σ} {es fs : List ε}
    (h : Along step G s (es ++ fs)) :
    Along step G s es := by
  induction es generalizing s with
  | nil =>
      trivial
  | cons e es ih =>
      obtain ⟨hG, hrest⟩ := h
      refine ⟨hG, ?_⟩
      cases hm : step s e with
      | none =>
          trivial
      | some t =>
          rw [hm] at hrest
          exact ih hrest

/-- Behind a replayed part, the rest meets the condition too. -/
theorem along_suffix
    {G : σ → ε → Prop}
    {s m : σ} {es fs : List ε}
    (h : Along step G s (es ++ fs))
    (hrun : run step s es = some m) :
    Along step G m fs := by
  induction es generalizing s with
  | nil =>
      simp only [run_nil, Option.some.injEq] at hrun
      subst hrun
      exact h
  | cons e es ih =>
      obtain ⟨t, ht, hrest⟩ := run_cons_success hrun
      have htail := h.2
      rw [ht] at htail
      exact ih htail hrest

theorem along_and
    {G H : σ → ε → Prop}
    {s : σ} {es : List ε}
    (hG : Along step G s es)
    (hH : Along step H s es) :
    Along step (fun s e => G s e ∧ H s e) s es := by
  induction es generalizing s with
  | nil =>
      trivial
  | cons e es ih =>
      refine ⟨⟨hG.1, hH.1⟩, ?_⟩
      have hGtail := hG.2
      have hHtail := hH.2
      cases hm : step s e with
      | none =>
          trivial
      | some t =>
          rw [hm] at hGtail hHtail
          exact ih hGtail hHtail

/-- A run that reaches a state meets a condition or has a step that breaks it. -/
theorem along_or_break
    (G : σ → ε → Prop)
    {s t : σ} {es : List ε}
    (hrun : run step s es = some t) :
    Along step G s es ∨
    ∃ (before : List ε) (e : ε) (after : List ε) (m m' : σ),
      es = before ++ e :: after ∧
      run step s before = some m ∧
      ¬ G m e ∧
      step m e = some m' ∧
      run step m' after = some t := by
  induction es generalizing s with
  | nil =>
      exact Or.inl trivial
  | cons e es ih =>
      obtain ⟨m, hm, hrest⟩ := run_cons_success hrun
      by_cases hG : G s e
      · rcases ih hrest with halong | ⟨before, e', after, a, b, heq, hbefore, hbreak⟩
        · left
          refine ⟨hG, ?_⟩
          rw [hm]
          exact halong
        · right
          refine ⟨e :: before, e', after, a, b, by simp [heq], ?_, hbreak⟩
          simp [hm, hbefore]
      · exact Or.inr ⟨[], e, es, s, m, rfl, rfl, hG, hm, hrest⟩

/-- A condition that an invariant gives at each step taken holds along the run. -/
theorem along_of_run
    {P : σ → Prop} {G Q : σ → ε → Prop}
    (hstep : ∀ s e t, P s → G s e → step s e = some t → P t ∧ Q s e)
    {s t : σ} {es : List ε}
    (hs : P s)
    (hG : Along step G s es)
    (hrun : run step s es = some t) :
    Along step Q s es := by
  induction es generalizing s with
  | nil =>
      trivial
  | cons e es ih =>
      obtain ⟨m, hm, hrest⟩ := run_cons_success hrun
      obtain ⟨hGe, hGrest⟩ := hG
      rw [hm] at hGrest
      obtain ⟨hPm, hQe⟩ := hstep s e m hs hGe hm
      refine ⟨hQe, ?_⟩
      rw [hm]
      exact ih hPm hGrest hrest

/-- A state map that commutes with one step commutes with every replay. -/
theorem run_map
    {step' : τ → ε → Option τ}
    (f : σ → τ)
    (hstep : ∀ s e, step' (f s) e = (step s e).map f)
    (s : σ) (es : List ε) :
    run step' (f s) es = (run step s es).map f := by
  induction es generalizing s with
  | nil =>
      simp
  | cons e es ih =>
      rw [run_cons, run_cons, hstep]
      cases step s e with
      | none =>
          rfl
      | some m =>
          simpa using ih m

/-- Step functions that agree along a run replay it in the same way. -/
theorem run_congr_along
    {step' : σ → ε → Option σ}
    {s : σ} {es : List ε}
    (h : Along step (fun s e => step' s e = step s e) s es) :
    run step' s es = run step s es := by
  induction es generalizing s with
  | nil =>
      rfl
  | cons e es ih =>
      rw [run_cons, run_cons, h.1]
      cases hstep : step s e with
      | none =>
          rfl
      | some m =>
          have hrest := h.2
          rw [hstep] at hrest
          exact ih hrest

/-- Under an invariant, two conditions that say the same of a step say the same of a run. -/
theorem along_congr
    {P : σ → Prop} {G Q : σ → ε → Prop}
    (hstep : ∀ s e t, P s → step s e = some t → P t)
    (hiff : ∀ s e, P s → (G s e ↔ Q s e))
    {s : σ}
    (hs : P s)
    (es : List ε) :
    Along step G s es ↔ Along step Q s es :=
  ⟨along_of_invariant (fun s e t hP _ => hstep s e t hP) (fun s e hP => (hiff s e hP).mp) hs,
    along_of_invariant (fun s e t hP _ => hstep s e t hP) (fun s e hP => (hiff s e hP).mpr) hs⟩

/-- A condition that such a map respects is met by both replays or by neither. -/
theorem along_map_iff
    {step' : τ → ε → Option τ}
    {G : σ → ε → Prop} {G' : τ → ε → Prop}
    (f : σ → τ)
    (hstep : ∀ s e, step' (f s) e = (step s e).map f)
    (hG : ∀ s e, G' (f s) e ↔ G s e)
    (s : σ) (es : List ε) :
    Along step' G' (f s) es ↔ Along step G s es := by
  induction es generalizing s with
  | nil =>
      exact Iff.rfl
  | cons e es ih =>
      simp only [Along, hstep, hG]
      cases step s e with
      | none =>
          exact Iff.rfl
      | some m =>
          simp only [Option.map_some, ih m]

/-- Two step functions that keep a relation between their states keep it over runs. -/
theorem run_rel
    {step' : τ → ε → Option τ}
    {R : σ → τ → Prop}
    (hstep : ∀ s a e, R s a → Option.Rel R (step s e) (step' a e))
    {s : σ} {a : τ}
    (hs : R s a)
    (es : List ε) :
    Option.Rel R (run step s es) (run step' a es) := by
  induction es generalizing s a with
  | nil =>
      exact .some hs
  | cons e es ih =>
      rw [run_cons, run_cons]
      have hrel := hstep s a e hs
      generalize step s e = s' at hrel ⊢
      generalize step' a e = a' at hrel ⊢
      cases hrel with
      | some hnext =>
          exact ih hnext
      | none =>
          exact .none

end Replay

section Outputs

variable {σ : Type u} {ε : Type v} {β : Type w}

/-- What the steps of a replay put out, one after the other. -/
def outputs
    (step : σ → ε → Option σ)
    (out : σ → ε → List β) :
    σ → List ε → List β
  | _, [] => []
  | s, e :: es =>
      out s e ++
        match step s e with
        | none => []
        | some t => outputs step out t es

/-- Two outputs of the same length at each step are equal if they are equal at each step. -/
theorem outputs_eq_iff
    {step : σ → ε → Option σ} {out out' : σ → ε → List β}
    (hlength : ∀ s e, (out s e).length = (out' s e).length)
    (s : σ) (es : List ε) :
    outputs step out s es = outputs step out' s es ↔
      Along step (fun s e => out s e = out' s e) s es := by
  induction es generalizing s with
  | nil =>
      exact iff_of_true rfl trivial
  | cons e es ih =>
      have hhead : ∀ xs ys : List β,
          out s e ++ xs = out' s e ++ ys ↔ out s e = out' s e ∧ xs = ys := by
        intro xs ys
        constructor
        · intro heq
          exact List.append_inj heq (hlength s e)
        · rintro ⟨heq, rfl⟩
          rw [heq]
      simp only [outputs, Along, hhead]
      cases step s e with
      | none =>
          simp
      | some t =>
          simp only [ih t]

/-- An invariant of the state and of the output so far. -/
theorem outputs_invariant_along
    {step : σ → ε → Option σ} {out : σ → ε → List β}
    {P : σ → List β → Prop} {G : σ → ε → Prop}
    (hstep : ∀ s e t bs, P s bs → G s e → step s e = some t → P t (bs ++ out s e))
    {s t : σ} {es : List ε} {bs : List β}
    (hs : P s bs)
    (hG : Along step G s es)
    (hrun : run step s es = some t) :
    P t (bs ++ outputs step out s es) := by
  induction es generalizing s bs with
  | nil =>
      simp only [run_nil, Option.some.injEq] at hrun
      subst hrun
      simpa [outputs] using hs
  | cons e es ih =>
      obtain ⟨m, hm, hrest⟩ := run_cons_success hrun
      obtain ⟨hGe, hGrest⟩ := hG
      rw [hm] at hGrest
      have hnext := ih (hstep s e m bs hs hGe hm) hGrest hrest
      simpa [outputs, hm] using hnext

/--
Steps that meet the condition `G` keep the state and the output good, one that breaks it makes
them bad, and what is bad stays so.  Then the end of a run tells whether the run met `G`.  All
steps may be assumed to satisfy `H`.
-/
theorem outputs_good_or_bad
    {step : σ → ε → Option σ} {out : σ → ε → List β}
    {P B : σ → List β → Prop} {H G : σ → ε → Prop}
    (hgood : ∀ s e t bs, P s bs → H s e → G s e → step s e = some t → P t (bs ++ out s e))
    (hbreak : ∀ s e t bs, P s bs → H s e → ¬ G s e → step s e = some t → B t (bs ++ out s e))
    (hbad : ∀ s e t bs, B s bs → H s e → step s e = some t → B t (bs ++ out s e))
    {s t : σ} {es : List ε} {bs : List β}
    (hs : P s bs)
    (hH : Along step H s es)
    (hrun : run step s es = some t) :
    (Along step G s es ∧ P t (bs ++ outputs step out s es)) ∨
      (¬ Along step G s es ∧ B t (bs ++ outputs step out s es)) := by
  induction es generalizing s bs with
  | nil =>
      simp only [run_nil, Option.some.injEq] at hrun
      subst hrun
      exact Or.inl ⟨trivial, by simpa [outputs] using hs⟩
  | cons e es ih =>
      obtain ⟨m, hm, hrest⟩ := run_cons_success hrun
      obtain ⟨hHe, hHrest⟩ := hH
      rw [hm] at hHrest
      have hout : bs ++ outputs step out s (e :: es) =
          bs ++ out s e ++ outputs step out m es := by
        simp [outputs, hm]
      rw [hout]
      by_cases hG : G s e
      · have htail : Along step G s (e :: es) ↔ Along step G m es := by
          simp only [Along, hm, hG, true_and]
        rw [htail]
        exact ih (hgood s e m bs hs hHe hG hm) hHrest hrest
      · right
        refine ⟨fun halong => hG halong.1, ?_⟩
        exact outputs_invariant_along hbad (hbreak s e m bs hs hHe hG hm) hHrest hrest

/-- The same for the states alone. -/
theorem good_or_bad_along
    {step : σ → ε → Option σ} {P B : σ → Prop} {H G : σ → ε → Prop}
    (hgood : ∀ s e t, P s → H s e → G s e → step s e = some t → P t)
    (hbreak : ∀ s e t, P s → H s e → ¬ G s e → step s e = some t → B t)
    (hbad : ∀ s e t, B s → H s e → step s e = some t → B t)
    {s t : σ} {es : List ε}
    (hs : P s)
    (hH : Along step H s es)
    (hrun : run step s es = some t) :
    (Along step G s es ∧ P t) ∨ (¬ Along step G s es ∧ B t) :=
  @outputs_good_or_bad σ ε Unit step (fun _ _ => []) (fun s _ => P s) (fun s _ => B s) H G
    (fun s e t _ => hgood s e t) (fun s e t _ => hbreak s e t) (fun s e t _ => hbad s e t)
    s t es [] hs hH hrun

theorem good_or_bad
    {step : σ → ε → Option σ} {P B : σ → Prop} {G : σ → ε → Prop}
    (hgood : ∀ s e t, P s → G s e → step s e = some t → P t)
    (hbreak : ∀ s e t, P s → ¬ G s e → step s e = some t → B t)
    (hbad : ∀ s e t, B s → step s e = some t → B t)
    {s t : σ} {es : List ε}
    (hs : P s)
    (hrun : run step s es = some t) :
    (Along step G s es ∧ P t) ∨ (¬ Along step G s es ∧ B t) :=
  good_or_bad_along (fun s e t hP _ => hgood s e t hP) (fun s e t hP _ => hbreak s e t hP)
    (fun s e t hB _ => hbad s e t hB) hs
    (along_of_forall_mem (fun _ _ => trivial : ∀ e ∈ es, True) s) hrun

end Outputs

section Loops

variable {σ : Type u}

/-- A loop whose body returns `none` when the loop ends, as a step function. -/
def turn (body : σ → Option σ) (s : σ) (_ : Unit) : Option σ :=
  body s

/-- The loop leaves the state `t` after the turns `es`. -/
def Ends (body : σ → Option σ) (s : σ) (es : List Unit) (t : σ) : Prop :=
  run (turn body) s es = some t ∧ body t = none

/-- A loop whose turns keep an invariant and lower a measure ends, with the invariant. -/
theorem exists_ends
    {body : σ → Option σ} {P : σ → Prop}
    (measure : σ → Nat)
    (hturn : ∀ s t, P s → body s = some t → P t ∧ measure t < measure s)
    {s : σ}
    (hs : P s) :
    ∃ es t, Ends body s es t ∧ P t := by
  induction hm : measure s using Nat.strong_induction_on generalizing s with
  | _ m ih =>
      cases hbody : body s with
      | none =>
          exact ⟨[], s, ⟨rfl, hbody⟩, hs⟩
      | some t =>
          obtain ⟨ht, hlt⟩ := hturn s t hs hbody
          obtain ⟨es, u, ⟨hrun, hend⟩, hu⟩ := ih (measure t) (by omega) ht rfl
          refine ⟨() :: es, u, ⟨?_, hend⟩, hu⟩
          rw [run_cons, turn, hbody]
          exact hrun

/-- The loop comes to a state with `Q` after finitely many turns. -/
def Reaches (body : σ → Option σ) (Q : σ → Prop) (s : σ) : Prop :=
  ∃ es t, run (turn body) s es = some t ∧ Q t

variable {body : σ → Option σ} {Q : σ → Prop}

theorem reaches_now
    {s : σ}
    (hs : Q s) :
    Reaches body Q s :=
  ⟨[], s, rfl, hs⟩

theorem reaches_of_turn
    {s t : σ}
    (hbody : body s = some t)
    (ht : Reaches body Q t) :
    Reaches body Q s := by
  obtain ⟨es, u, hrun, hu⟩ := ht
  refine ⟨() :: es, u, ?_, hu⟩
  rw [run_cons, turn, hbody]
  exact hrun

/-- A loop that stops in the states with `Q` reaches one from everywhere on its way. -/
theorem reaches_of_run
    (hfinal : ∀ s, Q s → body s = none)
    {s t : σ} {es : List Unit}
    (hs : Reaches body Q s)
    (hrun : run (turn body) s es = some t) :
    Reaches body Q t := by
  induction es generalizing s with
  | nil =>
      simp only [run_nil, Option.some.injEq] at hrun
      subst hrun
      exact hs
  | cons e es ih =>
      obtain ⟨m, hm, hrest⟩ := run_cons_success hrun
      obtain ⟨fs, u, hrun', hu⟩ := hs
      cases fs with
      | nil =>
          simp only [run_nil, Option.some.injEq] at hrun'
          subst hrun'
          rw [turn, hfinal s hu] at hm
          cases hm
      | cons f fs =>
          obtain ⟨m', hm', hrest'⟩ := run_cons_success hrun'
          rw [turn] at hm hm'
          rw [hm, Option.some.injEq] at hm'
          subst hm'
          exact ih ⟨fs, u, hrest', hu⟩ hrest

/-- A loop whose turns keep an invariant without `Q` never reaches `Q`. -/
theorem not_reaches_of_invariant
    {P : σ → Prop}
    (hturn : ∀ s t, P s → body s = some t → P t)
    (hP : ∀ s, P s → ¬ Q s)
    {s : σ}
    (hs : P s) :
    ¬ Reaches body Q s := by
  rintro ⟨es, t, hrun, ht⟩
  exact hP t (run_invariant (fun s _ t h hstep => hturn s t h hstep) hs hrun) ht

end Loops

end Run
end SysProg
