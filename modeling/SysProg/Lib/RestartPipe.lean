import Mathlib.Tactic

/-!
# Pipes whose stages start over after a partial transfer

A pipe carries a list through two buffered stages.  Each stage fills its buffer
from what is before it and then passes the buffer on in several calls; a call may
take less than it is offered.  The stages modelled here count down what is left
but offer the buffer from its beginning again.

Followed with a list of positions, an element of such a pipe can only fall behind
its place (`Lags`).  `contents_eq_of_full` and `slips_of_not_full` are the two
halves of the account: a call that takes all it is offered keeps the contents of
the pipe, and any other call leaves an element strictly behind its place
(`Slips`), for good.
-/

namespace SysProg
namespace RestartPipe

universe u

section Positions

/-- No element, read as a position, is ahead of its place; the first place is `start`. -/
def Lags : Nat → List Nat → Prop
  | _, [] => True
  | start, x :: l => x ≤ start ∧ Lags (start + 1) l

/-- Some element is strictly behind its place. -/
def Slips : Nat → List Nat → Prop
  | _, [] => False
  | start, x :: l => x < start ∨ Slips (start + 1) l

variable {start : Nat} {l r : List Nat}

theorem lags_append :
    Lags start (l ++ r) ↔ Lags start l ∧ Lags (start + l.length) r := by
  induction l generalizing start with
  | nil =>
      simp [Lags]
  | cons x l ih =>
      simp only [List.cons_append, Lags, ih, List.length_cons, and_assoc]
      rw [show start + 1 + l.length = start + (l.length + 1) by omega]

theorem slips_append :
    Slips start (l ++ r) ↔ Slips start l ∨ Slips (start + l.length) r := by
  induction l generalizing start with
  | nil =>
      simp [Slips]
  | cons x l ih =>
      simp only [List.cons_append, Slips, ih, List.length_cons, or_assoc]
      rw [show start + 1 + l.length = start + (l.length + 1) by omega]

theorem Lags.mono
    {start' : Nat}
    (h : Lags start l)
    (hle : start ≤ start') :
    Lags start' l := by
  induction l generalizing start start' with
  | nil =>
      trivial
  | cons x l ih =>
      exact ⟨h.1.trans hle, ih h.2 (by omega)⟩

theorem Lags.take
    (h : Lags start l)
    (n : Nat) :
    Lags start (l.take n) := by
  rw [← List.take_append_drop n l] at h
  exact (lags_append.mp h).1

/-- Moved to a later place, a list that lags slips. -/
theorem Lags.slips
    {start' : Nat}
    (h : Lags start l)
    (hne : l ≠ [])
    (hlt : start < start') :
    Slips start' l := by
  cases l with
  | nil =>
      exact absurd rfl hne
  | cons x l =>
      have hx := h.1
      exact Or.inl (by omega)

/-- What a second call offers after `k` elements have gone starts with the first again. -/
theorem Lags.slips_again
    {k left : Nat}
    (h : Lags start l)
    (hpos : 0 < k)
    (hlt : k < left)
    (hlen : left ≤ l.length) :
    Slips (start + k) (l.take (left - k)) := by
  refine (h.take _).slips ?_ (by omega)
  intro hnil
  have hzero := congrArg List.length hnil
  simp only [List.length_take, List.length_nil] at hzero
  omega

theorem lags_range'
    (start n : Nat) :
    Lags start (List.range' start n) := by
  induction n generalizing start with
  | zero =>
      trivial
  | succ n ih =>
      exact ⟨le_refl start, ih (start + 1)⟩

/-- A list that slips has an entry behind its place. -/
theorem Slips.exists_getElem?
    (h : Slips start l) :
    ∃ i x, l[i]? = some x ∧ x < start + i := by
  induction l generalizing start with
  | nil =>
      exact h.elim
  | cons y l ih =>
      rcases h with hy | hrest
      · exact ⟨0, y, rfl, hy⟩
      · obtain ⟨i, x, hx, hlt⟩ := ih hrest
        exact ⟨i + 1, x, by simpa using hx, by omega⟩

end Positions

section Pipe

variable {α : Type u}

/--
What has come out, the buffer of the second stage with the count it still has to
pass on, what is between the stages, the same for the first stage, and what has
not been read.
-/
structure Pipe (α : Type u) where
  out : List α
  held : List α
  heldLeft : Nat
  stream : List α
  chunk : List α
  chunkLeft : Nat
  rest : List α

inductive Op where
  | load (n : Nat)
  | send (k : Nat)
  | recv (n : Nat)
  | write (k : Nat)
  | idle
deriving DecidableEq, Repr

/-- One call of one of the stages. -/
def exec (p : Pipe α) : Op → Option (Pipe α)
  | .load n =>
      if p.chunkLeft = 0 ∧ n ≤ p.rest.length then
        some { p with chunk := p.rest.take n, chunkLeft := n, rest := p.rest.drop n }
      else none
  | .send k =>
      if 0 < k ∧ k ≤ p.chunkLeft then
        some
          { p with
            stream := p.stream ++ p.chunk.take k
            chunkLeft := p.chunkLeft - k }
      else none
  | .recv n =>
      if p.heldLeft = 0 ∧ n ≤ p.stream.length then
        some { p with held := p.stream.take n, heldLeft := n, stream := p.stream.drop n }
      else none
  | .write k =>
      if 0 < k ∧ k ≤ p.heldLeft then
        some { p with out := p.out ++ p.held.take k, heldLeft := p.heldLeft - k }
      else none
  | .idle => some p

/-- The call takes all that the stage offers. -/
def Full (p : Pipe α) : Op → Prop
  | .send k => k = p.chunkLeft
  | .write k => k = p.heldLeft
  | _ => True

/-- Everything in the pipe, in the order in which it is to come out. -/
def Pipe.contents (p : Pipe α) : List α :=
  p.out ++ (p.held.take p.heldLeft ++ (p.stream ++ (p.chunk.take p.chunkLeft ++ p.rest)))

variable {p p' : Pipe α} {op : Op}

/-- Calls that take everything keep the contents. -/
theorem contents_eq_of_full
    (hexec : exec p op = some p')
    (hfull : Full p op) :
    p'.contents = p.contents := by
  cases op with
  | load n =>
      simp only [exec, Option.ite_none_right_eq_some, Option.some.injEq] at hexec
      obtain ⟨⟨hleft, _⟩, rfl⟩ := hexec
      simp [Pipe.contents, hleft, List.take_take]
  | send k =>
      simp only [exec, Option.ite_none_right_eq_some, Option.some.injEq] at hexec
      obtain ⟨_, rfl⟩ := hexec
      have hk : k = p.chunkLeft := hfull
      simp [Pipe.contents, hk]
  | recv n =>
      simp only [exec, Option.ite_none_right_eq_some, Option.some.injEq] at hexec
      obtain ⟨⟨hleft, _⟩, rfl⟩ := hexec
      simp only [Pipe.contents, hleft, List.take_take, Nat.min_self, List.take_zero,
        List.nil_append]
      rw [← List.append_assoc (p.stream.take n), List.take_append_drop]
  | write k =>
      simp only [exec, Option.ite_none_right_eq_some, Option.some.injEq] at hexec
      obtain ⟨_, rfl⟩ := hexec
      have hk : k = p.heldLeft := hfull
      simp [Pipe.contents, hk]
  | idle =>
      simp only [exec, Option.some.injEq] at hexec
      rw [← hexec]

end Pipe

section Lagging

variable {p p' : Pipe Nat} {op : Op}

/-- The place of the first element of the first stage's buffer. -/
def Pipe.sent (p : Pipe Nat) : Nat :=
  p.out.length + p.heldLeft + p.stream.length

/-- No position in the pipe or in one of its buffers is ahead of its place. -/
structure Lagging (p : Pipe Nat) : Prop where
  heldLeft : p.heldLeft ≤ p.held.length
  chunkLeft : p.chunkLeft ≤ p.chunk.length
  contents : Lags 0 p.contents
  held : Lags p.out.length p.held
  chunk : Lags p.sent p.chunk

/-- The parts of the contents at their places. -/
theorem lags_contents_iff
    (hheld : p.heldLeft ≤ p.held.length)
    (hchunk : p.chunkLeft ≤ p.chunk.length) :
    Lags 0 p.contents ↔
      Lags 0 p.out ∧
      Lags p.out.length (p.held.take p.heldLeft) ∧
      Lags (p.out.length + p.heldLeft) p.stream ∧
      Lags p.sent (p.chunk.take p.chunkLeft) ∧
      Lags (p.sent + p.chunkLeft) p.rest := by
  simp only [Pipe.contents, lags_append, List.length_take, Nat.min_eq_left hheld,
    Nat.min_eq_left hchunk, Nat.zero_add, Pipe.sent]

/-- A call that takes less than it is offered leaves an element behind its place. -/
theorem slips_of_not_full
    (h : Lagging p)
    (hexec : exec p op = some p')
    (hfull : ¬ Full p op) :
    Slips 0 p'.contents := by
  cases op with
  | send k =>
      simp only [exec, Option.ite_none_right_eq_some, Option.some.injEq] at hexec
      obtain ⟨⟨hpos, hle⟩, rfl⟩ := hexec
      have hne : k ≠ p.chunkLeft := hfull
      have hslip := h.chunk.slips_again hpos (by omega) h.chunkLeft
      simp only [Pipe.contents, slips_append, List.length_append, List.length_take,
        Nat.min_eq_left h.heldLeft, Nat.min_eq_left (hle.trans h.chunkLeft), Nat.zero_add]
      right
      right
      right
      left
      rwa [Pipe.sent, Nat.add_assoc] at hslip
  | write k =>
      simp only [exec, Option.ite_none_right_eq_some, Option.some.injEq] at hexec
      obtain ⟨⟨hpos, hle⟩, rfl⟩ := hexec
      have hne : k ≠ p.heldLeft := hfull
      have hslip := h.held.slips_again hpos (by omega) h.heldLeft
      simp only [Pipe.contents, slips_append, List.length_append, List.length_take,
        Nat.min_eq_left (hle.trans h.heldLeft), Nat.zero_add]
      right
      left
      exact hslip
  | load n =>
      exact absurd trivial hfull
  | recv n =>
      exact absurd trivial hfull
  | idle =>
      exact absurd trivial hfull

theorem Lagging.send
    {k : Nat}
    (h : Lagging p)
    (hle : k ≤ p.chunkLeft) :
    Lagging
      { p with
        stream := p.stream ++ p.chunk.take k
        chunkLeft := p.chunkLeft - k } := by
  obtain ⟨hout, hheld, hstream, _, hrest⟩ :=
    (lags_contents_iff h.heldLeft h.chunkLeft).mp h.contents
  have hchunkLeft := h.chunkLeft
  have hlen : (p.chunk.take k).length = k := by
    rw [List.length_take]
    omega
  have hsent :
      Pipe.sent
        { p with
          stream := p.stream ++ p.chunk.take k
          chunkLeft := p.chunkLeft - k } = p.sent + k := by
    simp only [Pipe.sent, List.length_append, hlen]
    omega
  have hleft : p.chunkLeft - k ≤ p.chunk.length := by omega
  refine ⟨h.heldLeft, hleft, ?_, h.held, ?_⟩
  · rw [lags_contents_iff, hsent, lags_append]
    · refine ⟨hout, hheld, ⟨hstream, h.chunk.take k⟩, ?_, ?_⟩
      · exact (h.chunk.take _).mono (by omega)
      · exact hrest.mono (by simp only; omega)
    · exact h.heldLeft
    · exact hleft
  · rw [hsent]
    exact h.chunk.mono (by omega)

theorem Lagging.write
    {k : Nat}
    (h : Lagging p)
    (hle : k ≤ p.heldLeft) :
    Lagging { p with out := p.out ++ p.held.take k, heldLeft := p.heldLeft - k } := by
  obtain ⟨hout, _, hstream, hchunk, hrest⟩ :=
    (lags_contents_iff h.heldLeft h.chunkLeft).mp h.contents
  have hheldLeft := h.heldLeft
  have hlen : (p.held.take k).length = k := by
    rw [List.length_take]
    omega
  have hsent :
      Pipe.sent
        { p with out := p.out ++ p.held.take k, heldLeft := p.heldLeft - k } =
        p.sent := by
    simp only [Pipe.sent, List.length_append, hlen]
    omega
  have hleft : p.heldLeft - k ≤ p.held.length := by omega
  have hbehind : Lags (p.out ++ p.held.take k).length p.held := by
    refine h.held.mono ?_
    rw [List.length_append]
    omega
  refine ⟨hleft, h.chunkLeft, ?_, hbehind, ?_⟩
  · rw [lags_contents_iff, hsent, lags_append, Nat.zero_add]
    · refine ⟨⟨hout, h.held.take k⟩, hbehind.take _, ?_, hchunk, hrest⟩
      refine hstream.mono ?_
      simp only [List.length_append, hlen]
      omega
    · exact hleft
    · exact h.chunkLeft
  · rw [hsent]
    exact h.chunk

/-- No call gets an element ahead of its place. -/
theorem Lagging.exec
    (h : Lagging p)
    (hexec : exec p op = some p') :
    Lagging p' := by
  obtain ⟨_, _, hstream, _, hrest⟩ :=
    (lags_contents_iff h.heldLeft h.chunkLeft).mp h.contents
  cases op with
  | load n =>
      have hkeep := contents_eq_of_full hexec trivial
      simp only [RestartPipe.exec, Option.ite_none_right_eq_some, Option.some.injEq] at hexec
      obtain ⟨⟨hleft, hn⟩, rfl⟩ := hexec
      refine ⟨h.heldLeft, ?_, by rw [hkeep]; exact h.contents, h.held, ?_⟩
      · simp only [List.length_take]
        omega
      · rw [hleft, Nat.add_zero] at hrest
        exact hrest.take n
  | send k =>
      simp only [RestartPipe.exec, Option.ite_none_right_eq_some, Option.some.injEq] at hexec
      obtain ⟨⟨_, hle⟩, rfl⟩ := hexec
      exact h.send hle
  | recv n =>
      have hkeep := contents_eq_of_full hexec trivial
      simp only [RestartPipe.exec, Option.ite_none_right_eq_some, Option.some.injEq] at hexec
      obtain ⟨⟨hleft, hn⟩, rfl⟩ := hexec
      refine ⟨?_, h.chunkLeft, by rw [hkeep]; exact h.contents, ?_, ?_⟩
      · simp only [List.length_take]
        omega
      · rw [hleft, Nat.add_zero] at hstream
        exact hstream.take n
      · refine h.chunk.mono ?_
        simp only [Pipe.sent, List.length_drop]
        omega
  | write k =>
      simp only [RestartPipe.exec, Option.ite_none_right_eq_some, Option.some.injEq] at hexec
      obtain ⟨⟨_, hle⟩, rfl⟩ := hexec
      exact h.write hle
  | idle =>
      simp only [RestartPipe.exec, Option.some.injEq] at hexec
      rw [← hexec]
      exact h

/-- An element behind its place is never made up for. -/
theorem slips_exec
    (h : Lagging p)
    (hslips : Slips 0 p.contents)
    (hexec : exec p op = some p') :
    Slips 0 p'.contents := by
  by_cases hfull : Full p op
  · rw [contents_eq_of_full hexec hfull]
    exact hslips
  · exact slips_of_not_full h hexec hfull

end Lagging

end RestartPipe
end SysProg
