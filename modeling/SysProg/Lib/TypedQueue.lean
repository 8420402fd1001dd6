import Mathlib.Data.List.Basic
import Mathlib.Tactic

/-!
# Queues with typed messages

A queue of messages each of which has a type.  A receiver asks for a type and is given the first
message of that type, asks for 0 and is given the first message, or asks for a negative number
and is given the first message of the lowest type up to its absolute value.  In all three cases
the message is the first one of its own type, so that the messages of each type leave the queue
in their order.
-/

namespace SysProg
namespace TypedQueue

universe u

variable {α : Type u} {key : α → Int} {mtype : Int} {a : α} {q rest : List α}

/-- The first message with `p`, and the queue without it. -/
def takeFirst (p : α → Bool) (q : List α) : Option (α × List α) :=
  (q.find? p).map (fun a => (a, q.eraseP p))

/-- The lowest type in the queue up to a bound. -/
def lowest (key : α → Int) (bound : Int) (q : List α) : Option Int :=
  ((q.map key).filter (fun t => t ≤ bound)).min?

/-- `msgrcv`, or nothing while it waits. -/
def rcv (key : α → Int) (mtype : Int) (q : List α) : Option (α × List α) :=
  if mtype = 0 then takeFirst (fun _ => true) q
  else if 0 < mtype then takeFirst (fun a => key a = mtype) q
  else (lowest key (-mtype) q).bind (fun t => takeFirst (fun a => key a = t) q)

/-- A receiver that asks for `mtype` can be given a message of type `t`. -/
def Asked (mtype t : Int) : Prop :=
  mtype = 0 ∨ (0 < mtype ∧ t = mtype) ∨ (mtype < 0 ∧ t ≤ -mtype)

/-- The messages of one type. -/
def typed (key : α → Int) (t : Int) (q : List α) : List α :=
  q.filter (fun a => key a = t)

theorem typed_append
    (t : Int) (q r : List α) :
    typed key t (q ++ r) = typed key t q ++ typed key t r :=
  List.filter_append ..

theorem takeFirst_split
    {p : α → Bool}
    (h : takeFirst p q = some (a, rest)) :
    ∃ before after, p a = true ∧ (∀ b ∈ before, p b = false) ∧ q = before ++ a :: after ∧
      rest = before ++ after := by
  obtain ⟨b, hfind, hpair⟩ := Option.map_eq_some_iff.mp h
  cases hpair
  obtain ⟨hp, before, after, rfl, hbefore⟩ := List.find?_eq_some_iff_append.mp hfind
  have hnot : ∀ b ∈ before, p b = false := by simpa using hbefore
  refine ⟨before, after, hp, hnot, rfl, ?_⟩
  rw [List.eraseP_append_right _ (by simpa using hnot), List.eraseP_cons_of_pos hp]

/-- A choice by the type takes the first message of its type. -/
theorem typed_takeFirst
    {p : Int → Bool}
    (h : takeFirst (fun a => p (key a)) q = some (a, rest))
    (t : Int) :
    typed key t [a] ++ typed key t rest = typed key t q := by
  obtain ⟨before, after, hp, hbefore, rfl, rfl⟩ := takeFirst_split h
  have hcons : typed key t (a :: after) = typed key t [a] ++ typed key t after :=
    typed_append t [a] after
  rw [typed_append, typed_append, hcons]
  by_cases ht : key a = t
  · have hnone : typed key t before = [] := by
      refine List.filter_eq_nil_iff.mpr ?_
      intro b hb hkey
      have hfalse := hbefore b hb
      rw [of_decide_eq_true hkey, ← ht, hp] at hfalse
      cases hfalse
    rw [hnone, List.nil_append, List.nil_append]
  · have hnone : typed key t [a] = [] := by
      simp [typed, ht]
    rw [hnone, List.nil_append, List.nil_append]

theorem takeFirst_eq_none_iff
    {p : α → Bool} :
    takeFirst p q = none ↔ ∀ b ∈ q, p b = false := by
  simp [takeFirst]

theorem lowest_le
    {bound t : Int}
    (h : lowest key bound q = some t) :
    t ≤ bound := by
  have hmem := List.min?_mem h
  simpa using (List.mem_filter.mp hmem).2

theorem lowest_eq_none_iff
    {bound : Int} :
    lowest key bound q = none ↔ ∀ b ∈ q, ¬ key b ≤ bound := by
  simp [lowest, List.min?_eq_none_iff]

theorem typed_rcv
    (h : rcv key mtype q = some (a, rest))
    (t : Int) :
    typed key t [a] ++ typed key t rest = typed key t q := by
  unfold rcv at h
  split_ifs at h
  · exact typed_takeFirst (p := fun _ => true) h t
  · exact typed_takeFirst (p := fun t => decide (t = mtype)) h t
  · obtain ⟨low, _, hlow⟩ := Option.bind_eq_some_iff.mp h
    exact typed_takeFirst (p := fun t => decide (t = low)) hlow t

theorem asked_rcv
    (h : rcv key mtype q = some (a, rest)) :
    Asked mtype (key a) := by
  unfold rcv at h
  split_ifs at h with hzero hpos
  · exact Or.inl hzero
  · obtain ⟨_, _, hp, _⟩ := takeFirst_split h
    exact Or.inr (Or.inl ⟨hpos, of_decide_eq_true hp⟩)
  · obtain ⟨low, hlowest, hlow⟩ := Option.bind_eq_some_iff.mp h
    obtain ⟨_, _, hp, _⟩ := takeFirst_split hlow
    have hle := lowest_le hlowest
    rw [← of_decide_eq_true hp] at hle
    exact Or.inr (Or.inr ⟨by omega, hle⟩)

/-- A receiver waits exactly as long as the queue has nothing that it asks for. -/
theorem rcv_eq_none_iff :
    rcv key mtype q = none ↔ ∀ b ∈ q, ¬ Asked mtype (key b) := by
  unfold rcv Asked
  split_ifs with hzero hpos
  · simp [takeFirst_eq_none_iff, hzero]
  · have hneg : ¬ mtype < 0 := by omega
    simp [takeFirst_eq_none_iff, hzero, hpos, hneg]
  · have hneg : mtype < 0 := by omega
    rw [Option.bind_eq_none_iff]
    constructor
    · intro hnone b hb hasked
      have hle : key b ≤ -mtype := by omega
      cases hlowest : lowest key (-mtype) q with
      | none =>
          exact lowest_eq_none_iff.mp hlowest b hb hle
      | some low =>
          -- the lowest type is that of some message
          obtain ⟨c, hc, hkey⟩ := List.mem_map.mp (List.mem_of_mem_filter (List.min?_mem hlowest))
          have hfalse := takeFirst_eq_none_iff.mp (hnone low hlowest) c hc
          simp [hkey] at hfalse
    · intro hnone low hlowest
      have hmem := List.min?_mem hlowest
      obtain ⟨c, hc, hkey⟩ := List.mem_map.mp (List.mem_of_mem_filter hmem)
      have hle := lowest_le hlowest
      exact absurd (Or.inr (Or.inr ⟨hneg, hkey ▸ hle⟩)) (hnone c hc)

end TypedQueue
end SysProg
