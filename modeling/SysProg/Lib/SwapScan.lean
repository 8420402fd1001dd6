import Mathlib.Data.List.Perm.Basic
import Mathlib.Tactic

/-!
# Scanning a table that shrinks

A loop goes through the entries of a table, makes a call for every entry that is ready,
and may remove the entry it is at.  `all` are the entries at the start of the loop, `back`
those that are still to come and `calls` those for which the call has been made.

`Complete` says that every ready entry is in exactly one of the two.  It survives each
move of the loop: an entry that is not ready is passed, a call is made while the entries
behind are permuted, and an entry that is not ready is lost from the end.  If a ready
entry is lost, it is `Missed` for the rest of the loop.

`Kept` is about the table itself: the entries whose call found them closed are removed,
and no others.
-/

namespace SysProg
namespace SwapScan

universe u

variable {α : Type u} {ready : α → Bool} {all back rest rest' calls : List α} {a b : α}

/-- Every ready entry is either to come or called, once. -/
def Complete (ready : α → Bool) (all back calls : List α) : Prop :=
  (calls ++ back.filter ready).Perm (all.filter ready)

/-- Some ready entry has not been called and will not come. -/
def Missed (ready : α → Bool) (all back calls : List α) : Prop :=
  ∃ x ∈ all.filter ready, x ∉ calls ∧ x ∉ back

theorem complete_start :
    Complete ready all all [] := by
  exact List.Perm.refl _

theorem Complete.pass
    (h : Complete ready all (a :: rest) calls)
    (ha : ready a = false) :
    Complete ready all rest calls := by
  rw [Complete, List.filter_cons_of_neg (by simp [ha])] at h
  exact h

theorem Complete.call
    (h : Complete ready all (a :: rest) calls)
    (ha : ready a = true)
    (hperm : rest'.Perm rest) :
    Complete ready all rest' (calls ++ [a]) := by
  rw [Complete, List.filter_cons_of_pos ha] at h
  rw [Complete, List.append_assoc, List.singleton_append]
  exact (((hperm.filter ready).cons a).append_left calls).trans h

/-- An entry that is not ready may be lost. -/
theorem Complete.lose
    (h : Complete ready all (rest ++ [b]) calls)
    (hb : ready b = false) :
    Complete ready all rest calls := by
  rw [Complete, List.filter_append, List.filter_singleton, hb] at h
  simpa [Complete] using h

/-- At the end of the loop the calls are those for the ready entries. -/
theorem Complete.calls_perm
    (h : Complete ready all [] calls) :
    calls.Perm (all.filter ready) := by
  rw [Complete, List.filter_nil, List.append_nil] at h
  exact h

/-- A ready entry that is lost from the end is nowhere else. -/
theorem Complete.missed
    (h : Complete ready all (rest ++ [b]) calls)
    (hnodup : all.Nodup)
    (hb : ready b = true) :
    Missed ready all rest calls := by
  rw [Complete, List.filter_append, List.filter_singleton, hb, cond_true] at h
  have hall := h.nodup_iff.mpr (hnodup.filter ready)
  rw [← List.append_assoc, List.nodup_append] at hall
  obtain ⟨_, _, hdisjoint⟩ := hall
  refine ⟨b, h.mem_iff.mp (by simp), ?_, ?_⟩
  · intro hmem
    exact hdisjoint b (List.mem_append_left _ hmem) b (by simp) rfl
  · intro hmem
    have hrest : b ∈ rest.filter ready := List.mem_filter.mpr ⟨hmem, hb⟩
    exact hdisjoint b (List.mem_append_right _ hrest) b (by simp) rfl

theorem Missed.pass
    (h : Missed ready all (a :: rest) calls) :
    Missed ready all rest calls := by
  obtain ⟨x, hx, hcalls, hback⟩ := h
  exact ⟨x, hx, hcalls, fun hmem => hback (List.mem_cons_of_mem a hmem)⟩

theorem Missed.call
    (h : Missed ready all (a :: rest) calls)
    (hsub : rest' ⊆ rest) :
    Missed ready all rest' (calls ++ [a]) := by
  obtain ⟨x, hx, hcalls, hback⟩ := h
  rw [List.mem_cons, not_or] at hback
  refine ⟨x, hx, ?_, fun hmem => hback.2 (hsub hmem)⟩
  rw [List.mem_append, List.mem_singleton, not_or]
  exact ⟨hcalls, hback.1⟩

theorem Missed.not_perm
    (h : Missed ready all back calls) :
    ¬ calls.Perm (all.filter ready) := by
  obtain ⟨x, hx, hcalls, _⟩ := h
  exact fun hperm => hcalls (hperm.mem_iff.mpr hx)

section Moves

variable {G : Prop} {back' calls' : List α}

/--
One move of the loop.  `G` is the condition that nothing ready is lost: a removal that goes
on with the next place loses the last entry, which is moved behind it.
-/
inductive Move
    (ready : α → Bool) (G : Prop) (back calls back' calls' : List α) : Prop
  | stays
      (hback : back' = back)
      (hcalls : calls' = calls)
      (hG : G)
  | pass {a : α}
      (hback : back = a :: back')
      (ha : ready a = false)
      (hcalls : calls' = calls)
      (hG : G)
  | call {a : α}
      (hback : back = a :: back')
      (ha : ready a = true)
      (hcalls : calls' = calls ++ [a])
      (hG : G)
  | remove {a b : α}
      (hback : back = a :: (back' ++ [b]))
      (ha : ready a = true)
      (hcalls : calls' = calls ++ [a])
      (hG : G ↔ ready b = false)

theorem Complete.move
    (h : Complete ready all back calls)
    (hmove : Move ready G back calls back' calls')
    (hG : G) :
    Complete ready all back' calls' := by
  cases hmove with
  | stays hback hcalls _ =>
      rw [hback, hcalls]
      exact h
  | pass hback ha hcalls _ =>
      rw [hback] at h
      rw [hcalls]
      exact h.pass ha
  | call hback ha hcalls _ =>
      rw [hback] at h
      rw [hcalls]
      exact h.call ha (List.Perm.refl _)
  | remove hback ha hcalls hiff =>
      rw [hback] at h
      rw [hcalls]
      exact (h.call ha (List.Perm.refl _)).lose (hiff.mp hG)

theorem Missed.move
    (h : Missed ready all back calls)
    (hmove : Move ready G back calls back' calls') :
    Missed ready all back' calls' := by
  cases hmove with
  | stays hback hcalls _ =>
      rw [hback, hcalls]
      exact h
  | pass hback _ hcalls _ =>
      rw [hback] at h
      rw [hcalls]
      exact h.pass
  | call hback _ hcalls _ =>
      rw [hback] at h
      rw [hcalls]
      exact h.call (List.Subset.refl _)
  | remove hback _ hcalls _ =>
      rw [hback] at h
      rw [hcalls]
      exact h.call (List.subset_append_left _ _)

/-- A move that breaks the condition misses an entry. -/
theorem Complete.missed_of_move
    (h : Complete ready all back calls)
    (hnodup : all.Nodup)
    (hmove : Move ready G back calls back' calls')
    (hG : ¬ G) :
    Missed ready all back' calls' := by
  cases hmove with
  | stays _ _ hyes =>
      exact absurd hyes hG
  | pass _ _ _ hyes =>
      exact absurd hyes hG
  | call _ _ _ hyes =>
      exact absurd hyes hG
  | remove hback ha hcalls hiff =>
      rw [hback] at h
      rw [hcalls]
      have hb := eq_true_of_ne_false (fun hfalse => hG (hiff.mpr hfalse))
      exact (h.call ha (List.Perm.refl _)).missed hnodup hb

end Moves

section Table

variable {closed : α → Bool} {table table' : List α}

/-- The table has lost the entries that were found closed. -/
def Kept (closed : α → Bool) (all table calls : List α) : Prop :=
  (table ++ calls.filter closed).Perm all

theorem kept_start :
    Kept closed all all [] := by
  rw [Kept, List.filter_nil, List.append_nil]

theorem Kept.callOpen
    (h : Kept closed all table calls)
    (ha : closed a = false) :
    Kept closed all table (calls ++ [a]) := by
  rw [Kept, List.filter_append, List.filter_cons_of_neg (by simp [ha]), List.filter_nil,
    List.append_nil]
  exact h

theorem Kept.callClosed
    (h : Kept closed all table calls)
    (ha : closed a = true)
    (hperm : (a :: table').Perm table) :
    Kept closed all table' (calls ++ [a]) := by
  rw [Kept, List.filter_append, List.filter_cons_of_pos ha, List.filter_nil,
    ← List.append_assoc]
  exact (List.perm_append_singleton _ _).trans ((hperm.append_right _).trans h)

theorem Kept.mem_iff
    (h : Kept closed all table calls)
    (hnodup : all.Nodup)
    (a : α) :
    a ∈ table ↔ a ∈ all ∧ ¬ (a ∈ calls ∧ closed a = true) := by
  have hdisjoint := (List.nodup_append.mp (h.nodup_iff.mpr hnodup)).2.2
  rw [← List.Perm.mem_iff h, List.mem_append]
  constructor
  · intro ha
    refine ⟨Or.inl ha, ?_⟩
    rintro ⟨hcalled, hclosed⟩
    exact hdisjoint a ha a (List.mem_filter.mpr ⟨hcalled, hclosed⟩) rfl
  · rintro ⟨ha | ha, hopen⟩
    · exact ha
    · exact absurd (List.mem_filter.mp ha) hopen

/-- The same for keys of the entries, of which `closed` depends. -/
theorem Kept.map
    {β : Type u} {key : α → β} {closedKey : β → Bool}
    (h : Kept (fun a => closedKey (key a)) all table calls) :
    Kept closedKey (all.map key) (table.map key) (calls.map key) := by
  have hmap := List.Perm.map key h
  rw [List.map_append] at hmap
  rw [Kept, List.filter_map]
  exact hmap

end Table

end SwapScan
end SysProg
