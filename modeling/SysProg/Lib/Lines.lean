import SysProg.Lib.CString
import Mathlib.Data.List.Infix
import Mathlib.Tactic

/-!
# Streams as lines

`splitLines` cuts a stream behind every separator, which stays with the line it
ends.  A word without the separator occurs in a run of lines exactly if it occurs
in one of them (`infix_flatten_iff`).

`cutLine` takes one line from a stream, or as much of it as a bound allows, and `chunks` are
the parts that are taken one after the other.  They are the chunks of the lines
(`chunks_splitLines`): a line that fits is one chunk, and the first chunk of a longer line has
no separator.
-/

namespace SysProg
namespace Lines

open CString

universe u

variable {α : Type u}

/-- Every line but the last one ends with the separator. -/
def LinesEnd (sep : α) (ls : List (List α)) : Prop :=
  ls.IsChain (fun line _ => ∃ l, line = l ++ [sep])

/-- A word that avoids the separator lies within one line. -/
theorem infix_flatten_iff
    {sep : α} {word : List α} {ls : List (List α)}
    (hsep : sep ∉ word)
    (hne : word ≠ [])
    (hends : LinesEnd sep ls) :
    word <:+: ls.flatten ↔ ∃ line ∈ ls, word <:+: line := by
  induction ls with
  | nil =>
      simp [hne]
  | cons line rest ih =>
      cases rest with
      | nil =>
          simp
      | cons line' rest =>
          obtain ⟨⟨l, rfl⟩, hrest⟩ := List.isChain_cons_cons.mp hends
          have hword : word <:+: l ++ [sep] ↔ word <:+: l := by
            rw [infix_append_cons_iff hsep hne]
            simp [hne]
          rw [List.flatten_cons, List.append_assoc, List.singleton_append,
            infix_append_cons_iff hsep hne, ih hrest]
          simp only [List.mem_cons, exists_eq_or_imp, hword]

section IsLine

variable {sep : α} {line : List α}

/-- Something with at most one separator, at its end. -/
structure IsLine (sep : α) (line : List α) : Prop where
  ne_nil : line ≠ []
  dropLast : sep ∉ line.dropLast

theorem IsLine.eq_append
    (h : IsLine sep line)
    (hend : line.getLast? = some sep) :
    line = line.dropLast ++ [sep] := by
  have hlast : line.getLast h.ne_nil = sep := by
    rwa [List.getLast?_eq_some_getLast h.ne_nil, Option.some.injEq] at hend
  conv_lhs => rw [← List.dropLast_concat_getLast h.ne_nil, hlast]

theorem isLine_append
    {text : List α}
    (hsep : sep ∉ text) :
    IsLine sep (text ++ [sep]) :=
  ⟨by simp, by simpa using hsep⟩

theorem isLine_singleton
    (sep b : α) :
    IsLine sep [b] :=
  ⟨by simp, by simp⟩

theorem isLine_cons_iff
    {b : α} {rest : List α}
    (hne : rest ≠ []) :
    IsLine sep (b :: rest) ↔ b ≠ sep ∧ IsLine sep rest := by
  constructor
  · rintro ⟨-, hdrop⟩
    rw [List.dropLast_cons_of_ne_nil hne, List.mem_cons, not_or] at hdrop
    exact ⟨Ne.symm hdrop.1, hne, hdrop.2⟩
  · rintro ⟨hb, -, hdrop⟩
    refine ⟨by simp, ?_⟩
    rw [List.dropLast_cons_of_ne_nil hne, List.mem_cons, not_or]
    exact ⟨Ne.symm hb, hdrop⟩

end IsLine

variable [DecidableEq α]

/-- The lines of a stream, with their separators. -/
def splitLines (sep : α) : List α → List (List α)
  | [] => []
  | b :: bs =>
      if b = sep then [b] :: splitLines sep bs
      else
        match splitLines sep bs with
        | [] => [[b]]
        | line :: rest => (b :: line) :: rest

@[simp] theorem flatten_splitLines
    (sep : α) (stream : List α) :
    (splitLines sep stream).flatten = stream := by
  induction stream with
  | nil =>
      rfl
  | cons b bs ih =>
      unfold splitLines
      split_ifs
      · simp [ih]
      · split
        · rename_i hnil
          rw [hnil] at ih
          simp [← ih]
        · rename_i line rest hlines
          rw [hlines] at ih
          simp [← ih]

theorem linesEnd_splitLines
    (sep : α) (stream : List α) :
    LinesEnd sep (splitLines sep stream) := by
  induction stream with
  | nil =>
      exact .nil
  | cons b bs ih =>
      unfold splitLines
      split_ifs with hb
      · cases hlines : splitLines sep bs with
        | nil =>
            exact .singleton _
        | cons line rest =>
            rw [hlines] at ih
            exact .cons_cons ⟨[], by simp [hb]⟩ ih
      · split
        · exact .singleton _
        · rename_i line rest hlines
          rw [hlines] at ih
          cases rest with
          | nil =>
              exact .singleton _
          | cons line' rest =>
              obtain ⟨⟨l, hl⟩, hrest⟩ := List.isChain_cons_cons.mp ih
              exact .cons_cons ⟨b :: l, by simp [hl]⟩ hrest

/-- At most `n` elements of a stream, up to a separator, and what is behind them. -/
def cutLine (sep : α) : Nat → List α → List α × List α
  | 0, stream => ([], stream)
  | _ + 1, [] => ([], [])
  | n + 1, b :: bs =>
      if b = sep then ([b], bs)
      else (b :: (cutLine sep n bs).1, (cutLine sep n bs).2)

/-- A line that fits is cut off with its separator. -/
theorem cutLine_line
    {sep : α} {text : List α} {n : Nat}
    (hsep : sep ∉ text)
    (hn : text.length < n)
    (rest : List α) :
    cutLine sep n (text ++ sep :: rest) = (text ++ [sep], rest) := by
  induction text generalizing n with
  | nil =>
      obtain ⟨m, rfl⟩ := Nat.exists_eq_succ_of_ne_zero (Nat.ne_of_gt hn)
      simp [cutLine]
  | cons b text ih =>
      obtain ⟨m, rfl⟩ := Nat.exists_eq_succ_of_ne_zero (Nat.ne_zero_of_lt hn)
      have hb : b ≠ sep := fun h => hsep (by simp [h])
      have hrest := ih (fun h => hsep (List.mem_cons_of_mem b h)) (by simpa using hn)
      simp [cutLine, hb, hrest]

theorem length_cutLine_le
    (sep : α) (n : Nat) (stream : List α) :
    (cutLine sep n stream).1.length ≤ n := by
  induction n generalizing stream with
  | zero =>
      exact Nat.le_refl 0
  | succ n ih =>
      cases stream with
      | nil =>
          exact Nat.zero_le _
      | cons b bs =>
          unfold cutLine
          split_ifs
          · simp
          · simpa using ih bs

theorem length_cutLine_rest_le
    (sep : α) (n : Nat) (stream : List α) :
    (cutLine sep n stream).2.length ≤ stream.length := by
  induction n generalizing stream with
  | zero =>
      exact Nat.le_refl _
  | succ n ih =>
      cases stream with
      | nil =>
          exact Nat.le_refl _
      | cons b bs =>
          unfold cutLine
          split_ifs
          · simp
          · exact Nat.le_succ_of_le (ih bs)

/-- A cut takes something, if it may and can. -/
theorem length_cutLine_rest_cons_le
    (sep : α) (n : Nat) (b : α) (bs : List α) :
    (cutLine sep (n + 1) (b :: bs)).2.length ≤ bs.length := by
  unfold cutLine
  split_ifs
  · exact Nat.le_refl _
  · exact length_cutLine_rest_le sep n bs

/-- The parts of at most `n` elements that are cut off in `fuel` turns. -/
def cutAll (sep : α) (n : Nat) : Nat → List α → List (List α)
  | 0, _ => []
  | _ + 1, [] => []
  | fuel + 1, b :: bs =>
      (cutLine sep n (b :: bs)).1 :: cutAll sep n fuel (cutLine sep n (b :: bs)).2

/-- The parts of at most `n` elements that a stream is cut into. -/
def chunks (sep : α) (n : Nat) (stream : List α) : List (List α) :=
  cutAll sep n stream.length stream

/-- The length of the stream is fuel enough. -/
theorem cutAll_of_le
    {sep : α} {n fuel : Nat} {stream : List α}
    (hfuel : stream.length ≤ fuel) :
    cutAll sep (n + 1) fuel stream = chunks sep (n + 1) stream := by
  rw [chunks]
  induction hlen : stream.length using Nat.strong_induction_on generalizing fuel stream with
  | _ len ih =>
      subst hlen
      cases stream with
      | nil =>
          cases fuel <;> rfl
      | cons b bs =>
          obtain ⟨m, rfl⟩ := Nat.exists_eq_succ_of_ne_zero (Nat.ne_zero_of_lt hfuel)
          have hrest := length_cutLine_rest_cons_le sep n b bs
          have hlt : (cutLine sep (n + 1) (b :: bs)).2.length < (b :: bs).length :=
            Nat.lt_succ_of_le hrest
          have hm : bs.length ≤ m := by simpa using hfuel
          simp only [List.length_cons, cutAll]
          rw [ih _ hlt (Nat.le_trans hrest hm) rfl, ih _ hlt hrest rfl]

theorem chunks_of_ne_nil
    {sep : α} {n : Nat} {stream : List α}
    (hne : stream ≠ []) :
    chunks sep (n + 1) stream =
      (cutLine sep (n + 1) stream).1 :: chunks sep (n + 1) (cutLine sep (n + 1) stream).2 := by
  obtain ⟨b, bs, rfl⟩ := List.exists_cons_of_ne_nil hne
  rw [← cutAll_of_le (length_cutLine_rest_cons_le sep n b bs)]
  rfl

section Chunks

variable {sep : α} {n : Nat} {line : List α}

/-- A line without its separator, if it has one. -/
theorem IsLine.filter_ne
    (h : IsLine sep line) :
    line.filter (fun b => b != sep) =
      if line.getLast? = some sep then line.dropLast else line := by
  have hfront : line.dropLast.filter (fun b => b != sep) = line.dropLast := by
    rw [List.filter_eq_self]
    intro b hb
    simp only [bne_iff_ne, ne_eq]
    rintro rfl
    exact h.dropLast hb
  split_ifs with hend
  · conv_lhs => rw [h.eq_append hend]
    rw [List.filter_append, hfront]
    simp
  · have hlast : line.getLast h.ne_nil ≠ sep := by
      intro heq
      apply hend
      rw [List.getLast?_eq_some_getLast h.ne_nil]
      exact congrArg some heq
    conv_lhs => rw [← List.dropLast_concat_getLast h.ne_nil]
    rw [List.filter_append, hfront, List.filter_cons_of_pos (by simpa using hlast),
      List.filter_nil, List.dropLast_concat_getLast]

theorem isLine_of_mem_splitLines
    {stream : List α}
    (hline : line ∈ splitLines sep stream) :
    IsLine sep line := by
  induction stream generalizing line with
  | nil =>
      cases hline
  | cons b bs ih =>
      unfold splitLines at hline
      split_ifs at hline with hb
      · rcases List.mem_cons.mp hline with rfl | hrest
        · exact isLine_singleton sep b
        · exact ih hrest
      · split at hline
        · rw [List.mem_singleton] at hline
          subst hline
          exact isLine_singleton sep b
        · rename_i first rest hlines
          rw [hlines] at ih
          rcases List.mem_cons.mp hline with rfl | hrest
          · have hfirst := ih List.mem_cons_self
            exact (isLine_cons_iff hfirst.ne_nil).mpr ⟨hb, hfirst⟩
          · exact ih (List.mem_cons_of_mem first hrest)

theorem cutLine_append
    (sep : α) (n : Nat) (stream : List α) :
    (cutLine sep n stream).1 ++ (cutLine sep n stream).2 = stream := by
  induction n generalizing stream with
  | zero =>
      rfl
  | succ n ih =>
      cases stream with
      | nil =>
          rfl
      | cons b bs =>
          unfold cutLine
          split_ifs
          · rfl
          · simp [ih bs]

/-- Without a separator, the bound decides. -/
theorem cutLine_long
    {text : List α}
    (hsep : sep ∉ text)
    (hn : n ≤ text.length)
    (rest : List α) :
    cutLine sep n (text ++ rest) = (text.take n, text.drop n ++ rest) := by
  induction n generalizing text with
  | zero =>
      rfl
  | succ n ih =>
      cases text with
      | nil =>
          simp at hn
      | cons b text =>
          rw [List.mem_cons, not_or] at hsep
          have hb : b ≠ sep := Ne.symm hsep.1
          have hrest := ih hsep.2 (by simpa using hn)
          simp [cutLine, hb, hrest]

/-- A line that fits is cut off as a whole. -/
theorem cutLine_isLine
    {rest : List α}
    (h : IsLine sep line)
    (hlen : line.length ≤ n)
    (hend : line.getLast? = some sep ∨ rest = []) :
    cutLine sep n (line ++ rest) = (line, rest) := by
  induction n generalizing line with
  | zero =>
      exact absurd (List.length_eq_zero_iff.mp (Nat.le_zero.mp hlen)) h.ne_nil
  | succ n ih =>
      cases line with
      | nil =>
          exact absurd rfl h.ne_nil
      | cons b bs =>
          rw [List.cons_append]
          by_cases hbs : bs = []
          · subst hbs
            by_cases hb : b = sep
            · simp [cutLine, hb]
            · have hrest : rest = [] := by simpa [hb] using hend
              subst hrest
              cases n <;> simp [cutLine, hb]
          · obtain ⟨hb, hrest⟩ := (isLine_cons_iff hbs).mp h
            rw [List.getLast?_cons_of_ne_nil hbs] at hend
            have hcut := ih hrest (by simpa using hlen) hend
            simp [cutLine, hb, hcut]

theorem isLine_cutLine
    {stream : List α}
    (hne : stream ≠ []) :
    IsLine sep (cutLine sep (n + 1) stream).1 := by
  induction n generalizing stream with
  | zero =>
      obtain ⟨b, bs, rfl⟩ := List.exists_cons_of_ne_nil hne
      unfold cutLine
      split_ifs
      · exact isLine_singleton sep b
      · exact isLine_singleton sep b
  | succ n ih =>
      obtain ⟨b, bs, rfl⟩ := List.exists_cons_of_ne_nil hne
      unfold cutLine
      split_ifs with hb
      · exact isLine_singleton sep b
      · cases bs with
        | nil =>
            exact isLine_singleton sep b
        | cons b' bs =>
            have hrest := ih (List.cons_ne_nil b' bs)
            exact (isLine_cons_iff hrest.ne_nil).mpr ⟨hb, hrest⟩

/-- A chunk is a line or a part of one, and not longer than the bound. -/
theorem isLine_of_mem_chunks
    {stream c : List α}
    (hc : c ∈ chunks sep (n + 1) stream) :
    IsLine sep c ∧ c.length ≤ n + 1 := by
  induction hlen : stream.length using Nat.strong_induction_on generalizing stream with
  | _ len ih =>
      subst hlen
      cases stream with
      | nil =>
          cases hc
      | cons b bs =>
          rw [chunks_of_ne_nil (List.cons_ne_nil b bs), List.mem_cons] at hc
          rcases hc with rfl | hrest
          · exact ⟨isLine_cutLine (List.cons_ne_nil b bs), length_cutLine_le sep (n + 1) _⟩
          · exact ih _ (Nat.lt_succ_of_le (length_cutLine_rest_cons_le sep n b bs)) hrest rfl

theorem flatten_chunks
    (stream : List α) :
    (chunks sep (n + 1) stream).flatten = stream := by
  induction hlen : stream.length using Nat.strong_induction_on generalizing stream with
  | _ len ih =>
      subst hlen
      cases stream with
      | nil =>
          rfl
      | cons b bs =>
          have hrest := length_cutLine_rest_cons_le sep n b bs
          rw [chunks_of_ne_nil (List.cons_ne_nil b bs), List.flatten_cons,
            ih _ (Nat.lt_succ_of_le hrest) _ rfl, cutLine_append]

/-- What is not in the stream is in none of its chunks. -/
theorem not_mem_of_mem_chunks
    {b : α} {stream piece : List α}
    (hb : b ∉ stream)
    (hpiece : piece ∈ chunks sep (n + 1) stream) :
    b ∉ piece := by
  intro hmem
  apply hb
  have hflatten : (chunks sep (n + 1) stream).flatten = stream := flatten_chunks stream
  rw [← hflatten]
  exact List.mem_flatten_of_mem hpiece hmem

/-- A line that fits is one chunk. -/
theorem chunks_isLine
    (h : IsLine sep line)
    (hlen : line.length ≤ n + 1) :
    chunks sep (n + 1) line = [line] := by
  have hcut : cutLine sep (n + 1) (line ++ []) = (line, []) :=
    cutLine_isLine h hlen (Or.inr rfl)
  rw [List.append_nil] at hcut
  rw [chunks_of_ne_nil h.ne_nil, hcut]
  rfl

/-- The first chunk of a line that does not fit has no separator. -/
theorem chunks_long
    (h : IsLine sep line)
    (hlen : n + 1 < line.length) :
    ∃ first rest,
      chunks sep (n + 1) line = first :: rest ∧
      first.length = n + 1 ∧
      sep ∉ first := by
  have hle : n + 1 ≤ line.dropLast.length := by
    rw [List.length_dropLast]
    omega
  have hcut := cutLine_long h.dropLast hle [line.getLast h.ne_nil]
  rw [List.dropLast_concat_getLast] at hcut
  refine ⟨_, _, chunks_of_ne_nil h.ne_nil, ?_⟩
  rw [hcut]
  refine ⟨?_, fun hmem => h.dropLast (List.mem_of_mem_take hmem)⟩
  rw [List.length_take]
  exact Nat.min_eq_left hle

/-- The chunks of a stream are those of its first line and those of the rest. -/
theorem chunks_append
    (h : IsLine sep line)
    (hend : line.getLast? = some sep)
    (rest : List α) :
    chunks sep (n + 1) (line ++ rest) = chunks sep (n + 1) line ++ chunks sep (n + 1) rest := by
  induction hlen : line.length using Nat.strong_induction_on generalizing line with
  | _ len ih =>
      subst hlen
      have hne : line ++ rest ≠ [] := by simp [h.ne_nil]
      by_cases hfits : line.length ≤ n + 1
      · rw [chunks_isLine h hfits, chunks_of_ne_nil hne, cutLine_isLine h hfits (Or.inl hend)]
        rfl
      · -- the first cut leaves a shorter line
        have hle : n + 1 ≤ line.dropLast.length := by
          rw [List.length_dropLast]
          omega
        have heq := h.eq_append hend
        have hcut := cutLine_long h.dropLast hle [sep]
        have hcut' := cutLine_long h.dropLast hle (sep :: rest)
        rw [← heq] at hcut
        have hshort : IsLine sep (line.dropLast.drop (n + 1) ++ [sep]) :=
          isLine_append (fun hmem => h.dropLast (List.mem_of_mem_drop hmem))
        have hlt : (line.dropLast.drop (n + 1) ++ [sep]).length < line.length := by
          rw [List.length_append, List.length_drop, List.length_dropLast, List.length_singleton]
          omega
        have hrest := ih _ hlt hshort (by simp) rfl
        rw [List.append_assoc, List.singleton_append] at hrest
        have hsplit : line ++ rest = line.dropLast ++ sep :: rest := by
          rw [← List.singleton_append, ← List.append_assoc, ← heq]
        rw [chunks_of_ne_nil h.ne_nil, hcut, chunks_of_ne_nil hne, hsplit, hcut', hrest]
        rfl

/-- The chunks of a stream are those of its lines, one after the other. -/
theorem chunks_splitLines
    (stream : List α) :
    chunks sep (n + 1) stream = (splitLines sep stream).flatMap (chunks sep (n + 1)) := by
  have hlines : ∀ ls : List (List α),
      (∀ line ∈ ls, IsLine sep line) → LinesEnd sep ls →
        chunks sep (n + 1) ls.flatten = ls.flatMap (chunks sep (n + 1)) := by
    intro ls hall hends
    induction ls with
    | nil =>
        rfl
    | cons line rest ih =>
        have hline := hall line List.mem_cons_self
        have hrest := ih (fun l hl => hall l (List.mem_cons_of_mem line hl)) hends.tail
        rw [List.flatten_cons, List.flatMap_cons, ← hrest]
        cases rest with
        | nil =>
            simp [chunks, cutAll]
        | cons line' rest =>
            obtain ⟨⟨l, hl⟩, -⟩ := List.isChain_cons_cons.mp hends
            exact chunks_append hline (by simp [hl]) _
  have h := hlines (splitLines sep stream) (fun _ => isLine_of_mem_splitLines)
    (linesEnd_splitLines sep stream)
  rwa [flatten_splitLines] at h

/-- All chunks of a line end with the separator only if it is terminated and fits. -/
theorem chunks_end_iff
    (h : IsLine sep line) :
    (∀ c ∈ chunks sep (n + 1) line, c.getLast? = some sep) ↔
      line.getLast? = some sep ∧ line.length ≤ n + 1 := by
  by_cases hlen : line.length ≤ n + 1
  · rw [chunks_isLine h hlen]
    simp [hlen]
  · obtain ⟨first, rest, hchunks, -, hsep⟩ := chunks_long h (Nat.lt_of_not_le hlen)
    rw [hchunks]
    refine iff_of_false ?_ (fun hboth => hlen hboth.2)
    intro hall
    exact hsep (List.mem_of_getLast? (hall first List.mem_cons_self))

end Chunks

end Lines
end SysProg
