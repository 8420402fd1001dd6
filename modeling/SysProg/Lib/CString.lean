import Mathlib.Tactic
import Mathlib.Data.List.Infix
import Mathlib.Data.List.TakeWhile

/-!
# C strings, `strstr` and `strncmp`

A byte array is a list of bytes.  The C string in it ends before the first zero
byte (`cstr`); `strstr` looks for a byte sequence in such a string.

`strstr_isSome_iff` replaces the search by the infix relation of lists.  A word
that avoids a byte never reaches across it: `infix_append_cons_iff` splits the
relation there.

An array that is zero behind the given bytes is the list of these bytes.  `strncmp`
compares two arrays byte by byte up to a common zero; against a word without a zero it
compares the first bytes (`strncmpEq_iff`).
-/

namespace SysProg
namespace CString

universe u

def newline : UInt8 := 10

/-- The size of a buffer in stdio.h. -/
def BUFSIZ : Nat := 8192

section Strings

/-- The C string at the start of a byte array. -/
def cstr (bytes : List UInt8) : List UInt8 :=
  bytes.takeWhile (fun b => b != 0)

theorem cstr_length_le
    (bytes : List UInt8) :
    (cstr bytes).length ≤ bytes.length :=
  (List.takeWhile_prefix _).length_le

/-- Bytes without a zero in front of a string extend it. -/
theorem cstr_append
    {bytes : List UInt8}
    (h : 0 ∉ bytes)
    (rest : List UInt8) :
    cstr (bytes ++ rest) = bytes ++ cstr rest := by
  apply List.takeWhile_append_of_pos
  intro b hb
  simp only [bne_iff_ne, ne_eq]
  rintro rfl
  exact h hb

theorem cstr_eq_self
    {bytes : List UInt8}
    (h : 0 ∉ bytes) :
    cstr bytes = bytes := by
  simpa [cstr] using cstr_append h []

/-- A stored terminator ends the string, if nothing before does. -/
theorem cstr_append_zero
    (bytes rest : List UInt8) :
    cstr (bytes ++ 0 :: rest) = cstr bytes := by
  induction bytes with
  | nil =>
      rfl
  | cons b bytes ih =>
      simp only [cstr, List.cons_append, List.takeWhile_cons] at ih ⊢
      rw [ih]

/-- A C string holds no zero byte. -/
theorem zero_not_mem_cstr
    (bytes : List UInt8) :
    0 ∉ cstr bytes := by
  intro hmem
  have hne := List.mem_takeWhile_imp hmem
  simp at hne

theorem cstr_eq_self_iff
    (bytes : List UInt8) :
    cstr bytes = bytes ↔ 0 ∉ bytes := by
  refine ⟨fun h => ?_, cstr_eq_self⟩
  rw [← h]
  exact zero_not_mem_cstr bytes

/-- Cutting the bytes cuts the string. -/
theorem cstr_take
    (bytes : List UInt8) (n : Nat) :
    cstr (bytes.take n) = (cstr bytes).take n := by
  induction bytes generalizing n with
  | nil =>
      simp [cstr]
  | cons b bytes ih =>
      cases n with
      | zero =>
          rfl
      | succ n =>
          simp only [cstr, List.take_succ_cons, List.takeWhile_cons] at ih ⊢
          split_ifs
          · rw [ih, List.take_succ_cons]
          · rfl

/-- The string is at the start of the bytes. -/
theorem take_length_cstr
    (bytes : List UInt8) :
    bytes.take (cstr bytes).length = cstr bytes :=
  (List.prefix_iff_eq_take.mp (List.takeWhile_prefix _)).symm

/-- `strstr`: the rest of the string from the first occurrence on. -/
def strstr : List UInt8 → List UInt8 → Option (List UInt8)
  | [], needle => if needle = [] then some [] else none
  | c :: haystack, needle =>
      if needle.isPrefixOf (c :: haystack) then some (c :: haystack)
      else strstr haystack needle

/-- `strstr` finds a word exactly when it occurs. -/
theorem strstr_isSome_iff
    (haystack needle : List UInt8) :
    (strstr haystack needle).isSome = true ↔ needle <:+: haystack := by
  induction haystack with
  | nil =>
      by_cases h : needle = [] <;> simp [strstr, h]
  | cons c haystack ih =>
      rw [List.infix_cons_iff]
      by_cases h : needle.isPrefixOf (c :: haystack) = true
      · have hstart := List.isPrefixOf_iff_prefix.mp h
        simp [strstr, h, hstart]
      · have hstart : ¬ needle <+: c :: haystack :=
          fun hp => h (List.isPrefixOf_iff_prefix.mpr hp)
        rw [← ih]
        simp [strstr, h, hstart]

end Strings

section Words

variable {α : Type u}

/-- A word that avoids `x` lies on one side of every `x`. -/
theorem infix_append_cons_iff
    {word l r : List α} {x : α}
    (hx : x ∉ word)
    (hne : word ≠ []) :
    word <:+: l ++ x :: r ↔ word <:+: l ∨ word <:+: r := by
  constructor
  · rw [List.infix_append_iff]
    rintro (hl | hr | ⟨l₁, l₂, heq, hl₁, hl₂⟩)
    · exact Or.inl hl
    · rcases List.infix_cons_iff.mp hr with hstart | hinside
      · cases word with
        | nil =>
            exact absurd rfl hne
        | cons w word =>
            have hw := (List.cons_prefix_cons.mp hstart).1
            exact absurd (by simp [hw]) hx
      · exact Or.inr hinside
    · -- a word that straddles the end of `l` would contain `x`
      cases l₂ with
      | nil =>
          left
          rw [heq, List.append_nil]
          exact hl₁.isInfix
      | cons y l₂ =>
          have hy := (List.cons_prefix_cons.mp hl₂).1
          exact absurd (by simp [heq, hy]) hx
  · rintro (h | h)
    · exact List.infix_append_of_infix_left h
    · exact List.infix_append_of_infix_right (List.infix_cons h)

end Words

section Compare

/-- `strncmp(a, b, n) == 0`. -/
def strncmpEq : List UInt8 → List UInt8 → Nat → Bool
  | _, _, 0 => true
  | a, b, n + 1 =>
      if a.headD 0 = b.headD 0 then
        if a.headD 0 = 0 then true else strncmpEq a.tail b.tail n
      else false

theorem strncmpEq_comm
    (a b : List UInt8) (n : Nat) :
    strncmpEq a b n = strncmpEq b a n := by
  induction n generalizing a b with
  | zero =>
      rfl
  | succ n ih =>
      by_cases h : a.headD 0 = b.headD 0
      · simp only [strncmpEq, h, ih a.tail b.tail]
      · simp only [strncmpEq, h, Ne.symm h, if_false]

/-- Without a zero in the word, all its bytes are compared. -/
theorem strncmpEq_iff
    {word : List UInt8}
    (hword : 0 ∉ word)
    (a : List UInt8) :
    strncmpEq a word word.length = true ↔ a.take word.length = word := by
  induction word generalizing a with
  | nil =>
      simp [strncmpEq]
  | cons b word ih =>
      have hb : b ≠ 0 := fun h => hword (by simp [h])
      have hrest : 0 ∉ word := fun h => hword (List.mem_cons_of_mem b h)
      cases a with
      | nil =>
          simp [strncmpEq, hb.symm]
      | cons c a =>
          by_cases hc : c = b
          · subst hc
            simp [strncmpEq, hb, ih hrest]
          · simp [strncmpEq, hc]

end Compare

end CString
end SysProg
