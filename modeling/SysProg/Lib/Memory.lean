import SysProg.Lib.CString
import Mathlib.Tactic

/-!
# Stores into a byte array

An array is the list of its bytes.  `poke` overwrites the bytes from an index on and leaves the
others; the array keeps its length as long as the store ends inside it.  The lemmas say what is
read in front of the store and from its place on, and what a C string that was stored there
makes of the string in the array.
-/

namespace SysProg
namespace Memory

open CString

universe u

section Poke

variable {α : Type u}

/-- Overwrite the bytes from index `i` on. -/
def poke (mem : List α) (i : Nat) (bytes : List α) : List α :=
  mem.take i ++ bytes ++ mem.drop (i + bytes.length)

theorem length_poke
    {mem bytes : List α} {i : Nat}
    (h : i + bytes.length ≤ mem.length) :
    (poke mem i bytes).length = mem.length := by
  simp only [poke, List.length_append, List.length_take, List.length_drop]
  omega

/-- What is in front of the store stays. -/
theorem take_poke
    {mem : List α} {i k : Nat}
    (hk : k ≤ i)
    (hi : i ≤ mem.length)
    (bytes : List α) :
    (poke mem i bytes).take k = mem.take k := by
  have hlen : k ≤ (mem.take i).length := by
    rw [List.length_take]
    omega
  rw [poke, List.append_assoc, List.take_append_of_le_length hlen, List.take_take,
    Nat.min_eq_left hk]

theorem drop_poke
    {mem : List α} {i : Nat}
    (hi : i ≤ mem.length)
    (bytes : List α) :
    (poke mem i bytes).drop i = bytes ++ mem.drop (i + bytes.length) := by
  have hlen : (mem.take i).length = i := by
    rw [List.length_take]
    omega
  rw [poke, List.append_assoc, List.drop_append_of_le_length (Nat.le_of_eq hlen.symm),
    List.drop_eq_nil_of_le (Nat.le_of_eq hlen), List.nil_append]

end Poke

section Strings

variable {mem : List UInt8} {i : Nat}

/-- The string at the place where a string was stored. -/
theorem cstr_drop_poke
    (hi : i ≤ mem.length)
    (bytes : List UInt8) :
    cstr ((poke mem i (bytes ++ [0])).drop i) = cstr bytes := by
  rw [drop_poke hi, List.append_assoc]
  exact cstr_append_zero bytes _

/-- A string stored behind bytes without a zero continues them. -/
theorem cstr_poke
    (hi : i ≤ mem.length)
    (hzero : 0 ∉ mem.take i)
    (bytes : List UInt8) :
    cstr (poke mem i (bytes ++ [0])) = mem.take i ++ cstr bytes := by
  rw [← List.take_append_drop i (poke mem i (bytes ++ [0])), take_poke (Nat.le_refl i) hi,
    cstr_append hzero, cstr_drop_poke hi]

end Strings

end Memory
end SysProg
