import SysProg.Lib.Memory
import Mathlib.Tactic

/-!
# Strings in a buffer of a fixed size

A buffer has a fixed number of bytes, whatever they are at first.  Stores are checked: one that
does not end inside the buffer gives `none`, and so does a search for the terminator of a string
that has none inside.

`Holds buf text` says that the buffer holds the string `text`, terminated.  There is one rule
for each function of the C library: `snprintf` at the start of the buffer or behind its string,
and `strcat`.  The first two cut what they print, the last does not.
-/

namespace SysProg

open CString Memory

/-- An array of `cap` bytes. -/
structure StringBuffer (cap : Nat) where
  bytes : List UInt8
  length_eq : bytes.length = cap

namespace StringBuffer

variable {cap : Nat}

section Functions

/-- A store from index `i` on. -/
def store (buf : StringBuffer cap) (i : Nat) (bytes : List UInt8) : Option (StringBuffer cap) :=
  if h : i + bytes.length ≤ cap then
    some
      ⟨poke buf.bytes i bytes, by
        have hinside : i + bytes.length ≤ buf.bytes.length := by
          rw [buf.length_eq]
          exact h
        rw [length_poke hinside, buf.length_eq]⟩
  else none

/-- The string in the buffer, if its terminator is inside. -/
def string (buf : StringBuffer cap) : Option (List UInt8) :=
  if 0 ∈ buf.bytes then some (cstr buf.bytes) else none

def strlen (buf : StringBuffer cap) : Option Nat :=
  buf.string.map List.length

/-- `snprintf` to index `i`, for a format that produces `text`. -/
def snprintf
    (buf : StringBuffer cap) (i size : Nat) (text : List UInt8) :
    Option (StringBuffer cap) :=
  if size = 0 then some buf else buf.store i (text.take (size - 1) ++ [0])

def strcat (buf : StringBuffer cap) (text : List UInt8) : Option (StringBuffer cap) :=
  buf.strlen.bind fun len => buf.store len (cstr text ++ [0])

end Functions

section Rules

variable {buf : StringBuffer cap} {text : List UInt8}

/-- The buffer holds the string. -/
structure Holds (buf : StringBuffer cap) (text : List UInt8) : Prop where
  cstr_eq : cstr buf.bytes = text
  terminated : 0 ∈ buf.bytes

theorem Holds.string
    (h : Holds buf text) :
    buf.string = some text := by
  rw [StringBuffer.string, if_pos h.terminated, h.cstr_eq]

theorem Holds.strlen
    (h : Holds buf text) :
    buf.strlen = some text.length := by
  rw [StringBuffer.strlen, h.string, Option.map_some]

/-- A string that is stored behind bytes without a terminator continues them. -/
theorem store_string
    {i : Nat}
    (buf : StringBuffer cap)
    (hzero : 0 ∉ buf.bytes.take i)
    (bytes : List UInt8)
    (hroom : i + bytes.length < cap) :
    ∃ buf', buf.store i (bytes ++ [0]) = some buf' ∧
      Holds buf' (buf.bytes.take i ++ cstr bytes) := by
  have hi : i ≤ buf.bytes.length := by
    rw [buf.length_eq]
    omega
  have hinside : i + (bytes ++ [0]).length ≤ cap := by
    rw [List.length_append, List.length_singleton]
    omega
  rw [store, dif_pos hinside]
  refine ⟨_, rfl, cstr_poke hi hzero bytes, ?_⟩
  simp [poke]

theorem Holds.take_eq
    (h : Holds buf text) :
    buf.bytes.take text.length = text := by
  rw [← h.cstr_eq]
  exact take_length_cstr buf.bytes

theorem Holds.zero_not_mem
    (h : Holds buf text) :
    0 ∉ text := by
  rw [← h.cstr_eq]
  exact zero_not_mem_cstr buf.bytes

theorem Holds.store
    (h : Holds buf text)
    (bytes : List UInt8)
    (hroom : text.length + bytes.length < cap) :
    ∃ buf', buf.store text.length (bytes ++ [0]) = some buf' ∧
      Holds buf' (text ++ cstr bytes) := by
  have hzero : 0 ∉ buf.bytes.take text.length := by
    rw [h.take_eq]
    exact h.zero_not_mem
  obtain ⟨buf', hstore, hholds⟩ := store_string buf hzero bytes hroom
  rw [h.take_eq] at hholds
  exact ⟨buf', hstore, hholds⟩

/-- Printing to the start of the buffer. -/
theorem holds_snprintf
    {size : Nat}
    (buf : StringBuffer cap)
    (hpos : 0 < size)
    (hsize : size ≤ cap)
    (more : List UInt8) :
    ∃ buf', buf.snprintf 0 size more = some buf' ∧ Holds buf' ((cstr more).take (size - 1)) := by
  have hroom : 0 + (more.take (size - 1)).length < cap := by
    rw [List.length_take]
    omega
  obtain ⟨buf', hstore, hholds⟩ :=
    store_string buf List.not_mem_nil (more.take (size - 1)) hroom
  refine ⟨buf', ?_, ?_⟩
  · rw [snprintf, if_neg (by omega), hstore]
  · rw [← cstr_take]
    exact hholds

/-- Printing behind the string in the buffer. -/
theorem Holds.snprintf
    {size : Nat}
    (h : Holds buf text)
    (hpos : 0 < size)
    (hsize : text.length + size ≤ cap)
    (more : List UInt8) :
    ∃ buf', buf.snprintf text.length size more = some buf' ∧
      Holds buf' (text ++ (cstr more).take (size - 1)) := by
  have hroom : text.length + (more.take (size - 1)).length < cap := by
    rw [List.length_take]
    omega
  obtain ⟨buf', hstore, hholds⟩ := h.store (more.take (size - 1)) hroom
  refine ⟨buf', ?_, ?_⟩
  · rw [StringBuffer.snprintf, if_neg (by omega), hstore]
  · rw [← cstr_take]
    exact hholds

/-- Appending needs room for the text and the terminator. -/
theorem Holds.strcat
    (h : Holds buf text)
    {more : List UInt8}
    (hroom : text.length + (cstr more).length < cap) :
    ∃ buf', buf.strcat more = some buf' ∧ Holds buf' (text ++ cstr more) := by
  obtain ⟨buf', hstore, hholds⟩ := h.store (cstr more) hroom
  refine ⟨buf', ?_, ?_⟩
  · rw [StringBuffer.strcat, h.strlen, Option.bind_some, hstore]
  · rwa [cstr_eq_self (zero_not_mem_cstr more)] at hholds

end Rules

end StringBuffer
end SysProg
