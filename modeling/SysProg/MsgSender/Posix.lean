import SysProg.Lib.CString
import SysProg.Lib.Lines
import Mathlib.Tactic

/-!
# The sender of ALSP/posix_msq.c

`start_msq_sender` reads a file with `fgets` into a buffer of `LEN_RBUF` bytes and sends each
piece as a message, one byte shorter than the piece.  The byte is meant to be the newline; it is
another one when the line is longer than the buffer or when the file does not end with a
newline.  ALSP/posix_msg_sigev.c has the same function.

**Results.** `text_kept_iff`: if `mq_send` always succeeds, the messages put together are the
file without its newlines, exactly if every line ends with a newline and fits into the buffer.
-/

namespace SysProg
namespace MsgSender
namespace Posix

open CString Lines

section Program

def LEN_RBUF : Nat := 512

/-- `strnlen(rbuf, sizeof(rbuf)) - 1` -/
def lenRbuf (rbuf : List UInt8) : Int :=
  (cstr rbuf).length - 1

/-- What `mq_send` is given. -/
def message (rbuf : List UInt8) : List UInt8 :=
  rbuf.take (lenRbuf rbuf).toNat

/-- The loop over what `fgets` returns; `mqSend` says which calls of `mq_send` succeed. -/
def sendLoop (mqSend : Nat → Bool) : Nat → List (List UInt8) → List (List UInt8)
  | _, [] => []
  | call, rbuf :: rest =>
      if mqSend call then message rbuf :: sendLoop mqSend (call + 1) rest else []

/-- The messages that are sent for a file. -/
def startMsqSender (mqSend : Nat → Bool) (file : List UInt8) : List (List UInt8) :=
  sendLoop mqSend 0 (chunks newline (LEN_RBUF - 1) file)

end Program

section Results

variable {mqSend : Nat → Bool}

theorem sendLoop_eq_map
    (hsend : ∀ call, mqSend call = true)
    (call : Nat) (pieces : List (List UInt8)) :
    sendLoop mqSend call pieces = pieces.map message := by
  induction pieces generalizing call with
  | nil =>
      rfl
  | cons rbuf rest ih =>
      simp [sendLoop, hsend, ih]

theorem message_eq_dropLast
    {rbuf : List UInt8}
    (hzero : 0 ∉ rbuf) :
    message rbuf = rbuf.dropLast := by
  have hlen : (lenRbuf rbuf).toNat = rbuf.length - 1 := by
    rw [lenRbuf, cstr_eq_self hzero]
    omega
  rw [message, hlen, List.dropLast_eq_take]

/-- A message is as long as the text exactly if a newline was dropped, and shorter otherwise. -/
theorem length_dropLast_lt
    {rbuf : List UInt8}
    (h : IsLine newline rbuf)
    (hend : rbuf.getLast? ≠ some newline) :
    rbuf.dropLast.length < (rbuf.filter (fun b => b != newline)).length := by
  have hpos := List.length_pos_of_ne_nil h.ne_nil
  rw [h.filter_ne, if_neg hend, List.length_dropLast]
  omega

theorem length_dropLast_le
    {rbuf : List UInt8}
    (h : IsLine newline rbuf) :
    rbuf.dropLast.length ≤ (rbuf.filter (fun b => b != newline)).length := by
  by_cases hend : rbuf.getLast? = some newline
  · rw [h.filter_ne, if_pos hend]
  · exact Nat.le_of_lt (length_dropLast_lt h hend)

/-- The messages are the text of the pieces, if all pieces end with a newline and only then. -/
theorem flatten_eq_iff
    {pieces : List (List UInt8)}
    (hlines : ∀ rbuf ∈ pieces, IsLine newline rbuf)
    (hzero : ∀ rbuf ∈ pieces, 0 ∉ rbuf) :
    (pieces.map message).flatten = pieces.flatten.filter (fun b => b != newline) ↔
      ∀ rbuf ∈ pieces, rbuf.getLast? = some newline := by
  have hmessages : pieces.map message = pieces.map List.dropLast :=
    List.map_congr_left (fun rbuf hrbuf => message_eq_dropLast (hzero rbuf hrbuf))
  rw [hmessages, List.filter_flatten]
  constructor
  · intro heq
    by_contra hnot
    simp only [not_forall] at hnot
    obtain ⟨rbuf, hrbuf, hend⟩ := hnot
    -- the lengths differ as soon as one of them does
    have hlt := List.sum_lt_sum (fun rbuf => rbuf.dropLast.length)
      (fun rbuf => (rbuf.filter (fun b => b != newline)).length)
      (fun rbuf hmem => length_dropLast_le (hlines rbuf hmem))
      ⟨rbuf, hrbuf, length_dropLast_lt (hlines rbuf hrbuf) hend⟩
    have hlen := congrArg List.length heq
    rw [List.length_flatten, List.length_flatten, List.map_map, List.map_map] at hlen
    exact absurd hlen (Nat.ne_of_lt hlt)
  · intro hends
    congr 1
    refine List.map_congr_left (fun rbuf hrbuf => ?_)
    rw [(hlines rbuf hrbuf).filter_ne, if_pos (hends rbuf hrbuf)]

/--
With `mq_send` succeeding, the messages put together are the file without its newlines, exactly
if every line of the file ends with a newline and has at most `LEN_RBUF - 1` bytes.
-/
theorem text_kept_iff
    {file : List UInt8}
    (hzero : 0 ∉ file)
    (hsend : ∀ call, mqSend call = true) :
    (startMsqSender mqSend file).flatten = file.filter (fun b => b != newline) ↔
      ∀ line ∈ splitLines newline file,
        line.getLast? = some newline ∧ line.length ≤ LEN_RBUF - 1 := by
  have hflatten : (chunks newline (510 + 1) file).flatten = file := flatten_chunks file
  have hkept := flatten_eq_iff
    (fun rbuf hrbuf => (isLine_of_mem_chunks (n := 510) hrbuf).1)
    (fun rbuf hrbuf => not_mem_of_mem_chunks hzero hrbuf)
  rw [hflatten] at hkept
  rw [startMsqSender, sendLoop_eq_map hsend]
  refine hkept.trans ?_
  rw [chunks_splitLines]
  simp only [List.forall_mem_flatMap]
  refine forall₂_congr (fun line hline => ?_)
  exact chunks_end_iff (isLine_of_mem_splitLines hline)

end Results

section Example

/-- "ab" and "c", both with a newline. -/
theorem text_kept_two_lines :
    (∀ call : Nat, (fun _ => true) call = true) ∧
    (startMsqSender (fun _ => true) [97, 98, 10, 99, 10]).flatten = [97, 98, 99] :=
  ⟨fun _ => rfl,
    (@text_kept_iff (fun _ => true) [97, 98, 10, 99, 10] (by decide) (fun _ => rfl)).mpr
      (by decide)⟩

/-- The last line has no newline, and loses its last letter. -/
theorem text_lost_at_end :
    startMsqSender (fun _ => true) [97, 98, 10, 99, 100] = [[97, 98], [99]] ∧
    (startMsqSender (fun _ => true) [97, 98, 10, 99, 100]).flatten ≠
      [97, 98, 10, 99, 100].filter (fun b => b != newline) :=
  ⟨by decide, by decide⟩

end Example
end Posix
end MsgSender
end SysProg
