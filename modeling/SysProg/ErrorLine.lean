import SysProg.Lib.StringBuffer

/-!
# The error lines of APUE/err_routine.c and APUE/err_daemon.c

`err_doit` and `log_doit` print a message into a buffer of `MAXLINE` bytes, behind it the text
of an error number if they are asked to, and append a newline.  The first two steps cut what
does not fit, and leave one byte more than they need: the newline takes it, so the last step has
no check.

The message is what `fmt` and its arguments produce, of any length; `strerror` gives a text of
any length.  The string functions are those of `StringBuffer`: a store outside the buffer gives
`none`.

**Results.** `format_holds`: the buffer then holds the message and the error text, cut to
`MAXLINE - 2` characters, and a newline.  `error_lines_fit`: this is the line that both
functions put out, and no store is outside the buffer.
-/

namespace SysProg
namespace ErrorLine

open CString StringBuffer

section Program

def MAXLINE : Nat := 4096

/-- A difference of type `size_t`. -/
def sizeSub (a b : Nat) : Nat :=
  (a + 2 ^ 64 - b) % 2 ^ 64

/-- `": "` and `"\n"` -/
def separator : List UInt8 := [58, 32]

/-- `snprintf(buf + strlen(buf), MAXLINE - strlen(buf) - 1, ": %s", strerror(error))` -/
def appendError (buf : StringBuffer MAXLINE) (errorText : List UInt8) :
    Option (StringBuffer MAXLINE) :=
  buf.strlen.bind fun len =>
    buf.snprintf len (sizeSub (sizeSub MAXLINE len) 1) (separator ++ cstr errorText)

/-- The part that the two functions share. -/
def format (strerror : Int → List UInt8) (errnoflag error : Int) (message : List UInt8)
    (buf : StringBuffer MAXLINE) : Option (StringBuffer MAXLINE) :=
  (buf.snprintf 0 (MAXLINE - 1) message).bind fun printed =>
    (if errnoflag ≠ 0 then appendError printed (strerror error) else some printed).bind
      fun complete => complete.strcat [newline]

/-- What is written to stderr. -/
def errDoit (strerror : Int → List UInt8) (errnoflag error : Int) (message : List UInt8)
    (buf : StringBuffer MAXLINE) : Option (List UInt8) :=
  (format strerror errnoflag error message buf).bind StringBuffer.string

inductive Output where
  | stderr (line : List UInt8)
  | syslog (priority : Int) (line : List UInt8)
deriving DecidableEq, Repr

def logDoit (logToStderr : Int) (strerror : Int → List UInt8) (errnoflag error priority : Int)
    (message : List UInt8) (buf : StringBuffer MAXLINE) : Option Output :=
  (format strerror errnoflag error message buf).bind fun complete =>
    complete.string.map fun line =>
      if logToStderr ≠ 0 then .stderr line else .syslog priority line

end Program

section Lines

variable {buf : StringBuffer MAXLINE} {text : List UInt8}

/-- The whole that is to be printed: both texts are C strings. -/
def wholeText (strerror : Int → List UInt8) (errnoflag error : Int) (message : List UInt8) :
    List UInt8 :=
  cstr message ++ if errnoflag ≠ 0 then separator ++ cstr (strerror error) else []

/-- The whole, cut to `MAXLINE - 2` characters, and a newline. -/
def errorLine (strerror : Int → List UInt8) (errnoflag error : Int) (message : List UInt8) :
    List UInt8 :=
  (wholeText strerror errnoflag error message).take (MAXLINE - 2) ++ [newline]

theorem sizeSub_eq
    {a b : Nat}
    (hb : b ≤ a)
    (ha : a < 2 ^ 64) :
    sizeSub a b = a - b := by
  unfold sizeSub
  omega

/-- What is left of the buffer behind a string, without the byte for the newline. -/
theorem room_behind
    {len : Nat}
    (hlen : len ≤ MAXLINE - 2) :
    sizeSub (sizeSub MAXLINE len) 1 = MAXLINE - 1 - len := by
  unfold MAXLINE at *
  have hfirst : sizeSub 4096 len = 4096 - len := sizeSub_eq (by omega) (by omega)
  rw [hfirst, sizeSub_eq (by omega) (by omega)]
  omega

/-- Two texts printed one behind the other are cut as one. -/
theorem take_append_take
    (first second : List UInt8) (n : Nat) :
    first.take n ++ second.take (n - (first.take n).length) = (first ++ second).take n := by
  rw [List.take_append, List.length_take]
  congr 2
  omega

theorem cstr_separator_append
    (errorText : List UInt8) :
    cstr (separator ++ cstr errorText) = separator ++ cstr errorText := by
  rw [cstr_append (by decide), cstr_eq_self (zero_not_mem_cstr errorText)]

theorem appendError_holds
    (h : Holds buf text)
    (hlength : text.length ≤ MAXLINE - 2)
    (errorText : List UInt8) :
    ∃ buf', appendError buf errorText = some buf' ∧
      Holds buf' (text ++ (separator ++ cstr errorText).take (MAXLINE - 2 - text.length)) := by
  have hpos : 0 < MAXLINE - 1 - text.length := by
    unfold MAXLINE at *
    omega
  have hsize : text.length + (MAXLINE - 1 - text.length) ≤ MAXLINE := by omega
  obtain ⟨buf', hprint, hholds⟩ := h.snprintf hpos hsize (separator ++ cstr errorText)
  refine ⟨buf', ?_, ?_⟩
  · rw [appendError, h.strlen, Option.bind_some, room_behind hlength, hprint]
  · have hcut : MAXLINE - 1 - text.length - 1 = MAXLINE - 2 - text.length := by omega
    rwa [cstr_separator_append, hcut] at hholds

/-- Before the newline, the buffer holds the whole text, cut. -/
theorem printed_holds
    (strerror : Int → List UInt8) (errnoflag error : Int) (message : List UInt8)
    (buf : StringBuffer MAXLINE) :
    ∃ printed complete,
      buf.snprintf 0 (MAXLINE - 1) message = some printed ∧
      (if errnoflag ≠ 0 then appendError printed (strerror error) else some printed) =
        some complete ∧
      Holds complete ((wholeText strerror errnoflag error message).take (MAXLINE - 2)) := by
  obtain ⟨printed, hprint, hholds⟩ :=
    holds_snprintf buf (show 0 < MAXLINE - 1 by decide) (Nat.sub_le MAXLINE 1) message
  have hcut : MAXLINE - 1 - 1 = MAXLINE - 2 := rfl
  rw [hcut] at hholds
  by_cases hflag : errnoflag ≠ 0
  · have hlength : ((cstr message).take (MAXLINE - 2)).length ≤ MAXLINE - 2 :=
      List.length_take_le _ _
    obtain ⟨complete, happend, hboth⟩ := appendError_holds hholds hlength (strerror error)
    refine ⟨printed, complete, hprint, ?_, ?_⟩
    · rw [if_pos hflag, happend]
    · rw [take_append_take] at hboth
      rw [wholeText, if_pos hflag]
      exact hboth
  · refine ⟨printed, printed, hprint, if_neg hflag, ?_⟩
    rw [wholeText, if_neg hflag, List.append_nil]
    exact hholds

/-- The newline and the terminator still fit. -/
theorem format_holds
    (strerror : Int → List UInt8) (errnoflag error : Int) (message : List UInt8)
    (buf : StringBuffer MAXLINE) :
    ∃ buf', format strerror errnoflag error message buf = some buf' ∧
      Holds buf' (errorLine strerror errnoflag error message) := by
  obtain ⟨printed, complete, hprint, hcomplete, hholds⟩ :=
    printed_holds strerror errnoflag error message buf
  have hline : cstr [newline] = [newline] := by rfl
  have hlength : ((wholeText strerror errnoflag error message).take (MAXLINE - 2)).length ≤
      MAXLINE - 2 := List.length_take_le _ _
  have hroom : ((wholeText strerror errnoflag error message).take (MAXLINE - 2)).length +
      (cstr [newline]).length < MAXLINE := by
    rw [hline]
    simp only [List.length_singleton, MAXLINE] at *
    omega
  obtain ⟨buf', hcat, hend⟩ := hholds.strcat hroom
  refine ⟨buf', ?_, ?_⟩
  · rw [format, hprint, Option.bind_some, hcomplete, Option.bind_some, hcat]
  · rw [hline] at hend
    exact hend

/--
For every message and error text, of any length, and any bytes in the buffer at first: no store
is outside the buffer, and the line is the whole text, cut to `MAXLINE - 2` characters, with a
newline.
-/
theorem error_lines_fit
    (strerror : Int → List UInt8) (errnoflag error priority logToStderr : Int)
    (message : List UInt8) (buf : StringBuffer MAXLINE) :
    errDoit strerror errnoflag error message buf =
        some (errorLine strerror errnoflag error message) ∧
    logDoit logToStderr strerror errnoflag error priority message buf =
        some (if logToStderr ≠ 0 then .stderr (errorLine strerror errnoflag error message)
          else .syslog priority (errorLine strerror errnoflag error message)) := by
  obtain ⟨buf', hformat, hholds⟩ := format_holds strerror errnoflag error message buf
  constructor
  · rw [errDoit, hformat, Option.bind_some, hholds.string]
  · rw [logDoit, hformat, Option.bind_some, hholds.string, Option.map_some]

end Lines

end ErrorLine
end SysProg
