import SysProg.Lib.CString
import SysProg.Lib.Decimal
import SysProg.Lib.Lines
import Mathlib.Data.List.GetD
import Mathlib.Tactic

/-!
# The sender of ALSP/sysv_msg.c

A line of the file is a digit, a separator and a text.  `start_msq_sender` takes the type of the
message from the first byte and the body from the third byte on, three bytes shorter than what
`fgets` returned.  It stops at the first message that `msgsnd` does not take: `msgsnd` is called
with `IPC_NOWAIT` and refuses a type below 1.

The length is right for a line that `fgets` returns with its newline.  A piece of one or two
bytes makes it negative, and `memcpy` takes that for a huge number.

**Steps.** `sendLoop` is the loop over the pieces, `readLoop` the pieces it looks at; `room`
says which calls of `msgsnd` find room in the queue.

**Results.** `encodes_iff`: every length is between 0 and `LEN_MQ_MTEXT` and every line of the
form is sent with its digit and exactly its text, if and only if no piece has less than three
bytes, and each such line ends with a newline, fits into the buffer, and is reached and taken.
-/

namespace SysProg
namespace MsgSender
namespace SysV

open CString Decimal Lines

section Program

def LEN_MQ_MTEXT : Nat := 512

/-- `struct mq_buf`, with as many bytes of `mtext` as `msgsnd` is told. -/
structure MqBuf where
  mtype : Int
  mtext : List UInt8
deriving DecidableEq, Repr

/-- A `char`, which is signed. -/
def charValue (b : UInt8) : Int :=
  if b.toNat < 128 then b.toNat else b.toNat - 256

/-- `rbuf[0] - '0'` -/
def mtypeOf (rbuf : List UInt8) : Int :=
  charValue (rbuf.headD 0) - 48

/-- `strnlen(rbuf, LEN_MQ_MTEXT) - 3` -/
def lenMtext (rbuf : List UInt8) : Int :=
  (cstr rbuf).length - 3

/-- What `msgsnd` is given, if the `memcpy` is defined. -/
def mqBuf (rbuf : List UInt8) : MqBuf where
  mtype := mtypeOf rbuf
  mtext := (rbuf.drop 2).take (lenMtext rbuf).toNat

/-- The piece is copied and its message taken by the queue. -/
def taken (room : Nat → Bool) (call : Nat) (rbuf : List UInt8) : Bool :=
  decide (0 ≤ lenMtext rbuf) && room call && decide (1 ≤ mtypeOf rbuf)

/-- The messages that the loop sends for the pieces. -/
def sendLoop (room : Nat → Bool) : Nat → List (List UInt8) → List MqBuf
  | _, [] => []
  | call, rbuf :: rest =>
      if taken room call rbuf then mqBuf rbuf :: sendLoop room (call + 1) rest else []

/-- The pieces that the loop looks at. -/
def readLoop (room : Nat → Bool) : Nat → List (List UInt8) → List (List UInt8)
  | _, [] => []
  | call, rbuf :: rest =>
      rbuf :: if taken room call rbuf then readLoop room (call + 1) rest else []

/-- What `fgets` returns for a line, one piece after the other. -/
def fgetsLine (line : List UInt8) : List (List UInt8) :=
  chunks newline (LEN_MQ_MTEXT - 1) line

/-- What has been sent when the loop is at the end of these lines. -/
def sentAfter (room : Nat → Bool) (lines : List (List UInt8)) : List MqBuf :=
  sendLoop room 0 (lines.flatMap fgetsLine)

/-- The digit and the text of a line of the form digit, separator, text. -/
def form : List UInt8 → Option (UInt8 × List UInt8)
  | d :: separator :: rest =>
      if isDigit d ∧ separator ≠ newline then
        some (d, rest.filter (fun b => b != newline))
      else none
  | _ => none

/-- The loop copies between 0 and `LEN_MQ_MTEXT` bytes and sends every line of the form. -/
structure Encodes (room : Nat → Bool) (file : List UInt8) : Prop where
  memcpy :
    ∀ rbuf ∈ readLoop room 0 (chunks newline (LEN_MQ_MTEXT - 1) file),
      0 ≤ lenMtext rbuf ∧ lenMtext rbuf ≤ LEN_MQ_MTEXT
  lines :
    ∀ k < (splitLines newline file).length,
      ∀ p ∈ form ((splitLines newline file).getD k []),
        sentAfter room ((splitLines newline file).take (k + 1)) =
          sentAfter room ((splitLines newline file).take k) ++
            [⟨(p.1.toNat : Int) - 48, p.2⟩]

/-- A piece that can be copied, with room in the queue and a character above '0' in front. -/
def Acceptable (room : Nat → Bool) (call : Nat) (rbuf : List UInt8) : Prop :=
  3 ≤ rbuf.length ∧ room call = true ∧
    49 ≤ (rbuf.headD 0).toNat ∧ (rbuf.headD 0).toNat < 128

instance (room : Nat → Bool) (call : Nat) (rbuf : List UInt8) :
    Decidable (Acceptable room call rbuf) :=
  inferInstanceAs (Decidable (_ ∧ _ ∧ _ ∧ _))

/-- All pieces are acceptable, beginning with the given call. -/
def AllAcceptable (room : Nat → Bool) : Nat → List (List UInt8) → Prop
  | _, [] => True
  | call, rbuf :: rest => Acceptable room call rbuf ∧ AllAcceptable room (call + 1) rest

instance decidableAllAcceptable (room : Nat → Bool) :
    (call : Nat) → (pieces : List (List UInt8)) → Decidable (AllAcceptable room call pieces)
  | _, [] => .isTrue trivial
  | call, rbuf :: rest =>
      @instDecidableAnd _ _ (inferInstanceAs (Decidable (Acceptable room call rbuf)))
        (decidableAllAcceptable room (call + 1) rest)

/--
No piece that the loop looks at has less than three bytes, and each line of the form ends with a
newline, fits into the buffer and is reached and taken.
-/
structure Fits (room : Nat → Bool) (file : List UInt8) : Prop where
  pieces :
    ∀ rbuf ∈ readLoop room 0 (chunks newline (LEN_MQ_MTEXT - 1) file), 3 ≤ rbuf.length
  lines :
    ∀ k < (splitLines newline file).length,
      (form ((splitLines newline file).getD k [])).isSome →
        ((splitLines newline file).getD k []).getLast? = some newline ∧
        ((splitLines newline file).getD k []).length ≤ LEN_MQ_MTEXT - 1 ∧
        AllAcceptable room 0 (((splitLines newline file).take (k + 1)).flatMap fgetsLine)

end Program

section Loop

variable {room : Nat → Bool} {call : Nat} {pieces : List (List UInt8)}

theorem lenMtext_eq
    {rbuf : List UInt8}
    (hzero : 0 ∉ rbuf) :
    lenMtext rbuf = (rbuf.length : Int) - 3 := by
  rw [lenMtext, cstr_eq_self hzero]

/-- Which pieces are taken, in terms of their bytes. -/
theorem taken_iff
    {rbuf : List UInt8}
    (hzero : 0 ∉ rbuf) :
    taken room call rbuf = true ↔ Acceptable room call rbuf := by
  have hlen : (0 : Int) ≤ rbuf.length - 3 ↔ 3 ≤ rbuf.length := by omega
  have htype : 1 ≤ charValue (rbuf.headD 0) - 48 ↔
      49 ≤ (rbuf.headD 0).toNat ∧ (rbuf.headD 0).toNat < 128 := by
    have hlt := UInt8.toNat_lt (rbuf.headD 0)
    unfold charValue
    split_ifs <;> omega
  simp only [taken, Acceptable, lenMtext_eq hzero, mtypeOf, Bool.and_eq_true,
    decide_eq_true_eq, hlen, htype, and_assoc]

theorem sendLoop_append
    (hzero : ∀ rbuf ∈ pieces, 0 ∉ rbuf)
    (hall : AllAcceptable room call pieces)
    (rest : List (List UInt8)) :
    sendLoop room call (pieces ++ rest) =
      sendLoop room call pieces ++ sendLoop room (call + pieces.length) rest := by
  induction pieces generalizing call with
  | nil =>
      rfl
  | cons rbuf pieces ih =>
      obtain ⟨hacc, hrest⟩ := hall
      have htaken := (taken_iff (hzero rbuf List.mem_cons_self)).mpr hacc
      have hnext := ih (fun r hr => hzero r (List.mem_cons_of_mem rbuf hr)) hrest
      rw [List.cons_append, sendLoop, sendLoop, if_pos htaken, if_pos htaken, hnext,
        List.length_cons, Nat.add_assoc, Nat.add_comm 1]
      rfl

/-- Behind a message that is not taken, nothing is sent any more. -/
theorem sendLoop_append_of_not
    (hzero : ∀ rbuf ∈ pieces, 0 ∉ rbuf)
    (hstop : ¬ AllAcceptable room call pieces)
    (rest : List (List UInt8)) :
    sendLoop room call (pieces ++ rest) = sendLoop room call pieces := by
  induction pieces generalizing call with
  | nil =>
      exact absurd trivial hstop
  | cons rbuf pieces ih =>
      have hfirst : taken room call rbuf = true ↔ Acceptable room call rbuf :=
        taken_iff (hzero rbuf List.mem_cons_self)
      rw [List.cons_append, sendLoop, sendLoop]
      split_ifs with htaken
      · rw [ih (fun r hr => hzero r (List.mem_cons_of_mem rbuf hr))
          (fun hrest => hstop ⟨hfirst.mp htaken, hrest⟩)]
      · rfl

theorem allAcceptable_append
    (rest : List (List UInt8)) :
    AllAcceptable room call (pieces ++ rest) ↔
      AllAcceptable room call pieces ∧ AllAcceptable room (call + pieces.length) rest := by
  induction pieces generalizing call with
  | nil =>
      simp [AllAcceptable]
  | cons rbuf pieces ih =>
      simp only [List.cons_append, AllAcceptable, ih, List.length_cons, Nat.add_assoc,
        Nat.add_comm 1, and_assoc]

/-- The pieces that are read are pieces of the file. -/
theorem mem_of_mem_readLoop
    {rbuf : List UInt8}
    (hmem : rbuf ∈ readLoop room call pieces) :
    rbuf ∈ pieces := by
  induction pieces generalizing call with
  | nil =>
      cases hmem
  | cons first rest ih =>
      rw [readLoop, List.mem_cons] at hmem
      rcases hmem with rfl | hrest
      · exact List.mem_cons_self
      · split_ifs at hrest
        · exact List.mem_cons_of_mem first (ih hrest)
        · cases hrest

end Loop

section Lines

variable {room : Nat → Bool} {call : Nat} {line : List UInt8}

/-- A line of the form, with or without its newline. -/
theorem line_of_form
    (h : IsLine newline line)
    {d : UInt8} {text : List UInt8}
    (hform : form line = some (d, text)) :
    isDigit d = true ∧
      ∃ separator,
        (line.getLast? = some newline ∧ line = d :: separator :: (text ++ [newline])) ∨
        (line.getLast? ≠ some newline ∧ line = d :: separator :: text) := by
  match line with
  | [] =>
      cases hform
  | [_] =>
      cases hform
  | d' :: separator :: rest =>
      simp only [form] at hform
      split_ifs at hform with hguard
      cases hform
      refine ⟨hguard.1, separator, ?_⟩
      cases rest with
      | nil =>
          exact Or.inr ⟨by simpa using hguard.2, rfl⟩
      | cons b bs =>
          have hrest : IsLine newline (b :: bs) := by
            have htail := ((isLine_cons_iff (List.cons_ne_nil _ _)).mp h).2
            exact ((isLine_cons_iff (List.cons_ne_nil _ _)).mp htail).2
          have hlast : (d :: separator :: b :: bs).getLast? = (b :: bs).getLast? := by
            simp [List.getLast?_cons_cons]
          rw [hlast, hrest.filter_ne]
          split_ifs with hend
          · exact Or.inl ⟨hend, by rw [← hrest.eq_append hend]⟩
          · exact Or.inr ⟨hend, rfl⟩

/-- A line that has its newline is encoded with its digit and its text. -/
theorem mqBuf_line
    {d separator : UInt8} {text : List UInt8}
    (hd : isDigit d = true)
    (hzero : 0 ∉ d :: separator :: (text ++ [newline])) :
    mqBuf (d :: separator :: (text ++ [newline])) = ⟨(d.toNat : Int) - 48, text⟩ := by
  have hlen : (lenMtext (d :: separator :: (text ++ [newline]))).toNat = text.length := by
    rw [lenMtext_eq hzero]
    simp only [List.length_cons, List.length_append, List.length_nil]
    omega
  have hchar : charValue d = d.toNat := by
    simp only [isDigit, Bool.and_eq_true, decide_eq_true_eq] at hd
    rw [charValue, if_pos (by omega)]
  simp only [mqBuf, hlen, mtypeOf, List.headD_cons, hchar, List.drop_succ_cons, List.drop_zero,
    List.take_left]

/-- The body of a message is at least three bytes shorter than the piece. -/
theorem length_mtext_mqBuf
    {rbuf : List UInt8}
    (hzero : 0 ∉ rbuf) :
    (mqBuf rbuf).mtext.length ≤ rbuf.length - 3 := by
  simp only [mqBuf, List.length_take, lenMtext_eq hzero]
  omega

/-- A piece is too short for a text that is not at least three bytes shorter. -/
theorem sendLoop_ne_of_short
    {first : List UInt8} {rest : List (List UInt8)} {buf : MqBuf}
    (hzero : 0 ∉ first)
    (hshort : 3 ≤ first.length → first.length < buf.mtext.length + 3) :
    sendLoop room call (first :: rest) ≠ [buf] := by
  rw [sendLoop]
  split_ifs with htaken
  · intro hsent
    have hthree := ((taken_iff hzero).mp htaken).1
    have hlong := hshort hthree
    have hlen := length_mtext_mqBuf hzero
    rw [(List.cons.inj hsent).1] at hlen
    omega
  · simp

/-- A line of the form is sent as it should be: when, in terms of the line and the queue. -/
theorem line_sent_iff
    (h : IsLine newline line)
    (hzero : 0 ∉ line)
    {p : UInt8 × List UInt8}
    (hform : form line = some p) :
    sendLoop room call (fgetsLine line) = [⟨(p.1.toNat : Int) - 48, p.2⟩] ↔
      line.getLast? = some newline ∧ line.length ≤ LEN_MQ_MTEXT - 1 ∧
        AllAcceptable room call (fgetsLine line) := by
  obtain ⟨d, text⟩ := p
  obtain ⟨hd, separator, hline⟩ := line_of_form h hform
  by_cases hlen : line.length ≤ 510 + 1
  · have hfgets : fgetsLine line = [line] := chunks_isLine h hlen
    rw [hfgets]
    rcases hline with ⟨hend, heq⟩ | ⟨hend, heq⟩
    · have hbuf : mqBuf line = ⟨(d.toNat : Int) - 48, text⟩ := by
        rw [heq] at hzero ⊢
        exact mqBuf_line hd hzero
      have hfits : line.length ≤ LEN_MQ_MTEXT - 1 := hlen
      have htaken : taken room call line = true ↔ Acceptable room call line := taken_iff hzero
      simp only [sendLoop, AllAcceptable, and_true, hbuf, ← htaken]
      split_ifs with hyes
      · simp [hend, hfits, hyes]
      · simp [hyes]
    · -- the last byte of the text is cut off
      refine iff_of_false (sendLoop_ne_of_short hzero ?_) (fun hboth => hend hboth.1)
      simp [heq]
  · -- the first piece does not have the whole text
    obtain ⟨first, rest, hchunks, hfirst, -⟩ := chunks_long h (Nat.lt_of_not_le hlen)
    have hfgets : fgetsLine line = first :: rest := hchunks
    have hmem : first ∈ chunks newline (510 + 1) line := by
      rw [hchunks]
      exact List.mem_cons_self
    have hcount : line.length ≤ text.length + 3 := by
      rcases hline with ⟨-, heq⟩ | ⟨-, heq⟩ <;> simp [heq]
    rw [hfgets]
    refine iff_of_false (sendLoop_ne_of_short (not_mem_of_mem_chunks hzero hmem) ?_)
      (fun hboth => hlen hboth.2.1)
    intro _
    simp only
    omega

end Lines

section Results

variable {room : Nat → Bool} {file : List UInt8}

theorem zero_not_mem_of_flatMap
    {lines : List (List UInt8)} {rbuf : List UInt8}
    (hzero : ∀ line ∈ lines, 0 ∉ line)
    (hrbuf : rbuf ∈ lines.flatMap fgetsLine) :
    0 ∉ rbuf := by
  obtain ⟨line, hline, hpiece⟩ := List.mem_flatMap.mp hrbuf
  have hchunk : rbuf ∈ chunks newline (510 + 1) line := hpiece
  exact not_mem_of_mem_chunks (hzero line hline) hchunk

/-- One line more: it is sent exactly if all before it and it itself are taken. -/
theorem sentAfter_append_iff
    {before : List (List UInt8)} {line : List UInt8}
    (hbefore : ∀ l ∈ before, 0 ∉ l)
    (h : IsLine newline line)
    (hzero : 0 ∉ line)
    {p : UInt8 × List UInt8}
    (hform : form line = some p) :
    sentAfter room (before ++ [line]) =
        sentAfter room before ++ [⟨(p.1.toNat : Int) - 48, p.2⟩] ↔
      line.getLast? = some newline ∧ line.length ≤ LEN_MQ_MTEXT - 1 ∧
        AllAcceptable room 0 ((before ++ [line]).flatMap fgetsLine) := by
  have hpieces : ∀ rbuf ∈ before.flatMap fgetsLine, 0 ∉ rbuf :=
    fun rbuf hrbuf => zero_not_mem_of_flatMap hbefore hrbuf
  simp only [sentAfter, List.flatMap_append, List.flatMap_singleton, allAcceptable_append]
  by_cases hall : AllAcceptable room 0 (before.flatMap fgetsLine)
  · rw [sendLoop_append hpieces hall, List.append_cancel_left_eq, line_sent_iff h hzero hform]
    simp [hall]
  · rw [sendLoop_append_of_not hpieces hall]
    simp [hall]

/-- The length for a piece that the loop looks at. -/
theorem memcpy_iff
    (hzero : 0 ∉ file)
    {rbuf : List UInt8}
    (hrbuf : rbuf ∈ readLoop room 0 (chunks newline (LEN_MQ_MTEXT - 1) file)) :
    (0 ≤ lenMtext rbuf ∧ lenMtext rbuf ≤ LEN_MQ_MTEXT) ↔ 3 ≤ rbuf.length := by
  have hchunk : rbuf ∈ chunks newline (510 + 1) file := mem_of_mem_readLoop hrbuf
  have hlen := (isLine_of_mem_chunks hchunk).2
  rw [lenMtext_eq (not_mem_of_mem_chunks hzero hchunk), LEN_MQ_MTEXT]
  omega

/-- The line with number `k` of a file. -/
theorem sentAfter_line_iff
    (hzero : 0 ∉ file)
    {k : Nat}
    (hk : k < (splitLines newline file).length)
    {p : UInt8 × List UInt8}
    (hp : form ((splitLines newline file).getD k []) = some p) :
    sentAfter room ((splitLines newline file).take (k + 1)) =
        sentAfter room ((splitLines newline file).take k) ++
          [⟨(p.1.toNat : Int) - 48, p.2⟩] ↔
      ((splitLines newline file).getD k []).getLast? = some newline ∧
      ((splitLines newline file).getD k []).length ≤ LEN_MQ_MTEXT - 1 ∧
      AllAcceptable room 0 (((splitLines newline file).take (k + 1)).flatMap fgetsLine) := by
  have hlines : ∀ line ∈ splitLines newline file, 0 ∉ line := by
    intro line hline hmem
    apply hzero
    rw [← flatten_splitLines newline file]
    exact List.mem_flatten_of_mem hline hmem
  rw [List.getD_eq_getElem _ _ hk] at hp ⊢
  have hmem := List.getElem_mem hk
  rw [List.take_succ_eq_append_getElem hk]
  exact sentAfter_append_iff (fun l hl => hlines l (List.mem_of_mem_take hl))
    (isLine_of_mem_splitLines hmem) (hlines _ hmem) hp

/--
All lengths are in range and all lines of the form are sent, exactly if the pieces are long
enough and these lines are terminated, fit, and are reached and taken by the queue.
-/
theorem encodes_iff
    (hzero : 0 ∉ file) :
    Encodes room file ↔ Fits room file := by
  constructor
  · rintro ⟨hmemcpy, hall⟩
    refine ⟨fun rbuf hrbuf => (memcpy_iff hzero hrbuf).mp (hmemcpy rbuf hrbuf), ?_⟩
    intro k hk hform
    obtain ⟨p, hp⟩ := Option.isSome_iff_exists.mp hform
    exact (sentAfter_line_iff hzero hk hp).mp (hall k hk p hp)
  · rintro ⟨hlong, hall⟩
    refine ⟨fun rbuf hrbuf => (memcpy_iff hzero hrbuf).mpr (hlong rbuf hrbuf), ?_⟩
    intro k hk p hp
    exact (sentAfter_line_iff hzero hk hp).mpr
      (hall k hk (Option.isSome_iff_exists.mpr ⟨p, hp⟩))

end Results

section Example

/-- "1,hi", a note without a digit in front, and "2,x". -/
def threeLines : List UInt8 :=
  [49, 44, 104, 105, 10, 110, 111, 116, 101, 10, 50, 44, 120, 10]

instance (room : Nat → Bool) (file : List UInt8) : Decidable (Fits room file) :=
  decidable_of_iff
    ((∀ rbuf ∈ readLoop room 0 (chunks newline (LEN_MQ_MTEXT - 1) file), 3 ≤ rbuf.length) ∧
      ∀ k < (splitLines newline file).length,
        (form ((splitLines newline file).getD k [])).isSome →
          ((splitLines newline file).getD k []).getLast? = some newline ∧
          ((splitLines newline file).getD k []).length ≤ LEN_MQ_MTEXT - 1 ∧
          AllAcceptable room 0 (((splitLines newline file).take (k + 1)).flatMap fgetsLine))
    ⟨fun h => ⟨h.1, h.2⟩, fun h => ⟨h.1, h.2⟩⟩

theorem encodes_threeLines :
    Encodes (fun _ => true) threeLines :=
  (@encodes_iff (fun _ => true) threeLines (by decide)).mpr (by decide)

/-- An empty line: the length is -2, and the `memcpy` is not defined. -/
theorem not_encodes_empty_line :
    0 ∉ ([10] : List UInt8) ∧
    readLoop (fun _ => true) 0 (chunks newline (LEN_MQ_MTEXT - 1) [10]) = [[10]] ∧
    lenMtext [10] = -2 ∧
    ¬ Encodes (fun _ => true) [10] := by
  refine ⟨by decide, by decide, by decide, ?_⟩
  intro h
  exact absurd (h.memcpy [10] (by decide)).1 (by decide)

end Example
end SysV
end MsgSender
end SysProg
