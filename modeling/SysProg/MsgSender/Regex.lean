import SysProg.Lib.CString
import SysProg.Lib.Decimal
import SysProg.Lib.Memory
import Mathlib.Tactic

/-!
# The sender of ALSP/sysv_msg_regex.c

A line that matches `DEFAULT_REGEX_STR` becomes a message: the number in the first group is its
type, the second group its body.  Both groups are copied into arrays with a terminator behind
them, the first one into the ten bytes of `mbuf`, and the pattern has no bound on the digits.

**Steps.** `regexec` finds the groups of the one pattern that the program compiles.  A match at
the start of a string is unique, so that it is the leftmost and longest one: `regexec_bytes` and
`exists_of_regexec` say that the table describes exactly the matches.  What `fgets` returns has
a newline at its end only, so that "^" matches nowhere else.  `turn` is one turn of the loop,
with whatever the arrays hold, and `sendLoop` the loop.

**Results.** `sent_iff`: a matching line is copied within the arrays and handed to `msgsnd` with
its number and its second group, exactly if the number has at most nine digits.  This is about
what `msgsnd` is given: a message with the number 0 is refused by the kernel.
-/

namespace SysProg
namespace MsgSender
namespace Regex

open CString Decimal Memory

section Program

def LEN_MQ_MTEXT : Nat := 512

/-- The size of `mbuf`. -/
def LEN_MBUF : Nat := 0xa

def comma : UInt8 := 44

/-- `[a-zA-Z ]` -/
def isLetter (b : UInt8) : Bool :=
  b.toNat == 32 || (65 ≤ b.toNat && b.toNat ≤ 90) || (97 ≤ b.toNat && b.toNat ≤ 122)

/-- `regmatch_t` of a group that matched. -/
structure Regmatch where
  rmSo : Nat
  rmEo : Nat
deriving DecidableEq, Repr

/-- `regexec` for "^([0-9]+),([a-zA-Z ]+[0-9]{4})", with the entries of the two groups. -/
def regexec (s : List UInt8) : Option (Regmatch × Regmatch) :=
  let number := s.takeWhile isDigit
  match s.dropWhile isDigit with
  | [] => none
  | b :: tail =>
      let letters := tail.takeWhile isLetter
      let year := (tail.dropWhile isLetter).take 4
      if number ≠ [] ∧ b = comma ∧ letters ≠ [] ∧ year.length = 4 ∧ year.all isDigit then
        some
          (⟨0, number.length⟩, ⟨number.length + 1, number.length + 1 + (letters.length + 4)⟩)
      else none

/-- `COPY_RMTAB`, or nothing if it writes behind the array. -/
def copyRmtab (dest src : List UInt8) (matchtab : Regmatch) : Option (List UInt8) :=
  let len := matchtab.rmEo - matchtab.rmSo
  if len + 1 ≤ dest.length then
    some (poke dest 0 ((src.drop matchtab.rmSo).take len ++ [0]))
  else none

/-- `atol` -/
def atol (bytes : List UInt8) : Int :=
  match scanInt bytes with
  | none => 0
  | some (v, _) => toLong v

/-- `struct mq_buf`, with as many bytes of `mtext` as `msgsnd` is told. -/
structure MqBuf where
  mtype : Int
  mtext : List UInt8
deriving DecidableEq, Repr

/-- The arrays of `start_msq_sender`. -/
structure Arrays where
  mbuf : List UInt8
  mtext : List UInt8
deriving DecidableEq, Repr

/-- What a turn of the loop comes to. -/
inductive Turn where
  /-- REG_NOMATCH -/
  | noMatch
  /-- the arguments of `msgsnd` -/
  | msgsnd (arrays : Arrays) (buf : MqBuf)
  /-- a store behind an array -/
  | undefined
deriving DecidableEq, Repr

/-- One turn, for what `fgets` has stored in `rbuf`. -/
def turn (arrays : Arrays) (rbuf : List UInt8) : Turn :=
  match regexec (cstr rbuf) with
  | none => .noMatch
  | some (first, second) =>
      match copyRmtab arrays.mbuf rbuf first with
      | none => .undefined
      | some mbuf =>
          match copyRmtab arrays.mtext rbuf second with
          | none => .undefined
          | some mtext =>
              .msgsnd ⟨mbuf, mtext⟩
                ⟨atol (cstr mbuf), mtext.take (second.rmEo - second.rmSo)⟩

/-- The messages that the queue takes, and whether a store went wrong. -/
def sendLoop (room : Nat → Bool) :
    Nat → Arrays → List (List UInt8) → List MqBuf × Bool
  | _, _, [] => ([], false)
  | call, arrays, rbuf :: rest =>
      match turn arrays rbuf with
      | .noMatch => sendLoop room call arrays rest
      | .undefined => ([], true)
      | .msgsnd next buf =>
          if room call ∧ 1 ≤ buf.mtype then
            let (sent, wrong) := sendLoop room (call + 1) next rest
            (buf :: sent, wrong)
          else ([], false)

end Program

section Matches

/-- The groups of a match. -/
structure Match where
  number : List UInt8
  letters : List UInt8
  year : List UInt8
  number_ne_nil : number ≠ []
  allDigits : ∀ b ∈ number, isDigit b = true
  letters_ne_nil : letters ≠ []
  allLetters : ∀ b ∈ letters, isLetter b = true
  length_year : year.length = 4
  yearDigits : ∀ b ∈ year, isDigit b = true

/-- The second group. -/
def Match.body (m : Match) : List UInt8 :=
  m.letters ++ m.year

def Match.bytes (m : Match) : List UInt8 :=
  m.number ++ comma :: m.body

/-- The entries of the table. -/
def Match.table (m : Match) : Regmatch × Regmatch :=
  (⟨0, m.number.length⟩, ⟨m.number.length + 1, m.number.length + 1 + m.body.length⟩)

theorem not_isLetter_of_isDigit
    {b : UInt8}
    (hb : isDigit b = true) :
    ¬ isLetter b = true := by
  simp only [isDigit, Bool.and_eq_true, decide_eq_true_eq] at hb
  simp only [isLetter, Bool.or_eq_true, beq_iff_eq, Bool.and_eq_true, decide_eq_true_eq]
  omega

variable (m : Match)

theorem Match.length_body :
    m.body.length = m.letters.length + 4 := by
  rw [Match.body, List.length_append, m.length_year]

/-- Whatever follows it, the match is found. -/
theorem regexec_bytes
    (rest : List UInt8) :
    regexec (m.bytes ++ rest) = some m.table := by
  obtain ⟨y, ys, hyear⟩ := List.exists_cons_of_length_pos (by rw [m.length_year]; omega)
  have hy : ¬ isLetter y = true := not_isLetter_of_isDigit (m.yearDigits y (by simp [hyear]))
  have hcomma : ¬ isDigit comma = true := by decide
  have htake : (m.bytes ++ rest).takeWhile isDigit = m.number := by
    rw [Match.bytes, List.append_assoc, List.takeWhile_append_of_pos m.allDigits,
      List.cons_append, List.takeWhile_cons_of_neg hcomma, List.append_nil]
  have hdrop : (m.bytes ++ rest).dropWhile isDigit = comma :: (m.body ++ rest) := by
    rw [Match.bytes, List.append_assoc, List.dropWhile_append_of_pos m.allDigits,
      List.cons_append, List.dropWhile_cons_of_neg hcomma]
  have hletters : (m.body ++ rest).takeWhile isLetter = m.letters := by
    rw [Match.body, List.append_assoc, List.takeWhile_append_of_pos m.allLetters, hyear,
      List.cons_append, List.takeWhile_cons_of_neg hy, List.append_nil]
  have hyears : ((m.body ++ rest).dropWhile isLetter).take 4 = m.year := by
    rw [Match.body, List.append_assoc, List.dropWhile_append_of_pos m.allLetters, hyear,
      List.cons_append, List.dropWhile_cons_of_neg hy, ← List.cons_append, ← hyear,
      ← m.length_year, List.take_left]
  simp only [regexec, htake, hdrop, hletters, hyears]
  rw [if_pos ⟨m.number_ne_nil, trivial, m.letters_ne_nil, m.length_year,
    List.all_eq_true.mpr m.yearDigits⟩, Match.table, m.length_body]

/-- What is found is a match. -/
theorem exists_of_regexec
    {s : List UInt8} {table : Regmatch × Regmatch}
    (h : regexec s = some table) :
    ∃ (m : Match) (rest : List UInt8), s = m.bytes ++ rest ∧ table = m.table := by
  have hs := List.takeWhile_append_dropWhile (p := isDigit) (l := s)
  cases hdrop : s.dropWhile isDigit with
  | nil =>
      simp [regexec, hdrop] at h
  | cons b tail =>
      have htail := List.takeWhile_append_dropWhile (p := isLetter) (l := tail)
      have hyear := List.take_append_drop 4 (tail.dropWhile isLetter)
      simp only [regexec, hdrop] at h
      obtain ⟨⟨hnumber, rfl, hletters, hlength, hdigits⟩, htable⟩ :=
        Option.ite_none_right_eq_some.mp h
      let m : Match :=
        { number := s.takeWhile isDigit
          letters := tail.takeWhile isLetter
          year := (tail.dropWhile isLetter).take 4
          number_ne_nil := hnumber
          allDigits := fun _ => List.mem_takeWhile_imp
          letters_ne_nil := hletters
          allLetters := fun _ => List.mem_takeWhile_imp
          length_year := hlength
          yearDigits := List.all_eq_true.mp hdigits }
      refine ⟨m, (tail.dropWhile isLetter).drop 4, ?_, ?_⟩
      · rw [Match.bytes, Match.body, List.append_assoc, List.cons_append, List.append_assoc]
        change s = s.takeWhile isDigit ++ comma :: (tail.takeWhile isLetter ++
          ((tail.dropWhile isLetter).take 4 ++ (tail.dropWhile isLetter).drop 4))
        rw [hyear, htail, ← hdrop, hs]
      · rw [Match.table, m.length_body]
        exact (Option.some.inj htable).symm

end Matches

section Results

variable {arrays : Arrays} {m : Match} {rest : List UInt8}

/-- The arrays have their sizes. -/
structure Sized (arrays : Arrays) : Prop where
  mbuf : arrays.mbuf.length = LEN_MBUF
  mtext : arrays.mtext.length = LEN_MQ_MTEXT

theorem zero_not_mem_bytes
    (m : Match) :
    0 ∉ m.bytes := by
  have hzero : isDigit 0 = false ∧ isLetter 0 = false ∧ (0 : UInt8) ≠ comma := by decide
  simp only [Match.bytes, Match.body, List.mem_append, List.mem_cons, not_or]
  refine ⟨fun h => ?_, hzero.2.2, fun h => ?_, fun h => ?_⟩
  · exact absurd (m.allDigits 0 h) (by simp [hzero.1])
  · exact absurd (m.allLetters 0 h) (by simp [hzero.2.1])
  · exact absurd (m.yearDigits 0 h) (by simp [hzero.1])

theorem readDigits_lt
    {ds : List UInt8}
    (hds : ∀ b ∈ ds, isDigit b = true) :
    readDigits ds < 10 ^ ds.length := by
  -- with a number in front, which the fold starts with
  have hfold : ∀ (ds : List UInt8) (n : Nat), (∀ b ∈ ds, isDigit b = true) →
      ds.foldl (fun n b => 10 * n + (b.toNat - 48)) n < (n + 1) * 10 ^ ds.length := by
    intro ds
    induction ds with
    | nil =>
        intro n _
        simp
    | cons b ds ih =>
        intro n hds
        have hb := hds b List.mem_cons_self
        simp only [isDigit, Bool.and_eq_true, decide_eq_true_eq] at hb
        have hrest := ih (10 * n + (b.toNat - 48))
          (fun c hc => hds c (List.mem_cons_of_mem b hc))
        have hle : (10 * n + (b.toNat - 48) + 1) * 10 ^ ds.length ≤
            ((n + 1) * 10) * 10 ^ ds.length :=
          Nat.mul_le_mul_right _ (by omega)
        rw [List.foldl_cons, List.length_cons, Nat.pow_succ', ← Nat.mul_assoc]
        exact Nat.lt_of_lt_of_le hrest hle
  simpa [readDigits] using hfold ds 0 hds

/-- A number of at most nine digits is read as it is. -/
theorem atol_number
    (m : Match)
    (hlen : m.number.length ≤ 9) :
    atol m.number = readDigits m.number := by
  let x : Numeral :=
    { spaces := []
      sign := none
      digits := m.number
      allSpaces := by simp
      allDigits := m.allDigits
      nonempty := m.number_ne_nil }
  have hscan : scanInt (x.bytes ++ []) = some (x.number, []) := x.scanInt_bytes (by simp)
  have hnumber : x.number = readDigits m.number := by
    simp [Numeral.number, x]
  have hbytes : x.bytes ++ [] = m.number := by
    simp [Numeral.bytes, Numeral.signBytes, x]
  have hlt : readDigits m.number < 10 ^ 9 :=
    Nat.lt_of_lt_of_le (readDigits_lt m.allDigits) (Nat.pow_le_pow_right (by decide) hlen)
  rw [hbytes] at hscan
  simp only [atol, hscan, hnumber, toLong]
  omega

theorem copyRmtab_of_fits
    {dest src : List UInt8} {matchtab : Regmatch}
    (hfits : matchtab.rmEo - matchtab.rmSo + 1 ≤ dest.length) :
    copyRmtab dest src matchtab =
      some (poke dest 0
        ((src.drop matchtab.rmSo).take (matchtab.rmEo - matchtab.rmSo) ++ [0])) :=
  if_pos hfits

/-- The groups, read back from the line. -/
theorem groups_of_line
    (m : Match) (rest : List UInt8) :
    ((m.bytes ++ rest).drop m.table.1.rmSo).take (m.table.1.rmEo - m.table.1.rmSo) = m.number ∧
      ((m.bytes ++ rest).drop m.table.2.rmSo).take (m.table.2.rmEo - m.table.2.rmSo) =
        m.body := by
  constructor
  · simp [Match.table, Match.bytes]
  · have hdrop : (m.bytes ++ rest).drop (m.number.length + 1) = m.body ++ rest := by
      rw [Match.bytes, List.append_assoc, List.drop_append]
      simp
    simp only [Match.table, hdrop, Nat.add_sub_cancel_left, List.take_left]

theorem regexec_line
    (m : Match) (rest : List UInt8) :
    regexec (cstr (m.bytes ++ rest)) = some m.table := by
  rw [cstr_append (zero_not_mem_bytes m), regexec_bytes]

/-- The turn for a number of at most nine digits. -/
theorem turn_of_short
    (hsized : Sized arrays)
    (hlen : (m.bytes ++ rest).length < LEN_MQ_MTEXT)
    (hshort : m.number.length ≤ 9) :
    turn arrays (m.bytes ++ rest) =
      .msgsnd ⟨poke arrays.mbuf 0 (m.number ++ [0]), poke arrays.mtext 0 (m.body ++ [0])⟩
        ⟨readDigits m.number, m.body⟩ := by
  obtain ⟨hnumber, hbody⟩ := groups_of_line m rest
  have hfirst : m.table.1.rmEo - m.table.1.rmSo + 1 ≤ arrays.mbuf.length := by
    rw [hsized.mbuf]
    exact Nat.succ_le_succ hshort
  have hsecond : m.table.2.rmEo - m.table.2.rmSo + 1 ≤ arrays.mtext.length := by
    rw [hsized.mtext]
    simp only [Match.bytes, List.length_append, List.length_cons] at hlen
    simp only [Match.table, Nat.add_sub_cancel_left]
    omega
  have hzero : 0 ∉ m.number := by
    intro hmem
    exact absurd (m.allDigits 0 hmem) (by decide)
  have hstr : cstr (poke arrays.mbuf 0 (m.number ++ [0])) = m.number := by
    rw [cstr_poke (Nat.zero_le _) (by simp), cstr_eq_self hzero]
    rfl
  have htext : (poke arrays.mtext 0 (m.body ++ [0])).take (m.table.2.rmEo - m.table.2.rmSo) =
      m.body := by
    simp [poke, Match.table]
  simp only [turn, regexec_line, copyRmtab_of_fits hfirst, copyRmtab_of_fits hsecond, hnumber,
    hbody, hstr, htext, atol_number m hshort]

/-- More digits than that, and the first copy leaves its array. -/
theorem turn_of_long
    (hsized : Sized arrays)
    (hlong : ¬ m.number.length ≤ 9) :
    turn arrays (m.bytes ++ rest) = .undefined := by
  have hfirst : ¬ m.table.1.rmEo - m.table.1.rmSo + 1 ≤ arrays.mbuf.length := by
    rw [hsized.mbuf]
    exact fun hle => hlong (Nat.le_of_succ_le_succ hle)
  have hcopy : copyRmtab arrays.mbuf (m.bytes ++ rest) m.table.1 = none := if_neg hfirst
  simp only [turn, regexec_line, hcopy]

/--
A line of less than `LEN_MQ_MTEXT` bytes that matches: both copies stay inside their arrays and
`msgsnd` is given the number and the second group, exactly if the number has at most nine
digits.  A message that is given the type 0 is refused by `msgsnd`.
-/
theorem sent_iff
    (hsized : Sized arrays)
    (hlen : (m.bytes ++ rest).length < LEN_MQ_MTEXT) :
    (∃ next, turn arrays (m.bytes ++ rest) = .msgsnd next ⟨readDigits m.number, m.body⟩) ↔
      m.number.length ≤ 9 := by
  by_cases hshort : m.number.length ≤ 9
  · exact iff_of_true ⟨_, turn_of_short hsized hlen hshort⟩ hshort
  · refine iff_of_false ?_ hshort
    rintro ⟨next, hnext⟩
    rw [turn_of_long hsized hshort] at hnext
    cases hnext

/-- The message that a line stands for. -/
def expected (rbuf : List UInt8) : Option MqBuf :=
  match regexec (cstr rbuf) with
  | none => none
  | some (first, second) =>
      some
        ⟨readDigits ((rbuf.drop first.rmSo).take (first.rmEo - first.rmSo)),
          (rbuf.drop second.rmSo).take (second.rmEo - second.rmSo)⟩

/-- A line matches or not; in the first case it begins with its match. -/
theorem match_or_not
    (rbuf : List UInt8) :
    regexec (cstr rbuf) = none ∨ ∃ (m : Match) (rest : List UInt8), rbuf = m.bytes ++ rest := by
  cases hexec : regexec (cstr rbuf) with
  | none =>
      exact Or.inl rfl
  | some table =>
      right
      obtain ⟨m, rest, hstr, -⟩ := exists_of_regexec hexec
      refine ⟨m, rest ++ rbuf.dropWhile (fun b => b != 0), ?_⟩
      rw [← List.append_assoc, ← hstr]
      exact List.takeWhile_append_dropWhile.symm

theorem expected_bytes
    (m : Match) (rest : List UInt8) :
    expected (m.bytes ++ rest) = some ⟨readDigits m.number, m.body⟩ := by
  obtain ⟨hnumber, hbody⟩ := groups_of_line m rest
  simp only [expected, regexec_line, hnumber, hbody]

/--
A file in which no number has more than nine digits: the loop stores nothing behind an array,
and what it sends are the messages of the lines, up to the first one that the queue does not
take.
-/
theorem sendLoop_of_short
    {room : Nat → Bool} {call : Nat} {pieces : List (List UInt8)}
    (hsized : Sized arrays)
    (hlen : ∀ rbuf ∈ pieces, rbuf.length < LEN_MQ_MTEXT)
    (hshort : ∀ (m : Match) (rest : List UInt8), m.bytes ++ rest ∈ pieces → m.number.length ≤ 9) :
    (sendLoop room call arrays pieces).2 = false ∧
      (sendLoop room call arrays pieces).1 <+: pieces.filterMap expected := by
  induction pieces generalizing call arrays with
  | nil =>
      exact ⟨rfl, List.prefix_rfl⟩
  | cons rbuf pieces ih =>
      have hlen' := fun r hr => hlen r (List.mem_cons_of_mem rbuf hr)
      have hshort' := fun m rest hr => hshort m rest (List.mem_cons_of_mem rbuf hr)
      rcases match_or_not rbuf with hnone | ⟨m, rest, rfl⟩
      · have hturn : turn arrays rbuf = .noMatch := by simp only [turn, hnone]
        have hexpected : expected rbuf = none := by simp only [expected, hnone]
        simp only [sendLoop, hturn, List.filterMap_cons, hexpected]
        exact ih hsized hlen' hshort'
      · have hline := hlen _ List.mem_cons_self
        have hdigits := hshort m rest List.mem_cons_self
        have hnext : Sized
            ⟨poke arrays.mbuf 0 (m.number ++ [0]), poke arrays.mtext 0 (m.body ++ [0])⟩ := by
          refine ⟨(length_poke ?_).trans hsized.mbuf, (length_poke ?_).trans hsized.mtext⟩
          · rw [hsized.mbuf, List.length_append, List.length_singleton, LEN_MBUF]
            omega
          · rw [hsized.mtext, List.length_append, List.length_singleton]
            simp only [Match.bytes, List.length_append, List.length_cons] at hline
            omega
        simp only [sendLoop, turn_of_short hsized hline hdigits, List.filterMap_cons,
          expected_bytes]
        split_ifs
        · have hrest : (sendLoop room (call + 1) _ pieces).2 = false ∧ _ :=
            ih hnext hlen' hshort'
          exact ⟨hrest.1, List.cons_prefix_cons.mpr ⟨rfl, hrest.2⟩⟩
        · exact ⟨rfl, List.nil_prefix⟩

end Results

section Example

/-- "12,Jan 2024" -/
def january : Match where
  number := [49, 50]
  letters := [74, 97, 110, 32]
  year := [50, 48, 50, 52]
  number_ne_nil := by decide
  allDigits := List.all_eq_true.mp rfl
  letters_ne_nil := by decide
  allLetters := List.all_eq_true.mp rfl
  length_year := rfl
  yearDigits := List.all_eq_true.mp rfl

def zeroed : Arrays where
  mbuf := List.replicate LEN_MBUF 0
  mtext := List.replicate LEN_MQ_MTEXT 0

theorem sized_zeroed : Sized zeroed :=
  ⟨List.length_replicate, List.length_replicate⟩

theorem sent_january :
    ∃ next,
      turn zeroed (january.bytes ++ [10]) = .msgsnd next ⟨12, [74, 97, 110, 32, 50, 48, 50, 52]⟩ :=
  (@sent_iff zeroed january [10] sized_zeroed (by decide)).mpr (by decide)

/-- "1234567890,a0000": ten digits and a terminator go into ten bytes. -/
def tenDigits : Match where
  number := [49, 50, 51, 52, 53, 54, 55, 56, 57, 48]
  letters := [97]
  year := [48, 48, 48, 48]
  number_ne_nil := by decide
  allDigits := List.all_eq_true.mp rfl
  letters_ne_nil := by decide
  allLetters := List.all_eq_true.mp rfl
  length_year := rfl
  yearDigits := List.all_eq_true.mp rfl

theorem undefined_tenDigits :
    Sized zeroed ∧
    (tenDigits.bytes ++ [10]).length < LEN_MQ_MTEXT ∧
    turn zeroed (tenDigits.bytes ++ [10]) = .undefined ∧
    ¬ ∃ next, turn zeroed (tenDigits.bytes ++ [10]) =
      .msgsnd next ⟨readDigits tenDigits.number, tenDigits.body⟩ := by
  have hturn : turn zeroed (tenDigits.bytes ++ [10]) = .undefined :=
    turn_of_long sized_zeroed (by decide)
  refine ⟨sized_zeroed, by decide, hturn, ?_⟩
  rintro ⟨next, hnext⟩
  rw [hturn] at hnext
  cases hnext

end Example
end Regex
end MsgSender
end SysProg
