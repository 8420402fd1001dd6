import Mathlib.Data.Nat.Digits.Defs
import Mathlib.Data.Nat.Digits.Lemmas
import Mathlib.Tactic

/-!
# Decimal numbers as bytes

`printInt` writes a number as `%d` does and `scanInt` reads one as `strtol` and `%d` do:
white space, a sign and digits.  Reading gives back what was printed (`scanInt_printInt`),
so that different numbers are printed differently.

The conversions of C are those of a machine with 32 bits in an `int` and 64 in a `long`:
`strtol` saturates, and a conversion to `int` and a sum of two values wrap around.
-/

namespace SysProg
namespace Decimal

section Digits

def plus : UInt8 := 43
def minus : UInt8 := 45

def isDigit (b : UInt8) : Bool :=
  48 ≤ b.toNat && b.toNat ≤ 57

/-- A blank, or one of the characters from the tabulator to the carriage return. -/
def isSpace (b : UInt8) : Bool :=
  b.toNat == 32 || (9 ≤ b.toNat && b.toNat ≤ 13)

def digit (d : Nat) : UInt8 :=
  UInt8.ofNat (48 + d)

theorem toNat_digit
    {d : Nat}
    (hd : d < 10) :
    (digit d).toNat = 48 + d := by
  rw [digit, UInt8.toNat_ofNat', Nat.mod_eq_of_lt (by omega)]

/-- The number that digits stand for, the first one being the most significant. -/
def readDigits (ds : List UInt8) : Nat :=
  ds.foldl (fun n b => 10 * n + (b.toNat - 48)) 0

def printNat (n : Nat) : List UInt8 :=
  if n = 0 then [digit 0] else (Nat.digits 10 n).reverse.map digit

theorem readDigits_map_digit
    {ds : List Nat}
    (hds : ∀ d ∈ ds, d < 10) :
    readDigits (ds.reverse.map digit) = Nat.ofDigits 10 ds := by
  induction ds with
  | nil =>
      rfl
  | cons d ds ih =>
      have hd := toNat_digit (hds d (by simp))
      have hrest := ih (fun e he => hds e (List.mem_cons_of_mem d he))
      rw [readDigits] at hrest
      simp only [readDigits, List.reverse_cons, List.map_append, List.map_cons, List.map_nil,
        List.foldl_append, List.foldl_cons, List.foldl_nil, hrest, hd, Nat.ofDigits_cons]
      omega

@[simp] theorem readDigits_printNat
    (n : Nat) :
    readDigits (printNat n) = n := by
  unfold printNat
  split_ifs with hn
  · rw [hn]
    rfl
  · rw [readDigits_map_digit (fun d hd => Nat.digits_lt_base (by omega) hd),
      Nat.ofDigits_digits]

theorem isDigit_of_mem_printNat
    {n : Nat} {b : UInt8}
    (hb : b ∈ printNat n) :
    isDigit b = true := by
  have hdigit : ∀ d < 10, isDigit (digit d) = true := by
    intro d hd
    simp only [isDigit, toNat_digit hd, Bool.and_eq_true, decide_eq_true_eq]
    omega
  unfold printNat at hb
  split_ifs at hb with hn
  · rw [List.mem_singleton.mp hb]
    exact hdigit 0 (by omega)
  · obtain ⟨d, hd, rfl⟩ := List.mem_map.mp hb
    exact hdigit d (Nat.digits_lt_base (by omega) (List.mem_reverse.mp hd))

theorem printNat_ne_nil
    (n : Nat) :
    printNat n ≠ [] := by
  unfold printNat
  split_ifs with hn
  · simp
  · simpa using Nat.digits_ne_nil_iff_ne_zero.mpr hn

theorem length_printNat_le
    {n k : Nat}
    (hk : 0 < k)
    (hn : n < 10 ^ k) :
    (printNat n).length ≤ k := by
  unfold printNat
  split_ifs
  · exact hk
  · rw [List.length_map, List.length_reverse]
    exact (Nat.digits_length_le_iff (by omega) n).mpr hn

end Digits

section Numbers

def printInt (v : Int) : List UInt8 :=
  if v < 0 then minus :: printNat v.natAbs else printNat v.natAbs

/-- A sign, as a factor, and what follows. -/
def scanSign : List UInt8 → Int × List UInt8
  | [] => (1, [])
  | b :: rest =>
      if b = minus then (-1, rest)
      else if b = plus then (1, rest)
      else (1, b :: rest)

/-- White space, a sign and digits; the number, and what is behind it. -/
def scanInt (bytes : List UInt8) : Option (Int × List UInt8) :=
  let (sign, rest) := scanSign (bytes.dropWhile isSpace)
  if rest.takeWhile isDigit = [] then none
  else some (sign * readDigits (rest.takeWhile isDigit), rest.dropWhile isDigit)

/-- A number in a form that can be read. -/
structure Numeral where
  spaces : List UInt8
  /-- the sign that is written, if there is one: whether it is a minus -/
  sign : Option Bool
  digits : List UInt8
  allSpaces : ∀ b ∈ spaces, isSpace b = true
  allDigits : ∀ b ∈ digits, isDigit b = true
  nonempty : digits ≠ []

def Numeral.signBytes (x : Numeral) : List UInt8 :=
  match x.sign with
  | none => []
  | some true => [minus]
  | some false => [plus]

def Numeral.bytes (x : Numeral) : List UInt8 :=
  x.spaces ++ (x.signBytes ++ x.digits)

def Numeral.number (x : Numeral) : Int :=
  (if x.sign = some true then -1 else 1) * readDigits x.digits

theorem not_isSpace_of_isDigit
    {b : UInt8}
    (hb : isDigit b = true) :
    isSpace b = false := by
  simp only [isDigit, Bool.and_eq_true, decide_eq_true_eq] at hb
  simp only [isSpace, Bool.or_eq_false_iff, beq_eq_false_iff_ne, Bool.and_eq_false_iff,
    decide_eq_false_iff_not]
  omega

theorem ne_sign_of_isDigit
    {b : UInt8}
    (hb : isDigit b = true) :
    b ≠ minus ∧ b ≠ plus := by
  constructor
  · rintro rfl
    exact absurd hb (by decide)
  · rintro rfl
    exact absurd hb (by decide)

variable (x : Numeral)

/-- The digits start with a digit. -/
theorem Numeral.exists_digit :
    ∃ b rest, x.digits = b :: rest ∧ isDigit b = true := by
  obtain ⟨b, rest, heq⟩ := List.exists_cons_of_ne_nil x.nonempty
  exact ⟨b, rest, heq, x.allDigits b (by simp [heq])⟩

theorem Numeral.dropWhile_spaces
    (rest : List UInt8) :
    (x.bytes ++ rest).dropWhile isSpace = x.signBytes ++ (x.digits ++ rest) := by
  rw [Numeral.bytes, List.append_assoc, List.append_assoc,
    List.dropWhile_append_of_pos x.allSpaces]
  obtain ⟨b, ds, heq, hb⟩ := x.exists_digit
  unfold Numeral.signBytes
  split
  · rw [heq]
    exact List.dropWhile_cons_of_neg (by simp [not_isSpace_of_isDigit hb])
  · exact List.dropWhile_cons_of_neg (by decide)
  · exact List.dropWhile_cons_of_neg (by decide)

theorem Numeral.scanSign_signBytes
    (rest : List UInt8) :
    scanSign (x.signBytes ++ (x.digits ++ rest)) =
      (if x.sign = some true then -1 else 1, x.digits ++ rest) := by
  obtain ⟨b, ds, heq, hb⟩ := x.exists_digit
  obtain ⟨hminus, hplus⟩ := ne_sign_of_isDigit hb
  unfold Numeral.signBytes
  split
  · rename_i hsign
    simp [heq, scanSign, hminus, hplus, hsign]
  · rename_i hsign
    simp [scanSign, hsign]
  · rename_i hsign
    simp [scanSign, hsign, plus, minus]

/-- A numeral is read up to the first byte that is not a digit. -/
theorem Numeral.scanInt_bytes
    {rest : List UInt8}
    (hrest : ∀ b ∈ rest.head?, isDigit b = false) :
    scanInt (x.bytes ++ rest) = some (x.number, rest) := by
  have hstop : rest.takeWhile isDigit = [] ∧ rest.dropWhile isDigit = rest := by
    cases rest with
    | nil =>
        exact ⟨rfl, rfl⟩
    | cons b rest =>
        have hb : ¬ isDigit b = true := by simp [hrest b (by simp)]
        exact ⟨List.takeWhile_cons_of_neg hb, List.dropWhile_cons_of_neg hb⟩
  have htake : (x.digits ++ rest).takeWhile isDigit = x.digits := by
    rw [List.takeWhile_append_of_pos x.allDigits, hstop.1, List.append_nil]
  have hdrop : (x.digits ++ rest).dropWhile isDigit = rest := by
    rw [List.dropWhile_append_of_pos x.allDigits, hstop.2]
  simp only [scanInt, x.dropWhile_spaces, x.scanSign_signBytes, htake, hdrop, x.nonempty,
    if_false, Numeral.number]

/-- The numeral that `printInt` writes. -/
def printed (v : Int) : Numeral where
  spaces := []
  sign := if v < 0 then some true else none
  digits := printNat v.natAbs
  allSpaces := by simp
  allDigits := fun _ => isDigit_of_mem_printNat
  nonempty := printNat_ne_nil _

theorem printed_bytes
    (v : Int) :
    (printed v).bytes = printInt v := by
  by_cases hv : v < 0 <;> simp [Numeral.bytes, Numeral.signBytes, printed, printInt, hv]

theorem printed_number
    (v : Int) :
    (printed v).number = v := by
  by_cases hv : v < 0
  · simp only [Numeral.number, printed, hv, if_true, readDigits_printNat]
    omega
  · simp only [Numeral.number, printed, hv, if_false, readDigits_printNat, reduceCtorEq]
    omega

theorem scanInt_printInt
    (v : Int) :
    scanInt (printInt v) = some (v, []) := by
  have hscan : scanInt ((printed v).bytes ++ []) = some ((printed v).number, []) :=
    (printed v).scanInt_bytes (by simp)
  rw [List.append_nil, printed_bytes, printed_number] at hscan
  exact hscan

theorem printInt_injective :
    Function.Injective printInt := by
  intro v w heq
  have hscan := scanInt_printInt v
  rw [heq, scanInt_printInt w] at hscan
  simpa using hscan.symm

theorem zero_not_mem_printInt
    (v : Int) :
    0 ∉ printInt v := by
  have hnat : 0 ∉ printNat v.natAbs := fun h => absurd (isDigit_of_mem_printNat h) (by decide)
  unfold printInt
  split_ifs
  · rw [List.mem_cons, not_or]
    exact ⟨by decide, hnat⟩
  · exact hnat

end Numbers

section Machine

/-- The values of an `int`. -/
def IntFits (v : Int) : Prop :=
  -2 ^ 31 ≤ v ∧ v < 2 ^ 31

instance (v : Int) : Decidable (IntFits v) :=
  inferInstanceAs (Decidable (_ ∧ _))

/-- The conversion to `int`. -/
def toInt (v : Int) : Int :=
  v.bmod (2 ^ 32)

/-- The value that `strtol` returns for a number. -/
def toLong (v : Int) : Int :=
  max (-2 ^ 63) (min (2 ^ 63 - 1) v)

/-- The sum of two values of type `int`. -/
def addInt (a b : Int) : Int :=
  toInt (a + b)

/-- `atoi`, which is 0 if there is no number. -/
def atoi (bytes : List UInt8) : Int :=
  match scanInt bytes with
  | none => 0
  | some (v, _) => toInt (toLong v)

/-- `sscanf` with the format "%d%d", if it returns 2. -/
def scanTwo (bytes : List UInt8) : Option (Int × Int) :=
  match scanInt bytes with
  | none => none
  | some (v, rest) =>
      match scanInt rest with
      | none => none
      | some (w, _) => some (toInt (toLong v), toInt (toLong w))

theorem toInt_fits
    (v : Int) :
    IntFits (toInt v) := by
  have hle := Int.le_bmod (x := v) (m := 2 ^ 32) (by decide)
  have hlt := Int.bmod_lt (x := v) (m := 2 ^ 32) (by decide)
  unfold IntFits toInt
  constructor <;> omega

/-- The conversion gives the number in the range of `int` that differs by a multiple of 2³². -/
theorem toInt_eq_iff
    {v w : Int} :
    toInt v = w ↔ IntFits w ∧ (w - v) % 2 ^ 32 = 0 := by
  constructor
  · rintro rfl
    refine ⟨toInt_fits v, ?_⟩
    have hemod := Int.bmod_emod (x := v) (m := 2 ^ 32)
    unfold toInt
    omega
  · rintro ⟨hfits, hmod⟩
    have hemod := Int.bmod_emod (x := v) (m := 2 ^ 32)
    obtain ⟨hle, hlt⟩ := toInt_fits v
    obtain ⟨hle', hlt'⟩ := hfits
    unfold toInt at *
    omega

theorem toInt_of_fits
    {v : Int}
    (h : IntFits v) :
    toInt v = v := by
  rw [toInt_eq_iff]
  exact ⟨h, by simp⟩

theorem length_printInt_le
    {v : Int}
    (h : IntFits v) :
    (printInt v).length ≤ 11 := by
  have hlen : (printNat v.natAbs).length ≤ 10 := by
    obtain ⟨hle, hlt⟩ := h
    exact length_printNat_le (by omega) (by omega)
  unfold printInt
  split_ifs
  · rw [List.length_cons]
    omega
  · omega

theorem atoi_bytes
    (x : Numeral) :
    atoi x.bytes = toInt (toLong x.number) := by
  have hscan : scanInt (x.bytes ++ []) = some (x.number, []) := x.scanInt_bytes (by simp)
  rw [List.append_nil] at hscan
  simp only [atoi, hscan]

end Machine

end Decimal
end SysProg
