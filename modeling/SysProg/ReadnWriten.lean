import Mathlib.Tactic

/-!
# `readn` and `writen` of APUE/rwn.c

The two functions call `read` or `write` until `n` bytes have been transferred, a call returns
0, or a call fails.  They are one loop, `transfer`, over a device: what a call of `k` bytes at
the position `ptr` of the buffer does.  The loop ends since each further turn has fewer bytes
left.

**Results.** `transfer_correct`: over any device, the loop returns -1 if the first call fails,
and otherwise the number of bytes that it has transferred, in at most `n` calls.
`readn_writen_correct`: `readn` fills the start of the buffer with the next bytes of the file,
and `writen` puts out the start of the buffer.
-/

namespace SysProg
namespace ReadnWriten

section Program

/--
The results of the calls, by their number and the length asked for: -1, or a count that is not
greater than this length.
-/
abbrev Kernel := Nat → (nleft : Nat) → Option (Fin (nleft + 1))

/-- A buffer and the `n` of a call; an object has less than 2^63 bytes. -/
structure Request where
  buf : List UInt8
  n : Nat
  n_le : n ≤ buf.length
  length_lt : buf.length < 2 ^ 63

/-- A `size_t` is returned as a `ssize_t`. -/
def toSsize (m : Nat) : Int :=
  if m < 2 ^ 63 then m else m - 2 ^ 64

structure Result (δ : Type) where
  ret : Int
  /-- the number of calls of `read` or `write` -/
  calls : Nat
  device : δ
deriving DecidableEq, Repr

/-- The loop, with `nleft` bytes left after some calls, at the position `ptr`. -/
def transfer {δ : Type} (kernel : Kernel) (move : Nat → Nat → δ → δ) (n : Nat)
    (nleft ptr calls : Nat) (device : δ) : Result δ :=
  if 0 < nleft then
    match kernel calls nleft with
    | none =>
        if nleft = n then ⟨-1, calls + 1, device⟩
        else ⟨toSsize (n - nleft), calls + 1, device⟩
    | some k =>
        if _ : k.val = 0 then ⟨toSsize (n - nleft), calls + 1, device⟩
        else transfer kernel move n (nleft - k) (ptr + k) (calls + 1) (move ptr k device)
  else ⟨toSsize (n - nleft), calls, device⟩
termination_by nleft
decreasing_by omega

/-- The buffer of `readn`, and the number of bytes taken from the file. -/
structure Reading where
  buf : List UInt8
  position : Nat
deriving DecidableEq, Repr

/-- `read` copies the next `k` bytes of the file to `ptr`. -/
def read (file : Nat → UInt8) (ptr k : Nat) (d : Reading) : Reading where
  buf :=
    d.buf.take ptr ++ (List.range k).map (fun i => file (d.position + i)) ++ d.buf.drop (ptr + k)
  position := d.position + k

/-- `write` puts out `k` bytes from `ptr` on. -/
def write (buf : List UInt8) (ptr k : Nat) (out : List UInt8) : List UInt8 :=
  out ++ (buf.drop ptr).take k

/-- The file is given by the bytes from its position on. -/
def readn (kernel : Kernel) (file : Nat → UInt8) (request : Request) : Result Reading :=
  transfer kernel (read file) request.n request.n 0 0 ⟨request.buf, 0⟩

def writen (kernel : Kernel) (request : Request) : Result (List UInt8) :=
  transfer kernel (write request.buf) request.n request.n 0 0 []

end Program

section Loop

variable {δ : Type} {kernel : Kernel} {move : Nat → Nat → δ → δ} {n : Nat}

/--
What the loop is for: `moved m` is the device after the first `m` bytes have been transferred.
-/
structure Correct (kernel : Kernel) (n : Nat) (moved : Nat → δ) (r : Result δ) : Prop where
  failed_iff : r.ret = -1 ↔ 0 < n ∧ kernel 0 n = none
  failed : r.ret = -1 → r.device = moved 0
  transferred :
    r.ret ≠ -1 →
      ∃ m ≤ n,
        r.ret = m ∧
        r.device = moved m ∧
        (m < n → ∃ i < r.calls, kernel i (n - m) = none ∨ kernel i (n - m) = some 0)
  calls_le : r.calls ≤ n

/-- The calls of a device add up: `k` bytes behind the first `m` make the first `m + k`. -/
def Moves (move : Nat → Nat → δ → δ) (moved : Nat → δ) (n : Nat) : Prop :=
  ∀ m k, m + k ≤ n → move m k (moved m) = moved (m + k)

/-- The loop has left at a call that returned 0 or failed, or with nothing left. -/
structure Stopped (kernel : Kernel) (n : Nat) (moved : Nat → δ) (m : Nat) (r : Result δ) :
    Prop where
  le : m ≤ n
  ret : r.ret = toSsize m
  device : r.device = moved m
  calls_le : r.calls ≤ n
  cut : m < n → ∃ i < r.calls, kernel i (n - m) = none ∨ kernel i (n - m) = some 0

variable {nleft ptr calls : Nat} {device : δ} {moved : Nat → δ}

theorem transfer_nothing_left :
    transfer kernel move n 0 ptr calls device = ⟨toSsize n, calls, device⟩ := by
  rw [transfer, if_neg (Nat.lt_irrefl 0), Nat.sub_zero]

theorem transfer_of_failed
    (hpos : 0 < nleft)
    (hcall : kernel calls nleft = none) :
    transfer kernel move n nleft ptr calls device =
      ⟨if nleft = n then -1 else toSsize (n - nleft), calls + 1, device⟩ := by
  rw [transfer, if_pos hpos, hcall]
  by_cases hfirst : nleft = n
  · simp [hfirst]
  · simp [hfirst]

theorem transfer_of_zero
    (hpos : 0 < nleft)
    (hcall : kernel calls nleft = some 0) :
    transfer kernel move n nleft ptr calls device =
      ⟨toSsize (n - nleft), calls + 1, device⟩ := by
  rw [transfer, if_pos hpos, hcall]
  simp

theorem transfer_of_count
    {k : Fin (nleft + 1)}
    (hk : k ≠ 0)
    (hcall : kernel calls nleft = some k) :
    transfer kernel move n nleft ptr calls device =
      transfer kernel move n (nleft - k) (ptr + k) (calls + 1) (move ptr k device) := by
  have hval : k.val ≠ 0 := fun hzero => hk (Fin.ext hzero)
  have hpos : 0 < nleft := by
    have := k.isLt
    omega
  rw [transfer, if_pos hpos, hcall]
  simp only [hval, dite_false]

/-- The loop leaves at a call that returned 0 or failed. -/
theorem stopped_at_call
    (hsum : ptr + nleft = n)
    (hcalls : calls ≤ ptr)
    (hpos : 0 < nleft)
    (hcall : kernel calls nleft = none ∨ kernel calls nleft = some 0) :
    Stopped kernel n moved ptr ⟨toSsize (n - nleft), calls + 1, moved ptr⟩ := by
  have hm : n - nleft = ptr := by omega
  refine ⟨by omega, by rw [hm], rfl, by simp only; omega, ?_⟩
  intro _
  obtain rfl : nleft = n - ptr := by omega
  exact ⟨calls, Nat.lt_succ_self calls, hcall⟩

/-- Once a byte has been transferred, the loop does not return -1. -/
theorem transfer_stopped
    (hmoves : Moves move moved n)
    (hsum : ptr + nleft = n)
    (hptr : 0 < ptr)
    (hcalls : calls ≤ ptr) :
    ∃ m, Stopped kernel n moved m (transfer kernel move n nleft ptr calls (moved ptr)) := by
  induction nleft using Nat.strong_induction_on generalizing ptr calls with
  | _ nleft ih =>
      rcases Nat.eq_zero_or_pos nleft with rfl | hpos
      · rw [transfer_nothing_left]
        obtain rfl : ptr = n := by omega
        exact ⟨ptr, le_refl ptr, rfl, rfl, hcalls, fun hlt => absurd hlt (lt_irrefl ptr)⟩
      · cases hcall : kernel calls nleft with
        | none =>
            rw [transfer_of_failed hpos hcall, if_neg (by omega)]
            exact ⟨ptr, stopped_at_call hsum hcalls hpos (Or.inl hcall)⟩
        | some k =>
            by_cases hzero : k = 0
            · subst hzero
              rw [transfer_of_zero hpos hcall]
              exact ⟨ptr, stopped_at_call hsum hcalls hpos (Or.inr hcall)⟩
            · have hk := k.isLt
              have hval : k.val ≠ 0 := fun h => hzero (Fin.ext h)
              rw [transfer_of_count hzero hcall, hmoves ptr k (by omega)]
              exact ih (nleft - k) (by omega) (by omega) (by omega) (by omega)

theorem correct_of_stopped
    {m : Nat} {r : Result δ}
    (hn : n < 2 ^ 63)
    (hfirst : ¬ (0 < n ∧ kernel 0 n = none))
    (h : Stopped kernel n moved m r) :
    Correct kernel n moved r := by
  have hle := h.le
  have hret : r.ret = m := by
    rw [h.ret, toSsize, if_pos (by omega)]
  have hne : r.ret ≠ -1 := by omega
  refine ⟨iff_of_false hne hfirst, fun hfailed => absurd hfailed hne, ?_, h.calls_le⟩
  intro _
  exact ⟨m, hle, hret, h.device, h.cut⟩

theorem transfer_correct
    (hn : n < 2 ^ 63)
    (hmoves : Moves move moved n) :
    Correct kernel n moved (transfer kernel move n n 0 0 (moved 0)) := by
  rcases Nat.eq_zero_or_pos n with rfl | hpos
  · rw [transfer_nothing_left]
    exact correct_of_stopped hn (fun h => absurd h.1 (lt_irrefl 0))
      ⟨le_refl 0, rfl, rfl, le_refl 0, fun hlt => absurd hlt (lt_irrefl 0)⟩
  · cases hcall : kernel 0 n with
    | none =>
        rw [transfer_of_failed hpos hcall, if_pos rfl]
        exact ⟨iff_of_true rfl ⟨hpos, hcall⟩, fun _ => rfl, fun hne => absurd rfl hne, hpos⟩
    | some k =>
        have hfirst : ¬ (0 < n ∧ kernel 0 n = none) := by
          rintro ⟨_, hfails⟩
          rw [hcall] at hfails
          cases hfails
        by_cases hzero : k = 0
        · subst hzero
          rw [transfer_of_zero hpos hcall]
          exact correct_of_stopped hn hfirst
            (stopped_at_call (Nat.zero_add n) (le_refl 0) hpos (Or.inr hcall))
        · have hk := k.isLt
          have hval : k.val ≠ 0 := fun h => hzero (Fin.ext h)
          rw [transfer_of_count hzero hcall, hmoves 0 k (by omega)]
          obtain ⟨m, hstopped⟩ : ∃ m, Stopped kernel n moved m
              (transfer kernel move n (n - k) (0 + k) (0 + 1) (moved (0 + k))) :=
            transfer_stopped hmoves (by omega) (by omega) (by omega)
          exact correct_of_stopped hn hfirst hstopped

end Loop

section Devices

/-- The buffer with its first `m` bytes from the file, which has been read up to there. -/
def filled (file : Nat → UInt8) (buf : List UInt8) (m : Nat) : Reading where
  buf := (List.range m).map file ++ buf.drop m
  position := m

theorem moves_read
    (file : Nat → UInt8) (request : Request) :
    Moves (read file) (filled file request.buf) request.n := by
  intro m k _
  have hlength : ((List.range m).map file).length = m := by simp
  have htake : ((List.range m).map file ++ request.buf.drop m).take m = (List.range m).map file :=
    List.take_left' hlength
  have hdrop : ((List.range m).map file ++ request.buf.drop m).drop (m + k) =
      request.buf.drop (m + k) := by
    rw [List.drop_append, hlength, List.drop_drop]
    simp
  simp only [read, filled, htake, hdrop, List.range_add, List.map_append, List.map_map]
  rfl

theorem moves_write
    (request : Request) :
    Moves (write request.buf) (fun m => request.buf.take m) request.n := by
  intro m k _
  exact (List.take_add).symm

/--
For every buffer, `n` and sequence of results: both functions end, after at most `n` calls.
They return -1 exactly if `n` is positive and the first call fails; otherwise they return some
`m ≤ n`, the first `m` bytes have been transferred, and `m < n` only if a call returned 0 or
failed.
-/
theorem readn_writen_correct
    (kernel : Kernel) (file : Nat → UInt8) (request : Request) :
    Correct kernel request.n (filled file request.buf) (readn kernel file request) ∧
    Correct kernel request.n (fun m => request.buf.take m) (writen kernel request) := by
  have hn : request.n < 2 ^ 63 := by
    have hle := request.n_le
    have hlt := request.length_lt
    omega
  exact ⟨transfer_correct hn (moves_read file request), transfer_correct hn (moves_write request)⟩

end Devices
end ReadnWriten
end SysProg
