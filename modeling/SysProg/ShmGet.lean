import Mathlib.Tactic

/-!
# `sysv_shmget` of ALSP/lib_sysv_shm.c

`sysv_shmget` creates a segment for a key, or attaches to the one that there is, and maps it.
An existing segment is looked up with size 0, which accepts any size.  The mapping is compared
with `NULL`; `shmat` returns `(void *)-1` when it fails, as ALSP/sysv_shm.c has it.

**Steps.**  The answers of the kernel are a record: which segments there are, whether a new one
can be created or an old one be looked up, and whether it can be mapped.  A segment is mapped in
whole pages.

**Results.**  `usable_iff`: if an id is returned then `*ret` is a mapping of at least `size`
bytes, exactly if `shmat` succeeds whenever it is called and no existing segment has too few
pages.
-/

namespace SysProg
namespace ShmGet

section Program

def IPC_PRIVATE : Int := 0

/-- The arguments; `tok` says whether there is a path for `ftok`. -/
structure Args where
  retIsNull : Bool
  tok : Bool
  shmFixkey : Int
  size : Int

/-- The answers of the kernel; `none` is -1. -/
structure Kernel where
  pageSize : Nat
  pageSize_pos : 0 < pageSize
  ftok : Option Int
  /-- the size of the segment with a key -/
  segments : Int → Option Nat
  /-- `shmget` for a segment that does not exist; an error is not EEXIST then -/
  create : Option Nat
  /-- `shmget(shm_key, 0, 0)` for a segment that exists -/
  lookup : Option Nat
  shmat : Bool

/-- The value of `*ret`. -/
inductive Pointer where
  | null
  /-- `(void *)-1` -/
  | failed
  /-- a mapping of this many bytes -/
  | mapped (bytes : Nat)
deriving DecidableEq, Repr

/-- `key_t shm_key`, if there is one. -/
def Args.key (args : Args) (k : Kernel) : Option Int :=
  if args.tok then k.ftok else some args.shmFixkey

/-- The segment with a key; IPC_PRIVATE never denotes one. -/
def Kernel.existing (k : Kernel) (key : Int) : Option Nat :=
  if key = IPC_PRIVATE then none else k.segments key

/-- The calls of `shmget`: the id, with the size of the segment. -/
def Kernel.shmget (k : Kernel) (key size : Int) : Option (Nat × Nat) :=
  match k.existing key with
  | none => k.create.map (fun id => (id, size.toNat))
  -- EEXIST
  | some bytes => k.lookup.map (fun id => (id, bytes))

/-- The bytes of the pages that hold a segment. -/
def Kernel.paged (k : Kernel) (bytes : Nat) : Nat :=
  (bytes + k.pageSize - 1) / k.pageSize * k.pageSize

/-- `shmat` maps the segment, with the rest of its last page. -/
def Kernel.attach (k : Kernel) (bytes : Nat) : Pointer :=
  if k.shmat then .mapped (k.paged bytes) else .failed

/-- `sysv_shmget`: what it returns, and the value of `*ret`. -/
def sysvShmget (k : Kernel) (args : Args) (ret : Pointer) : Int × Pointer :=
  if args.retIsNull = true ∨ args.size < 0 then (-1, ret)
  else
    match args.key k with
    | none => (-1, ret)
    | some key =>
        match k.shmget key args.size with
        | none => (-1, ret)
        | some (id, bytes) =>
            if k.attach bytes = .null then (-1, k.attach bytes)
            else (id, k.attach bytes)

/-- An id is returned only with a mapping of at least `size` bytes. -/
def Usable (args : Args) (result : Int × Pointer) : Prop :=
  result.1 ≠ -1 → ∃ bytes : Nat, result.2 = .mapped bytes ∧ args.size ≤ bytes

/--
Once `shmget` has given a segment, `shmat` succeeds, and if it was there before its pages have
at least `size` bytes.
-/
def Attachable (k : Kernel) (args : Args) : Prop :=
  args.retIsNull = false → 0 ≤ args.size → ∀ key, args.key k = some key →
    match k.existing key with
    | none => k.create.isSome → k.shmat = true
    | some bytes => k.lookup.isSome → k.shmat = true ∧ args.size ≤ k.paged bytes

end Program

section Results

variable {k : Kernel} {args : Args} {ret : Pointer}

/-- `shmat` does not return `NULL`, so the test never fails. -/
theorem attach_ne_null
    (k : Kernel) (bytes : Nat) :
    k.attach bytes ≠ .null := by
  unfold Kernel.attach
  split_ifs <;> simp

/-- The pages of a segment hold all of it. -/
theorem le_paged
    (k : Kernel) (bytes : Nat) :
    bytes ≤ k.paged bytes := by
  have hpos := k.pageSize_pos
  have hdiv := Nat.div_add_mod (bytes + k.pageSize - 1) k.pageSize
  have hmod := Nat.mod_lt (bytes + k.pageSize - 1) hpos
  rw [Nat.mul_comm] at hdiv
  unfold Kernel.paged
  omega

/-- What is returned once there is a segment. -/
theorem sysvShmget_of_segment
    {key : Int} {id bytes : Nat}
    (hargs : ¬ (args.retIsNull = true ∨ args.size < 0))
    (hkey : args.key k = some key)
    (hget : k.shmget key args.size = some (id, bytes)) :
    sysvShmget k args ret = ((id : Int), k.attach bytes) := by
  simp only [sysvShmget, if_neg hargs, hkey, hget, if_neg (attach_ne_null k bytes)]

/-- A returned id is usable exactly if the mapping succeeded and is large enough. -/
theorem usable_segment_iff
    {id bytes : Nat} :
    Usable args ((id : Int), k.attach bytes) ↔
      k.shmat = true ∧ args.size ≤ k.paged bytes := by
  have hid : (id : Int) ≠ -1 := by omega
  unfold Usable Kernel.attach
  simp only [hid, ne_eq, not_false_eq_true, true_imp_iff]
  split_ifs with hshmat
  · simp [hshmat]
  · simp [hshmat]

/-- The condition for a key, in terms of the segment that `shmget` gives. -/
theorem attachable_iff
    {key : Int}
    (hret : args.retIsNull = false)
    (hsize : 0 ≤ args.size)
    (hkey : args.key k = some key) :
    Attachable k args ↔
      ∀ id bytes, k.shmget key args.size = some (id, bytes) →
        k.shmat = true ∧ args.size ≤ k.paged bytes := by
  simp only [Attachable, Kernel.shmget, hret, hsize, hkey, true_imp_iff, Option.some.injEq,
    forall_eq']
  cases k.existing key with
  | none =>
      -- a new segment has the size that was asked for
      have hnew : args.size ≤ k.paged args.size.toNat := by
        have hle := le_paged k args.size.toNat
        omega
      cases k.create with
      | none =>
          simp
      | some id =>
          simp [hnew]
  | some bytes =>
      cases k.lookup with
      | none =>
          simp
      | some id =>
          simp

/--
If `sysv_shmget` returns an id, `*ret` is a mapping of at least `size` bytes: exactly if `shmat`
succeeds and no existing segment has too few pages.
-/
theorem usable_iff
    (k : Kernel) (args : Args) (ret : Pointer) :
    Usable args (sysvShmget k args ret) ↔ Attachable k args := by
  by_cases hargs : args.retIsNull = true ∨ args.size < 0
  · refine iff_of_true (by simp [Usable, sysvShmget, hargs]) ?_
    intro hret hsize
    rcases hargs with hnull | hneg
    · rw [hret] at hnull
      cases hnull
    · omega
  · have hret : args.retIsNull = false := by
      simpa using fun h => hargs (Or.inl h)
    have hsize : 0 ≤ args.size := by omega
    cases hkey : args.key k with
    | none =>
        refine iff_of_true (by simp [Usable, sysvShmget, hkey]) ?_
        intro _ _ key hsome
        rw [hkey] at hsome
        cases hsome
    | some key =>
        rw [attachable_iff hret hsize hkey]
        cases hget : k.shmget key args.size with
        | none =>
            exact iff_of_true (by simp [Usable, sysvShmget, hkey, hget]) (by simp)
        | some segment =>
            obtain ⟨id, bytes⟩ := segment
            rw [sysvShmget_of_segment hargs hkey hget, usable_segment_iff]
            simp

end Results

section Example

/-- 8192 bytes are asked for under key 7. -/
def twoPages : Args where
  retIsNull := false
  tok := false
  shmFixkey := 7
  size := 8192

/-- There is no such segment, a new one gets id 0, and `shmat` fails. -/
def noMapping : Kernel where
  pageSize := 4096
  pageSize_pos := by decide
  ftok := none
  segments := fun _ => none
  create := some 0
  lookup := none
  shmat := false

/-- There is a segment of 100 bytes under every key, which takes one page. -/
def smallSegment : Kernel where
  pageSize := 4096
  pageSize_pos := by decide
  ftok := none
  segments := fun _ => some 100
  create := none
  lookup := some 0
  shmat := true

/-- The id 0 is returned with `(void *)-1`, or with a mapping of one page. -/
theorem not_usable_twoPages :
    sysvShmget noMapping twoPages .null = (0, .failed) ∧
    ¬ Usable twoPages (sysvShmget noMapping twoPages .null) ∧
    sysvShmget smallSegment twoPages .null = (0, .mapped 4096) ∧
    ¬ Usable twoPages (sysvShmget smallSegment twoPages .null) := by
  refine ⟨rfl, ?_, rfl, ?_⟩
  · intro h
    obtain ⟨bytes, heq, -⟩ := h (by decide)
    cases heq
  · intro h
    obtain ⟨bytes, heq, hle⟩ := h (by decide)
    cases heq
    exact absurd hle (by decide)

end Example
end ShmGet
end SysProg
