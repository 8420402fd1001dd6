import Mathlib.Data.Nat.Find
import Mathlib.Logic.Function.Basic
import Mathlib.Tactic

/-!
# Descriptor tables

The open files of a process by their numbers, of which only finitely many are in use.  A new
file gets the lowest free number; `dup2` gives a file a second number, in place of what was
there.

Two ways to move a file to given numbers: `redirect` moves it to one number, `takeOver` to
several.  Both are right wherever the file was before, also at one of these numbers.
-/

namespace SysProg
namespace DescriptorTable

universe u

variable {φ : Type u}

/-- The table of a process. -/
@[ext]
structure Table (φ : Type u) where
  entry : Nat → Option φ
  bounded : ∃ n, ∀ fd, n ≤ fd → entry fd = none

section Operations

def Table.set (t : Table φ) (fd : Nat) (file : Option φ) : Table φ where
  entry := Function.update t.entry fd file
  bounded := by
    obtain ⟨n, hn⟩ := t.bounded
    refine ⟨max n (fd + 1), ?_⟩
    intro k hk
    rw [Function.update_of_ne (by omega)]
    exact hn k (by omega)

theorem Table.exists_free
    (t : Table φ) :
    ∃ fd, t.entry fd = none := by
  obtain ⟨n, hn⟩ := t.bounded
  exact ⟨n, hn n (Nat.le_refl n)⟩

/-- The number that the next file gets. -/
def Table.free (t : Table φ) : Nat :=
  Nat.find t.exists_free

def Table.openFile (t : Table φ) (file : φ) : Table φ :=
  t.set t.free (some file)

def Table.close (t : Table φ) (fd : Nat) : Table φ :=
  t.set fd none

/-- `dup2`, unless it fails because `oldfd` is not open. -/
def Table.dup2 (t : Table φ) (oldfd newfd : Nat) : Option (Table φ) :=
  (t.entry oldfd).map (fun file => t.set newfd (some file))

/-- The numbers of `pipe`, with the table. -/
structure Pipe (φ : Type u) where
  rd : Nat
  wr : Nat
  table : Table φ

/-- Two files have been opened at two numbers that were free, and nothing else was changed. -/
structure Pipe.Opens (p : Pipe φ) (t : Table φ) (r w : φ) : Prop where
  rd : t.entry p.rd = none
  wr : t.entry p.wr = none
  ne : p.rd ≠ p.wr
  table : p.table = (t.set p.rd (some r)).set p.wr (some w)

def Table.pipe (t : Table φ) (r w : φ) : Pipe φ where
  rd := t.free
  wr := (t.openFile r).free
  table := (t.openFile r).openFile w

/-- `if (fd != target) { dup2(fd, target); close(fd); }` -/
def Table.redirect (t : Table φ) (fd target : Nat) : Option (Table φ) :=
  if fd ≠ target then (t.dup2 fd target).map (fun t => t.close fd) else some t

/-- `dup2` to each of the targets, and `close` unless `fd` is one of them. -/
def Table.takeOver (t : Table φ) (fd : Nat) (targets : List Nat) : Option (Table φ) :=
  (targets.foldlM (fun (t : Table φ) target => t.dup2 fd target) t).map (fun t =>
    if fd ∈ targets then t else t.close fd)

/-- One file at several numbers. -/
def Table.setAll (t : Table φ) (targets : List Nat) (file : φ) : Table φ :=
  targets.foldl (fun t target => t.set target (some file)) t

end Operations

section Entries

variable {t : Table φ} {fd fd' target : Nat} {file : φ}

@[simp] theorem entry_set_self
    {v : Option φ} :
    (t.set fd v).entry fd = v :=
  Function.update_self ..

theorem entry_set_of_ne
    {v : Option φ}
    (h : fd' ≠ fd) :
    (t.set fd v).entry fd' = t.entry fd' :=
  Function.update_of_ne h ..

theorem entry_set
    {v : Option φ} :
    (t.set fd v).entry fd' = if fd' = fd then v else t.entry fd' := by
  by_cases h : fd' = fd
  · rw [h, entry_set_self, if_pos rfl]
  · rw [entry_set_of_ne h, if_neg h]

/-- A number that was free is free again. -/
theorem close_set
    {v : Option φ}
    (h : t.entry fd = none) :
    (t.set fd v).close fd = t := by
  ext1
  funext k
  simp only [Table.close, entry_set]
  split_ifs with hk
  · rw [hk, h]
  · rfl

theorem set_comm
    {v v' : Option φ}
    (h : fd ≠ fd') :
    (t.set fd v).set fd' v' = (t.set fd' v').set fd v := by
  ext1
  exact Function.update_comm h v v' t.entry

theorem entry_free
    (t : Table φ) :
    t.entry t.free = none :=
  Nat.find_spec t.exists_free

theorem free_le
    (h : t.entry fd = none) :
    t.free ≤ fd :=
  Nat.find_min' t.exists_free h

/-- The second end of a pipe has a higher number, which was free before. -/
theorem pipe_spec
    (t : Table φ) (r w : φ) :
    (t.pipe r w).rd < (t.pipe r w).wr ∧ t.entry (t.pipe r w).rd = none ∧
      t.entry (t.pipe r w).wr = none := by
  have hfree := entry_free (t.openFile r)
  have hne : (t.openFile r).free ≠ t.free := by
    intro heq
    rw [heq, Table.openFile, entry_set_self] at hfree
    cases hfree
  have hsecond : t.entry (t.openFile r).free = none := by
    exact (entry_set_of_ne hne).symm.trans hfree
  exact ⟨lt_of_le_of_ne (free_le hsecond) (Ne.symm hne), entry_free t, hsecond⟩

theorem table_pipe
    (t : Table φ) (r w : φ) :
    (t.pipe r w).table = (t.set (t.pipe r w).rd (some r)).set (t.pipe r w).wr (some w) :=
  rfl

theorem pipe_opens
    (t : Table φ) (r w : φ) :
    (t.pipe r w).Opens t r w := by
  obtain ⟨hlt, hrd, hwr⟩ := pipe_spec t r w
  exact ⟨hrd, hwr, Nat.ne_of_lt hlt, table_pipe t r w⟩

section Ends

variable {p : Pipe φ} {r w : φ}

theorem Pipe.Opens.close_wr
    (h : p.Opens t r w) :
    p.table.close p.wr = t.set p.rd (some r) := by
  rw [h.table]
  refine close_set ?_
  rw [entry_set_of_ne (Ne.symm h.ne), h.wr]

theorem Pipe.Opens.close_rd
    (h : p.Opens t r w) :
    p.table.close p.rd = t.set p.wr (some w) := by
  rw [h.table, set_comm h.ne]
  refine close_set ?_
  rw [entry_set_of_ne h.ne, h.rd]

end Ends

end Entries

section Moves

variable {t : Table φ} {fd target : Nat} {file : φ} {targets : List Nat}

/-- The file leaves its number and takes the other one. -/
theorem redirect_eq
    (h : t.entry fd = some file) :
    t.redirect fd target = some ((t.close fd).set target (some file)) := by
  unfold Table.redirect Table.dup2
  split_ifs with hne
  · rw [h, Option.map_some, Option.map_some, Table.close, Table.close, set_comm (Ne.symm hne)]
  · have heq : fd = target := by simpa using hne
    subst heq
    refine congrArg some (Table.ext (funext fun k => ?_))
    simp only [Table.close, entry_set]
    split_ifs with hk
    · rw [hk, h]
    · rfl

theorem entry_setAll
    {k : Nat} :
    (t.setAll targets file).entry k = if k ∈ targets then some file else t.entry k := by
  induction targets generalizing t with
  | nil =>
      rfl
  | cons target targets ih =>
      have hcons : t.setAll (target :: targets) file =
          (t.set target (some file)).setAll targets file := rfl
      rw [hcons, ih, entry_set]
      by_cases hk : k = target
      · simp [hk]
      · simp [hk]

theorem dup2_all
    (h : t.entry fd = some file) :
    targets.foldlM (fun (t : Table φ) target => t.dup2 fd target) t =
      some (t.setAll targets file) := by
  induction targets generalizing t with
  | nil =>
      rfl
  | cons target targets ih =>
      have hdup : t.dup2 fd target = some (t.set target (some file)) := by
        rw [Table.dup2, h, Option.map_some]
      have hkeep : (t.set target (some file)).entry fd = some file := by
        rw [entry_set]
        split_ifs
        · rfl
        · exact h
      rw [List.foldlM_cons, hdup]
      exact ih hkeep

/-- The file leaves its number and takes all others. -/
theorem takeOver_eq
    (h : t.entry fd = some file) :
    t.takeOver fd targets = some ((t.close fd).setAll targets file) := by
  rw [Table.takeOver, dup2_all h, Option.map_some]
  refine congrArg some (Table.ext (funext fun k => ?_))
  rw [entry_setAll]
  split_ifs with hfd hk hk
  · rw [entry_setAll, if_pos hk]
  · have hne : k ≠ fd := by
      rintro rfl
      exact hk hfd
    rw [entry_setAll, if_neg hk, Table.close, entry_set_of_ne hne]
  · have hne : k ≠ fd := by
      rintro rfl
      exact hfd hk
    rw [Table.close, entry_set_of_ne hne, entry_setAll, if_pos hk]
  · rw [Table.close, Table.close, entry_set, entry_set, entry_setAll, if_neg hk]

end Moves

end DescriptorTable
end SysProg
