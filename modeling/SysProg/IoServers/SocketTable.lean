import SysProg.IoServers.Select
import Mathlib.Data.Finset.Card
import Mathlib.Tactic

/-!
# The socket table of ALSP/io_select.c as a set

`add_socket` puts a descriptor into the first unused slot of `fd_socket`, `del_socket` moves the
last used slot into the place of the deleted one, and `mk_fds` builds the set for `select` and
its highest descriptor.  The slots behind the used ones are kept at -1.

What the table is for is a set of at most `MAX_FD_SOCKET` descriptors (`Op.apply`); it always
holds the listener, in slot 0.

**Steps.** `step` is a call of `add_socket` with a descriptor that is not in the table, or of
`del_socket` with one that is not the listener.  `FD_SET` is undefined for a descriptor that has
no bit in an `fd_set`, and so is `mk_fds` then.

**Results.** `holds_of_run`: after every sequence of calls the used slots hold the descriptors
of the set, each once.  `asSet_iff`: `mk_fds` then sets exactly these and returns their maximum,
if and only if all of them have a bit.  `holds_of_scan`: the main loop's scan keeps all this.
-/

namespace SysProg
namespace IoServers
namespace SocketTable

open Run SlotTable
open Select (InSet)

section Program

def MAX_FD_SOCKET : Nat := 0xff

/-- `fd_socket` and `cnt_fd_socket` -/
structure Table where
  fdSocket : Nat → Int
  cntFdSocket : Nat

/-- The descriptors in the used slots. -/
def Table.used (t : Table) : List Int :=
  live t.fdSocket t.cntFdSocket

/-- The first loop of `main`. -/
def clearSlots : Nat → (Nat → Int) → Nat → Int
  | 0, mem => mem
  | n + 1, mem => Function.update (clearSlots n mem) n (-1)

/-- The descriptor goes to the first unused slot. -/
def Table.push (t : Table) (fd : Int) : Table where
  fdSocket := Function.update t.fdSocket t.cntFdSocket fd
  cntFdSocket := t.cntFdSocket + 1

/-- The last used slot is moved to slot `i`, and is then unused. -/
def Table.remove (t : Table) (i : Nat) : Table where
  fdSocket :=
    Function.update (moveLast t.fdSocket t.cntFdSocket i) (t.cntFdSocket - 1) (-1)
  cntFdSocket := t.cntFdSocket - 1

def Table.addSocket (t : Table) (fd : Int) : Table × Int :=
  if t.cntFdSocket < MAX_FD_SOCKET then (t.push fd, t.cntFdSocket + 1) else (t, -1)

/-- The loop of `del_socket` stops at the first slot that holds the descriptor. -/
def Table.delSocket (t : Table) (fd : Int) : Table × Int :=
  match (List.range t.cntFdSocket).find? (fun i => t.fdSocket i == fd) with
  | none => (t, -1)
  | some i => (t.remove i, i)

def MAX (a b : Int) : Int :=
  if a > b then a else b

def FD_SET (fd : Int) (fds : Int → Bool) : Int → Bool :=
  Function.update fds fd true

/-- The set and `fd_max` after `n` turns; `none` if `FD_SET` was undefined in one of them. -/
def mkFdsLoop (slots : Nat → Int) : Nat → Option ((Int → Bool) × Int)
  | 0 => some (fun _ => false, -1)
  | n + 1 =>
      match mkFdsLoop slots n with
      | none => none
      | some (fds, fdMax) =>
          if InSet (slots n) then some (FD_SET (slots n) fds, MAX fdMax (slots n)) else none

def Table.mkFds (t : Table) : Option ((Int → Bool) × Int) :=
  mkFdsLoop t.fdSocket t.cntFdSocket

inductive Op where
  | add (fd : Int)
  | del (fd : Int)
deriving DecidableEq, Repr

def step (listener : Int) (t : Table) : Op → Option Table
  | .add fd => if fd ∈ t.used then none else some (t.addSocket fd).1
  | .del fd => if fd = listener then none else some (t.delSocket fd).1

/-- `main` clears the slots and adds the listener; the globals are 0 at first. -/
def start (listener : Int) : Table :=
  (Table.addSocket ⟨clearSlots MAX_FD_SOCKET (fun _ => 0), 0⟩ listener).1

end Program

section Specification

/-- A call on the set of the descriptors that have been added and not deleted. -/
def Op.apply (held : Finset Int) : Op → Finset Int
  | .add fd => if held.card < MAX_FD_SOCKET then insert fd held else held
  | .del fd => held.erase fd

/-- The descriptors that have been added and not deleted. -/
def heldAfter (listener : Int) (ops : List Op) : Finset Int :=
  ops.foldl Op.apply {listener}

/-- The table holds the set. -/
structure Holds (listener : Int) (held : Finset Int) (t : Table) : Prop where
  cnt_pos : 1 ≤ t.cntFdSocket
  cnt_le : t.cntFdSocket ≤ MAX_FD_SOCKET
  slot_zero : t.fdSocket 0 = listener
  nodup : t.used.Nodup
  mem_used_iff : ∀ fd, fd ∈ t.used ↔ fd ∈ held
  unused : ∀ k, t.cntFdSocket ≤ k → k < MAX_FD_SOCKET → t.fdSocket k = -1

/-- Calls that cannot be served return -1 and change nothing. -/
structure Refuses (t : Table) : Prop where
  full : ∀ fd, t.cntFdSocket = MAX_FD_SOCKET → t.addSocket fd = (t, -1)
  absent : ∀ fd, fd ∉ t.used → t.delSocket fd = (t, -1)

/-- `mk_fds` sets exactly the used descriptors and returns their maximum. -/
def Selects (t : Table) : Prop :=
  ∃ fds fdMax,
    t.mkFds = some (fds, fdMax) ∧
    (∀ fd, fds fd = true ↔ fd ∈ t.used) ∧
    fdMax ∈ t.used ∧
    ∀ fd ∈ t.used, fd ≤ fdMax

structure AsSet (listener : Int) (held : Finset Int) (t : Table) : Prop where
  holds : Holds listener held t
  refuses : Refuses t
  selects : Selects t

end Specification

section Calls

variable {listener fd : Int} {held : Finset Int} {t t' : Table} {op : Op} {ops : List Op}

theorem clearSlots_of_lt
    {n k : Nat}
    (hk : k < n)
    (mem : Nat → Int) :
    clearSlots n mem k = -1 := by
  induction n with
  | zero =>
      omega
  | succ n ih =>
      rw [clearSlots]
      by_cases hkn : k = n
      · rw [hkn, Function.update_self]
      · rw [Function.update_of_ne hkn]
        exact ih (by omega)

theorem Holds.card_eq
    (h : Holds listener held t) :
    held.card = t.cntFdSocket := by
  have heq : t.used.toFinset = held := by
    ext fd
    rw [List.mem_toFinset]
    exact h.mem_used_iff fd
  rw [← heq, List.toFinset_card_of_nodup h.nodup]
  exact length_live t.fdSocket t.cntFdSocket

theorem delSocket_of_not_mem
    (hfd : fd ∉ t.used) :
    t.delSocket fd = (t, -1) := by
  have hfind : (List.range t.cntFdSocket).find? (fun i => t.fdSocket i == fd) = none := by
    rw [List.find?_eq_none]
    intro i hi heq
    exact hfd (mem_live_iff.mpr ⟨i, List.mem_range.mp hi, beq_iff_eq.mp heq⟩)
  rw [Table.delSocket, hfind]

/-- With distinct descriptors, the slot that is found is the one given. -/
theorem delSocket_slot
    {k : Nat}
    (hnodup : t.used.Nodup)
    (hk : k < t.cntFdSocket) :
    t.delSocket (t.fdSocket k) = (t.remove k, (k : Int)) := by
  have hfind : (List.range t.cntFdSocket).find? (fun i => t.fdSocket i == t.fdSocket k) = some k :=
    find?_range_key id (by rw [List.map_id]; exact hnodup) hk
  rw [Table.delSocket, hfind]

theorem used_push
    (t : Table) (fd : Int) :
    (t.push fd).used = t.used ++ [fd] :=
  live_push t.fdSocket t.cntFdSocket fd

theorem used_remove
    {k : Nat}
    (hk : k < t.cntFdSocket) :
    (t.fdSocket k :: (t.remove k).used).Perm t.used := by
  have hlive : (t.remove k).used =
      live (moveLast t.fdSocket t.cntFdSocket k) (t.cntFdSocket - 1) :=
    live_update_of_le _ _ (Nat.le_refl _)
  rw [hlive]
  exact live_moveLast t.fdSocket hk

theorem Holds.push
    (h : Holds listener held t)
    (hroom : t.cntFdSocket < MAX_FD_SOCKET)
    (hfd : fd ∉ t.used) :
    Holds listener (insert fd held) (t.push fd) := by
  have hpos := h.cnt_pos
  refine ⟨Nat.le_add_left 1 _, hroom, ?_, ?_, ?_, ?_⟩
  · have hne : 0 ≠ t.cntFdSocket := by omega
    exact (Function.update_of_ne hne _ _).trans h.slot_zero
  · rw [used_push]
    exact List.nodup_append_comm.mp (List.nodup_cons.mpr ⟨hfd, h.nodup⟩)
  · intro fd'
    rw [used_push, List.mem_append, List.mem_singleton, Finset.mem_insert, h.mem_used_iff]
    exact Or.comm
  · intro k hk hlt
    have hbehind : t.cntFdSocket + 1 ≤ k := hk
    have hne : k ≠ t.cntFdSocket := by omega
    exact (Function.update_of_ne hne _ _).trans (h.unused k (by omega) hlt)

/-- The slots in front of the last one, apart from the deleted one, and those behind it stay. -/
theorem fdSocket_remove_of_ne
    {k j : Nat}
    (hlast : j ≠ t.cntFdSocket - 1)
    (hj : j ≠ k) :
    (t.remove k).fdSocket j = t.fdSocket j := by
  simp only [Table.remove, Function.update_of_ne hlast, moveLast]
  split_ifs
  · rw [Function.update_of_ne hj]
  · rfl

theorem Holds.remove
    {k : Nat}
    (h : Holds listener held t)
    (hzero : k ≠ 0)
    (hk : k < t.cntFdSocket) :
    Holds listener (held.erase (t.fdSocket k)) (t.remove k) := by
  have hle := h.cnt_le
  have hperm := used_remove hk
  have hcons : (t.fdSocket k :: (t.remove k).used).Nodup := hperm.nodup_iff.mpr h.nodup
  obtain ⟨hnot, hnodup⟩ := List.nodup_cons.mp hcons
  refine ⟨?_, ?_, ?_, hnodup, ?_, ?_⟩
  · change 1 ≤ t.cntFdSocket - 1
    omega
  · change t.cntFdSocket - 1 ≤ MAX_FD_SOCKET
    omega
  · rw [fdSocket_remove_of_ne (by omega) (Ne.symm hzero)]
    exact h.slot_zero
  · intro fd
    rw [Finset.mem_erase, ← h.mem_used_iff, ← hperm.mem_iff, List.mem_cons]
    constructor
    · intro hmem
      refine ⟨?_, Or.inr hmem⟩
      rintro rfl
      exact hnot hmem
    · rintro ⟨hne, hfirst | hmem⟩
      · exact absurd hfirst hne
      · exact hmem
  · intro j hj hlt
    have hbehind : t.cntFdSocket - 1 ≤ j := hj
    by_cases hlast : j = t.cntFdSocket - 1
    · rw [hlast]
      exact Function.update_self _ _ _
    · rw [fdSocket_remove_of_ne hlast (by omega)]
      exact h.unused j (by omega) hlt

theorem Holds.add
    (h : Holds listener held t)
    (hfd : fd ∉ t.used) :
    Holds listener (Op.apply held (.add fd)) (t.addSocket fd).1 := by
  rw [Op.apply, h.card_eq, Table.addSocket]
  split_ifs with hroom
  · exact h.push hroom hfd
  · exact h

theorem Holds.del
    (h : Holds listener held t)
    (hfd : fd ≠ listener) :
    Holds listener (Op.apply held (.del fd)) (t.delSocket fd).1 := by
  rw [Op.apply]
  by_cases hmem : fd ∈ t.used
  · obtain ⟨k, hk, rfl⟩ := mem_live_iff.mp hmem
    have hzero : k ≠ 0 := by
      rintro rfl
      exact hfd h.slot_zero
    rw [delSocket_slot h.nodup hk]
    exact h.remove hzero hk
  · rw [delSocket_of_not_mem hmem, Finset.erase_eq_of_notMem (mt (h.mem_used_iff fd).mpr hmem)]
    exact h

/-- One call keeps the table and the set together. -/
theorem Holds.step
    (h : Holds listener held t)
    (hstep : step listener t op = some t') :
    Holds listener (op.apply held) t' := by
  cases op with
  | add fd =>
      obtain ⟨hfd, hsome⟩ := Option.ite_none_left_eq_some.mp hstep
      cases hsome
      exact h.add hfd
  | del fd =>
      obtain ⟨hfd, hsome⟩ := Option.ite_none_left_eq_some.mp hstep
      cases hsome
      exact h.del hfd

theorem Holds.run
    (h : Holds listener held t)
    (hrun : run (SocketTable.step listener) t ops = some t') :
    Holds listener (ops.foldl Op.apply held) t' := by
  induction ops generalizing held t with
  | nil =>
      simp only [run_nil, Option.some.injEq] at hrun
      subst hrun
      exact h
  | cons op ops ih =>
      obtain ⟨m, hm, hrest⟩ := run_cons_success hrun
      exact ih (h.step hm) hrest

theorem holds_start
    (listener : Int) :
    Holds listener {listener} (start listener) := by
  refine ⟨Nat.le_refl 1, Nat.le_of_ble_eq_true rfl, rfl, List.nodup_singleton listener, ?_, ?_⟩
  · intro fd
    rw [Finset.mem_singleton]
    exact List.mem_singleton
  · intro k hk hlt
    have hne : k ≠ 0 := by
      have hpos : 1 ≤ k := hk
      omega
    exact (Function.update_of_ne hne _ _).trans (clearSlots_of_lt hlt _)

/-- After every sequence of calls the table holds the set. -/
theorem holds_of_run
    (hrun : run (step listener) (start listener) ops = some t) :
    Holds listener (heldAfter listener ops) t :=
  (holds_start listener).run hrun

end Calls

section Sets

variable {slots : Nat → Int} {n : Nat} {fds : Int → Bool} {fdMax fd : Int}

/-- What `mk_fds` has built after some turns. -/
structure Built (used : List Int) (fds : Int → Bool) (fdMax : Int) : Prop where
  exactly : ∀ fd, fds fd = true ↔ fd ∈ used
  upper : ∀ fd ∈ used, fd ≤ fdMax
  attained : used = [] ∧ fdMax = -1 ∨ fdMax ∈ used

theorem built_nil :
    Built [] (fun _ => false) (-1) := by
  refine ⟨?_, ?_, Or.inl ⟨rfl, rfl⟩⟩
  · simp
  · simp

theorem Built.snoc
    {used : List Int}
    (h : Built used fds fdMax)
    (hfd : 0 ≤ fd) :
    Built (used ++ [fd]) (FD_SET fd fds) (MAX fdMax fd) := by
  have hleft : fdMax ≤ MAX fdMax fd := by
    unfold MAX
    split_ifs
    · exact le_refl fdMax
    · omega
  have hright : fd ≤ MAX fdMax fd := by
    unfold MAX
    split_ifs
    · omega
    · exact le_refl fd
  refine ⟨?_, ?_, Or.inr ?_⟩
  · intro fd'
    rw [List.mem_append, List.mem_singleton, FD_SET]
    by_cases heq : fd' = fd
    · simp [heq]
    · rw [Function.update_of_ne heq, h.exactly fd']
      simp [heq]
  · intro fd' hmem
    rcases List.mem_append.mp hmem with hold | hnew
    · exact (h.upper fd' hold).trans hleft
    · rw [List.mem_singleton.mp hnew]
      exact hright
  · rw [List.mem_append, List.mem_singleton, MAX]
    split_ifs with hgt
    · rcases h.attained with ⟨_, hnone⟩ | hmem
      · -- the first descriptor is not below -1
        omega
      · exact Or.inl hmem
    · exact Or.inr rfl

/-- If every descriptor has a bit, the loop builds what it should. -/
theorem mkFdsLoop_built
    (hin : ∀ k < n, InSet (slots k)) :
    ∃ fds fdMax, mkFdsLoop slots n = some (fds, fdMax) ∧ Built (live slots n) fds fdMax := by
  induction n with
  | zero =>
      exact ⟨_, _, rfl, built_nil⟩
  | succ n ih =>
      obtain ⟨fds, fdMax, hloop, hbuilt⟩ := ih (fun k hk => hin k (Nat.lt_succ_of_lt hk))
      have hlast := hin n (Nat.lt_succ_self n)
      refine ⟨FD_SET (slots n) fds, MAX fdMax (slots n), ?_, ?_⟩
      · rw [mkFdsLoop, hloop]
        simp only [if_pos hlast]
      · rw [live_succ]
        exact hbuilt.snoc hlast.1

/-- The loop is defined only if every descriptor has a bit. -/
theorem inSet_of_mkFdsLoop
    (hloop : mkFdsLoop slots n = some (fds, fdMax)) :
    ∀ k < n, InSet (slots k) := by
  induction n generalizing fds fdMax with
  | zero =>
      intro k hk
      exact absurd hk (Nat.not_lt_zero k)
  | succ n ih =>
      rw [mkFdsLoop] at hloop
      cases hprev : mkFdsLoop slots n with
      | none =>
          rw [hprev] at hloop
          cases hloop
      | some built =>
          rw [hprev] at hloop
          obtain ⟨hlast, _⟩ := Option.ite_none_right_eq_some.mp hloop
          intro k hk
          rcases Nat.lt_succ_iff_lt_or_eq.mp hk with hlt | rfl
          · exact ih hprev k hlt
          · exact hlast

theorem selects_iff
    {t : Table}
    (hpos : 1 ≤ t.cntFdSocket) :
    Selects t ↔ ∀ fd ∈ t.used, InSet fd := by
  constructor
  · rintro ⟨fds, fdMax, hmk, _⟩ fd hmem
    obtain ⟨k, hk, rfl⟩ := mem_live_iff.mp hmem
    exact inSet_of_mkFdsLoop hmk k hk
  · intro hin
    obtain ⟨fds, fdMax, hmk, hbuilt⟩ := mkFdsLoop_built
      (fun k hk => hin (t.fdSocket k) (mem_live_iff.mpr ⟨k, hk, rfl⟩))
    refine ⟨fds, fdMax, hmk, hbuilt.exactly, ?_, hbuilt.upper⟩
    rcases hbuilt.attained with ⟨hnil, _⟩ | hmem
    · have hlength := length_live t.fdSocket t.cntFdSocket
      rw [hnil, List.length_nil] at hlength
      omega
    · exact hmem

end Sets

section Results

variable {listener : Int} {held : Finset Int} {t t' : Table} {ops : List Op}

theorem refuses
    (t : Table) :
    Refuses t := by
  refine ⟨?_, fun fd hfd => delSocket_of_not_mem hfd⟩
  intro fd hfull
  rw [Table.addSocket, if_neg (by omega)]

/--
For every sequence of `add_socket` with descriptors that are not in the table and `del_socket`
with others than the listener: the table is the set of the descriptors added and not deleted,
refused calls change nothing, and `mk_fds` sets exactly them and returns their maximum, if and
only if all of them have a bit in an `fd_set`.
-/
theorem asSet_iff
    (hrun : run (step listener) (start listener) ops = some t) :
    AsSet listener (heldAfter listener ops) t ↔ ∀ fd ∈ heldAfter listener ops, InSet fd := by
  have hholds := holds_of_run hrun
  have hselects : Selects t ↔ ∀ fd ∈ heldAfter listener ops, InSet fd := by
    rw [selects_iff hholds.cnt_pos]
    simp only [hholds.mem_used_iff]
  rw [← hselects]
  constructor
  · exact AsSet.selects
  · intro h
    exact ⟨hholds, refuses t, h⟩

/-- The calls are those of the set: what is added is new, and the listener is not deleted. -/
def Allowed (listener : Int) : Finset Int → List Op → Prop
  | _, [] => True
  | held, .add fd :: ops => fd ∉ held ∧ Allowed listener (Op.apply held (.add fd)) ops
  | held, .del fd :: ops => fd ≠ listener ∧ Allowed listener (Op.apply held (.del fd)) ops

/-- Every such sequence of calls is a run. -/
theorem exists_run
    (h : Holds listener held t)
    (hallowed : Allowed listener held ops) :
    ∃ t', run (step listener) t ops = some t' := by
  induction ops generalizing held t with
  | nil =>
      exact ⟨t, rfl⟩
  | cons op ops ih =>
      cases op with
      | add fd =>
          obtain ⟨hnew, hrest⟩ := hallowed
          have hfd : fd ∉ t.used := mt (h.mem_used_iff fd).mp hnew
          rw [run_cons, step, if_neg hfd]
          exact ih (h.add hfd) hrest
      | del fd =>
          obtain ⟨hfd, hrest⟩ := hallowed
          rw [run_cons, step, if_neg hfd]
          exact ih (h.del hfd) hrest

/-- Three sockets come and one goes; 9 is not in the table. -/
def fewCalls : List Op := [.add 4, .add 5, .del 4, .add 6, .del 9]

theorem asSet_fewCalls :
    ∃ t,
      run (step 3) (start 3) fewCalls = some t ∧
      heldAfter 3 fewCalls = {3, 5, 6} ∧
      AsSet 3 (heldAfter 3 fewCalls) t := by
  have hallowed : Allowed 3 {3} fewCalls :=
    ⟨by decide, by decide, by decide, by decide, by decide, trivial⟩
  obtain ⟨t, hrun⟩ := exists_run (holds_start 3) hallowed
  exact ⟨t, hrun, by decide, (asSet_iff hrun).mpr (by decide)⟩

/-- Descriptor 1024 is the first that has no bit. -/
theorem not_asSet_beyond :
    ∃ t,
      run (step 3) (start 3) [.add 1024] = some t ∧
      t.mkFds = none ∧
      ¬ AsSet 3 (heldAfter 3 [.add 1024]) t := by
  refine ⟨_, rfl, rfl, ?_⟩
  intro h
  obtain ⟨fds, fdMax, hmk, _⟩ := h.selects
  cases hmk

end Results

section Scan

variable {listener : Int} {held : Finset Int} {recv : Int → Recv} {s s' : Select.State}

/-- The table of the server, as its scan works on it. -/
def tableOf (s : Select.State) : Table := ⟨s.fdSocket, s.cntFdSocket⟩

/-- The deletions of the scan are calls of `del_socket`. -/
theorem tableOf_delSocket
    (s : Select.State) (fd : Int) :
    tableOf (s.delSocket fd) = ((tableOf s).delSocket fd).1 := by
  unfold Select.State.delSocket Table.delSocket tableOf
  cases (List.range s.cntFdSocket).find? (fun i => s.fdSocket i == fd) with
  | none =>
      rfl
  | some i =>
      rfl

/-- The scan is behind slot 0, and the table holds some of the descriptors. -/
def Scanning (listener : Int) (held : Finset Int) (s : Select.State) : Prop :=
  1 ≤ s.i ∧ ∃ rest ⊆ held, Holds listener rest (tableOf s)

theorem scanning_recvSlot
    (hs : Scanning listener held s)
    (hi : s.i < s.cntFdSocket) :
    ∃ rest ⊆ held, Holds listener rest (tableOf (s.recvSlot recv)) := by
  obtain ⟨hpos, rest, hsub, hholds⟩ := hs
  have hremove : Holds listener (rest.erase (s.fdSocket s.i)) ((tableOf s).remove s.i) :=
    hholds.remove (by omega) hi
  cases hrecv : recv (s.fdSocket s.i) with
  | closed =>
      refine ⟨rest.erase (s.fdSocket s.i), (Finset.erase_subset _ _).trans hsub, ?_⟩
      have hslot : (tableOf s).delSocket (s.fdSocket s.i) = ((tableOf s).remove s.i, (s.i : Int)) :=
        delSocket_slot hholds.nodup hi
      simp only [Select.State.recvSlot, hrecv, tableOf_delSocket]
      change Holds listener _ ((tableOf s).delSocket (s.fdSocket s.i)).1
      rw [hslot]
      exact hremove
  | error =>
      simp only [Select.State.recvSlot, hrecv]
      exact ⟨rest, hsub, hholds⟩
  | data =>
      simp only [Select.State.recvSlot, hrecv]
      exact ⟨rest, hsub, hholds⟩

theorem scanning_turn
    (hs : Scanning listener held s)
    (hscan : Select.scan recv s = some s') :
    Scanning listener held s' := by
  simp only [Select.scan] at hscan
  split_ifs at hscan with hguard
  · cases hscan
    exact ⟨Nat.le_add_left 1 _, scanning_recvSlot hs hguard.1⟩
  · cases hscan
    exact ⟨Nat.le_add_left 1 _, hs.2⟩
  · cases hscan
    exact hs

/-- Over a whole scan of the main loop, the table stays a set with the listener in slot 0. -/
theorem holds_of_scan
    {t : Table} {ready : Int → Bool} {es : List Unit}
    (h : Holds listener held t)
    (hrun : run (turn (Select.scan recv))
      (Select.State.start t.fdSocket t.cntFdSocket ready) es = some s) :
    ∃ rest ⊆ held, Holds listener rest (tableOf s) := by
  have hstart : Scanning listener held (Select.State.start t.fdSocket t.cntFdSocket ready) :=
    ⟨Nat.le_refl 1, held, Finset.Subset.refl held, h⟩
  have hend : Scanning listener held s :=
    run_invariant (fun _ _ _ hs hstep => scanning_turn hs hstep) hstart hrun
  exact hend.2

end Scan

end SocketTable
end IoServers
end SysProg
