import SysProg.Lib.SlotTable
import Mathlib.Tactic

/-!
# The session table of ALSP/epoll_timerfd.c

A session is a connected socket together with the timerfd that bounds its idle
time.  The table `fds_list` is an array of sessions, of which the first
`n_used` are live.  A lookup scans the live entries for a descriptor; a
deletion overwrites the entry with the last live one and clears that slot.

`fdsDeletebytimerfd_perm` and the lookup lemmas are all that later modules use:
they speak about the list `FdsList.live` of live entries, never about slots.
-/

namespace SysProg
namespace EpollTimerfd

open SlotTable

/-- `FDSESSION` -/
structure FdSession where
  socketfd : Int
  timerfd : Int
  timeout : Int
deriving DecidableEq, Repr

/--
`FDSESSIONLIST`.  `list` is the memory behind the pointer: the slots from
`nUsed` on hold whatever was there before.
-/
structure FdsList where
  nAllocated : Nat
  nUsed : Nat
  list : Nat → FdSession

/-- The live entries of the table. -/
def FdsList.live (t : FdsList) : List FdSession :=
  SlotTable.live t.list t.nUsed

def ENOENT : Int := 2

/--
The scan shared by the two lookups: the first live slot whose descriptor `key`
is `fd`, or nothing (the C functions then return -1).
-/
def fdsFindby
    (key : FdSession → Int)
    (t : FdsList) (fd : Int) : Option Nat :=
  (List.range t.nUsed).find? (fun i => key (t.list i) == fd)

/-- `fds_findbysocketfd` -/
def fdsFindbysocketfd : FdsList → Int → Option Nat :=
  fdsFindby FdSession.socketfd

/-- `fds_findbytimerfd` -/
def fdsFindbytimerfd : FdsList → Int → Option Nat :=
  fdsFindby FdSession.timerfd

/-- `fds_deletebytimerfd`: its own scan is the one of `fds_findbytimerfd`. -/
def fdsDeletebytimerfd
    (t : FdsList) (timerfd : Int) : Int × FdsList :=
  match fdsFindby FdSession.timerfd t timerfd with
  | none => (ENOENT, t)
  | some i =>
      let last := t.nUsed - 1
      let moved := moveLast t.list t.nUsed i
      (0,
        { t with
          nUsed := last
          list := Function.update moved last
            { moved last with socketfd := -1, timerfd := -1 } })

section Lookup

variable {key : FdSession → Int}

/-- A lookup that succeeds returns a live slot with the wanted descriptor. -/
theorem fdsFindby_some
    {t : FdsList} {fd : Int} {i : Nat}
    (h : fdsFindby key t fd = some i) :
    i < t.nUsed ∧ key (t.list i) = fd := by
  unfold fdsFindby at h
  rw [List.find?_range_eq_some] at h
  obtain ⟨hkey, hmem, _⟩ := h
  exact ⟨List.mem_range.mp hmem, by simpa using hkey⟩

theorem fdsFindby_some_mem
    {t : FdsList} {fd : Int} {i : Nat}
    (h : fdsFindby key t fd = some i) :
    t.list i ∈ t.live ∧ key (t.list i) = fd := by
  obtain ⟨hi, hkey⟩ := fdsFindby_some h
  exact ⟨mem_live_iff.mpr ⟨i, hi, rfl⟩, hkey⟩

/-- A lookup fails exactly when no live entry has the descriptor. -/
theorem fdsFindby_none_iff
    {t : FdsList} {fd : Int} :
    fdsFindby key t fd = none ↔ ∀ e ∈ t.live, key e ≠ fd := by
  unfold fdsFindby
  rw [List.find?_range_eq_none]
  constructor
  · intro h e he
    obtain ⟨i, hi, rfl⟩ := mem_live_iff.mp he
    simpa using h i hi
  · intro h i hi
    have hne := h (t.list i) (mem_live_iff.mpr ⟨i, hi, rfl⟩)
    simpa using hne

/-- With distinct descriptors the lookup finds the entry that has it. -/
theorem fdsFindby_of_mem
    {t : FdsList} {e : FdSession}
    (hnodup : (t.live.map key).Nodup)
    (he : e ∈ t.live) :
    ∃ i, fdsFindby key t (key e) = some i ∧ t.list i = e := by
  cases hfind : fdsFindby key t (key e) with
  | none =>
      exact absurd rfl (fdsFindby_none_iff.mp hfind e he)
  | some i =>
      obtain ⟨hi, hkey⟩ := fdsFindby_some_mem hfind
      exact ⟨i, rfl, List.inj_on_of_nodup_map hnodup hi he hkey⟩

end Lookup

/--
Deletion of a found entry returns 0, keeps the allocation, and leaves a
permutation of the other entries.
-/
theorem fdsDeletebytimerfd_perm
    {t : FdsList} {fd : Int} {i : Nat}
    (h : fdsFindby FdSession.timerfd t fd = some i) :
    (fdsDeletebytimerfd t fd).1 = 0 ∧
    (fdsDeletebytimerfd t fd).2.nAllocated = t.nAllocated ∧
    (fdsDeletebytimerfd t fd).2.nUsed = t.nUsed - 1 ∧
    (t.list i :: (fdsDeletebytimerfd t fd).2.live).Perm t.live := by
  obtain ⟨hi, _⟩ := fdsFindby_some h
  simp only [fdsDeletebytimerfd, h, FdsList.live, true_and]
  rw [live_update_of_le _ _ (Nat.le_refl _)]
  exact live_moveLast t.list hi

section Deletion

variable {t : FdsList} {e : FdSession}

/-- The entries that are left are the others, each of them once. -/
theorem mem_live_delete_iff
    (hnodup : (t.live.map FdSession.timerfd).Nodup)
    (he : e ∈ t.live)
    (e' : FdSession) :
    e' ∈ (fdsDeletebytimerfd t e.timerfd).2.live ↔ e' ∈ t.live ∧ e' ≠ e := by
  obtain ⟨i, hfind, rfl⟩ := fdsFindby_of_mem hnodup he
  obtain ⟨-, -, -, hperm⟩ := fdsDeletebytimerfd_perm hfind
  have hcons := List.nodup_cons.mp (hperm.nodup_iff.mpr (List.Nodup.of_map _ hnodup))
  rw [← hperm.mem_iff, List.mem_cons]
  constructor
  · intro hmem
    refine ⟨Or.inr hmem, ?_⟩
    rintro rfl
    exact hcons.1 hmem
  · rintro ⟨rfl | hmem, hne⟩
    · exact absurd rfl hne
    · exact hmem

/-- A lookup by a key that was distinct finds the entries that are left, and only these. -/
theorem fdsFindby_delete
    {key : FdSession → Int}
    (hnodup : (t.live.map FdSession.timerfd).Nodup)
    (hkey : (t.live.map key).Nodup)
    (he : e ∈ t.live) :
    (∀ e' ∈ t.live, e' ≠ e →
      ∃ i, fdsFindby key (fdsDeletebytimerfd t e.timerfd).2 (key e') = some i ∧
        (fdsDeletebytimerfd t e.timerfd).2.list i = e') ∧
    fdsFindby key (fdsDeletebytimerfd t e.timerfd).2 (key e) = none := by
  obtain ⟨i, hfind, hi⟩ := fdsFindby_of_mem hnodup he
  obtain ⟨-, -, -, hperm⟩ := fdsDeletebytimerfd_perm hfind
  have hleft := (List.nodup_cons.mp ((hperm.map key).nodup_iff.mpr hkey)).2
  refine ⟨?_, ?_⟩
  · intro e' he' hne
    exact fdsFindby_of_mem hleft ((mem_live_delete_iff hnodup he e').mpr ⟨he', hne⟩)
  · rw [fdsFindby_none_iff]
    intro e' he' heq
    obtain ⟨hmem, hne⟩ := (mem_live_delete_iff hnodup he e').mp he'
    exact hne (List.inj_on_of_nodup_map hkey hmem he heq)

/--
In a table with distinct timerfds and distinct socketfds a deletion removes the entry with the
timerfd and nothing else: the others stay as they are and both lookups find them, and neither
finds the one that is gone.  Without such an entry the table stays as it is.
-/
theorem fdsDeletebytimerfd_exact
    (t : FdsList)
    (htimers : (t.live.map FdSession.timerfd).Nodup)
    (hsockets : (t.live.map FdSession.socketfd).Nodup)
    (timerfd : Int) :
    (∀ e ∈ t.live, e.timerfd = timerfd →
      (fdsDeletebytimerfd t timerfd).1 = 0 ∧
      (e :: (fdsDeletebytimerfd t timerfd).2.live).Perm t.live ∧
      (∀ e' ∈ t.live, e' ≠ e →
        (∃ i, fdsFindbysocketfd (fdsDeletebytimerfd t timerfd).2 e'.socketfd = some i ∧
          (fdsDeletebytimerfd t timerfd).2.list i = e') ∧
        ∃ i, fdsFindbytimerfd (fdsDeletebytimerfd t timerfd).2 e'.timerfd = some i ∧
          (fdsDeletebytimerfd t timerfd).2.list i = e') ∧
      fdsFindbysocketfd (fdsDeletebytimerfd t timerfd).2 e.socketfd = none ∧
      fdsFindbytimerfd (fdsDeletebytimerfd t timerfd).2 e.timerfd = none) ∧
    ((∀ e ∈ t.live, e.timerfd ≠ timerfd) →
      fdsDeletebytimerfd t timerfd = (ENOENT, t)) := by
  refine ⟨?_, ?_⟩
  · rintro e he rfl
    obtain ⟨i, hfind, hi⟩ := fdsFindby_of_mem htimers he
    obtain ⟨hret, -, -, hperm⟩ := fdsDeletebytimerfd_perm hfind
    obtain ⟨hbysocket, hnosocket⟩ := fdsFindby_delete htimers hsockets he
    obtain ⟨hbytimer, hnotimer⟩ := fdsFindby_delete htimers htimers he
    rw [hi] at hperm
    exact ⟨hret, hperm, fun e' he' hne => ⟨hbysocket e' he' hne, hbytimer e' he' hne⟩,
      hnosocket, hnotimer⟩
  · intro hnone
    rw [fdsDeletebytimerfd, fdsFindby_none_iff.mpr hnone]

/-- Three sessions, of which the first is deleted. -/
def threeSessions : FdsList where
  nAllocated := 16
  nUsed := 3
  list := fun i => ⟨10 + 2 * i, 11 + 2 * i, 30⟩

theorem fdsDeletebytimerfd_first :
    (fdsDeletebytimerfd threeSessions 11).1 = 0 ∧
    (⟨10, 11, 30⟩ :: (fdsDeletebytimerfd threeSessions 11).2.live).Perm threeSessions.live ∧
    fdsFindbysocketfd (fdsDeletebytimerfd threeSessions 11).2 10 = none ∧
    fdsDeletebytimerfd threeSessions 12 = (ENOENT, threeSessions) := by
  have hdelete := (fdsDeletebytimerfd_exact threeSessions (by decide) (by decide) 11).1
    ⟨10, 11, 30⟩ (by decide) rfl
  have hmissing := (fdsDeletebytimerfd_exact threeSessions (by decide) (by decide) 12).2
    (by decide)
  exact ⟨hdelete.1, hdelete.2.1, hdelete.2.2.2.1, hmissing⟩

end Deletion

end EpollTimerfd
end SysProg
