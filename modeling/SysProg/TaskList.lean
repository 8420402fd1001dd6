import SysProg.Lib.LinkedList
import SysProg.Lib.Progress
import SysProg.Lib.Run
import Mathlib.Tactic

/-!
# The tasks of ALSP/OpenMP/omp_task_linkedlist.c

`make_lnklist` builds a list of nodes; one thread walks over it and creates a task for each
node, and the threads of the team carry the tasks out.  The task is deferred only for `i > 5`:
before that the thread carries it out itself and goes on afterwards.

The first node is made to point to itself until the second one is appended.

**Steps.**  One turn of the loop in `walk_lnklist`, or one deferred task, in any order of the
tasks.  The addresses that `calloc` returns are different from each other.

**Result.**  `each_node_once`: with any number of nodes in addition to the first, but at least
one, the walk ends; every node is printed once, with its index and its successor, and the first
six in their order.
-/

namespace SysProg
namespace TaskList

open LinkedList Progress Run

universe u

variable {α : Type u}

section Building

variable [DecidableEq α]

/-- `ll_head` and `ll_tail` with the nodes. -/
structure Lnklist (α : Type u) where
  mem : α → Node α Nat
  head : α
  tail : α

/-- `calloc(1, sizeof(LNKLIST))` has returned the address. -/
def calloc (mem : α → Node α Nat) (a : α) : α → Node α Nat :=
  Function.update mem a ⟨0, none⟩

def appendLnklist (l : Lnklist α) (list : α) : Lnklist α :=
  let mem₁ := Function.update l.mem l.tail { l.mem l.tail with next := some list }
  { l with
    mem := Function.update mem₁ list { mem₁ list with next := none }
    tail := list }

/-- A turn of the loop in `make_lnklist`. -/
def addNode (l : Lnklist α) (i : Nat) (list : α) : Lnklist α :=
  let mem₁ := calloc l.mem list
  appendLnklist { l with mem := Function.update mem₁ list { mem₁ list with num := i } } list

/-- The first node, which points to itself. -/
def firstNode (mem : α → Node α Nat) (a : α) : Lnklist α :=
  let mem₁ := calloc mem a
  { mem := Function.update mem₁ a { mem₁ a with next := some a }
    head := a
    tail := a }

/-- `make_lnklist`, with the addresses that `calloc` returns. -/
def makeLnklist (mem : α → Node α Nat) (a : α) (as : List α) : Lnklist α :=
  as.zipIdx.foldl (fun l node => addNode l node.2 node.1) (firstNode mem a)

end Building

section Linked

variable [DecidableEq α] {l : Lnklist α} {a : α} {as : List α}

/-- The nodes up to the last one lead to it; the last one ends the list once it was appended. -/
structure Linked (l : Lnklist α) (a : α) (as : List α) : Prop where
  head : l.head = a
  tail : (a :: as).getLast? = some l.tail
  segment : Segment l.mem (some a) (a :: as).dropLast (some l.tail)
  last : as ≠ [] → (l.mem l.tail).next = none

theorem linked_firstNode
    (mem : α → Node α Nat) (a : α) :
    Linked (firstNode mem a) a [] :=
  ⟨rfl, rfl, rfl, fun h => absurd rfl h⟩

/-- Where a new node changes the `next` fields. -/
theorem next_addNode
    {i : Nat} {list b : α}
    (hne : list ≠ l.tail) :
    ((addNode l i list).mem b).next =
      if b = list then none else if b = l.tail then some list else (l.mem b).next := by
  simp only [addNode, appendLnklist, calloc, Function.update_apply]
  split_ifs <;> simp_all

theorem Linked.addNode
    {i : Nat} {list : α}
    (h : Linked l a as)
    (hnodup : (a :: as).Nodup)
    (hfresh : list ∉ a :: as) :
    Linked (addNode l i list) a (as ++ [list]) := by
  have htail : l.tail ∈ a :: as := List.mem_of_getLast? h.tail
  have hne : list ≠ l.tail := by
    rintro rfl
    exact hfresh htail
  have hsplit : a :: as = (a :: as).dropLast ++ [l.tail] :=
    (List.dropLast_append_getLast? l.tail h.tail).symm
  have hnext : ((TaskList.addNode l i list).mem l.tail).next = some list := by
    rw [next_addNode hne, if_neg (Ne.symm hne), if_pos rfl]
  refine ⟨h.head, ?_, ?_, ?_⟩
  · rw [← List.cons_append, List.getLast?_concat]
    rfl
  · have hdrop : (a :: (as ++ [list])).dropLast = (a :: as).dropLast ++ [l.tail] := by
      rw [← List.cons_append, List.dropLast_concat, ← hsplit]
    rw [hdrop]
    refine Segment.snoc (h.segment.congr ?_) hnext
    intro b hb
    have hb' : b ≠ list := by
      rintro rfl
      exact hfresh (List.dropLast_subset _ hb)
    have hbtail : b ≠ l.tail := by
      rintro rfl
      rw [hsplit] at hnodup
      exact (List.nodup_append.mp hnodup).2.2 _ hb _ (List.mem_singleton_self _) rfl
    rw [next_addNode hne, if_neg hb', if_neg hbtail]
  · intro _
    exact (next_addNode hne).trans (if_pos rfl)

theorem Linked.foldl
    {done : List α}
    (h : Linked l a done)
    (rest : List (α × Nat))
    (hnodup : (a :: (done ++ rest.map Prod.fst)).Nodup) :
    Linked (rest.foldl (fun l node => TaskList.addNode l node.2 node.1) l) a
      (done ++ rest.map Prod.fst) := by
  induction rest generalizing l done with
  | nil =>
      simpa using h
  | cons node rest ih =>
      have hsplit : a :: (done ++ (node :: rest).map Prod.fst) =
          (a :: done) ++ node.1 :: rest.map Prod.fst := by simp
      have hfresh : node.1 ∉ a :: done := by
        rw [hsplit] at hnodup
        intro hmem
        exact (List.nodup_append.mp hnodup).2.2 _ hmem _ List.mem_cons_self rfl
      have hdone : (a :: done).Nodup := by
        rw [hsplit] at hnodup
        exact (List.nodup_append.mp hnodup).1
      have hnext := ih (h.addNode (i := node.2) hdone hfresh) (by simpa using hnodup)
      simpa using hnext

/-- With one more node at least, the list ends. -/
theorem segment_makeLnklist
    (mem : α → Node α Nat)
    (hnodup : (a :: as).Nodup)
    (hmore : as ≠ []) :
    (makeLnklist mem a as).head = a ∧
      Segment (makeLnklist mem a as).mem (some a) (a :: as) none := by
  have hlinked : Linked (makeLnklist mem a as) a as := by
    have h := (linked_firstNode mem a).foldl as.zipIdx
      (by simpa [List.zipIdx_map_fst] using hnodup)
    simpa [makeLnklist, List.zipIdx_map_fst] using h
  refine ⟨hlinked.head, ?_⟩
  have hsnoc := hlinked.segment.snoc (hlinked.last hmore)
  rwa [List.dropLast_append_getLast? _ hlinked.tail] at hsnoc

end Linked

section Walking

/-- A line of a task: the index, the node and its successor. -/
structure Line (α : Type u) where
  i : Nat
  list : α
  next : Option α
deriving DecidableEq, Repr

/-- The walking thread with its pointer; the deferred tasks with their values; the lines. -/
structure State (α : Type u) where
  i : Nat
  list : Option α
  tasks : List (α × Nat)
  lines : List (Line α)
deriving DecidableEq, Repr

def State.start (head : α) : State α :=
  ⟨0, some head, [], []⟩

/-- `printf` in the task, with its private copies of `list` and `i`. -/
def printTask (mem : α → Node α Nat) (task : α × Nat) : Line α :=
  ⟨task.2, task.1, (mem task.1).next⟩

inductive Label where
  | walk
  /-- a thread takes one of the deferred tasks -/
  | task (j : Nat)
deriving DecidableEq, Repr

def step (mem : α → Node α Nat) (s : State α) : Label → Option (State α)
  | .walk =>
      s.list.map (fun a =>
        if 5 < s.i then
          { s with
            i := s.i + 1
            list := (mem a).next
            tasks := s.tasks ++ [(a, s.i)] }
        else
          { s with
            i := s.i + 1
            list := (mem a).next
            lines := s.lines ++ [printTask mem (a, s.i)] })
  | .task j =>
      s.tasks[j]?.map (fun task =>
        { s with
          tasks := s.tasks.eraseIdx j
          lines := s.lines ++ [printTask mem task] })

end Walking

section Result

variable {mem : α → Node α Nat} {nodes : List α} {s s' : State α} {l : Label}

/-- One line for each node, with the node behind it. -/
def allLines (nodes : List α) : List (Line α) :=
  nodes.zipIdx.map (fun (a, i) => ⟨i, a, nodes[i + 1]?⟩)

structure Invariant (mem : α → Node α Nat) (nodes : List α) (s : State α) : Prop where
  bound : s.i ≤ nodes.length
  pointer : Segment mem s.list (nodes.drop s.i) none
  lines : (s.lines ++ s.tasks.map (printTask mem)).Perm ((allLines nodes).take s.i)
  begun : (allLines nodes).take (min s.i 6) <+: s.lines
  early : s.i ≤ 6 → s.tasks = []

theorem allLines_getElem
    {a : α} {i : Nat}
    (h : nodes[i]? = some a)
    (hnext : (mem a).next = nodes[i + 1]?) :
    (allLines nodes)[i]? = some (printTask mem (a, i)) := by
  simp [allLines, printTask, h, hnext]

theorem Invariant.node
    {a : α}
    (h : Invariant mem nodes s)
    (hlist : s.list = some a) :
    nodes[s.i]? = some a ∧ (mem a).next = nodes[s.i + 1]? ∧
      Segment mem (mem a).next (nodes.drop (s.i + 1)) none := by
  have hpointer := h.pointer
  rw [hlist] at hpointer
  cases hdrop : nodes.drop s.i with
  | nil =>
      rw [hdrop] at hpointer
      cases hpointer
  | cons b rest =>
      rw [hdrop] at hpointer
      obtain ⟨heq, hrest⟩ := hpointer
      cases heq
      have htail : nodes.drop (s.i + 1) = rest := by
        rw [← List.tail_drop, hdrop, List.tail_cons]
      refine ⟨?_, ?_, htail ▸ hrest⟩
      · have hget := congrArg (fun l => l[0]?) hdrop
        simpa using hget
      · rw [hrest.eq_head?, ← htail, List.head?_drop]

theorem Invariant.walk
    {a : α}
    (h : Invariant mem nodes s)
    (hlist : s.list = some a)
    (hstep : step mem s .walk = some s') :
    Invariant mem nodes s' := by
  obtain ⟨hnode, hnext, hrest⟩ := h.node hlist
  have hline := allLines_getElem hnode hnext
  have hlt : s.i < nodes.length := (List.getElem?_eq_some_iff.mp hnode).1
  have htake : (allLines nodes).take (s.i + 1) =
      (allLines nodes).take s.i ++ [printTask mem (a, s.i)] := by
    rw [List.take_add_one, hline]
    rfl
  simp only [step, hlist, Option.map_some, Option.some.injEq] at hstep
  subst hstep
  split_ifs with hdefer
  · refine ⟨hlt, hrest, ?_, ?_, ?_⟩
    · rw [htake, List.map_append, ← List.append_assoc]
      exact h.lines.append_right _
    · have hmin : min (s.i + 1) 6 = min s.i 6 := by omega
      rw [hmin]
      exact h.begun
    · intro hle
      have hle' : s.i + 1 ≤ 6 := hle
      omega
  · have htasks := h.early (by omega)
    have hmin : min (s.i + 1) 6 = s.i + 1 := by omega
    have hlines := h.lines
    rw [htasks, List.map_nil, List.append_nil] at hlines
    -- no task has been deferred, so that the lines so far are in their order
    have hbegun := h.begun
    rw [show min s.i 6 = s.i by omega] at hbegun
    have hexact : (allLines nodes).take s.i = s.lines := hbegun.eq_of_length hlines.length_eq.symm
    refine ⟨hlt, hrest, ?_, ?_, fun _ => htasks⟩
    · rw [htake, htasks, List.map_nil, List.append_nil]
      exact hlines.append_right _
    · rw [hmin, htake, hexact]

theorem Invariant.task
    {j : Nat} {task : α × Nat}
    (h : Invariant mem nodes s)
    (hj : s.tasks[j]? = some task) :
    Invariant mem nodes
      { s with tasks := s.tasks.eraseIdx j, lines := s.lines ++ [printTask mem task] } := by
  obtain ⟨hlt, heq⟩ := List.getElem?_eq_some_iff.mp hj
  have hperm : (task :: s.tasks.eraseIdx j).Perm s.tasks := by
    rw [← heq]
    exact List.getElem_cons_eraseIdx_perm hlt
  refine ⟨h.bound, h.pointer, ?_, h.begun.trans (List.prefix_append _ _), ?_⟩
  · have hmap := (hperm.map (printTask mem)).append_left s.lines
    rw [List.map_cons] at hmap
    simp only [List.append_assoc, List.singleton_append]
    exact hmap.trans h.lines
  · intro hle
    rw [h.early hle] at hlt
    cases hlt

theorem Invariant.step
    (h : Invariant mem nodes s)
    (hstep : step mem s l = some s') :
    Invariant mem nodes s' := by
  cases l with
  | walk =>
      obtain ⟨a, hlist, _⟩ := Option.map_eq_some_iff.mp hstep
      exact h.walk hlist hstep
  | task j =>
      obtain ⟨task, hj, rfl⟩ := Option.map_eq_some_iff.mp hstep
      exact h.task hj

theorem invariant_start
    {head : α} {rest : List α}
    (hsegment : Segment mem (some head) (head :: rest) none) :
    Invariant mem (head :: rest) (State.start head) := by
  refine ⟨Nat.zero_le _, hsegment, ?_, ?_, fun _ => rfl⟩
  · simp [State.start]
  · simp [State.start]

/-- The turns and tasks that are left. -/
def State.left (nodes : List α) (s : State α) : Nat :=
  2 * (nodes.length - s.i) + s.tasks.length

theorem Invariant.left_lt
    (h : Invariant mem nodes s)
    (hstep : TaskList.step mem s l = some s') :
    s'.left nodes < s.left nodes := by
  cases l with
  | walk =>
      obtain ⟨a, hlist, rfl⟩ := Option.map_eq_some_iff.mp hstep
      have hlt : s.i < nodes.length := (List.getElem?_eq_some_iff.mp (h.node hlist).1).1
      split_ifs
      · simp only [State.left, List.length_append, List.length_singleton]
        omega
      · simp only [State.left]
        omega
  | task j =>
      obtain ⟨task, hj, rfl⟩ := Option.map_eq_some_iff.mp hstep
      obtain ⟨hlt, _⟩ := List.getElem?_eq_some_iff.mp hj
      simp only [State.left, List.length_eraseIdx_of_lt hlt]
      omega

/-- Nothing is left to do when the walk is over and no task waits. -/
theorem Invariant.lines_of_halted
    (h : Invariant mem nodes s)
    (hend : ∀ l, TaskList.step mem s l = none) :
    s.lines.Perm (allLines nodes) := by
  have hlist : s.list = none := Option.map_eq_none_iff.mp (hend .walk)
  have htasks : s.tasks = [] := by
    have hfirst := Option.map_eq_none_iff.mp (hend (.task 0))
    simpa using hfirst
  have hall : nodes.length ≤ s.i := by
    have hpointer := h.pointer
    rw [hlist] at hpointer
    cases hdrop : nodes.drop s.i with
    | nil =>
        exact List.drop_eq_nil_iff.mp hdrop
    | cons b rest =>
        rw [hdrop] at hpointer
        cases hpointer.1
  have hlines := h.lines
  have hlength : (allLines nodes).length ≤ s.i := by
    rw [allLines, List.length_map, List.length_zipIdx]
    exact hall
  rw [htasks, List.map_nil, List.append_nil, List.take_of_length_le hlength] at hlines
  exact hlines

/--
For every list that `make_lnklist` builds with at least one node after the first, and every
order in which the threads take the tasks: the program ends, the first six nodes are printed in
their order, and every node is printed once, with the next node of the list.
-/
theorem each_node_once
    [DecidableEq α]
    {mem : α → Node α Nat} {a : α} {as : List α} {ls : List Label}
    (hnodup : (a :: as).Nodup)
    (hmore : as ≠ [])
    (hrun : run (TaskList.step (makeLnklist mem a as).mem)
      (State.start (makeLnklist mem a as).head) ls = some s) :
    ls.length ≤ 2 * (as.length + 1) ∧
    (allLines (a :: as)).take (min s.i 6) <+: s.lines ∧
    ((∀ l, TaskList.step (makeLnklist mem a as).mem s l = none) →
      s.lines.Perm (allLines (a :: as))) := by
  obtain ⟨hhead, hsegment⟩ := segment_makeLnklist mem hnodup hmore
  rw [hhead] at hrun
  have hstart := invariant_start hsegment
  have h : Invariant (makeLnklist mem a as).mem (a :: as) s :=
    run_invariant (fun _ _ _ h hstep => h.step hstep) hstart hrun
  have hlength := length_add_measure_le (P := Invariant (makeLnklist mem a as).mem (a :: as))
    (State.left (a :: as)) (fun _ _ _ h hstep => ⟨h.step hstep, h.left_lt hstep⟩) hstart hrun
  refine ⟨?_, h.begun, h.lines_of_halted⟩
  have hleft : (State.start a).left (a :: as) = 2 * (as.length + 1) := by
    simp [State.left, State.start]
  omega

/-- Eight nodes; of the two deferred tasks the second is taken first. -/
def secondFirst : List Label :=
  [.walk, .walk, .walk, .walk, .walk, .walk, .walk, .walk, .task 1, .task 0]

theorem each_node_once_secondFirst :
    ∃ s : State Nat,
      run (TaskList.step (makeLnklist (fun _ => ⟨0, none⟩) 10 [11, 12, 13, 14, 15, 16, 17]).mem)
        (State.start (makeLnklist (fun _ => ⟨0, none⟩) 10 [11, 12, 13, 14, 15, 16, 17]).head)
        secondFirst = some s ∧
      s.lines.map Line.i = [0, 1, 2, 3, 4, 5, 7, 6] ∧
      (allLines [10, 11, 12, 13, 14, 15, 16, 17]).take (min s.i 6) <+: s.lines := by
  have hrun : run
      (TaskList.step (makeLnklist (fun _ => ⟨0, none⟩) 10 [11, 12, 13, 14, 15, 16, 17]).mem)
      (State.start (makeLnklist (fun _ => ⟨0, none⟩) 10 [11, 12, 13, 14, 15, 16, 17]).head)
      secondFirst = some _ := rfl
  exact ⟨_, hrun, rfl, (each_node_once (by decide) (by decide) hrun).2.1⟩

end Result

end TaskList
end SysProg
