import SysProg.DirWalk.Walk

/-!
# The counters of APUE/filenum.c

`myfunc` is the callback that `main` walks the tree with.  It counts by the file type that
`lstat` found, and only prints something for a directory that cannot be read and for a file
without a status.

**Results.** `walk_exact`: the walk makes one call for every entry of the tree, in preorder, and
one more for every directory that cannot be opened, and stops at the first call that returns
something else than 0; with `myfunc` the counters are the numbers of entries of each type.
-/

namespace SysProg
namespace DirWalk

universe u

section Program

def S_IFREG : Nat := 0o100000
def S_IFBLK : Nat := 0o060000
def S_IFCHR : Nat := 0o020000
def S_IFIFO : Nat := 0o010000
def S_IFLNK : Nat := 0o120000
def S_IFSOCK : Nat := 0o140000

/-- The counters; `dumped` is set where `err_dump` ends the program. -/
@[ext]
structure Counters where
  nreg : Nat
  ndir : Nat
  nblk : Nat
  nchr : Nat
  nfifo : Nat
  nslink : Nat
  nsock : Nat
  dumped : Bool
deriving DecidableEq, Repr

def Counters.zero : Counters :=
  ⟨0, 0, 0, 0, 0, 0, 0, false⟩

/-- The inner switch; a file of another type is not counted. -/
def Counters.addFile (c : Counters) (fmt : Option Nat) : Counters :=
  if fmt = some S_IFREG then { c with nreg := c.nreg + 1 }
  else if fmt = some S_IFBLK then { c with nblk := c.nblk + 1 }
  else if fmt = some S_IFCHR then { c with nchr := c.nchr + 1 }
  else if fmt = some S_IFIFO then { c with nfifo := c.nfifo + 1 }
  else if fmt = some S_IFLNK then { c with nslink := c.nslink + 1 }
  else if fmt = some S_IFSOCK then { c with nsock := c.nsock + 1 }
  else if fmt = some S_IFDIR then { c with dumped := true }
  else c

def myfunc (c : Counters) (call : Call) : Int × Counters :=
  match call.type with
  | .f => (0, c.addFile (call.stat.map Stat.fmt))
  | .d => (0, { c with ndir := c.ndir + 1 })
  | .dnr => (0, c)
  | .ns => (0, c)

end Program

section Spec

/-- The type of an entry, unless `lstat` fails for it. -/
def Node.fmt : Node → Option Nat
  | .leaf .noStat => none
  | .leaf (.file st _) => some st.fmt
  | .leaf (.unreadable st _) => some st.fmt
  | .dir st _ => some st.fmt

def countType (entries : List (List UInt8 × Node)) (fmt : Nat) : Nat :=
  entries.countP (fun entry => entry.2.fmt == some fmt)

/-- The number of entries of each type. -/
def Counters.ofEntries (entries : List (List UInt8 × Node)) : Counters where
  nreg := countType entries S_IFREG
  ndir := countType entries S_IFDIR
  nblk := countType entries S_IFBLK
  nchr := countType entries S_IFCHR
  nfifo := countType entries S_IFIFO
  nslink := countType entries S_IFLNK
  nsock := countType entries S_IFSOCK
  dumped := false

def Counters.add (c d : Counters) : Counters where
  nreg := c.nreg + d.nreg
  ndir := c.ndir + d.ndir
  nblk := c.nblk + d.nblk
  nchr := c.nchr + d.nchr
  nfifo := c.nfifo + d.nfifo
  nslink := c.nslink + d.nslink
  nsock := c.nsock + d.nsock
  dumped := c.dumped || d.dumped

end Spec

section Counting

theorem countType_cons
    (entry : List UInt8 × Node) (entries : List (List UInt8 × Node)) (fmt : Nat) :
    countType (entry :: entries) fmt = countType [entry] fmt + countType entries fmt := by
  rw [countType, ← List.singleton_append, List.countP_append]
  rfl

theorem add_ofEntries_cons
    (c : Counters) (entry : List UInt8 × Node) (entries : List (List UInt8 × Node)) :
    (c.add (Counters.ofEntries [entry])).add (Counters.ofEntries entries) =
      c.add (Counters.ofEntries (entry :: entries)) := by
  simp only [Counters.add, Counters.ofEntries, countType_cons entry entries, Nat.add_assoc,
    Bool.or_false]

theorem add_ofEntries_nil
    (c : Counters) :
    c.add (Counters.ofEntries []) = c := by
  simp [Counters.add, Counters.ofEntries, countType]

theorem countType_singleton
    (path : List UInt8) (node : Node) (fmt : Nat) :
    countType [(path, node)] fmt = if node.fmt = some fmt then 1 else 0 := by
  rw [countType, List.countP_singleton]
  simp only [beq_iff_eq]

theorem Stat.isDir_iff
    (st : Stat) :
    st.isDir = true ↔ st.fmt = S_IFDIR := by
  rw [Stat.isDir, beq_iff_eq]

/-- A file that is not a directory is counted once, as what it is. -/
theorem addFile_eq
    {st : Stat}
    (c : Counters) (path : List UInt8)
    (hfile : st.isDir = false) :
    c.addFile (some st.fmt) = c.add (Counters.ofEntries [(path, .leaf (.file st hfile))]) := by
  have hne : st.fmt ≠ S_IFDIR := by
    rw [Ne, ← st.isDir_iff, hfile]
    exact Bool.false_ne_true
  simp only [Counters.add, Counters.ofEntries, countType_singleton, Node.fmt, Counters.addFile,
    Option.some.injEq, if_neg hne]
  generalize st.fmt = fmt
  split_ifs <;> simp_all [S_IFREG, S_IFBLK, S_IFCHR, S_IFIFO, S_IFLNK, S_IFSOCK]

/-- A directory is counted once, whether or not it can be opened. -/
theorem addDir_eq
    {node : Node}
    (c : Counters) (path : List UInt8)
    (hdir : node.fmt = some S_IFDIR) :
    { c with ndir := c.ndir + 1 } = c.add (Counters.ofEntries [(path, node)]) := by
  simp only [Counters.add, Counters.ofEntries, countType_singleton, hdir]
  simp [S_IFREG, S_IFBLK, S_IFCHR, S_IFIFO, S_IFLNK, S_IFSOCK, S_IFDIR]

theorem runCalls_myfunc_node
    (c : Counters) (entry : List UInt8 × Node) :
    runCalls myfunc c (nodeCalls entry) = (0, c.add (Counters.ofEntries [entry])) := by
  obtain ⟨path, node⟩ := entry
  cases node with
  | leaf kind =>
      cases kind with
      | noStat =>
          have hnone : c.add (Counters.ofEntries [(path, .leaf .noStat)]) = c := by
            simp [Counters.add, Counters.ofEntries, countType_singleton, Node.fmt]
          rw [nodeCalls, runCalls_singleton, hnone]
          rfl
      | file st hfile =>
          rw [nodeCalls, runCalls_singleton, ← addFile_eq]
          rfl
      | unreadable st hdir =>
          have hfmt : Node.fmt (.leaf (.unreadable st hdir)) = some S_IFDIR :=
            congrArg some (st.isDir_iff.mp hdir)
          rw [nodeCalls, ← addDir_eq c path hfmt]
          rfl
  | dir st hdir =>
      have hfmt : Node.fmt (.dir st hdir) = some S_IFDIR :=
        congrArg some (st.isDir_iff.mp hdir)
      rw [nodeCalls, runCalls_singleton, ← addDir_eq c path hfmt]
      rfl

/-- `myfunc` over the calls for a list of entries. -/
theorem runCalls_myfunc
    (c : Counters) (entries : List (List UInt8 × Node)) :
    runCalls myfunc c (entries.flatMap nodeCalls) = (0, c.add (Counters.ofEntries entries)) := by
  induction entries generalizing c with
  | nil =>
      rw [add_ofEntries_nil]
      rfl
  | cons entry entries ih =>
      rw [List.flatMap_cons, runCalls_append, runCalls_myfunc_node, if_neg (by simp), ih,
        add_ofEntries_cons]

theorem zero_add_ofEntries
    (entries : List (List UInt8 × Node)) :
    Counters.zero.add (Counters.ofEntries entries) = Counters.ofEntries entries := by
  simp [Counters.add, Counters.zero, Counters.ofEntries]

/-- But for FTW_DNR there is one call for each entry, in preorder and with its path. -/
theorem calls_paths
    (entries : List (List UInt8 × Node)) :
    ((entries.flatMap nodeCalls).filter (fun c => c.type != .dnr)).map Call.pathname =
      entries.map Prod.fst := by
  have hnode : ∀ entry : List UInt8 × Node,
      ((nodeCalls entry).filter (fun c => c.type != .dnr)).map Call.pathname = [entry.1] := by
    rintro ⟨path, (_ | _ | _) | _⟩
    · rfl
    · rfl
    · rfl
    · rfl
  induction entries with
  | nil =>
      rfl
  | cons entry entries ih =>
      rw [List.flatMap_cons, List.filter_append, List.map_append, hnode, ih, List.map_cons,
        List.singleton_append]

/-- The walk is exact. -/
theorem walk_exact
    {fs : Files} {pathname : List UInt8} {tree : Tree}
    (htree : fs.IsTree pathname tree)
    (hzero : 0 ∉ pathname)
    (junk : Nat → UInt8) {fuel : Nat}
    (hfuel : tree.depth ≤ fuel) :
    (∀ (σ : Type u) (func : σ → Call → Int × σ) (s : σ),
      (myftw func fs junk fuel pathname s).map (fun r => (r.1, r.2.state)) =
        some (runCalls func s (tree.calls pathname))) ∧
      ((tree.calls pathname).filter (fun c => c.type != .dnr)).map Call.pathname =
        (tree.preorder pathname).map Prod.fst ∧
      (myftw myfunc fs junk fuel pathname Counters.zero).map (fun r => (r.1, r.2.state)) =
        some (0, Counters.ofEntries (tree.preorder pathname)) := by
  refine ⟨fun σ func s => myftw_tree htree hzero hfuel s, calls_paths _, ?_⟩
  rw [myftw_tree htree hzero hfuel, Tree.calls, runCalls_myfunc, zero_add_ofEntries]

end Counting

section Example

def regular : Stat := ⟨0o100644⟩
def directory : Stat := ⟨0o040755⟩

/-- "t" with the directory "t/d", which has a file "t/d/x", an unreadable directory "t/u" and a
file "t/g" that is gone when `lstat` asks for it. -/
def sampleFiles : Files where
  lstat path :=
    if path = [116] ∨ path = [116, 47, 100] ∨ path = [116, 47, 117] then some directory
    else if path = [116, 47, 100, 47, 120] then some regular
    else none
  opendir path :=
    if path = [116, 47] then some [[46], [100], [46, 46], [117], [103]]
    else if path = [116, 47, 100, 47] then some [[46, 46], [46], [120]]
    else none

def sampleTree : Tree :=
  .dir directory rfl
    (.dir [100] directory rfl (.leaf [120] (.file regular rfl) .nil)
      (.leaf [117] (.unreadable directory rfl) (.leaf [103] .noStat .nil)))

theorem isTree_sample :
    sampleFiles.IsTree [116] sampleTree := by
  have hx : IsName [120] := ⟨by decide, by decide, rfl⟩
  have hd : IsName [100] := ⟨by decide, by decide, rfl⟩
  have hu : IsName [117] := ⟨by decide, by decide, rfl⟩
  have hg : IsName [103] := ⟨by decide, by decide, rfl⟩
  have hsub : sampleFiles.Lists [116, 47, 100] [[46, 46], [46], [120]]
      (.leaf [120] (.file regular rfl) .nil) :=
    .dots rfl (.dots rfl (.leaf hx rfl .nil))
  refine ⟨rfl, _, rfl, .dots rfl (.dir hd rfl rfl hsub ?_)⟩
  exact .dots rfl (.leaf hu ⟨rfl, rfl⟩ (.leaf hg rfl .nil))

theorem walk_exact_sample :
    (myftw myfunc sampleFiles (fun _ => 255) 3 [116] Counters.zero).map
        (fun r => (r.1, r.2.state)) =
      some (0, ⟨1, 3, 0, 0, 0, 0, 0, false⟩) :=
  (walk_exact.{0} isTree_sample (by decide) (fun _ => 255) (by decide)).2.2

end Example
end DirWalk
end SysProg
