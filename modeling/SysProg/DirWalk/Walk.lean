import SysProg.Lib.CString
import SysProg.Lib.Memory
import Mathlib.Tactic

/-!
# The directory walk of APUE/filenum.c

`myftw` copies the start path into a global buffer and calls `dopath`, which looks at the file
that the buffer names, hands it to a callback, and for a directory appends a slash and every
name in turn and calls itself.  The buffer is never saved: each level writes behind its own
part, cuts the path off again at its end, and leaves it longer when it returns early.

**Steps.** The files are functions of the path in the buffer, so that a wrong path would be
asked for the wrong file.  `dopath` takes fuel; a store behind the buffer and a lack of fuel
both give no result.  What `malloc` and `realloc` leave in new memory is arbitrary; their
failure, which ends the program, is left out.  The callback has a state of its own and may do
anything with it.

`Entries` and `Tree` say what a directory contains, and `Lists` that the files under a path
are such a tree.

**Results.** `dopath_tree`: over a finite tree, with fuel for its depth, `dopath` makes the
calls of `Tree.calls` in order until one of them returns something else than 0, and returns
that.
-/

namespace SysProg
namespace DirWalk

open CString Memory

universe u

section Program

def NAME_MAX : Nat := 255
def PATH_MAX : Nat := 4096

def slash : UInt8 := 47
def dot : UInt8 := 46

def S_IFMT : Nat := 0o170000
def S_IFDIR : Nat := 0o040000

/-- `struct stat` -/
structure Stat where
  stMode : Nat
deriving DecidableEq, Repr

/-- `st_mode & S_IFMT` -/
def Stat.fmt (st : Stat) : Nat :=
  st.stMode &&& S_IFMT

/-- `S_ISDIR` -/
def Stat.isDir (st : Stat) : Bool :=
  st.fmt == S_IFDIR

/-- FTW_F, FTW_D, FTW_DNR and FTW_NS. -/
inductive Ftw where
  | f
  | d
  | dnr
  | ns
deriving DecidableEq, Repr

/-- The arguments of the callback; after a failed `lstat` the `stat` is not set. -/
structure Call where
  pathname : List UInt8
  stat : Option Stat
  type : Ftw
deriving DecidableEq, Repr

/-- The files, by path; `readdir` returns the names of a directory in this order. -/
structure Files where
  lstat : List UInt8 → Option Stat
  opendir : List UInt8 → Option (List (List UInt8))

variable {σ : Type u}

/-- The buffer `fullpath`, which has `pathlen` bytes, and the state of the callback. -/
structure Walk (σ : Type u) where
  fullpath : List UInt8
  state : σ

variable (func : σ → Call → Int × σ)

/-- A call of the callback. -/
def Walk.call (w : Walk σ) (c : Call) : Int × Walk σ :=
  ((func w.state c).1, { w with state := (func w.state c).2 })

/-- A store into the buffer. -/
def Walk.store (w : Walk σ) (i : Nat) (bytes : List UInt8) : Option (Walk σ) :=
  if i + bytes.length ≤ w.fullpath.length then
    some { w with fullpath := poke w.fullpath i bytes }
  else none

/-- `realloc` to twice the size, if a name might not fit; `junk` is what new memory holds. -/
def Walk.grow (junk : Nat → UInt8) (w : Walk σ) (n : Nat) : Walk σ :=
  if n + NAME_MAX + 2 > w.fullpath.length then
    { w with
      fullpath :=
        w.fullpath ++ (List.range w.fullpath.length).map
          (fun i => junk (w.fullpath.length + i)) }
  else w

def isDots (name : List UInt8) : Bool :=
  name == [dot] || name == [dot, dot]

/-- The loop over `readdir`, where `visit` is the recursive call. -/
def readEntries (visit : Walk σ → Option (Int × Walk σ)) (n : Nat) :
    List (List UInt8) → Int → Walk σ → Option (Int × Walk σ)
  | [], ret, w => some (ret, w)
  | name :: rest, ret, w =>
      if isDots name then readEntries visit n rest ret w
      else
        match w.store n (name ++ [0]) with
        | none => none
        | some w₁ =>
            match visit w₁ with
            | none => none
            | some (ret₁, w₂) =>
                if ret₁ ≠ 0 then some (ret₁, w₂) else readEntries visit n rest ret₁ w₂

/-- `dopath` behind the call for a directory, with `n` the length of the path. -/
def openDir
    (fs : Files) (junk : Nat → UInt8) (visit : Walk σ → Option (Int × Walk σ))
    (statbuf : Stat) (ret : Int) (w : Walk σ) :
    Option (Int × Walk σ) :=
  let n := (cstr w.fullpath).length
  match (w.grow junk n).store n [slash, 0] with
  | none => none
  | some w₁ =>
      match fs.opendir (cstr w₁.fullpath) with
      | none => some (w₁.call func ⟨cstr w₁.fullpath, some statbuf, .dnr⟩)
      | some names =>
          match readEntries visit (n + 1) names ret w₁ with
          | none => none
          | some (ret₁, w₂) => (w₂.store n [0]).map (fun w₃ => (ret₁, w₃))

def dopath (fs : Files) (junk : Nat → UInt8) : Nat → Walk σ → Option (Int × Walk σ)
  | 0, _ => none
  | fuel + 1, w =>
      match fs.lstat (cstr w.fullpath) with
      | none => some (w.call func ⟨cstr w.fullpath, none, .ns⟩)
      | some statbuf =>
          if statbuf.isDir then
            let (ret, w₁) := w.call func ⟨cstr w.fullpath, some statbuf, .d⟩
            if ret ≠ 0 then some (ret, w₁)
            else openDir func fs junk (dopath fs junk fuel) statbuf ret w₁
          else some (w.call func ⟨cstr w.fullpath, some statbuf, .f⟩)

/-- `path_alloc`, the possible `realloc`, and `strcpy`. -/
def startPath (junk : Nat → UInt8) (pathname : List UInt8) : List UInt8 :=
  let pathlen := if PATH_MAX ≤ pathname.length then pathname.length * 2 else PATH_MAX
  poke ((List.range pathlen).map junk) 0 (pathname ++ [0])

def myftw
    (fs : Files) (junk : Nat → UInt8) (fuel : Nat) (pathname : List UInt8) (s : σ) :
    Option (Int × Walk σ) :=
  dopath func fs junk fuel ⟨startPath junk pathname, s⟩

end Program

section Trees

/-- An entry that `dopath` does not descend into. -/
inductive Leaf where
  /-- `lstat` fails -/
  | noStat
  | file (st : Stat) (h : st.isDir = false)
  /-- a directory that cannot be opened -/
  | unreadable (st : Stat) (h : st.isDir = true)

/-- The entries of a directory but "." and "..", in the order of `readdir`. -/
inductive Entries where
  | nil
  | leaf (name : List UInt8) (kind : Leaf) (rest : Entries)
  | dir (name : List UInt8) (st : Stat) (h : st.isDir = true) (children rest : Entries)

inductive Tree where
  | leaf (kind : Leaf)
  | dir (st : Stat) (h : st.isDir = true) (children : Entries)

/-- An entry as it is met on the way. -/
inductive Node where
  | leaf (kind : Leaf)
  | dir (st : Stat) (h : st.isDir = true)

/-- The path of an entry of a directory. -/
def join (path name : List UInt8) : List UInt8 :=
  path ++ slash :: name

/-- The entries below a path with their paths: a directory first, then what it contains. -/
def Entries.preorder : List UInt8 → Entries → List (List UInt8 × Node)
  | _, .nil => []
  | path, .leaf name kind rest => (join path name, .leaf kind) :: preorder path rest
  | path, .dir name st h children rest =>
      (join path name, .dir st h) ::
        (preorder (join path name) children ++ preorder path rest)

def Tree.preorder (path : List UInt8) : Tree → List (List UInt8 × Node)
  | .leaf kind => [(path, .leaf kind)]
  | .dir st h children => (path, .dir st h) :: children.preorder path

/-- The calls for an entry: one, and another one for a directory that cannot be opened. -/
def nodeCalls : List UInt8 × Node → List Call
  | (path, .leaf .noStat) => [⟨path, none, .ns⟩]
  | (path, .leaf (.file st _)) => [⟨path, some st, .f⟩]
  | (path, .leaf (.unreadable st _)) =>
      [⟨path, some st, .d⟩, ⟨path ++ [slash], some st, .dnr⟩]
  | (path, .dir st _) => [⟨path, some st, .d⟩]

def Tree.calls (path : List UInt8) (tree : Tree) : List Call :=
  (tree.preorder path).flatMap nodeCalls

/-- Calls are made until one of them returns something else than 0. -/
def runCalls {σ : Type u} (func : σ → Call → Int × σ) : σ → List Call → Int × σ
  | s, [] => (0, s)
  | s, c :: rest =>
      if (func s c).1 ≠ 0 then func s c else runCalls func (func s c).2 rest

def Entries.depth : Entries → Nat
  | .nil => 0
  | .leaf _ _ rest => max 1 rest.depth
  | .dir _ _ _ children rest => max (children.depth + 1) rest.depth

def Tree.depth : Tree → Nat
  | .leaf _ => 1
  | .dir _ _ children => children.depth + 1

/-- What `readdir` may return, apart from "." and "..". -/
structure IsName (name : List UInt8) : Prop where
  zero_not_mem : 0 ∉ name
  length : name.length ≤ NAME_MAX
  dots : isDots name = false

/-- The system calls for a path answer as for a leaf. -/
def Files.IsLeaf (fs : Files) (path : List UInt8) : Leaf → Prop
  | .noStat => fs.lstat path = none
  | .file st _ => fs.lstat path = some st
  | .unreadable st _ => fs.lstat path = some st ∧ fs.opendir (path ++ [slash]) = none

/-- The names are those of the entries, "." and ".." anywhere among them. -/
inductive Files.Lists (fs : Files) : List UInt8 → List (List UInt8) → Entries → Prop
  | nil {path : List UInt8} :
      Lists fs path [] .nil
  | dots {path name : List UInt8} {names : List (List UInt8)} {entries : Entries}
      (hname : isDots name = true)
      (hrest : Lists fs path names entries) :
      Lists fs path (name :: names) entries
  | leaf {path name : List UInt8} {names : List (List UInt8)} {kind : Leaf} {rest : Entries}
      (hname : IsName name)
      (hleaf : fs.IsLeaf (join path name) kind)
      (hrest : Lists fs path names rest) :
      Lists fs path (name :: names) (.leaf name kind rest)
  | dir {path name : List UInt8} {names names' : List (List UInt8)} {st : Stat}
      {h : st.isDir = true} {children rest : Entries}
      (hname : IsName name)
      (hstat : fs.lstat (join path name) = some st)
      (hopen : fs.opendir (join path name ++ [slash]) = some names')
      (hchildren : Lists fs (join path name) names' children)
      (hrest : Lists fs path names rest) :
      Lists fs path (name :: names) (.dir name st h children rest)

/-- The files under a path are the tree. -/
def Files.IsTree (fs : Files) (path : List UInt8) : Tree → Prop
  | .leaf kind => fs.IsLeaf path kind
  | .dir st _ children =>
      fs.lstat path = some st ∧
        ∃ names, fs.opendir (path ++ [slash]) = some names ∧ fs.Lists path names children

end Trees

section Buffer

variable {σ : Type u} {w w₁ w₂ : Walk σ} {path name : List UInt8}

/-- The buffer holds a path, and has room for a name when it has been doubled. -/
structure Holds (path : List UInt8) (w : Walk σ) : Prop where
  cstr_eq : cstr w.fullpath = path
  length_lt : path.length < w.fullpath.length
  name_max : NAME_MAX < w.fullpath.length

/-- The buffer starts with the path of a directory, and any name fits behind it. -/
structure Ready (path : List UInt8) (w : Walk σ) : Prop where
  take_eq : w.fullpath.take path.length = path
  zero_not_mem : 0 ∉ path
  room : path.length + NAME_MAX < w.fullpath.length

/-- A path at the start of the buffer is still there, and the buffer has not become shorter. -/
structure Kept (path : List UInt8) (w w₁ : Walk σ) : Prop where
  take_eq : w₁.fullpath.take path.length = path
  length_le : w.fullpath.length ≤ w₁.fullpath.length

theorem Holds.zero_not_mem
    (h : Holds path w) :
    0 ∉ path := by
  rw [← h.cstr_eq]
  exact zero_not_mem_cstr w.fullpath

theorem Holds.take_eq
    (h : Holds path w) :
    w.fullpath.take path.length = path := by
  have hprefix : path <+: w.fullpath := by
    rw [← h.cstr_eq]
    exact List.takeWhile_prefix _
  exact (List.prefix_iff_eq_take.mp hprefix).symm

/-- What keeps a longer path keeps its beginning. -/
theorem Kept.of_append
    (h : Kept (path ++ name) w w₁) :
    Kept path w w₁ := by
  refine ⟨?_, h.length_le⟩
  have htake := congrArg (List.take path.length) h.take_eq
  rw [List.take_take, List.length_append, Nat.min_eq_left (Nat.le_add_right _ _),
    List.take_left] at htake
  exact htake

theorem Kept.trans
    (h : Kept path w w₁)
    (h₁ : Kept path w₁ w₂) :
    Kept path w w₂ :=
  ⟨h₁.take_eq, Nat.le_trans h.length_le h₁.length_le⟩

theorem Ready.of_kept
    (hready : Ready path w)
    (hkept : Kept path w w₁) :
    Ready path w₁ :=
  ⟨hkept.take_eq, hready.zero_not_mem, Nat.lt_of_lt_of_le hready.room hkept.length_le⟩

theorem store_eq
    {i : Nat} {bytes : List UInt8}
    (h : i + bytes.length ≤ w.fullpath.length) :
    w.store i bytes = some { w with fullpath := poke w.fullpath i bytes } :=
  if_pos h

/-- `realloc` keeps the path, and afterwards a slash, any name and the zero fit. -/
theorem grow_room
    (junk : Nat → UInt8)
    (h : Holds path w) :
    (w.grow junk path.length).state = w.state ∧
      Kept path w (w.grow junk path.length) ∧
        path.length + NAME_MAX + 2 ≤ (w.grow junk path.length).fullpath.length := by
  by_cases hsmall : path.length + NAME_MAX + 2 > w.fullpath.length
  · rw [Walk.grow, if_pos hsmall]
    have hlt := h.length_lt
    have hmax := h.name_max
    refine ⟨rfl, ⟨?_, ?_⟩, ?_⟩
    · change List.take _ (_ ++ _) = _
      rw [List.take_append_of_le_length (Nat.le_of_lt hlt), h.take_eq]
    · simp only [List.length_append]
      omega
    · simp only [List.length_append, List.length_map, List.length_range]
      omega
  · rw [Walk.grow, if_neg hsmall]
    exact ⟨rfl, ⟨h.take_eq, Nat.le_refl _⟩, by omega⟩

/-- A string stored behind a path that is kept in the buffer. -/
theorem store_string
    {bytes : List UInt8}
    (htake : w.fullpath.take path.length = path)
    (hpath : 0 ∉ path)
    (hbytes : 0 ∉ bytes)
    (hfits : path.length + bytes.length < w.fullpath.length)
    (hmax : NAME_MAX < w.fullpath.length) :
    ∃ w₁, w.store path.length (bytes ++ [0]) = some w₁ ∧
      w₁.state = w.state ∧
        Holds (path ++ bytes) w₁ ∧
          w₁.fullpath.length = w.fullpath.length := by
  have hfit : path.length + (bytes ++ [0]).length ≤ w.fullpath.length := by
    rw [List.length_append, List.length_singleton]
    omega
  have hlen := length_poke hfit
  have hzero : 0 ∉ w.fullpath.take path.length := by
    rw [htake]
    exact hpath
  refine ⟨_, store_eq hfit, rfl, ⟨?_, ?_, ?_⟩, hlen⟩
  · change cstr (poke _ _ _) = _
    rw [cstr_poke (by omega) hzero, htake, cstr_eq_self hbytes]
  · change (path ++ bytes).length < (poke _ _ _).length
    rw [hlen, List.length_append]
    exact hfits
  · change NAME_MAX < (poke _ _ _).length
    rw [hlen]
    exact hmax

/-- The slash is appended, with room for every name behind it. -/
theorem store_slash
    (junk : Nat → UInt8)
    (h : Holds path w) :
    ∃ w₁, (w.grow junk path.length).store path.length [slash, 0] = some w₁ ∧
      w₁.state = w.state ∧
        cstr w₁.fullpath = path ++ [slash] ∧
          Ready (path ++ [slash]) w₁ ∧
            w.fullpath.length ≤ w₁.fullpath.length := by
  obtain ⟨hstate, hkept, hroom⟩ := grow_room junk h
  have hslash : 0 ∉ [slash] := by decide
  obtain ⟨w₁, hstore, hstate₁, hholds, hlen⟩ :=
    store_string hkept.take_eq h.zero_not_mem hslash
      (by rw [List.length_singleton]; omega) (by omega)
  refine ⟨w₁, hstore, hstate₁.trans hstate, hholds.cstr_eq,
    ⟨hholds.take_eq, hholds.zero_not_mem, ?_⟩, ?_⟩
  · rw [hlen, List.length_append, List.length_singleton]
    omega
  · rw [hlen]
    exact hkept.length_le

/-- `strcpy` of a name behind the path of its directory. -/
theorem store_name
    (h : Ready path w)
    (hname : IsName name) :
    ∃ w₁, w.store path.length (name ++ [0]) = some w₁ ∧
      w₁.state = w.state ∧
        Holds (path ++ name) w₁ ∧
          w₁.fullpath.length = w.fullpath.length := by
  have hroom := h.room
  have hlong := hname.length
  exact store_string h.take_eq h.zero_not_mem hname.zero_not_mem (by omega) (by omega)

/-- The slash is cut off again. -/
theorem store_cut
    (h : Ready (path ++ [slash]) w) :
    ∃ w₁, w.store path.length [0] = some w₁ ∧
      w₁.state = w.state ∧
        Kept path w w₁ := by
  have hroom := h.room
  rw [List.length_append, List.length_singleton] at hroom
  have hfit : path.length + [(0 : UInt8)].length ≤ w.fullpath.length := by
    rw [List.length_singleton]
    omega
  have hkept : Kept path w w := Kept.of_append ⟨h.take_eq, Nat.le_refl _⟩
  refine ⟨_, store_eq hfit, rfl, ⟨?_, Nat.le_of_eq (length_poke hfit).symm⟩⟩
  change (poke _ _ _).take _ = _
  rw [take_poke (Nat.le_refl _) (by omega), hkept.take_eq]

end Buffer

section Calls

variable {σ : Type u} {func : σ → Call → Int × σ}

theorem runCalls_cons
    (s : σ) (c : Call) (rest : List Call) :
    runCalls func s (c :: rest) =
      if (func s c).1 ≠ 0 then func s c else runCalls func (func s c).2 rest := by
  rw [runCalls]

theorem runCalls_singleton
    (s : σ) (c : Call) :
    runCalls func s [c] = func s c := by
  rw [runCalls_cons]
  by_cases hret : (func s c).1 ≠ 0
  · rw [if_pos hret]
  · rw [if_neg hret, runCalls]
    exact Prod.ext (not_not.mp hret).symm rfl

/-- Calls after calls are only made when the first ones all return 0. -/
theorem runCalls_append
    (s : σ) (first rest : List Call) :
    runCalls func s (first ++ rest) =
      if (runCalls func s first).1 ≠ 0 then runCalls func s first
      else runCalls func (runCalls func s first).2 rest := by
  induction first generalizing s with
  | nil =>
      simp [runCalls]
  | cons c first ih =>
      rw [List.cons_append, runCalls_cons, runCalls_cons, ih]
      by_cases hret : (func s c).1 ≠ 0
      · rw [if_pos hret, if_pos hret, if_pos hret]
      · rw [if_neg hret, if_neg hret]

end Calls

section Refinement

variable {σ : Type u} {func : σ → Call → Int × σ} {fs : Files} {junk : Nat → UInt8}
  {w w₁ : Walk σ} {path : List UInt8} {calls : List Call}

/-- A function of the walk makes these calls, returns what they give, and keeps the path. -/
def Visits
    (func : σ → Call → Int × σ)
    (path : List UInt8) (calls : List Call) (w : Walk σ)
    (result : Option (Int × Walk σ)) : Prop :=
  ∃ ret w₁, result = some (ret, w₁) ∧ (ret, w₁.state) = runCalls func w.state calls ∧
    Kept path w w₁

theorem visits_call
    (htake : w.fullpath.take path.length = path)
    (c : Call) :
    Visits func path [c] w (some (w.call func c)) := by
  refine ⟨_, _, rfl, ?_, ⟨htake, Nat.le_refl _⟩⟩
  rw [runCalls_singleton]

/-- The call for a directory comes first; the rest is left out if it does not return 0. -/
theorem dopath_enter
    {st : Stat} {fuel : Nat}
    (hstat : fs.lstat path = some st)
    (hdir : st.isDir = true)
    (hholds : Holds path w)
    (hopen :
      ∀ w₁ : Walk σ, Holds path w₁ →
        Visits func path calls w₁ (openDir func fs junk (dopath func fs junk fuel) st 0 w₁)) :
    Visits func path (⟨path, some st, .d⟩ :: calls) w (dopath func fs junk (fuel + 1) w) := by
  simp only [dopath, hholds.cstr_eq, hstat, hdir, if_true]
  by_cases hret : (func w.state ⟨path, some st, .d⟩).1 ≠ 0
  · refine ⟨_, _, if_pos hret, ?_, ⟨hholds.take_eq, Nat.le_refl _⟩⟩
    rw [runCalls_cons, if_pos hret]
    rfl
  · obtain ⟨ret, w₂, hresult, hcalls, hkept⟩ :=
      hopen (w.call func ⟨path, some st, .d⟩).2
        ⟨hholds.cstr_eq, hholds.length_lt, hholds.name_max⟩
    have hzero : (w.call func ⟨path, some st, .d⟩).1 = 0 := not_not.mp hret
    refine ⟨ret, w₂, ?_, ?_, ⟨hkept.take_eq, hkept.length_le⟩⟩
    · rw [if_neg (not_not.mpr hzero), hzero]
      exact hresult
    · rw [runCalls_cons, if_neg hret]
      exact hcalls

theorem dopath_leaf
    {kind : Leaf}
    (hleaf : fs.IsLeaf path kind)
    (hholds : Holds path w)
    (fuel : Nat) :
    Visits func path (nodeCalls (path, .leaf kind)) w (dopath func fs junk (fuel + 1) w) := by
  cases kind with
  | noStat =>
      have hstat : fs.lstat path = none := hleaf
      simp only [dopath, hholds.cstr_eq, hstat]
      exact visits_call hholds.take_eq _
  | file st hfile =>
      have hstat : fs.lstat path = some st := hleaf
      simp only [dopath, hholds.cstr_eq, hstat, hfile, Bool.false_eq_true, if_false]
      exact visits_call hholds.take_eq _
  | unreadable st hdir =>
      obtain ⟨hstat, hopen⟩ := hleaf
      refine dopath_enter hstat hdir hholds (fun w₁ hholds₁ => ?_)
      -- this early return leaves the slash in the buffer
      obtain ⟨w₂, hstore, hstate, hcstr, hready, hle⟩ := store_slash junk hholds₁
      simp only [openDir, hholds₁.cstr_eq, hstore, hcstr, hopen]
      have hvisits : Visits func (path ++ [slash]) [⟨path ++ [slash], some st, .dnr⟩] w₂
          (some (w₂.call func ⟨path ++ [slash], some st, .dnr⟩)) := visits_call hready.take_eq _
      obtain ⟨ret, w₃, hresult, hcalls, hkept⟩ := hvisits
      rw [hstate] at hcalls
      exact ⟨ret, w₃, hresult, hcalls,
        hkept.of_append.take_eq, Nat.le_trans hle hkept.length_le⟩

/-- A directory is visited if the loop over its names visits its entries. -/
theorem dopath_dir
    {st : Stat} {names : List (List UInt8)} {fuel : Nat}
    (hstat : fs.lstat path = some st)
    (hdir : st.isDir = true)
    (hopen : fs.opendir (path ++ [slash]) = some names)
    (hholds : Holds path w)
    (hloop :
      ∀ w₁ : Walk σ, Ready (path ++ [slash]) w₁ →
        Visits func (path ++ [slash]) calls w₁
          (readEntries (dopath func fs junk fuel) (path ++ [slash]).length names 0 w₁)) :
    Visits func path (⟨path, some st, .d⟩ :: calls) w (dopath func fs junk (fuel + 1) w) := by
  refine dopath_enter hstat hdir hholds (fun w₁ hholds₁ => ?_)
  obtain ⟨w₂, hstore, hstate, hcstr, hready, hle⟩ := store_slash junk hholds₁
  obtain ⟨ret, w₃, hread, hcalls, hkept⟩ := hloop w₂ hready
  obtain ⟨w₄, hcut, hstate₄, hkept₄⟩ := store_cut (hready.of_kept hkept)
  rw [List.length_append, List.length_singleton] at hread
  simp only [openDir, hholds₁.cstr_eq, hstore, hcstr, hopen, hread, hcut]
  rw [hstate] at hcalls
  rw [← hstate₄] at hcalls
  refine ⟨ret, w₄, rfl, hcalls, hkept₄.take_eq, ?_⟩
  exact Nat.le_trans hle (Nat.le_trans hkept.length_le hkept₄.length_le)

/-- One turn of the loop: the name is visited, and the rest if that gave 0. -/
theorem readEntries_cons
    {visit : Walk σ → Option (Int × Walk σ)} {name : List UInt8}
    {names : List (List UInt8)} {rest : List Call}
    (hready : Ready path w)
    (hname : IsName name)
    (hvisit :
      ∀ w₁ : Walk σ, Holds (path ++ name) w₁ →
        Visits func (path ++ name) calls w₁ (visit w₁))
    (hrest :
      ∀ w₁ : Walk σ, Ready path w₁ →
        Visits func path rest w₁ (readEntries visit path.length names 0 w₁)) :
    Visits func path (calls ++ rest) w
      (readEntries visit path.length (name :: names) 0 w) := by
  obtain ⟨w₁, hstore, hstate, hholds, hlen⟩ := store_name hready hname
  obtain ⟨ret, w₂, hresult, hcalls, hkept⟩ := hvisit w₁ hholds
  have hkept₂ : Kept path w w₂ :=
    ⟨hkept.of_append.take_eq, Nat.le_trans (Nat.le_of_eq hlen.symm) hkept.length_le⟩
  rw [hstate] at hcalls
  simp only [readEntries, hname.dots, Bool.false_eq_true, if_false, hstore, hresult]
  by_cases hret : ret ≠ 0
  · refine ⟨ret, w₂, if_pos hret, ?_, hkept₂⟩
    rw [runCalls_append, ← hcalls, if_pos hret]
  · obtain ⟨ret₃, w₃, hresult₃, hcalls₃, hkept₃⟩ := hrest w₂ (hready.of_kept hkept₂)
    refine ⟨ret₃, w₃, ?_, ?_, hkept₂.trans hkept₃⟩
    · rw [if_neg hret, not_not.mp hret]
      exact hresult₃
    · rw [runCalls_append, ← hcalls, if_neg hret]
      exact hcalls₃

theorem join_eq
    (path name : List UInt8) :
    join path name = (path ++ [slash]) ++ name := by
  rw [join, List.append_assoc, List.singleton_append]

/-- The loop over the names of a directory visits its entries, each with all it contains. -/
theorem readEntries_lists
    {names : List (List UInt8)} {entries : Entries}
    (hlists : fs.Lists path names entries) :
    ∀ (fuel : Nat), entries.depth ≤ fuel →
      ∀ w : Walk σ, Ready (path ++ [slash]) w →
        Visits func (path ++ [slash]) ((entries.preorder path).flatMap nodeCalls) w
          (readEntries (dopath func fs junk fuel) (path ++ [slash]).length names 0 w) := by
  induction hlists with
  | nil =>
      intro fuel _ w hready
      exact ⟨0, w, rfl, rfl, hready.take_eq, Nat.le_refl _⟩
  | dots hname _ ih =>
      intro fuel hfuel w hready
      simp only [readEntries, hname, if_true]
      exact ih fuel hfuel w hready
  | leaf hname hleaf _ ih =>
      intro fuel hfuel w hready
      rw [Entries.depth] at hfuel
      obtain ⟨fuel, rfl⟩ := Nat.exists_eq_add_of_le' (le_of_max_le_left hfuel)
      refine readEntries_cons hready hname (fun w₁ hholds => ?_)
        (ih (fuel + 1) (le_of_max_le_right hfuel))
      rw [← join_eq] at hholds ⊢
      exact dopath_leaf hleaf hholds fuel
  | @dir path name names names' st hdir children rest hname hstat hopen _ _ ihc ihr =>
      intro fuel hfuel w hready
      rw [Entries.depth] at hfuel
      have hchildren : children.depth + 1 ≤ fuel := le_of_max_le_left hfuel
      obtain ⟨fuel, rfl⟩ := Nat.exists_eq_add_of_le' (Nat.le_trans (Nat.le_add_left 1 _) hchildren)
      rw [Entries.preorder, List.flatMap_cons, List.flatMap_append, ← List.append_assoc]
      refine readEntries_cons hready hname (fun w₁ hholds => ?_)
        (ihr (fuel + 1) (le_of_max_le_right hfuel))
      rw [← join_eq] at hholds ⊢
      exact dopath_dir hstat hdir hopen hholds (ihc fuel (Nat.le_of_succ_le_succ hchildren))

/-- `dopath` visits a tree. -/
theorem dopath_tree
    {tree : Tree} {fuel : Nat}
    (htree : fs.IsTree path tree)
    (hfuel : tree.depth ≤ fuel)
    (hholds : Holds path w) :
    Visits func path (tree.calls path) w (dopath func fs junk fuel w) := by
  cases tree with
  | leaf kind =>
      rw [Tree.depth] at hfuel
      obtain ⟨fuel, rfl⟩ := Nat.exists_eq_add_of_le' hfuel
      have hvisits : Visits func path (nodeCalls (path, .leaf kind)) w
          (dopath func fs junk (fuel + 1) w) := dopath_leaf htree hholds fuel
      simpa [Tree.calls, Tree.preorder] using hvisits
  | dir st hdir children =>
      obtain ⟨hstat, names, hopen, hlists⟩ := htree
      rw [Tree.depth] at hfuel
      obtain ⟨fuel, rfl⟩ := Nat.exists_eq_add_of_le' (Nat.le_trans (Nat.le_add_left 1 _) hfuel)
      exact dopath_dir hstat hdir hopen hholds
        (readEntries_lists hlists fuel (Nat.le_of_succ_le_succ hfuel))

/-- A start path in a new buffer that is longer. -/
theorem holds_strcpy
    {pathname : List UInt8} {pathlen : Nat}
    (hzero : 0 ∉ pathname)
    (hlong : pathname.length < pathlen)
    (hmax : NAME_MAX < pathlen)
    (junk : Nat → UInt8) (s : σ) :
    Holds pathname ⟨poke ((List.range pathlen).map junk) 0 (pathname ++ [0]), s⟩ := by
  have hmemory : ((List.range pathlen).map junk).length = pathlen := by
    rw [List.length_map, List.length_range]
  have hempty : ((List.range pathlen).map junk).take ([] : List UInt8).length = [] :=
    List.take_zero
  obtain ⟨w, hstore, -, hholds, -⟩ :=
    store_string (w := ⟨(List.range pathlen).map junk, s⟩) hempty
      List.not_mem_nil hzero (by rw [hmemory, List.length_nil]; omega) (by rw [hmemory]; omega)
  obtain ⟨-, heq⟩ := Option.ite_none_right_eq_some.mp hstore
  cases heq
  exact hholds

/-- The buffer that `myftw` starts with. -/
theorem holds_startPath
    {pathname : List UInt8}
    (hzero : 0 ∉ pathname)
    (junk : Nat → UInt8) (s : σ) :
    Holds pathname ⟨startPath junk pathname, s⟩ := by
  have hmax : pathname.length <
        (if PATH_MAX ≤ pathname.length then pathname.length * 2 else PATH_MAX) ∧
      NAME_MAX < if PATH_MAX ≤ pathname.length then pathname.length * 2 else PATH_MAX := by
    rw [PATH_MAX, NAME_MAX]
    split_ifs with hlong
    · omega
    · omega
  exact holds_strcpy hzero hmax.1 hmax.2 junk s

/-- The walk from `myftw` on: it returns, having made the calls for the tree. -/
theorem myftw_tree
    {pathname : List UInt8} {tree : Tree} {fuel : Nat}
    (htree : fs.IsTree pathname tree)
    (hzero : 0 ∉ pathname)
    (hfuel : tree.depth ≤ fuel)
    (s : σ) :
    (myftw func fs junk fuel pathname s).map (fun r => (r.1, r.2.state)) =
      some (runCalls func s (tree.calls pathname)) := by
  have hvisits : Visits func pathname (tree.calls pathname) ⟨startPath junk pathname, s⟩
      (dopath func fs junk fuel ⟨startPath junk pathname, s⟩) :=
    dopath_tree htree hfuel (holds_startPath hzero junk s)
  obtain ⟨ret, w, hresult, hcalls, -⟩ := hvisits
  rw [myftw, hresult, ← hcalls]
  rfl

end Refinement
end DirWalk
end SysProg
