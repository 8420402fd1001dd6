import SysProg.DirWalk.Walk
import Mathlib.Tactic

/-!
# The stores of APUE/filenum.c into `fullpath`

`myftw` and `dopath` never test a store.  They rely on the sizes: the buffer is made larger than
the start path, and doubled where a slash, a name of `NAME_MAX` bytes and a zero might not fit
behind the path of a directory.

**Steps.** `dopathLogged` is `dopath` with a list of its stores, in order and with the size of
the buffer at that time, up to the failure if there is one; without the list it is `dopath`
(`result_dopathLogged`).  Any files are allowed, also such that the walk never ends: the list
for more fuel goes further.

**Results.** `myftw_writes_inside`: every store is inside the buffer, whatever the start path,
the files, the callback and the depth, if `path_alloc` gives at least `NAME_MAX + 2` bytes.
`dopath_writes_lt`: `n`, which is an `int`, is large enough for all paths that `lstat` takes.
-/

namespace SysProg
namespace DirWalk

open CString Memory

universe u

section Program

variable {σ : Type u}

/-- A store of `len` bytes at `fullpath + start`. -/
structure Write where
  pathlen : Nat
  start : Nat
  len : Nat
deriving DecidableEq, Repr

def Write.Inside (wr : Write) : Prop :=
  wr.start + wr.len ≤ wr.pathlen

instance (wr : Write) : Decidable wr.Inside :=
  inferInstanceAs (Decidable (_ ≤ _))

def Walk.write (w : Walk σ) (start len : Nat) : Write :=
  ⟨w.fullpath.length, start, len⟩

/-- A result with the stores on the way to it, or to where there is none. -/
structure Logged (α : Type u) where
  writes : List Write
  result : Option α

def Logged.pure {α : Type u} (a : α) : Logged α :=
  ⟨[], some a⟩

def Logged.bind {α β : Type u} (x : Logged α) (f : α → Logged β) : Logged β :=
  match x.result with
  | none => ⟨x.writes, none⟩
  | some a => ⟨x.writes ++ (f a).writes, (f a).result⟩

def Walk.storeLogged (w : Walk σ) (i : Nat) (bytes : List UInt8) : Logged (Walk σ) :=
  ⟨[w.write i bytes.length], w.store i bytes⟩

/-- `readEntries` with its stores. -/
def readEntriesLogged (visit : Walk σ → Logged (Int × Walk σ)) (n : Nat) :
    List (List UInt8) → Int → Walk σ → Logged (Int × Walk σ)
  | [], ret, w => .pure (ret, w)
  | name :: rest, ret, w =>
      if isDots name then readEntriesLogged visit n rest ret w
      else
        (w.storeLogged n (name ++ [0])).bind fun w₁ =>
          (visit w₁).bind fun r =>
            if r.1 ≠ 0 then .pure r else readEntriesLogged visit n rest r.1 r.2

variable (func : σ → Call → Int × σ)

/-- `openDir` with its stores. -/
def openDirLogged
    (fs : Files) (junk : Nat → UInt8) (visit : Walk σ → Logged (Int × Walk σ))
    (statbuf : Stat) (ret : Int) (w : Walk σ) :
    Logged (Int × Walk σ) :=
  let n := (cstr w.fullpath).length
  ((w.grow junk n).storeLogged n [slash, 0]).bind fun w₁ =>
    match fs.opendir (cstr w₁.fullpath) with
    | none => .pure (w₁.call func ⟨cstr w₁.fullpath, some statbuf, .dnr⟩)
    | some names =>
        (readEntriesLogged visit (n + 1) names ret w₁).bind fun r =>
          (r.2.storeLogged n [0]).bind fun w₃ => .pure (r.1, w₃)

/-- `dopath` with its stores. -/
def dopathLogged (fs : Files) (junk : Nat → UInt8) : Nat → Walk σ → Logged (Int × Walk σ)
  | 0, _ => ⟨[], none⟩
  | fuel + 1, w =>
      match fs.lstat (cstr w.fullpath) with
      | none => .pure (w.call func ⟨cstr w.fullpath, none, .ns⟩)
      | some statbuf =>
          if statbuf.isDir then
            let (ret, w₁) := w.call func ⟨cstr w.fullpath, some statbuf, .d⟩
            if ret ≠ 0 then .pure (ret, w₁)
            else openDirLogged func fs junk (dopathLogged fs junk fuel) statbuf ret w₁
          else .pure (w.call func ⟨cstr w.fullpath, some statbuf, .f⟩)

/-- The stores of `dopath`. -/
def dopathWrites (fs : Files) (junk : Nat → UInt8) (fuel : Nat) (w : Walk σ) : List Write :=
  (dopathLogged func fs junk fuel w).writes

/-- The size of the buffer for a start path, when `path_alloc` gives `size` bytes. -/
def startPathlen (size : Nat) (pathname : List UInt8) : Nat :=
  if size ≤ pathname.length then pathname.length * 2 else size

/-- The buffer behind the first `strcpy`. -/
def startBuffer (size : Nat) (junk : Nat → UInt8) (pathname : List UInt8) : List UInt8 :=
  poke ((List.range (startPathlen size pathname)).map junk) 0 (pathname ++ [0])

/-- The stores of `myftw`. -/
def myftwWrites
    (fs : Files) (junk : Nat → UInt8) (size fuel : Nat) (pathname : List UInt8) (s : σ) :
    List Write :=
  ⟨startPathlen size pathname, 0, pathname.length + 1⟩ ::
    dopathWrites func fs junk fuel ⟨startBuffer size junk pathname, s⟩

/-- All names are C strings of at most `NAME_MAX` bytes. -/
def Files.Named (fs : Files) : Prop :=
  ∀ path names, fs.opendir path = some names →
    ∀ name ∈ names, 0 ∉ name ∧ name.length ≤ NAME_MAX

end Program

/-- With `PATH_MAX` bytes from `path_alloc` it is the buffer of `myftw`. -/
theorem startPath_eq
    (junk : Nat → UInt8) (pathname : List UInt8) :
    startPath junk pathname = startBuffer PATH_MAX junk pathname := by
  rfl

section Log

variable {σ : Type u} {func : σ → Call → Int × σ} {fs : Files} {junk : Nat → UInt8}

section Bind

variable {α β : Type u} {x : Logged α} {f : α → Logged β}

@[simp] theorem result_bind :
    (x.bind f).result = x.result.bind (fun a => (f a).result) := by
  unfold Logged.bind
  cases x.result <;> rfl

@[simp] theorem forall_mem_bind
    {p : Write → Prop} :
    (∀ wr ∈ (x.bind f).writes, p wr) ↔
      (∀ wr ∈ x.writes, p wr) ∧ ∀ a, x.result = some a → ∀ wr ∈ (f a).writes, p wr := by
  unfold Logged.bind
  cases x.result with
  | none => simp
  | some a => simp [or_imp, forall_and]

end Bind

theorem result_readEntriesLogged
    {visit : Walk σ → Logged (Int × Walk σ)} {n : Nat}
    (names : List (List UInt8)) (ret : Int) (w : Walk σ) :
    (readEntriesLogged visit n names ret w).result =
      readEntries (fun w => (visit w).result) n names ret w := by
  induction names generalizing ret w with
  | nil =>
      rfl
  | cons name names ih =>
      rw [readEntriesLogged, readEntries]
      split_ifs
      · exact ih ret w
      · simp only [result_bind, Walk.storeLogged]
        cases w.store n (name ++ [0]) with
        | none => rfl
        | some w₁ =>
            simp only [Option.bind_some]
            cases (visit w₁).result with
            | none => rfl
            | some r =>
                simp only [Option.bind_some]
                split_ifs
                · rfl
                · exact ih r.1 r.2

theorem result_openDirLogged
    {visit : Walk σ → Logged (Int × Walk σ)}
    (st : Stat) (ret : Int) (w : Walk σ) :
    (openDirLogged func fs junk visit st ret w).result =
      openDir func fs junk (fun w => (visit w).result) st ret w := by
  simp only [openDirLogged, openDir, result_bind, Walk.storeLogged]
  cases (w.grow junk (cstr w.fullpath).length).store (cstr w.fullpath).length [slash, 0] with
  | none => rfl
  | some w₁ =>
      simp only [Option.bind_some]
      cases fs.opendir (cstr w₁.fullpath) with
      | none => rfl
      | some names =>
          simp only [result_bind, result_readEntriesLogged]
          cases readEntries (fun w => (visit w).result) ((cstr w.fullpath).length + 1) names ret
              w₁ with
          | none => rfl
          | some r =>
              simp only [Option.bind_some, Logged.pure]
              exact (Option.map_eq_bind (f := fun w₃ => (r.1, w₃))).symm

/-- Without its list, `dopathLogged` is `dopath`. -/
theorem result_dopathLogged
    (fuel : Nat) :
    (fun w => (dopathLogged func fs junk fuel w).result) = dopath func fs junk fuel := by
  induction fuel with
  | zero =>
      rfl
  | succ fuel ih =>
      funext w
      rw [dopathLogged, dopath]
      cases fs.lstat (cstr w.fullpath) with
      | none => rfl
      | some st =>
          simp only
          split_ifs
          · rfl
          · rw [result_openDirLogged, ih]
          · rfl

end Log

section Kept

variable {σ : Type u} {func : σ → Call → Int × σ} {fs : Files} {junk : Nat → UInt8}
  {w w' : Walk σ} {path : List UInt8} {ret : Int}

/-- The recursive call for a name behind `path` leaves `path` and the name in the buffer. -/
def KeepsPath (visit : Walk σ → Option (Int × Walk σ)) : Prop :=
  ∀ (path : List UInt8) (w w' : Walk σ) (ret : Int),
    Holds path w → visit w = some (ret, w') → Kept path w w'

theorem readEntries_kept
    {visit : Walk σ → Option (Int × Walk σ)}
    (hvisit : KeepsPath visit)
    {names : List (List UInt8)} {ret₀ : Int}
    (hnames : ∀ name ∈ names, 0 ∉ name ∧ name.length ≤ NAME_MAX)
    (hready : Ready path w)
    (hread : readEntries visit path.length names ret₀ w = some (ret, w')) :
    Kept path w w' := by
  induction names generalizing ret₀ w with
  | nil =>
      cases hread
      exact ⟨hready.take_eq, Nat.le_refl _⟩
  | cons name names ih =>
      have hrest := fun n hn => hnames n (List.mem_cons_of_mem name hn)
      rw [readEntries] at hread
      cases hdots : isDots name with
      | true =>
          rw [hdots, if_pos rfl] at hread
          exact ih hrest hready hread
      | false =>
          obtain ⟨hzero, hlen⟩ := hnames name List.mem_cons_self
          obtain ⟨w₁, hstore, -, hholds, hlength⟩ := store_name hready ⟨hzero, hlen, hdots⟩
          rw [hdots, if_neg Bool.false_ne_true, hstore] at hread
          cases hresult : visit w₁ with
          | none =>
              simp only [hresult, reduceCtorEq] at hread
          | some p =>
              obtain ⟨ret₁, w₂⟩ := p
              simp only [hresult] at hread
              have hkept := hvisit _ _ _ _ hholds hresult
              have hkept₂ : Kept path w w₂ :=
                ⟨hkept.of_append.take_eq, hlength ▸ hkept.length_le⟩
              by_cases hret : ret₁ ≠ 0
              · rw [if_pos hret] at hread
                cases hread
                exact hkept₂
              · rw [if_neg hret] at hread
                exact hkept₂.trans (ih hrest (hready.of_kept hkept₂) hread)

theorem openDir_kept
    {visit : Walk σ → Option (Int × Walk σ)}
    (hvisit : KeepsPath visit)
    (hnamed : fs.Named)
    {st : Stat} {ret₀ : Int}
    (hholds : Holds path w)
    (hopen : openDir func fs junk visit st ret₀ w = some (ret, w')) :
    Kept path w w' := by
  obtain ⟨w₁, hstore, -, hcstr, hready, hle⟩ := store_slash junk hholds
  simp only [openDir, hholds.cstr_eq, hstore, hcstr] at hopen
  cases hdir : fs.opendir (path ++ [slash]) with
  | none =>
      simp only [hdir] at hopen
      cases hopen
      have hkept : Kept (path ++ [slash]) w w₁ := ⟨hready.take_eq, hle⟩
      exact ⟨hkept.of_append.take_eq, hkept.length_le⟩
  | some names =>
      have hlength : (path ++ [slash]).length = path.length + 1 := by
        rw [List.length_append, List.length_singleton]
      simp only [hdir, ← hlength] at hopen
      cases hread : readEntries visit (path ++ [slash]).length names ret₀ w₁ with
      | none =>
          simp only [hread, reduceCtorEq] at hopen
      | some p =>
          obtain ⟨ret₁, w₂⟩ := p
          have hkept := readEntries_kept hvisit (hnamed _ _ hdir) hready hread
          obtain ⟨w₃, hcut, -, hkept₃⟩ := store_cut (hready.of_kept hkept)
          simp only [hread, hcut, Option.map_some] at hopen
          cases hopen
          exact ⟨hkept₃.take_eq,
            Nat.le_trans hle (Nat.le_trans hkept.length_le hkept₃.length_le)⟩

/-- `dopath` leaves the path that it was called with, however it returns. -/
theorem dopath_kept
    (hnamed : fs.Named)
    (fuel : Nat) :
    KeepsPath (dopath func fs junk fuel) := by
  induction fuel with
  | zero =>
      intro path w w' ret hholds hresult
      cases hresult
  | succ fuel ih =>
      intro path w w' ret hholds hresult
      simp only [dopath, hholds.cstr_eq] at hresult
      cases hstat : fs.lstat path with
      | none =>
          simp only [hstat] at hresult
          cases hresult
          exact ⟨hholds.take_eq, Nat.le_refl _⟩
      | some st =>
          simp only [hstat] at hresult
          cases hdir : st.isDir with
          | false =>
              rw [hdir, if_neg Bool.false_ne_true] at hresult
              cases hresult
              exact ⟨hholds.take_eq, Nat.le_refl _⟩
          | true =>
              rw [hdir, if_pos rfl] at hresult
              split_ifs at hresult with hret
              · cases hresult
                exact ⟨hholds.take_eq, Nat.le_refl _⟩
              · -- the callback does not touch the buffer
                have hholds₁ : Holds path (w.call func ⟨path, some st, .d⟩).2 :=
                  ⟨hholds.cstr_eq, hholds.length_lt, hholds.name_max⟩
                have hkept := openDir_kept ih hnamed hholds₁ hresult
                exact ⟨hkept.take_eq, hkept.length_le⟩

end Kept

section Inside

variable {σ : Type u} {func : σ → Call → Int × σ} {fs : Files} {junk : Nat → UInt8}
  {w : Walk σ} {path : List UInt8}

/-- A store behind the path of a directory, in a buffer with room for a slash and a name. -/
def Fits (fs : Files) (wr : Write) : Prop :=
  ∃ path st, fs.lstat path = some st ∧
    wr.start + wr.len ≤ path.length + NAME_MAX + 2 ∧ path.length + NAME_MAX + 2 ≤ wr.pathlen

theorem Fits.inside
    {wr : Write}
    (h : Fits fs wr) :
    wr.Inside := by
  obtain ⟨path, st, -, hend, hroom⟩ := h
  exact Nat.le_trans hend hroom

/-- The stores of the recursive calls are such stores. -/
def WritesFit (fs : Files) (visit : Walk σ → Logged (Int × Walk σ)) : Prop :=
  ∀ (path : List UInt8) (w : Walk σ), Holds path w → ∀ wr ∈ (visit w).writes, Fits fs wr

theorem readEntriesLogged_fit
    {visit : Walk σ → Logged (Int × Walk σ)}
    (hvisit : KeepsPath (fun w => (visit w).result))
    (hwrites : WritesFit fs visit)
    {st : Stat}
    (hstat : fs.lstat path = some st)
    {names : List (List UInt8)} {ret : Int}
    (hnames : ∀ name ∈ names, 0 ∉ name ∧ name.length ≤ NAME_MAX)
    (hready : Ready (path ++ [slash]) w) :
    ∀ wr ∈ (readEntriesLogged visit (path ++ [slash]).length names ret w).writes, Fits fs wr := by
  induction names generalizing ret w with
  | nil =>
      intro wr hwr
      cases hwr
  | cons name names ih =>
      have hrest := fun n hn => hnames n (List.mem_cons_of_mem name hn)
      rw [readEntriesLogged]
      cases hdots : isDots name with
      | true =>
          rw [if_pos rfl]
          exact ih hrest hready
      | false =>
          obtain ⟨hzero, hlen⟩ := hnames name List.mem_cons_self
          obtain ⟨w₁, hstore, -, hholds, hlength⟩ := store_name hready ⟨hzero, hlen, hdots⟩
          have hroom := hready.room
          rw [List.length_append, List.length_singleton] at hroom
          rw [if_neg Bool.false_ne_true]
          simp only [forall_mem_bind, Walk.storeLogged, List.forall_mem_singleton, hstore,
            Option.some.injEq, forall_eq']
          refine ⟨⟨path, st, hstat, ?_, ?_⟩, hwrites _ _ hholds, ?_⟩
          · change (path ++ [slash]).length + (name ++ [0]).length ≤ _
            simp only [List.length_append, List.length_singleton]
            omega
          · change _ ≤ w.fullpath.length
            omega
          · rintro ⟨ret₁, w₂⟩ hresult
            have hkept := hvisit _ _ _ _ hholds hresult
            have hkept₂ : Kept (path ++ [slash]) w w₂ :=
              ⟨hkept.of_append.take_eq, hlength ▸ hkept.length_le⟩
            by_cases hret : ret₁ ≠ 0
            · simp [hret, Logged.pure]
            · simp only [if_neg hret]
              exact ih hrest (hready.of_kept hkept₂)

theorem openDirLogged_fit
    {visit : Walk σ → Logged (Int × Walk σ)}
    (hvisit : KeepsPath (fun w => (visit w).result))
    (hwrites : WritesFit fs visit)
    (hnamed : fs.Named)
    {st : Stat} {ret : Int}
    (hstat : fs.lstat path = some st)
    (hholds : Holds path w) :
    ∀ wr ∈ (openDirLogged func fs junk visit st ret w).writes, Fits fs wr := by
  obtain ⟨-, -, hroom⟩ := grow_room junk hholds
  obtain ⟨w₁, hstore, -, hcstr, hready, -⟩ := store_slash junk hholds
  have hlength : (path ++ [slash]).length = path.length + 1 := by
    rw [List.length_append, List.length_singleton]
  simp only [openDirLogged, hholds.cstr_eq, forall_mem_bind, Walk.storeLogged,
    List.forall_mem_singleton, hstore, Option.some.injEq, forall_eq', hcstr]
  refine ⟨⟨path, st, hstat, ?_, hroom⟩, ?_⟩
  · change path.length + 2 ≤ _
    omega
  cases hdir : fs.opendir (path ++ [slash]) with
  | none =>
      simp [Logged.pure]
  | some names =>
      simp only [← hlength, forall_mem_bind, List.forall_mem_singleton]
      refine ⟨readEntriesLogged_fit hvisit hwrites hstat (hnamed _ _ hdir) hready, ?_⟩
      rintro ⟨ret₁, w₂⟩ hread
      rw [result_readEntriesLogged] at hread
      have hroom₂ :=
        (hready.of_kept (readEntries_kept hvisit (hnamed _ _ hdir) hready hread)).room
      rw [hlength] at hroom₂
      refine ⟨⟨path, st, hstat, ?_, ?_⟩, by simp [Logged.pure]⟩
      · change path.length + 1 ≤ _
        omega
      · change _ ≤ w₂.fullpath.length
        omega

/-- Every store of `dopath`, at every depth. -/
theorem dopathLogged_fit
    (hnamed : fs.Named)
    (fuel : Nat) :
    WritesFit fs (dopathLogged func fs junk fuel) := by
  induction fuel with
  | zero =>
      intro path w hholds wr hwr
      cases hwr
  | succ fuel ih =>
      intro path w hholds
      have hkept : KeepsPath (fun w => (dopathLogged func fs junk fuel w).result) := by
        rw [result_dopathLogged]
        exact dopath_kept hnamed fuel
      simp only [dopathLogged, hholds.cstr_eq]
      cases hstat : fs.lstat path with
      | none =>
          simp [Logged.pure]
      | some st =>
          simp only
          have hholds₁ : Holds path (w.call func ⟨path, some st, .d⟩).2 :=
            ⟨hholds.cstr_eq, hholds.length_lt, hholds.name_max⟩
          split_ifs
          · simp [Logged.pure]
          · exact openDirLogged_fit hkept ih hnamed hstat hholds₁
          · simp [Logged.pure]

/-- The buffer that the walk starts with holds the start path. -/
theorem startBuffer_holds
    {size : Nat} {pathname : List UInt8}
    (hsize : NAME_MAX + 2 ≤ size)
    (hzero : 0 ∉ pathname)
    (junk : Nat → UInt8) (s : σ) :
    pathname.length + 1 ≤ startPathlen size pathname ∧
      Holds pathname ⟨startBuffer size junk pathname, s⟩ := by
  have hmax : pathname.length < startPathlen size pathname ∧
      NAME_MAX < startPathlen size pathname := by
    rw [startPathlen]
    split_ifs with hlong
    · omega
    · omega
  exact ⟨hmax.1, holds_strcpy hzero hmax.1 hmax.2 junk s⟩

end Inside

section Results

variable {σ : Type u}

/--
Every store of `myftw` and `dopath` is inside the `pathlen` bytes that the buffer has at that
time, for every start path, all files with names of at most `NAME_MAX` bytes and every callback.
-/
theorem myftw_writes_inside
    {fs : Files} {size : Nat} {pathname : List UInt8}
    (hnamed : fs.Named)
    (hsize : NAME_MAX + 2 ≤ size)
    (hzero : 0 ∉ pathname)
    (func : σ → Call → Int × σ) (junk : Nat → UInt8) (fuel : Nat) (s : σ) :
    ∀ wr ∈ myftwWrites func fs junk size fuel pathname s, wr.Inside := by
  obtain ⟨hfirst, hholds⟩ := startBuffer_holds hsize hzero junk s
  rw [myftwWrites, List.forall_mem_cons]
  refine ⟨?_, fun wr hwr => (dopathLogged_fit hnamed fuel _ _ hholds wr hwr).inside⟩
  change 0 + (pathname.length + 1) ≤ startPathlen size pathname
  omega

/-- With a kernel that refuses paths of `PATH_MAX` bytes, the indices are far below `INT_MAX`. -/
theorem dopath_writes_lt
    {fs : Files} {path : List UInt8} {w : Walk σ} {func : σ → Call → Int × σ}
    {junk : Nat → UInt8} {fuel : Nat}
    (hnamed : fs.Named)
    (hkernel : ∀ path, PATH_MAX ≤ path.length → fs.lstat path = none)
    (hholds : Holds path w) :
    ∀ wr ∈ dopathWrites func fs junk fuel w, wr.start + wr.len ≤ PATH_MAX + NAME_MAX + 1 := by
  intro wr hwr
  obtain ⟨dir, st, hstat, hend, -⟩ := dopathLogged_fit hnamed fuel _ _ hholds wr hwr
  have hlt : dir.length < PATH_MAX := by
    by_contra hlong
    rw [hkernel dir (Nat.le_of_not_lt hlong)] at hstat
    cases hstat
  omega

end Results

section Example

/-- "t" is a directory with a file "f". -/
def oneFile : Files where
  lstat path :=
    if path = [116] then some ⟨0o040755⟩
    else if path = [116, 47, 102] then some ⟨0o100644⟩
    else none
  opendir path := if path = [116, 47] then some [[46], [46, 46], [102]] else none

theorem named_oneFile :
    oneFile.Named := by
  intro path names hopen
  obtain ⟨-, heq⟩ := Option.ite_none_right_eq_some.mp hopen
  cases heq
  decide

theorem writes_inside_oneFile :
    oneFile.Named ∧
    ∀ wr ∈ myftwWrites (fun n _ => (0, n + 1)) oneFile (fun _ => 255) 257 5 [116] (0 : Nat),
      wr.Inside :=
  ⟨named_oneFile,
    myftw_writes_inside named_oneFile (Nat.le_refl 257) (by decide) (fun n _ => (0, n + 1))
      (fun _ => 255) 5 0⟩

end Example
end DirWalk
end SysProg
