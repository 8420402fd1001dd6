import SysProg.FileTransfer.Connection
import SysProg.FileTransfer.Parametric
import SysProg.Lib.CString
import Mathlib.Tactic

/-!
# The pool of server children

`main` forks a pool of processes that all run `start_child` on one listening
socket: each accepts a connection, runs `recv_file` on it, and starts over.  They
share nothing but the directory.  The system here consists of any number of such
children, in any interleaving of their system calls, and of the files.

A byte carries the connection it was received on, which the `recv` of the child
that serves the connection attaches to it.  What arrives on a connection is
arbitrary.  `open` with `O_CREAT | O_EXCL` fails when the name exists and may fail
otherwise; names are resolved to paths by an arbitrary function, so that two names
may denote one file.

`files_isolated`: a file that exists is never changed, a file that the server
creates holds bytes of its creating connection only, and no child ever holds a
descriptor of a file that another connection created.
-/

namespace SysProg
namespace FileTransfer

open Run CString

universe u

section Bytes

variable {α : Type u}

/-- `recv_file` writes from its buffer and fills it from the connection. -/
theorem recvFile_bytes
    {v v' : Serv α} {r : ServResult α} {out : List α}
    (h : recvFile v r = some (v', out)) :
    (∀ b ∈ out, b ∈ v.buf) ∧
      ∀ b ∈ v'.buf, b ∈ v.buf ∨ ∃ bytes, r = .recv bytes ∧ b ∈ bytes := by
  -- in all calls but `recv` and `write` nothing comes out and the buffer stays
  have hkept : v'.buf = v.buf → out = [] →
      (∀ b ∈ out, b ∈ v.buf) ∧
        ∀ b ∈ v'.buf, b ∈ v.buf ∨ ∃ bytes, r = .recv bytes ∧ b ∈ bytes := by
    rintro hbuf rfl
    rw [hbuf]
    exact ⟨by simp, fun b hb => Or.inl hb⟩
  cases recvFile_call h with
  | dataRead hpc hne =>
      exact ⟨by simp, fun b hb => Or.inr ⟨_, rfl, hb⟩⟩
  | written hpc =>
      exact ⟨fun b hb => List.mem_of_mem_take hb, fun b hb => Or.inl hb⟩
  | _ =>
      exact hkept rfl rfl

end Bytes

namespace Pool

/-- A byte with the connection it was received on. -/
abbrev Byte := UInt8 × Nat

/-- A child in `recv_file`: the connection behind `cfd` and the file behind `fd`. -/
structure Serving where
  conn : Nat
  serv : Serv Byte
  fd : Option Nat

/-- Where a child is in `start_child`. -/
inductive Child where
  | accepting
  | serving (c : Serving)
  | exited

/--
The children and the files.  Connections and files are numbered in the order of
`accept` and creation; `creator` is history: the connection whose `open` created
a file.
-/
structure State (Path : Type u) where
  children : Nat → Child
  nextConn : Nat
  dir : Path → Option Nat
  contents : Nat → List Byte
  nextFile : Nat
  creator : Nat → Option Nat

inductive Label where
  | acceptError (idx : Nat)
  | accept (idx : Nat)
  /-- `accept` succeeded and `getnameinfo` failed: the child exits -/
  | nameinfoError (idx : Nat)
  /-- a system call of `recv_file`, with its result -/
  | call (idx : Nat) (r : ServResult UInt8)
  /-- `recv_file` has returned, `start_child` goes back to `accept` -/
  | again (idx : Nat)
  | killed (idx : Nat)

variable {Path : Type u}

def State.setChild (s : State Path) (idx : Nat) (child : Child) : State Path :=
  { s with children := Function.update s.children idx child }

/-- A new empty file under a path. -/
def State.create
    [DecidableEq Path] (s : State Path) (path : Path) (conn : Nat) : State Path :=
  { s with
    dir := Function.update s.dir path (some s.nextFile)
    contents := Function.update s.contents s.nextFile []
    creator := Function.update s.creator s.nextFile (some conn)
    nextFile := s.nextFile + 1 }

/-- `write` through a descriptor. -/
def State.append (s : State Path) (fd : Option Nat) (out : List Byte) : State Path :=
  match fd with
  | none => s
  | some i => { s with contents := Function.update s.contents i (s.contents i ++ out) }

/-- The path that the child's `open` names. -/
def Serving.path (resolve : List UInt8 → Path) (c : Serving) : Path :=
  resolve (cstr (c.serv.filename.map Prod.fst))

/-- What the kernel may answer to a call of a child. -/
def Answers
    (resolve : List UInt8 → Path) (s : State Path) (c : Serving) :
    ServResult UInt8 → Prop
  | .recv bytes => bytes.length ≤ c.serv.recvMax
  | .opened true => s.dir (c.path resolve) = none
  | .write ret => TakesSome c.serv.retLen ret
  | _ => True

instance
    (resolve : List UInt8 → Path) (s : State Path) (c : Serving)
    (r : ServResult UInt8) :
    Decidable (Answers resolve s c r) := by
  unfold Answers
  split <;> infer_instance

/-- A system call of `recv_file` and its effect on the files. -/
def callStep
    [DecidableEq Path]
    (resolve : List UInt8 → Path) (s : State Path)
    (idx : Nat) (c : Serving) (r : ServResult UInt8) :
    Option (State Path) :=
  (recvFile c.serv (r.map (fun b => (b, c.conn)))).map (fun p =>
    match r with
    | .opened true =>
        (s.create (c.path resolve) c.conn).setChild idx
          (.serving { c with serv := p.1, fd := some s.nextFile })
    | _ =>
        (s.append c.fd p.2).setChild idx (.serving { c with serv := p.1 }))

def step
    [DecidableEq Path]
    (resolve : List UInt8 → Path) (s : State Path) :
    Label → Option (State Path)
  | .acceptError idx =>
      match s.children idx with
      | .accepting => some s
      | _ => none
  | .accept idx =>
      match s.children idx with
      | .accepting =>
          some
            { s.setChild idx
                (.serving { conn := s.nextConn, serv := Serv.start, fd := none }) with
              nextConn := s.nextConn + 1 }
      | _ => none
  | .nameinfoError idx =>
      match s.children idx with
      | .accepting =>
          some { s.setChild idx .exited with nextConn := s.nextConn + 1 }
      | _ => none
  | .call idx r =>
      match s.children idx with
      | .serving c =>
          if Answers resolve s c r then callStep resolve s idx c r else none
      | _ => none
  | .again idx =>
      match s.children idx with
      | .serving c =>
          match c.serv.pc with
          | .returned _ => some (s.setChild idx .accepting)
          | _ => none
      | _ => none
  | .killed idx => some (s.setChild idx .exited)

/-- The children have been forked, and the files are those found in place. -/
structure Initial (s : State Path) : Prop where
  children : ∀ idx, s.children idx = .accepting ∨ s.children idx = .exited
  dir : ∀ path i, s.dir path = some i → i < s.nextFile
  creator : ∀ i, s.creator i = none

section Isolation

/-- A child handles bytes of its own connection and a file created by it. -/
structure Own (creator : Nat → Option Nat) (c : Serving) : Prop where
  buf : ∀ b ∈ c.serv.buf, b.2 = c.conn
  fd : ∀ i, c.fd = some i → creator i = some c.conn

/-- The state compared with the one that the server started in. -/
structure Isolated (s₀ s : State Path) : Prop where
  own : ∀ idx c, s.children idx = .serving c → Own s.creator c
  grown : s₀.nextFile ≤ s.nextFile
  created :
    ∀ i k, s.creator i = some k →
      s₀.nextFile ≤ i ∧ i < s.nextFile ∧ ∀ b ∈ s.contents i, b.2 = k
  old : ∀ i, i < s₀.nextFile → s.contents i = s₀.contents i
  kept : ∀ path i, s₀.dir path = some i → s.dir path = some i
  named :
    ∀ path i, s.dir path = some i →
      s₀.dir path = some i ∨ (s₀.dir path = none ∧ ∃ k, s.creator i = some k)

variable {s₀ s s' : State Path}

theorem Initial.isolated
    (h : Initial s) :
    Isolated s s := by
  refine ⟨?_, le_refl _, ?_, fun _ _ => rfl, fun _ _ hp => hp, fun _ _ hp => Or.inl hp⟩
  · intro idx c hc
    rcases h.children idx with ha | he
    · rw [ha] at hc
      cases hc
    · rw [he] at hc
      cases hc
  · intro i k hk
    rw [h.creator i] at hk
    cases hk

theorem Isolated.setChild
    (h : Isolated s₀ s)
    (idx : Nat) (child : Child)
    (hown : ∀ c, child = .serving c → Own s.creator c) :
    Isolated s₀ (s.setChild idx child) := by
  refine ⟨?_, h.grown, h.created, h.old, h.kept, h.named⟩
  intro idx' c hc
  by_cases heq : idx' = idx
  · subst heq
    simp only [State.setChild, Function.update_self] at hc
    exact hown c hc
  · simp only [State.setChild, Function.update_of_ne heq] at hc
    exact h.own idx' c hc

/-- Creating a file touches no file that there is. -/
theorem Isolated.create
    [DecidableEq Path]
    (h : Isolated s₀ s)
    {path : Path}
    (conn : Nat)
    (hfree : s.dir path = none) :
    Isolated s₀ (s.create path conn) := by
  have hgrown := h.grown
  have hne : ∀ i k, s.creator i = some k → i ≠ s.nextFile := by
    intro i k hk
    have hlt := (h.created i k hk).2.1
    omega
  have hcreator : ∀ i k, s.creator i = some k → (s.create path conn).creator i = some k := by
    intro i k hk
    simp only [State.create, Function.update_of_ne (hne i k hk), hk]
  refine ⟨?_, ?_, ?_, ?_, ?_, ?_⟩
  · intro idx c hc
    have hown := h.own idx c hc
    exact ⟨hown.buf, fun i hi => hcreator i _ (hown.fd i hi)⟩
  · simp only [State.create]
    omega
  · intro i k hk
    by_cases heq : i = s.nextFile
    · subst heq
      simp [State.create, hgrown]
    · simp only [State.create, Function.update_of_ne heq] at hk ⊢
      obtain ⟨hlow, hhigh, hbytes⟩ := h.created i k hk
      exact ⟨hlow, by omega, hbytes⟩
  · intro i hi
    have heq : i ≠ s.nextFile := by omega
    simp only [State.create, Function.update_of_ne heq]
    exact h.old i hi
  · intro p i hp
    have hkept := h.kept p i hp
    have heq : p ≠ path := by
      rintro rfl
      rw [hfree] at hkept
      cases hkept
    simp only [State.create, Function.update_of_ne heq]
    exact hkept
  · intro p i hp
    by_cases heq : p = path
    · subst heq
      simp only [State.create, Function.update_self, Option.some.injEq] at hp
      subst hp
      right
      refine ⟨?_, conn, by simp [State.create]⟩
      cases h₀ : s₀.dir p with
      | none =>
          rfl
      | some j =>
          rw [h.kept p j h₀] at hfree
          cases hfree
    · simp only [State.create, Function.update_of_ne heq] at hp
      rcases h.named p i hp with hold | ⟨hnew, k, hk⟩
      · exact Or.inl hold
      · exact Or.inr ⟨hnew, k, hcreator i k hk⟩

/-- A child writes its own bytes to its own file. -/
theorem Isolated.append
    (h : Isolated s₀ s)
    {c : Serving} {out : List Byte}
    (hown : Own s.creator c)
    (hout : ∀ b ∈ out, b ∈ c.serv.buf) :
    Isolated s₀ (s.append c.fd out) := by
  cases hfd : c.fd with
  | none =>
      exact h
  | some i =>
      have hcreator := hown.fd i hfd
      refine ⟨h.own, h.grown, ?_, ?_, h.kept, h.named⟩
      · intro j k hk
        obtain ⟨hlow, hhigh, hbytes⟩ := h.created j k hk
        refine ⟨hlow, hhigh, ?_⟩
        by_cases heq : j = i
        · subst heq
          simp only [State.append] at hk
          rw [hcreator, Option.some.injEq] at hk
          simp only [State.append, Function.update_self]
          intro b hb
          rcases List.mem_append.mp hb with hold | hnew
          · exact hbytes b hold
          · rw [← hk]
            exact hown.buf b (hout b hnew)
        · simp only [State.append, Function.update_of_ne heq]
          exact hbytes
      · intro j hj
        have hlow := (h.created i _ hcreator).1
        have heq : j ≠ i := by omega
        simp only [State.append, Function.update_of_ne heq]
        exact h.old j hj

variable [DecidableEq Path] {resolve : List UInt8 → Path}

/-- What a child receives carries its connection. -/
theorem Own.recvFile
    {creator : Nat → Option Nat} {c : Serving} {r : ServResult UInt8}
    {serv : Serv Byte} {out : List Byte}
    (h : Own creator c)
    (hcall : recvFile c.serv (r.map (fun b => (b, c.conn))) = some (serv, out)) :
    ∀ b ∈ serv.buf, b.2 = c.conn := by
  intro b hb
  rcases (recvFile_bytes hcall).2 b hb with hold | ⟨bytes, hr, hnew⟩
  · exact h.buf b hold
  · cases r with
    | recv values =>
        simp only [ServResult.map, ServResult.recv.injEq] at hr
        subst hr
        obtain ⟨value, _, rfl⟩ := List.mem_map.mp hnew
        rfl
    | _ =>
        simp [ServResult.map] at hr

theorem Isolated.callStep
    (h : Isolated s₀ s)
    {idx : Nat} {c : Serving} {r : ServResult UInt8}
    (hc : s.children idx = .serving c)
    (hanswers : Answers resolve s c r)
    (hstep : callStep resolve s idx c r = some s') :
    Isolated s₀ s' := by
  have hown := h.own idx c hc
  simp only [Pool.callStep, Option.map_eq_some_iff] at hstep
  obtain ⟨⟨serv, out⟩, hcall, hs'⟩ := hstep
  have hbuf := hown.recvFile hcall
  split at hs'
  · subst hs'
    refine (h.create c.conn hanswers).setChild idx _ ?_
    rintro c' hc'
    cases hc'
    exact ⟨hbuf, fun i hi => by cases hi; simp [State.create]⟩
  · subst hs'
    refine (h.append hown (recvFile_bytes hcall).1).setChild idx _ ?_
    rintro c' hc'
    cases hc'
    refine ⟨hbuf, fun i hi => ?_⟩
    have hcreator := hown.fd i hi
    unfold State.append
    split <;> exact hcreator

theorem Isolated.step
    (h : Isolated s₀ s)
    {l : Label}
    (hstep : step resolve s l = some s') :
    Isolated s₀ s' := by
  cases l with
  | acceptError idx =>
      simp only [Pool.step] at hstep
      split at hstep <;> cases hstep
      exact h
  | accept idx =>
      simp only [Pool.step] at hstep
      split at hstep <;> cases hstep
      have hset := h.setChild idx
        (.serving { conn := s.nextConn, serv := Serv.start, fd := none })
        (fun c hc => by cases hc; exact ⟨by simp [Serv.start], by simp⟩)
      exact ⟨hset.own, hset.grown, hset.created, hset.old, hset.kept, hset.named⟩
  | nameinfoError idx =>
      simp only [Pool.step] at hstep
      split at hstep <;> cases hstep
      have hset := h.setChild idx .exited (fun c hc => by cases hc)
      exact ⟨hset.own, hset.grown, hset.created, hset.old, hset.kept, hset.named⟩
  | call idx r =>
      simp only [Pool.step] at hstep
      split at hstep
      · rename_i c hc
        split_ifs at hstep with hanswers
        exact h.callStep hc hanswers hstep
      · cases hstep
  | again idx =>
      simp only [Pool.step] at hstep
      split at hstep
      · split at hstep <;> cases hstep
        exact h.setChild idx .accepting (fun c hc => by cases hc)
      · cases hstep
  | killed idx =>
      simp only [Pool.step, Option.some.injEq] at hstep
      subst hstep
      exact h.setChild idx .exited (fun c hc => by cases hc)

/--
In every run of the pool, the files found in place keep their names and contents,
every other file has a creating connection and holds only its bytes, and a child
holds descriptors of such files of its own connection only.
-/
theorem files_isolated
    {es : List Label}
    (h₀ : Initial s₀)
    (hrun : run (step resolve) s₀ es = some s) :
    (∀ path i, s₀.dir path = some i →
      s.dir path = some i ∧ s.contents i = s₀.contents i) ∧
    (∀ path i, s.dir path = some i → s₀.dir path = none →
      ∃ conn, s.creator i = some conn ∧ ∀ b ∈ s.contents i, b.2 = conn) ∧
    (∀ idx c i, s.children idx = .serving c → c.fd = some i →
      s.creator i = some c.conn ∧ s₀.nextFile ≤ i) := by
  have h : Isolated s₀ s :=
    run_invariant (fun _ _ _ h hstep => h.step hstep) h₀.isolated hrun
  refine ⟨?_, ?_, ?_⟩
  · intro path i hpath
    exact ⟨h.kept path i hpath, h.old i (h₀.dir path i hpath)⟩
  · intro path i hpath hnew
    rcases h.named path i hpath with hold | ⟨_, conn, hconn⟩
    · rw [hnew] at hold
      cases hold
    · exact ⟨conn, hconn, (h.created i conn hconn).2.2⟩
  · intro idx c i hc hfd
    have hcreator := (h.own idx c hc).fd i hfd
    exact ⟨hcreator, (h.created i _ hcreator).1⟩

/-- A pool over a directory with one file, "x". -/
def oneFile : State (List UInt8) where
  children := fun _ => .accepting
  nextConn := 0
  dir := fun path => if path = [120] then some 0 else none
  contents := fun _ => []
  nextFile := 1
  creator := fun _ => none

/-- Two connections send the name "a" at the same time; a third one sends "x". -/
def sameNameRun : List Label :=
  [.accept 0, .accept 1, .call 0 (.recv [97]), .call 1 (.recv [97]),
    .call 1 (.opened true), .call 0 (.opened false), .call 1 .send, .call 0 .send,
    .again 0, .accept 0, .call 0 (.recv [120]), .call 1 (.recv [5, 6]),
    .call 0 (.opened false), .call 1 (.write (some 1)), .call 1 (.write (some 1))]

theorem oneFile_isolated :
    ∃ s, run (step id) oneFile sameNameRun = some s ∧
      s.dir [97] = some 1 ∧
      (s.dir [120] = some 0 ∧ s.contents 0 = oneFile.contents 0) ∧
      ∃ conn, s.creator 1 = some conn ∧ ∀ b ∈ s.contents 1, b.2 = conn := by
  have hinitial : Initial oneFile := by
    refine ⟨fun _ => Or.inl rfl, ?_, fun _ => rfl⟩
    intro path i hpath
    simp only [oneFile] at hpath ⊢
    split_ifs at hpath
    cases hpath
    decide
  have h := fun s hrun => @files_isolated _ oneFile s _ id sameNameRun hinitial hrun
  exact ⟨_, rfl, rfl, (h _ rfl).1 [120] 0 rfl, (h _ rfl).2.1 [97] 1 rfl rfl⟩

end Isolation

end Pool

end FileTransfer
end SysProg
