import SysProg.FileTransfer.Connection
import Mathlib.Tactic

/-!
# The descriptors of a server child

`start_child` accepts a connection, runs `recv_file` on it, and starts over.  `recv_file` has
four ways out, and each of them has to close the connection and, once `open` has succeeded,
the file.  The first of them, an error of the `recv` for the name, closes nothing.

**Steps.** The child is one process with its open descriptors.  A step is a system call of
`start_child` or of `recv_file`, with any result; a new descriptor is one that is not open.
`Phase` lists what a child without a leak looks like.

**Results.** `released_iff`: whenever `recv_file` has returned or the child is about to accept,
the calls of `close` are the right ones and the open descriptors are those the child was
forked with, exactly if no `recv` for a name has failed with an error other than `EINTR`.
-/

namespace SysProg
namespace FileTransfer
namespace Descriptors

open Run

universe u

variable {α : Type u}

section Program

/-- Where the child is; `fd` is the descriptor of the file, once it is open. -/
inductive Place (α : Type u) where
  | accepting
  | serving (serv : Serv α) (cfd : Int) (fd : Option Int)
  | exited

/-- A child of the server and its open descriptors. -/
structure Child (α : Type u) where
  place : Place α
  opened : Finset Int

inductive Label (α : Type u) where
  | acceptError
  | accept (cfd : Int)
  /-- `accept` succeeded and `getnameinfo` failed: `exit(EXIT_FAILURE)` -/
  | nameinfoError (cfd : Int)
  /-- `open` returns a descriptor -/
  | openFile (fd : Int)
  /-- any other result of a system call in `recv_file` -/
  | call (r : ServResult α)
  /-- `recv_file` has returned, and `start_child` goes back to `accept` -/
  | again

/-- The calls of `close` between two states of `recv_file`. -/
def closeAll (v v' : Serv α) (cfd : Int) (fd : Option Int) (opened : Finset Int) : Finset Int :=
  let rest := if v.closedCfd < v'.closedCfd then opened.erase cfd else opened
  match fd with
  | none => rest
  | some d => if v.closedFd < v'.closedFd then rest.erase d else rest

def childStep (s : Child α) : Label α → Option (Child α)
  | .acceptError =>
      match s.place with
      -- `close(cfd)` is called with -1 here
      | .accepting => some s
      | _ => none
  | .accept cfd =>
      match s.place with
      | .accepting =>
          if cfd ∈ s.opened then none
          else some ⟨.serving Serv.start cfd none, insert cfd s.opened⟩
      | _ => none
  | .nameinfoError cfd =>
      match s.place with
      | .accepting => if cfd ∈ s.opened then none else some { s with place := .exited }
      | _ => none
  | .openFile fd =>
      match s.place with
      | .serving v cfd _ =>
          if fd ∈ s.opened then none
          else
            (recvFile v (.opened true)).map (fun p =>
              ⟨.serving p.1 cfd (some fd), insert fd s.opened⟩)
      | _ => none
  | .call (.opened true) => none
  | .call r =>
      match s.place with
      | .serving v cfd fd =>
          (recvFile v r).map (fun p => ⟨.serving p.1 cfd fd, closeAll v p.1 cfd fd s.opened⟩)
      | _ => none
  | .again =>
      match s.place with
      | .serving v _ _ =>
          match v.pc with
          | .returned _ => some { s with place := .accepting }
          | _ => none
      | _ => none

/-- A child that has been forked with the open descriptors `fds`. -/
def Child.start (fds : Finset Int) : Child α where
  place := .accepting
  opened := fds

/-- The child is about to accept, or `recv_file` has returned. -/
def Child.Settled (s : Child α) : Prop :=
  match s.place with
  | .accepting => True
  | .serving v _ _ => ∃ ret, v.pc = .returned ret
  | .exited => False

/--
The connection has been closed exactly once, the file exactly once if it was opened, and the
open descriptors are those the child was forked with.
-/
def Child.Released (fds : Finset Int) (s : Child α) : Prop :=
  (∀ v cfd fd, s.place = .serving v cfd fd →
    v.closedCfd = 1 ∧ v.closedFd = if v.opened then 1 else 0) ∧
  s.opened = fds

/-- The `recv` for the name fails with an error other than `EINTR`. -/
def nameFails (s : Child α) : Label α → Bool
  | .call .recvError =>
      match s.place with
      | .serving v _ _ => v.pc == .recvName
      | _ => false
  | _ => false

end Program

section Calls

variable {v v' : Serv α} {r : ServResult α} {out : List α}

/-- `recv_file` is at work and has closed nothing. -/
structure Working (v : Serv α) : Prop where
  cfd : v.closedCfd = 0
  fd : v.closedFd = 0
  running : ∀ ret, v.pc ≠ .returned ret
  name : v.pc = .recvName → v.opened = false
  openFile : v.pc = .openFile → v.opened = false
  recv : v.pc = .recvData → v.opened = true
  write : v.pc = .write → v.opened = true

theorem working_start :
    Working (Serv.start : Serv α) := by
  refine ⟨rfl, rfl, ?_, ?_, ?_, ?_, ?_⟩ <;> simp [Serv.start]

/-- What the result of a system call does to the descriptors of `recv_file`. -/
inductive Outcome (v : Serv α) (r : ServResult α) (v' : Serv α) : Prop
  | onward
      (hworking : Working v')
      (hopened : v'.opened = v.opened)
  | nameLost
      (hpc : v.pc = .recvName)
      (hr : r = .recvError)
      (hv : v' = { v with pc := .returned (-1) })
  | refused {ret : Int}
      (hopened : v.opened = false)
      (hv : v' = { v with pc := .returned ret, closedCfd := v.closedCfd + 1 })
  | finished {ret : Int}
      (hopened : v.opened = true)
      (hv : v' =
        { v with
          pc := .returned ret
          closedCfd := v.closedCfd + 1
          closedFd := v.closedFd + 1 })

theorem Working.call
    (h : Working v)
    (hr : r ≠ .opened true)
    (hcall : recvFile v r = some (v', out)) :
    Outcome v r v' := by
  cases recvFile_call hcall with
  | interrupted =>
      exact .onward h rfl
  | nameError hpc =>
      exact .nameLost hpc rfl rfl
  | dataError hpc =>
      exact .finished (h.recv hpc) rfl
  | nameRead hpc =>
      exact .onward
        ⟨h.cfd, h.fd, by simp, by simp, fun _ => h.name hpc, by simp, by simp⟩ rfl
  | dataEnd hpc =>
      exact .finished (h.recv hpc) rfl
  | dataRead hpc _ =>
      exact .onward
        ⟨h.cfd, h.fd, by simp, by simp, by simp, by simp, fun _ => h.recv hpc⟩ rfl
  | @fileOpened ok hpc =>
      have hok : ok = false := by simpa using hr
      subst hok
      exact .onward
        ⟨h.cfd, h.fd, by simp, by simp, by simp, by simp, by simp⟩ (h.openFile hpc).symm
  | accepted _ hopened =>
      exact .onward
        ⟨h.cfd, h.fd, by simp, by simp, by simp, fun _ => hopened, by simp⟩ rfl
  | denied _ hopened =>
      exact .refused hopened rfl
  | writeError _ =>
      exact .onward h rfl
  | @written k hpc =>
      have hopened := h.write hpc
      -- the loop goes on, or back to `recv`
      by_cases hrest : v.retLen - k = 0
      · simp only [if_pos hrest]
        exact .onward
          ⟨h.cfd, h.fd, by simp, by simp, by simp, fun _ => hopened, by simp⟩ rfl
      · simp only [if_neg hrest]
        exact .onward
          ⟨h.cfd, h.fd, by simp, by simp, by simp, by simp, fun _ => hopened⟩ rfl

/-- `open` has succeeded. -/
theorem Working.openFile_ok
    (h : Working v)
    (hcall : recvFile v (.opened true) = some (v', out)) :
    Working v' ∧ v.opened = false ∧ v'.opened = true := by
  cases recvFile_call hcall with
  | fileOpened hpc =>
      exact ⟨⟨h.cfd, h.fd, by simp, by simp, by simp, by simp, by simp⟩, h.openFile hpc, rfl⟩

/-- No system call is made after the return. -/
theorem running_of_call
    (hcall : recvFile v r = some (v', out))
    (ret : Int) :
    v.pc ≠ .returned ret := by
  intro hpc
  cases r <;> simp [recvFile, hpc] at hcall

/-- As long as `recv_file` is at work, nothing has been closed. -/
theorem closeAll_of_working
    (h : Working v)
    (h' : Working v')
    (cfd : Int) (fd : Option Int) (opened : Finset Int) :
    closeAll v v' cfd fd opened = opened := by
  cases fd with
  | none =>
      simp [closeAll, h.cfd, h'.cfd]
  | some d =>
      simp [closeAll, h.cfd, h'.cfd, h.fd, h'.fd]

end Calls

section Steps

variable {fds : Finset Int} {s s' : Child α} {l : Label α}

/-- Everything a step can do. -/
inductive Moves (s : Child α) : Label α → Child α → Prop
  | failed
      (hplace : s.place = .accepting) :
      Moves s .acceptError s
  | accepted {cfd : Int}
      (hplace : s.place = .accepting)
      (hcfd : cfd ∉ s.opened) :
      Moves s (.accept cfd) ⟨.serving Serv.start cfd none, insert cfd s.opened⟩
  | exited {cfd : Int}
      (hplace : s.place = .accepting) :
      Moves s (.nameinfoError cfd) { s with place := .exited }
  | opened {v v' : Serv α} {cfd fd : Int} {old : Option Int} {out : List α}
      (hplace : s.place = .serving v cfd old)
      (hfd : fd ∉ s.opened)
      (hcall : recvFile v (.opened true) = some (v', out)) :
      Moves s (.openFile fd) ⟨.serving v' cfd (some fd), insert fd s.opened⟩
  | called {v v' : Serv α} {cfd : Int} {fd : Option Int} {r : ServResult α} {out : List α}
      (hplace : s.place = .serving v cfd fd)
      (hr : r ≠ .opened true)
      (hcall : recvFile v r = some (v', out)) :
      Moves s (.call r) ⟨.serving v' cfd fd, closeAll v v' cfd fd s.opened⟩
  | again {v : Serv α} {cfd : Int} {fd : Option Int} {ret : Int}
      (hplace : s.place = .serving v cfd fd)
      (hpc : v.pc = .returned ret) :
      Moves s .again { s with place := .accepting }

theorem childStep_call
    {r : ServResult α}
    (hr : r ≠ .opened true) :
    childStep s (.call r) =
      match s.place with
      | .serving v cfd fd =>
          (recvFile v r).map (fun p => ⟨.serving p.1 cfd fd, closeAll v p.1 cfd fd s.opened⟩)
      | _ => none := by
  cases r with
  | opened ok =>
      cases ok with
      | true =>
          exact absurd rfl hr
      | false =>
          rfl
  | _ =>
      rfl

theorem step_moves
    (hstep : childStep s l = some s') :
    Moves s l s' := by
  obtain ⟨place, opened⟩ := s
  cases l with
  | acceptError =>
      cases place <;> simp only [childStep, reduceCtorEq] at hstep
      cases hstep
      exact .failed rfl
  | accept cfd =>
      cases place <;> simp only [childStep, reduceCtorEq] at hstep
      split_ifs at hstep with hcfd
      cases hstep
      exact .accepted rfl hcfd
  | nameinfoError cfd =>
      cases place <;> simp only [childStep, reduceCtorEq] at hstep
      split_ifs at hstep
      cases hstep
      exact .exited rfl
  | openFile fd =>
      cases place <;> simp only [childStep, reduceCtorEq] at hstep
      split_ifs at hstep with hfd
      obtain ⟨⟨v', out⟩, hcall, heq⟩ := Option.map_eq_some_iff.mp hstep
      cases heq
      exact .opened rfl hfd hcall
  | call r =>
      have hr : r ≠ .opened true := by
        rintro rfl
        cases hstep
      cases place with
      | serving v cfd fd =>
          rw [childStep_call hr] at hstep
          obtain ⟨⟨v', out⟩, hcall, heq⟩ := Option.map_eq_some_iff.mp hstep
          cases heq
          exact .called rfl hr hcall
      | accepting =>
          rw [childStep_call hr] at hstep
          cases hstep
      | exited =>
          rw [childStep_call hr] at hstep
          cases hstep
  | again =>
      cases place <;> simp only [childStep, reduceCtorEq] at hstep
      split at hstep
      · rename_i hpc
        cases hstep
        exact .again rfl hpc
      · cases hstep

/-- A child that has leaked nothing, with the descriptors `fds` it was forked with. -/
inductive Phase (fds : Finset Int) : Child α → Prop
  | accepting :
      Phase fds ⟨.accepting, fds⟩
  | named {v : Serv α} {cfd : Int}
      (hworking : Working v)
      (hopened : v.opened = false)
      (hcfd : cfd ∉ fds) :
      Phase fds ⟨.serving v cfd none, insert cfd fds⟩
  | receiving {v : Serv α} {cfd fd : Int}
      (hworking : Working v)
      (hopened : v.opened = true)
      (hcfd : cfd ∉ fds)
      (hfd : fd ∉ insert cfd fds) :
      Phase fds ⟨.serving v cfd (some fd), insert fd (insert cfd fds)⟩
  | returned {v : Serv α} {cfd : Int} {fd : Option Int} {ret : Int}
      (hpc : v.pc = .returned ret)
      (hcfd : v.closedCfd = 1)
      (hfd : v.closedFd = if v.opened then 1 else 0) :
      Phase fds ⟨.serving v cfd fd, fds⟩
  | exited {opened : Finset Int} :
      Phase fds ⟨.exited, opened⟩

/-- A system call of `recv_file` other than a successful `open`. -/
theorem Phase.called
    {v v' : Serv α} {cfd : Int} {fd : Option Int} {r : ServResult α} {out : List α}
    (h : Phase fds s)
    (hname : nameFails s (.call r) = false)
    (hplace : s.place = .serving v cfd fd)
    (hr : r ≠ .opened true)
    (hcall : recvFile v r = some (v', out)) :
    Phase fds ⟨.serving v' cfd fd, closeAll v v' cfd fd s.opened⟩ := by
  cases h with
  | named hworking hopened hcfd =>
      cases hplace
      cases hworking.call hr hcall with
      | onward hworking' hopened' =>
          rw [closeAll_of_working hworking hworking']
          exact .named hworking' (hopened'.trans hopened) hcfd
      | nameLost hpc hr' hv =>
          subst hr'
          simp [nameFails, hpc] at hname
      | refused _ hv =>
          subst hv
          simp only [closeAll, Nat.lt_succ_self, if_true, Finset.erase_insert hcfd]
          exact .returned rfl (by simp [hworking.cfd]) (by simp [hworking.fd, hopened])
      | finished hopened' _ =>
          rw [hopened] at hopened'
          cases hopened'
  | receiving hworking hopened hcfd hfd =>
      cases hplace
      cases hworking.call hr hcall with
      | onward hworking' hopened' =>
          rw [closeAll_of_working hworking hworking']
          exact .receiving hworking' (hopened'.trans hopened) hcfd hfd
      | nameLost hpc _ _ =>
          rw [hworking.name hpc] at hopened
          cases hopened
      | refused hopened' _ =>
          rw [hopened] at hopened'
          cases hopened'
      | finished _ hv =>
          subst hv
          simp only [closeAll, Nat.lt_succ_self, if_true]
          rw [Finset.erase_right_comm, Finset.erase_insert hfd, Finset.erase_insert hcfd]
          exact .returned rfl (by simp [hworking.cfd]) (by simp [hworking.fd, hopened])
  | returned hpc hcfd hfd =>
      cases hplace
      exact absurd hpc (running_of_call hcall _)
  | _ =>
      cases hplace

theorem Phase.step
    (h : Phase fds s)
    (hname : nameFails s l = false)
    (hstep : childStep s l = some s') :
    Phase fds s' := by
  cases step_moves hstep with
  | failed hplace =>
      exact h
  | accepted hplace hcfd =>
      cases h with
      | accepting =>
          exact .named working_start rfl hcfd
      | _ =>
          cases hplace
  | exited hplace =>
      exact .exited
  | opened hplace hfd hcall =>
      cases h with
      | named hworking hopened hcfd =>
          cases hplace
          obtain ⟨hworking', -, hopened'⟩ := hworking.openFile_ok hcall
          exact .receiving hworking' hopened' hcfd hfd
      | receiving hworking hopened hcfd hfd' =>
          cases hplace
          obtain ⟨-, hclosed, -⟩ := hworking.openFile_ok hcall
          rw [hopened] at hclosed
          cases hclosed
      | returned hpc hcfd hfd' =>
          cases hplace
          exact absurd hpc (running_of_call hcall _)
      | _ =>
          cases hplace
  | called hplace hr hcall =>
      exact h.called hname hplace hr hcall
  | again hplace hpc =>
      cases h with
      | named hworking _ _ =>
          cases hplace
          exact absurd hpc (hworking.running _)
      | receiving hworking _ _ _ =>
          cases hplace
          exact absurd hpc (hworking.running _)
      | returned _ _ _ =>
          exact .accepting
      | _ =>
          cases hplace

/-- A descriptor is open that the child was not forked with and that nothing will close. -/
def Leaks (fds : Finset Int) (s : Child α) : Prop :=
  ∃ d ∈ s.opened, d ∉ fds ∧
    ∀ v cfd fd, s.place = .serving v cfd fd → (∀ ret, v.pc ≠ .returned ret) →
      d ≠ cfd ∧ fd ≠ some d

theorem leaks_of_nameFails
    (h : Phase fds s)
    (hname : nameFails s l = true)
    (hstep : childStep s l = some s') :
    Leaks fds s' := by
  cases step_moves hstep with
  | @called v v' cfd fd r out hplace hr hcall =>
      have hr' : r = .recvError := by
        cases r <;> first | rfl | cases hname
      subst hr'
      have hpc : v.pc = .recvName := by
        simpa [nameFails, hplace] using hname
      have hv : v' = { v with pc := .returned (-1) } := by
        simp only [recvFile, hpc] at hcall
        cases hcall
        rfl
      subst hv
      cases h with
      | named hworking hopened hcfd =>
          cases hplace
          refine ⟨_, by simp [closeAll], hcfd, ?_⟩
          intro v cfd fd hplace hrunning
          cases hplace
          exact absurd rfl (hrunning (-1))
      | receiving hworking hopened _ _ =>
          cases hplace
          rw [hworking.name hpc] at hopened
          cases hopened
      | returned hpc' _ _ =>
          cases hplace
          rw [hpc] at hpc'
          cases hpc'
      | _ =>
          cases hplace
  | _ =>
      simp [nameFails] at hname

theorem mem_closeAll
    {v v' : Serv α} {cfd d : Int} {fd : Option Int} {opened : Finset Int}
    (hd : d ∈ opened)
    (hcfd : d ≠ cfd)
    (hfd : fd ≠ some d) :
    d ∈ closeAll v v' cfd fd opened := by
  have hrest : d ∈ if v.closedCfd < v'.closedCfd then opened.erase cfd else opened := by
    split_ifs
    · exact Finset.mem_erase.mpr ⟨hcfd, hd⟩
    · exact hd
  cases fd with
  | none =>
      exact hrest
  | some e =>
      have hne : d ≠ e := by
        rintro rfl
        exact hfd rfl
      simp only [closeAll]
      split_ifs at hrest ⊢
      all_goals first | exact hrest | exact Finset.mem_erase.mpr ⟨hne, hrest⟩

/-- A leaked descriptor stays open, and the kernel does not give out its number again. -/
theorem leaks_step
    (h : Leaks fds s)
    (hstep : childStep s l = some s') :
    Leaks fds s' := by
  obtain ⟨d, hd, hnew, hother⟩ := h
  cases step_moves hstep with
  | failed hplace =>
      exact ⟨d, hd, hnew, hother⟩
  | @accepted cfd hplace hcfd =>
      refine ⟨d, Finset.mem_insert_of_mem hd, hnew, ?_⟩
      intro v cfd' fd' hplace' _
      cases hplace'
      refine ⟨?_, by simp⟩
      rintro rfl
      exact hcfd hd
  | exited hplace =>
      refine ⟨d, hd, hnew, ?_⟩
      intro v cfd fd hplace' _
      cases hplace'
  | @opened v v' cfd fd old out hplace hfd hcall =>
      refine ⟨d, Finset.mem_insert_of_mem hd, hnew, ?_⟩
      intro v₁ cfd' fd' hplace' _
      cases hplace'
      refine ⟨(hother v cfd old hplace (running_of_call hcall)).1, ?_⟩
      rw [ne_eq, Option.some.injEq]
      rintro rfl
      exact hfd hd
  | @called v v' cfd fd r out hplace hr hcall =>
      obtain ⟨hcfd, hfd⟩ := hother v cfd fd hplace (running_of_call hcall)
      refine ⟨d, mem_closeAll hd hcfd hfd, hnew, ?_⟩
      intro v₁ cfd' fd' hplace' _
      cases hplace'
      exact ⟨hcfd, hfd⟩
  | again hplace hpc =>
      refine ⟨d, hd, hnew, ?_⟩
      intro v cfd fd hplace' _
      cases hplace'

end Steps

section Results

variable {fds : Finset Int} {s : Child α} {es : List (Label α)}

theorem Phase.released
    (h : Phase fds s)
    (hsettled : s.Settled) :
    s.Released fds := by
  cases h with
  | accepting =>
      exact ⟨by simp, rfl⟩
  | named hworking _ _ =>
      obtain ⟨ret, hret⟩ := hsettled
      exact absurd hret (hworking.running ret)
  | receiving hworking _ _ _ =>
      obtain ⟨ret, hret⟩ := hsettled
      exact absurd hret (hworking.running ret)
  | returned _ hcfd hfd =>
      refine ⟨?_, rfl⟩
      intro v cfd fd hplace
      cases hplace
      exact ⟨hcfd, hfd⟩
  | exited =>
      exact absurd hsettled id

/--
When `recv_file` has returned, and before each `accept`, the connection has been closed once,
the file once if it was opened, and the open descriptors are those of the beginning, exactly if
no `recv` for a name has failed.
-/
theorem released_iff
    (hrun : run childStep (Child.start fds) es = some s)
    (hsettled : s.Settled) :
    s.Released fds ↔
      Along childStep (fun s l => nameFails s l = false) (Child.start fds) es := by
  have hcases := good_or_bad (G := fun s l => nameFails s l = false)
    (P := Phase fds) (B := Leaks fds)
    (fun s l t hP hG hstep => hP.step hG hstep)
    (fun s l t hP hG hstep => leaks_of_nameFails hP (by simpa using hG) hstep)
    (fun s l t hB hstep => leaks_step hB hstep)
    (Phase.accepting (α := α)) hrun
  rcases hcases with ⟨halong, hphase⟩ | ⟨hnot, d, hd, hnew, -⟩
  · exact iff_of_true (hphase.released hsettled) halong
  · refine iff_of_false ?_ hnot
    rintro ⟨-, heq⟩
    rw [heq] at hd
    exact hnew hd

end Results

section Example

/-- A name, a refusal by `open`, then a second connection with one piece of data. -/
def twoTransfers : List (Label UInt8) :=
  [.accept 4, .call .eintr, .call (.recv [97]), .call (.opened false), .call .send, .again,
    .accept 4, .call (.recv [98]), .openFile 5, .call .send, .call (.recv [1, 2]),
    .call (.write none), .call (.write (some 2)), .call (.recv [])]

theorem released_twoTransfers :
    ∃ s,
      run childStep (Child.start {0, 1, 2, 3}) twoTransfers = some s ∧
      s.Settled ∧
      s.Released {0, 1, 2, 3} := by
  have hrun : ∃ s,
      run childStep (Child.start {0, 1, 2, 3}) twoTransfers = some s ∧ s.Settled :=
    ⟨_, rfl, 0, rfl⟩
  obtain ⟨s, hs, hsettled⟩ := hrun
  exact ⟨s, hs, hsettled, (released_iff hs hsettled).mpr (by decide)⟩

/-- The client resets the connection before it has sent a name: descriptor 4 stays open. -/
theorem not_released_reset :
    ∃ s,
      run childStep (Child.start {0, 1, 2, 3} : Child UInt8)
        [.accept 4, .call .recvError, .again] = some s ∧
      s.Settled ∧
      s.opened = {4, 0, 1, 2, 3} ∧
      ¬ s.Released {0, 1, 2, 3} := by
  refine ⟨_, rfl, trivial, rfl, ?_⟩
  rintro ⟨-, heq⟩
  exact absurd heq (by decide)

end Example
end Descriptors
end FileTransfer
end SysProg
