import SysProg.FileTransfer.Connection
import Mathlib.Tactic

/-!
# When `recv_file` returns

The stream of a client is finite, and so are the interruptions of `recv`: the results of
`recv` are a list, and after it the end of the stream.  The results of `write` go on for ever:
the environment has one for every call, and it may depend on the number of bytes asked for.

The inner loop of `recv_file` starts over when `write` fails, without a look at the error, and
ends only when all bytes are written.

**Steps.** The environment decides everything, so `recv_file` is a loop of system calls, `body`.

**Results.** `returns_iff`: `recv_file` returns exactly if at no call of `write` all results
from this call on are failures.  In particular it returns if `write` makes progress again and
again (`returns_of_progress`).
-/

namespace SysProg
namespace FileTransfer
namespace Termination

open Run

universe u

variable {α : Type u}

section Program

/-- A result of `recv` before the end of the stream. -/
inductive Received (α : Type u) where
  | eintr
  | error
  | bytes (first : α) (rest : List α)

def Received.result : Received α → ServResult α
  | .eintr => .eintr
  | .error => .recvError
  | .bytes first rest => .recv (first :: rest)

/--
What `recv_file` meets: the results of `recv` up to the end of the stream, the result of
`open`, and the results of the calls of `write`, which take no more than they are given.
-/
structure Env (α : Type u) where
  recvs : List (Received α)
  openOk : Bool
  write : Nat → (len : Nat) → Option (Fin (len + 1))

/-- `recv_file`, the results of `recv` to come and the number of calls of `write` so far. -/
structure Config (α : Type u) where
  serv : Serv α
  recvs : List (Received α)
  writes : Nat

/-- The result of the next system call. -/
def answer (env : Env α) (c : Config α) : ServResult α :=
  match c.serv.pc with
  | .openFile => .opened env.openOk
  | .sendFlag => .send
  | .write => .write ((env.write c.writes c.serv.retLen).map Fin.val)
  | _ =>
      match c.recvs with
      | [] => .recv []
      | r :: _ => r.result

/-- One system call, or nothing if `recv_file` has returned. -/
def body (env : Env α) (c : Config α) : Option (Config α) :=
  (recvFile c.serv (answer env c)).map (fun p =>
    { serv := p.1
      recvs := if c.serv.pc = .recvName ∨ c.serv.pc = .recvData then c.recvs.tail else c.recvs
      writes := if c.serv.pc = .write then c.writes + 1 else c.writes })

def Config.start (env : Env α) : Config α where
  serv := Serv.start
  recvs := env.recvs
  writes := 0

def Config.Returned (c : Config α) : Prop :=
  ∃ ret, c.serv.pc = .returned ret

/-- `recv_file` returns after finitely many system calls. -/
def Returns (env : Env α) : Prop :=
  Reaches (body env) Config.Returned (Config.start env)

/-- The call of `write` with this number writes something. -/
def Env.advances (env : Env α) (call len : Nat) : Prop :=
  ∃ n, env.write call len = some n ∧ n ≠ 0

/-- In the inner loop, this call of `write` or a later one for the same bytes writes something. -/
def WriteAdvances (env : Env α) (c : Config α) : Prop :=
  c.serv.pc = .write → ∃ call, c.writes ≤ call ∧ env.advances call c.serv.retLen

end Program

section Loop

variable {env : Env α} {c c' : Config α}

theorem body_returned
    (h : c.Returned) :
    body env c = none := by
  obtain ⟨ret, hpc⟩ := h
  unfold body
  cases answer env c <;> simp [recvFile, hpc]

/-- All states from here on in which `write` is called have a call that writes something. -/
def AlwaysAdvances (env : Env α) (c : Config α) : Prop :=
  ∀ es t, run (turn (body env)) c es = some t → WriteAdvances env t

theorem AlwaysAdvances.now
    (h : AlwaysAdvances env c) :
    WriteAdvances env c :=
  h [] c rfl

theorem AlwaysAdvances.turn
    (h : AlwaysAdvances env c)
    (hbody : body env c = some c') :
    AlwaysAdvances env c' := by
  intro es t hrun
  refine h (() :: es) t ?_
  rw [run_cons, Run.turn, hbody]
  exact hrun

/-- In the inner loop there is something left to write. -/
def Config.Busy (c : Config α) : Prop :=
  c.serv.pc = .write → 0 < c.serv.retLen

theorem Config.Busy.turn
    (h : c.Busy)
    (hbody : body env c = some c') :
    c'.Busy := by
  obtain ⟨⟨v, out⟩, hcall, heq⟩ := Option.map_eq_some_iff.mp hbody
  subst heq
  intro hwrite
  change v.pc = .write at hwrite
  change 0 < v.retLen
  generalize answer env c = r at hcall
  cases recvFile_call hcall with
  | interrupted =>
      exact h hwrite
  | writeError hpc =>
      exact h hwrite
  | dataRead hpc hne =>
      exact List.length_pos_of_ne_nil hne
  | written hpc =>
      simp only at hwrite
      split_ifs at hwrite with hrest
      exact Nat.pos_of_ne_zero hrest
  | _ =>
      cases hwrite

/-- A call of `write` that writes nothing changes nothing but the count of calls. -/
theorem body_idle
    (hpc : c.serv.pc = .write)
    (hlen : 0 < c.serv.retLen)
    (hidle : ¬ env.advances c.writes c.serv.retLen) :
    body env c = some { c with writes := c.writes + 1 } := by
  obtain ⟨v, recvs, writes⟩ := c
  simp only at hpc hlen hidle
  cases hwrite : env.write writes v.retLen with
  | none =>
      simp [body, answer, hpc, hwrite, recvFile]
  | some n =>
      have hn : n = 0 := by
        by_contra hne
        exact hidle ⟨n, hwrite, hne⟩
      have hne : v.retLen ≠ 0 := by omega
      subst hn
      simp [body, answer, hpc, hwrite, recvFile, hne]
      rw [← hpc]

theorem body_write
    {n : Fin (c.serv.retLen + 1)}
    (hpc : c.serv.pc = .write)
    (hwrite : env.write c.writes c.serv.retLen = some n) :
    body env c = some
      { c with
        serv :=
          { c.serv with
            retLen := c.serv.retLen - n
            pc := if c.serv.retLen - n = 0 then .recvData else .write }
        writes := c.writes + 1 } := by
  simp [body, answer, hpc, hwrite, recvFile]

/-- If no later call writes anything, the inner loop goes on for ever. -/
theorem not_reaches_of_idle
    (hpc : c.serv.pc = .write)
    (hlen : 0 < c.serv.retLen)
    (hidle : ∀ call, c.writes ≤ call → ¬ env.advances call c.serv.retLen) :
    ¬ Reaches (body env) Config.Returned c := by
  -- only the count of calls changes
  have hturn : ∀ d d' : Config α,
      (d.serv = c.serv ∧ c.writes ≤ d.writes) → body env d = some d' →
        d'.serv = c.serv ∧ c.writes ≤ d'.writes := by
    rintro d d' ⟨hserv, hwrites⟩ hbody
    rw [body_idle (by rw [hserv, hpc]) (by rw [hserv]; exact hlen)
      (by rw [hserv]; exact hidle _ hwrites), Option.some.injEq] at hbody
    subst hbody
    exact ⟨hserv, Nat.le_succ_of_le hwrites⟩
  refine not_reaches_of_invariant hturn ?_ ⟨rfl, Nat.le_refl _⟩
  rintro d ⟨hserv, -⟩ ⟨ret, hret⟩
  rw [hserv, hpc] at hret
  cases hret

/-- The inner loop comes to its end if some call after every other one writes something. -/
theorem reaches_of_write
    {recvs : List (Received α)}
    (hdata : ∀ d : Config α,
      d.serv.pc = .recvData → d.recvs = recvs → AlwaysAdvances env d →
        Reaches (body env) Config.Returned d)
    (hpc : c.serv.pc = .write)
    (hrecvs : c.recvs = recvs)
    (hbusy : c.Busy)
    (h : AlwaysAdvances env c) :
    Reaches (body env) Config.Returned c := by
  induction hlen : c.serv.retLen using Nat.strong_induction_on generalizing c with
  | _ len ihlen =>
      -- for these bytes, induction on the distance to the call that writes something
      obtain ⟨call, hcall, hadvances⟩ := h.now hpc
      induction hdist : call - c.writes using Nat.strong_induction_on generalizing c with
      | _ dist ihdist =>
          subst hlen
          by_cases hnow : env.advances c.writes c.serv.retLen
          · obtain ⟨n, hwrite, hn⟩ := hnow
            have hbody := body_write hpc hwrite
            have hnext := h.turn hbody
            have hbusy' := hbusy.turn hbody
            have hpos : 0 < (n : Nat) := Fin.pos_iff_ne_zero.mpr hn
            have hle : (n : Nat) ≤ c.serv.retLen := Nat.lt_succ_iff.mp n.isLt
            refine reaches_of_turn hbody ?_
            by_cases hrest : c.serv.retLen - n = 0
            · simp only [if_pos hrest] at hnext ⊢
              exact hdata _ rfl hrecvs hnext
            · simp only [if_neg hrest] at hnext hbusy' ⊢
              exact ihlen (c.serv.retLen - n) (by omega) rfl hrecvs hbusy' hnext rfl
          · have hbody := body_idle hpc (hbusy hpc) hnow
            have hne : call ≠ c.writes := by
              rintro rfl
              exact hnow hadvances
            refine reaches_of_turn hbody ?_
            exact ihdist (call - (c.writes + 1)) (by omega) hpc hrecvs (hbusy.turn hbody)
              (h.turn hbody) rfl (by simp only; omega) hadvances rfl

/-- Both calls of `recv` are repeated after EINTR. -/
theorem body_eintr
    {recvs : List (Received α)}
    (hpc : c.serv.pc = .recvName ∨ c.serv.pc = .recvData)
    (hrecvs : c.recvs = .eintr :: recvs) :
    body env c = some { c with recvs := recvs } := by
  rcases hpc with hpc | hpc
  · simp [body, answer, hpc, hrecvs, recvFile, Received.result]
  · simp [body, answer, hpc, hrecvs, recvFile, Received.result]

/-- `recv_file` returns after the next call. -/
theorem reaches_of_last
    (h : ∃ last, body env c = some last ∧ last.Returned) :
    Reaches (body env) Config.Returned c := by
  obtain ⟨last, hbody, hlast⟩ := h
  exact reaches_of_turn hbody (reaches_now hlast)

/-- The outer loop ends with the stream. -/
theorem reaches_of_recvData
    (hpc : c.serv.pc = .recvData)
    (h : AlwaysAdvances env c) :
    Reaches (body env) Config.Returned c := by
  induction hrecvs : c.recvs generalizing c with
  | nil =>
      apply reaches_of_last
      simp [body, answer, hpc, hrecvs, recvFile, Config.Returned]
  | cons r recvs ih =>
      cases r with
      | eintr =>
          have hbody : body env c = some { c with recvs := recvs } :=
            body_eintr (Or.inr hpc) hrecvs
          exact reaches_of_turn hbody (ih hpc (h.turn hbody) rfl)
      | error =>
          apply reaches_of_last
          simp [body, answer, hpc, hrecvs, recvFile, Received.result, Config.Returned]
      | bytes first rest =>
          have hbody : body env c = some
              { c with
                serv :=
                  { c.serv with
                    buf := first :: rest
                    retLen := (first :: rest).length
                    pc := .write }
                recvs := recvs } := by
            simp [body, answer, hpc, hrecvs, recvFile, Received.result]
          refine reaches_of_turn hbody ?_
          exact reaches_of_write (fun d hd hrecvs' h' => ih hd h' hrecvs') rfl rfl
            (fun _ => by simp) (h.turn hbody)

/-- Behind the `recv` for the name: `open`, the flag, and the data. -/
theorem reaches_of_openFile
    (hpc : c.serv.pc = .openFile)
    (h : AlwaysAdvances env c) :
    Reaches (body env) Config.Returned c := by
  have hopen : body env c = some
      { c with
        serv :=
          { c.serv with
            opened := env.openOk
            pc := .sendFlag
            openArg := some c.serv.filename } } := by
    simp [body, answer, hpc, recvFile]
  have hnext := h.turn hopen
  refine reaches_of_turn hopen ?_
  cases hok : env.openOk with
  | false =>
      apply reaches_of_last
      simp [body, answer, recvFile, Config.Returned]
  | true =>
      rw [hok] at hnext
      have hsend : body env
          { c with
            serv :=
              { c.serv with
                opened := true
                pc := .sendFlag
                openArg := some c.serv.filename } } = some
          { c with
            serv :=
              { c.serv with
                opened := true
                pc := .recvData
                openArg := some c.serv.filename } } := by
        simp [body, answer, recvFile]
      exact reaches_of_turn hsend (reaches_of_recvData rfl (hnext.turn hsend))

theorem reaches_of_recvName
    (hpc : c.serv.pc = .recvName)
    (h : AlwaysAdvances env c) :
    Reaches (body env) Config.Returned c := by
  induction hrecvs : c.recvs generalizing c with
  | nil =>
      have hbody : body env c = some
          { c with
            serv := { c.serv with filename := [], pc := .openFile }
            recvs := [] } := by
        simp [body, answer, hpc, hrecvs, recvFile]
      exact reaches_of_turn hbody (reaches_of_openFile rfl (h.turn hbody))
  | cons r recvs ih =>
      cases r with
      | eintr =>
          have hbody : body env c = some { c with recvs := recvs } :=
            body_eintr (Or.inl hpc) hrecvs
          exact reaches_of_turn hbody (ih hpc (h.turn hbody) rfl)
      | error =>
          apply reaches_of_last
          simp [body, answer, hpc, hrecvs, recvFile, Received.result, Config.Returned]
      | bytes first rest =>
          have hbody : body env c = some
              { c with
                serv := { c.serv with filename := first :: rest, pc := .openFile }
                recvs := recvs } := by
            simp [body, answer, hpc, hrecvs, recvFile, Received.result]
          exact reaches_of_turn hbody (reaches_of_openFile rfl (h.turn hbody))

end Loop

section Results

theorem busy_of_run
    {env : Env α} {c : Config α} {es : List Unit}
    (hrun : run (turn (body env)) (Config.start env) es = some c) :
    c.Busy := by
  refine run_invariant (P := Config.Busy) (fun _ _ _ h hturn => h.turn hturn) ?_ hrun
  intro hpc
  cases hpc

/--
`recv_file` returns after finitely many steps, exactly if at every call of `write` it makes,
this call or a later one for the same bytes would write something.
-/
theorem returns_iff
    (env : Env α) :
    Returns env ↔ AlwaysAdvances env (Config.start env) := by
  constructor
  · intro hreturns es c hrun hpc
    by_contra hidle
    simp only [not_exists, not_and] at hidle
    exact not_reaches_of_idle hpc (busy_of_run hrun hpc) hidle
      (reaches_of_run (fun _ h => body_returned h) hreturns hrun)
  · intro h
    exact reaches_of_recvName rfl h

/-- It is enough that every request is served in part again and again. -/
theorem returns_of_progress
    {env : Env α}
    (h : ∀ first len, 0 < len → ∃ call, first ≤ call ∧ env.advances call len) :
    Returns env :=
  reaches_of_recvName rfl (fun _ _ hrun hpc => h _ _ (busy_of_run hrun hpc))

end Results

section Example

/-- A name and two bytes arrive, and the disk is full. -/
def fullDisk : Env UInt8 where
  recvs := [.bytes 97 [], .bytes 1 [2]]
  openOk := true
  write := fun _ _ => none

theorem not_returns_fullDisk :
    ¬ Returns fullDisk := by
  intro hreturns
  have hrun : ∃ c,
      run (turn (body fullDisk)) (Config.start fullDisk) (List.replicate 5 ()) = some c ∧
        c.serv.pc = .write ∧ 0 < c.serv.retLen :=
    ⟨_, rfl, rfl, by decide⟩
  obtain ⟨c, hc, hpc, hlen⟩ := hrun
  refine not_reaches_of_idle hpc hlen ?_ (reaches_of_run (fun _ h => body_returned h) hreturns hc)
  rintro call - ⟨n, hn, -⟩
  cases hn

end Example
end Termination
end FileTransfer
end SysProg
