import SysProg.Chat.Table
import Mathlib.Tactic

/-!
# Does the chat server survive its clients?

Nothing in sp/select/serv.c handles SIGPIPE, tests `recv` for -1, or bounds the
descriptors of its clients.  `survives_iff_safe` says exactly which steps end the defined
life of the process: a `send` to a client that has reset its connection, a failed
`recv`, and a descriptor beyond the range of an `fd_set`.  The last of them comes before the
table is full (`room_of_run`).

`survives_of_resets_closed` turns the first condition into one on the clients: it
is enough that a connection is reset only when the server has closed it.
-/

namespace SysProg
namespace Chat

open Run

variable {s s' : State} {l : Label}

/-- The process runs, within the defined behaviour of C. -/
def State.alive (s : State) : Bool :=
  match s.pc with
  | .terminated => false
  | .undefined => false
  | _ => true

/-- `select`, `accept` and `getnameinfo` succeed. -/
def Succeeds (l : Label) : Prop :=
  l ≠ .selectError ∧ l ≠ .acceptError ∧ l ≠ .nameinfoError

instance (l : Label) : Decidable (Succeeds l) :=
  inferInstanceAs (Decidable (_ ∧ _))

/-- The connection that the next `send` goes to. -/
def State.target (s : State) : Option Nat :=
  match s.pc with
  | .welcome sock => s.conn sock
  | .broadcast _ j _ => s.conn (s.clisockList j)
  | _ => none

/-- The descriptors that the next turn of a loop uses with an `fd_set`. -/
def State.fdsUsed (s : State) : List Int :=
  match s.pc with
  | .top => s.listenSock :: s.socks
  | .scan i => if i < s.numChat then [s.clisockList i] else []
  | _ => []

/-- The steps that the server survives. -/
structure Safe (s : State) (l : Label) : Prop where
  send : l = .send → ∀ c ∈ s.target, s.reset c = false
  recv : l ≠ .recv none
  next : l = .next → ∀ fd ∈ s.fdsUsed, InSet fd

theorem safe_iff
    {s : State} {l : Label} :
    Safe s l ↔
      (l = .send → ∀ c ∈ s.target, s.reset c = false) ∧ l ≠ .recv none ∧
        (l = .next → ∀ fd ∈ s.fdsUsed, InSet fd) :=
  ⟨fun h => ⟨h.send, h.recv, h.next⟩, fun h => ⟨h.1, h.2.1, h.2.2⟩⟩

instance (s : State) (l : Label) : Decidable (Safe s l) :=
  decidable_of_iff' _ safe_iff

section Steps

theorem alive_sendTo_iff
    {sock : Int} {bytes : List UInt8} {pc : Pc}
    (hpc : pc ≠ .terminated ∧ pc ≠ .undefined) :
    (s.sendTo sock bytes pc).alive = true ↔ ∀ c ∈ s.conn sock, s.reset c = false := by
  have hgo : ∀ t : State, t.pc = pc → t.alive = true := by
    intro t ht
    unfold State.alive
    rw [ht]
    split <;> simp_all
  unfold State.sendTo
  cases hconn : s.conn sock with
  | none =>
      simp [hgo]
  | some c =>
      cases hreset : s.reset c with
      | true =>
          simp [State.alive, hreset]
      | false =>
          simp [hgo, hreset]

theorem nextStep_alive_iff
    (hstep : nextStep s = some s') :
    s'.alive = true ↔ ∀ fd ∈ s.fdsUsed, InSet fd := by
  unfold nextStep at hstep
  split at hstep
  · rename_i hpc
    split_ifs at hstep with hin <;> cases hstep <;>
      simpa [State.alive, State.fdsUsed, hpc] using hin
  · rename_i i hpc
    split_ifs at hstep with hi hin hready <;> cases hstep
    · simp [State.alive, State.fdsUsed, hpc, hi, hin]
    · simp [State.alive, State.fdsUsed, hpc, hi, hin]
    · simp [State.alive, State.fdsUsed, hpc, hi]
  · rename_i hpc
    split_ifs at hstep
    cases hstep
    simp [State.alive, State.fdsUsed, hpc]
  · cases hstep

theorem sendStep_alive_iff
    (hstep : sendStep s = some s') :
    s'.alive = true ↔ ∀ c ∈ s.target, s.reset c = false := by
  unfold sendStep at hstep
  split at hstep
  · rename_i hpc
    cases hstep
    simp only [State.target, hpc]
    exact alive_sendTo_iff (by simp)
  · rename_i hpc
    split_ifs at hstep
    cases hstep
    simp only [State.target, hpc]
    exact alive_sendTo_iff (by simp)
  · cases hstep

theorem recvStep_alive_iff
    {ret : Option (List UInt8)}
    (hstep : recvStep s ret = some s') :
    s'.alive = true ↔ ret ≠ none := by
  unfold recvStep at hstep
  split at hstep
  · split_ifs at hstep
    cases hstep
    unfold State.recvFrom
    split
    · simp [State.alive]
    · simp [State.alive]
    · split_ifs <;> simp [State.alive]
  · cases hstep

/-- One step of a live server. -/
theorem step_alive_iff
    (halive : s.alive = true)
    (hroomy : Roomy s)
    (hsucc : Succeeds l)
    (hstep : step s l = some s') :
    s'.alive = true ↔ Safe s l := by
  rw [safe_iff]
  cases l with
  | next =>
      rw [nextStep_alive_iff hstep]
      simp
  | send =>
      rw [sendStep_alive_iff hstep]
      simp
  | recv ret =>
      rw [recvStep_alive_iff hstep]
      simp
  | accept sock =>
      simp only [step] at hstep
      split_ifs at hstep with hguard
      cases hstep
      simp [State.addclient, hroomy.numChat_lt hguard.1, State.alive]
  | select ready =>
      simp only [step] at hstep
      split_ifs at hstep <;> cases hstep <;> simp [State.alive]
  | peerReset c =>
      simp only [step] at hstep
      split_ifs at hstep
      cases hstep
      simpa [State.alive] using halive
  | selectError =>
      exact absurd rfl hsucc.1
  | acceptError =>
      exact absurd rfl hsucc.2.1
  | nameinfoError =>
      exact absurd rfl hsucc.2.2

/-- A process that is gone does not come back. -/
theorem dead_step
    (hdead : s.alive = false)
    (hstep : step s l = some s') :
    s'.alive = false := by
  have hpc : s.pc = .terminated ∨ s.pc = .undefined := by
    unfold State.alive at hdead
    split at hdead <;> simp_all
  cases l with
  | peerReset c =>
      simp only [step] at hstep
      split_ifs at hstep
      cases hstep
      exact hdead
  | _ =>
      rcases hpc with hpc | hpc <;>
        simp [step, nextStep, sendStep, recvStep, hpc] at hstep

end Steps

theorem exists_conn_of_target
    {c : Nat}
    (h : c ∈ s.target) :
    ∃ sock, s.conn sock = some c := by
  unfold State.target at h
  split at h
  · exact ⟨_, h⟩
  · exact ⟨_, h⟩
  · simp at h

section Runs

variable {listenSock : Int} {es : List Label}

theorem alive_of_safe
    (hsucc : ∀ l ∈ es, Succeeds l)
    (hsafe : Along step Safe (State.start listenSock) es)
    (hrun : run step (State.start listenSock) es = some s) :
    s.alive = true := by
  have hlive : Roomy s ∧ s.alive = true := by
    refine run_invariant_along (P := fun s => Roomy s ∧ s.alive = true) ?_
      ⟨roomy_start listenSock, rfl⟩ (along_and (along_of_forall_mem hsucc _) hsafe) hrun
    rintro a e b ⟨hroomy, ha⟩ ⟨hs, hG⟩ hstep
    exact ⟨hroomy.step hstep, (step_alive_iff ha hroomy hs hstep).mpr hG⟩
  exact hlive.2

/-- The server survives a run exactly if all of its steps are safe. -/
theorem survives_iff_safe
    (hsucc : ∀ l ∈ es, Succeeds l)
    (hrun : run step (State.start listenSock) es = some s) :
    s.alive = true ↔ Along step Safe (State.start listenSock) es := by
  have hgood : ∀ a e b, Roomy a ∧ a.alive = true → Succeeds e → Safe a e →
      step a e = some b → Roomy b ∧ b.alive = true := by
    rintro a e b ⟨hroomy, ha⟩ hs hG hstep
    exact ⟨hroomy.step hstep, (step_alive_iff ha hroomy hs hstep).mpr hG⟩
  have hbreak : ∀ a e b, Roomy a ∧ a.alive = true → Succeeds e → ¬ Safe a e →
      step a e = some b → b.alive = false := by
    rintro a e b ⟨hroomy, ha⟩ hs hG hstep
    simpa using (step_alive_iff ha hroomy hs hstep).not.mpr hG
  have hstart : Roomy (State.start listenSock) ∧ (State.start listenSock).alive = true :=
    ⟨roomy_start listenSock, rfl⟩
  rcases good_or_bad_along hgood hbreak (fun _ _ _ ha _ hstep => dead_step ha hstep) hstart
      (along_of_forall_mem hsucc _) hrun with
    ⟨halong, halive⟩ | ⟨hG, hdead⟩
  · exact iff_of_true halive.2 halong
  · exact iff_of_false (by simp [hdead]) hG

/-- Two clients join; the listening socket is 3, theirs are 4 and 5. -/
def twoClients : List Label :=
  [.next, .select [3], .accept 4, .send, .next, .next,
    .next, .select [3], .accept 5, .send, .next, .next, .next, .next]

/-- The first client says "hi". -/
def greetingRun : List Label :=
  twoClients ++
    [.select [4], .recv (some [104, 105, 10]), .send, .send, .next, .next, .next]

theorem survives_greetingRun :
    ∃ s, run step (State.start 3) greetingRun = some s ∧
      s.numChat = 2 ∧
      s.alive = true :=
  ⟨_, rfl, rfl,
    (@survives_iff_safe _ 3 greetingRun (by decide) rfl).mpr (by decide)⟩

/-- The second client resets its connection before the first says "hi". -/
def resetRun : List Label :=
  twoClients ++
    [.peerReset 1, .select [4], .recv (some [104, 105, 10]), .send, .send]

/-- The broadcast reaches the first client and ends the server at the second. -/
theorem resetRun_terminates :
    (∀ l ∈ resetRun, Succeeds l) ∧
      ∃ s, run step (State.start 3) resetRun = some s ∧
        s.pc = .terminated :=
  ⟨by decide, _, rfl, rfl⟩

/-- Only connections that the server has closed are reset. -/
def ResetsClosed (s : State) : Label → Prop
  | .peerReset c => ∀ sock, s.conn sock ≠ some c
  | _ => True

/-- No open connection has been reset. -/
structure Unreset (s : State) : Prop where
  fresh : ∀ c, s.reset c = true → c < s.nextConn
  known : ∀ sock c, s.conn sock = some c → c < s.nextConn ∧ s.reset c = false

theorem Unreset.step
    (h : Unreset s)
    (hG : ResetsClosed s l)
    (heffect : Effect s l s') :
    Unreset s' := by
  cases heffect with
  | control hlist hnum hconn hnext hreset hrcvd hcasts =>
      refine ⟨?_, ?_⟩
      · rw [hreset, hnext]
        exact h.fresh
      · rw [hconn, hnext, hreset]
        exact h.known
  | @reset c hc =>
      refine ⟨?_, ?_⟩
      · intro d hd
        by_cases hcd : d = c
        · rw [hcd]
          exact hc
        · simp only [Function.update_of_ne hcd] at hd
          exact h.fresh d hd
      · intro sock d hd
        have hcd : d ≠ c := fun heq => hG sock (heq ▸ hd)
        simp only [Function.update_of_ne hcd]
        exact h.known sock d hd
  | @joined sock hsock hroom =>
      refine ⟨?_, ?_⟩
      · intro c hc
        have hlt := h.fresh c hc
        simp only
        omega
      · intro sock' c hc
        by_cases heq : sock' = sock
        · subst heq
          simp only [Function.update_self, Option.some.injEq] at hc
          subst hc
          refine ⟨Nat.lt_succ_self _, ?_⟩
          cases hreset : s.reset s.nextConn with
          | false =>
              rfl
          | true =>
              exact absurd (h.fresh _ hreset) (lt_irrefl _)
        · simp only [Function.update_of_ne heq] at hc
          obtain ⟨hlt, hreset⟩ := h.known sock' c hc
          exact ⟨Nat.lt_succ_of_lt hlt, hreset⟩
  | left hi hc =>
      exact ⟨h.fresh, fun sock c hconn => h.known sock c (removeclient_conn hconn).1⟩
  | exited hi hc hmsg hexit =>
      exact ⟨h.fresh, fun sock c hconn => h.known sock c (removeclient_conn hconn).1⟩
  | cast hi hc hmsg hexit =>
      exact ⟨h.fresh, h.known⟩

/-- The limits of the program are kept, and `recv` does not fail. -/
def WithinLimits (s : State) (l : Label) : Prop :=
  l ≠ .recv none ∧ (l = .next → ∀ fd ∈ s.fdsUsed, InSet fd)

/-- The server survives clients that only reset connections it has closed. -/
theorem survives_of_resets_closed
    (hsucc : ∀ l ∈ es, Succeeds l)
    (hresets : Along step ResetsClosed (State.start listenSock) es)
    (hlimits : Along step WithinLimits (State.start listenSock) es)
    (hrun : run step (State.start listenSock) es = some s) :
    s.alive = true := by
  refine alive_of_safe hsucc ?_ hrun
  have hstart : Unreset (State.start listenSock) :=
    ⟨by simp [State.start], by simp [State.start]⟩
  refine along_of_invariant (P := Unreset) ?_ ?_ hstart (along_and hresets hlimits)
  · rintro a e b ha ⟨hG, _⟩ hstep
    exact ha.step hG (step_effect hstep)
  · rintro a e ha ⟨_, hlimit⟩
    refine ⟨?_, hlimit.1, hlimit.2⟩
    intro _ c hc
    obtain ⟨sock, hsock⟩ := exists_conn_of_target hc
    exact (ha.known sock c hsock).2

end Runs

end Chat
end SysProg
