import SysProg.Chat.Server
import Mathlib.Tactic

/-!
# The chat client sp/select/clnt.c and its exit

The client keeps "[name] : " at the start of `bufall` and reads a line from the
terminal, or a message from the server, behind it.  It sends the whole buffer, and
quits when the line contains "exit".  The server runs the same test on the message
as it arrives, which begins with the name.

`removed_iff_quits_iff`: if the message of a typed line arrives as a whole, server
and client agree on it exactly if the name does not contain "exit" or the line
does.
-/

namespace SysProg
namespace Chat

open Run CString

def NAME_LEN : Nat := 20

/-- The size of `bufall`. -/
def bufallSize : Nat := MAXLINE + NAME_LEN + 1

/-- What `sprintf(bufall, "[%s] : ", argv[3])` stores. -/
def frame (name : List UInt8) : List UInt8 :=
  91 :: (name ++ [93, 32, 58, 32])

section Client

inductive ClientPc where
  | select
  | exited
  /-- a store behind the end of `bufall` -/
  | undefined
deriving DecidableEq, Repr

/-- `head` is `bufall` up to `bufmsg`; `sent` is history, the calls of `send`. -/
structure Client where
  head : List UInt8
  bufmsg : List UInt8
  pc : ClientPc
  sent : List (List UInt8)

/-- Bytes stored at `bufmsg`, with a terminator behind them. -/
def Client.store (c : Client) (bytes : List UInt8) : Client :=
  { c with
    bufmsg := bytes ++ 0 :: c.bufmsg.drop (bytes.length + 1)
    pc := if c.head.length + bytes.length + 1 ≤ bufallSize then c.pc else .undefined }

/-- `strstr(bufmsg, exit_string) != NULL` -/
def Client.quits (c : Client) : Bool :=
  (strstr (cstr c.bufmsg) exitString).isSome

/-- What the client does with a line that `fgets` has stored. -/
def Client.sendLine (c : Client) : Client :=
  { c with
    sent := c.sent ++ [c.head ++ cstr c.bufmsg]
    pc := if c.quits then .exited else .select }

inductive ClientLabel where
  /-- the result of `recv`, -1 included -/
  | recv (ret : Option (List UInt8))
  /-- a line read by `fgets` -/
  | typed (line : List UInt8)
deriving DecidableEq, Repr

/-- What `fgets` may store: at most one newline, at the end. -/
def Typed (line : List UInt8) : Prop :=
  line ≠ [] ∧ line.length ≤ MAXLINE - 1 ∧ 10 ∉ line.dropLast

instance (line : List UInt8) : Decidable (Typed line) :=
  inferInstanceAs (Decidable (_ ∧ _))

def clientStep (c : Client) : ClientLabel → Option Client
  | .recv none => if c.pc = .select then some c else none
  | .recv (some bytes) =>
      if c.pc = .select ∧ bytes.length ≤ MAXLINE then
        some (if bytes = [] then c else c.store bytes)
      else none
  | .typed line =>
      if c.pc = .select ∧ Typed line then
        some
          (if (c.store line).pc = .undefined then c.store line
          else (c.store line).sendLine)
      else none

/-- A connected client. -/
def Client.start (name : List UInt8) : Client where
  head := frame name
  bufmsg := []
  pc := if (frame name).length + 1 ≤ bufallSize then .select else .undefined
  sent := []

variable {c c' : Client} {l : ClientLabel}

theorem head_clientStep
    (hstep : clientStep c l = some c') :
    c'.head = c.head := by
  unfold clientStep at hstep
  split at hstep
  · split_ifs at hstep
    cases hstep
    rfl
  · split_ifs at hstep <;> cases hstep <;> rfl
  · split_ifs at hstep <;> cases hstep <;> rfl

/-- The name stays where `sprintf` has put it. -/
theorem head_of_run
    {name : List UInt8} {ls : List ClientLabel}
    (hrun : run clientStep (Client.start name) ls = some c) :
    c.head = frame name :=
  run_invariant (P := fun c => c.head = frame name)
    (fun _ _ _ h hstep => (head_clientStep hstep).trans h) rfl hrun

/-- A typed line that is sent: the message, and when the client quits. -/
theorem typed_sent
    {line msg : List UInt8}
    (hstep : clientStep c (.typed line) = some c')
    (hsent : c'.sent = c.sent ++ [msg]) :
    msg = c.head ++ cstr line ∧ (c'.pc = .exited ↔ exitString <:+: cstr line) := by
  have hstr : cstr (c.store line).bufmsg = cstr line := cstr_append_zero line _
  simp only [clientStep] at hstep
  split_ifs at hstep with htyped hundefined
  · cases hstep
    simp [Client.store] at hsent
  · cases hstep
    have hmsg : c.head ++ cstr line = msg := by
      simpa [Client.sendLine, Client.store, cstr_append_zero] using hsent
    refine ⟨hmsg.symm, ?_⟩
    rw [← strstr_isSome_iff, ← hstr]
    simp only [Client.sendLine, Client.quits]
    split_ifs with hquits <;> simp [hquits]

end Client

section Agreement

/-- "exit" in a framed message is in the name or in the line. -/
theorem exit_infix_frame_iff
    (name line : List UInt8) :
    exitString <:+: frame name ++ line ↔
      exitString <:+: name ∨ exitString <:+: line := by
  have hne : exitString ≠ [] := by decide
  have hnil : ¬ exitString <:+: [] := by simp [hne]
  have hsplit : frame name ++ line =
      [] ++ 91 :: (name ++ 93 :: ([] ++ 32 :: ([] ++ 58 :: ([] ++ 32 :: line)))) := by
    simp [frame]
  rw [hsplit, infix_append_cons_iff (by decide) hne,
    infix_append_cons_iff (by decide) hne, infix_append_cons_iff (by decide) hne,
    infix_append_cons_iff (by decide) hne, infix_append_cons_iff (by decide) hne]
  simp [hnil]

/-- The server removes a client on a message exactly if it finds "exit" in it. -/
theorem removed_iff_exitsOn
    {s s' : State} {msg : List UInt8}
    (hmsg : msg ≠ [])
    (hstep : step s (.recv (some msg)) = some s') :
    s'.numChat < s.numChat ↔ exitsOn msg = true := by
  simp only [step, recvStep] at hstep
  split at hstep
  · split_ifs at hstep with hready
    have hi := hready.1
    cases hstep
    unfold State.recvFrom
    split
    · rename_i hnone
      cases hnone
    · rename_i hnil
      cases hnil
      exact absurd rfl hmsg
    · rename_i heq
      cases heq
      split_ifs with hexit
      · simp only [State.removeclient, hexit, iff_true]
        omega
      · simp [hexit]
  · cases hstep

/--
The client types a line, and the server receives the message in one `recv`.  The
server removes the client if and only if the client quits, exactly when the name
does not contain "exit" or the line does.
-/
theorem removed_iff_quits_iff
    {name line msg : List UInt8} {ls : List ClientLabel}
    {c c' : Client} {s s' : State}
    (hname : 0 ∉ name)
    (hclient : run clientStep (Client.start name) ls = some c)
    (htyped : clientStep c (.typed line) = some c')
    (hsent : c'.sent = c.sent ++ [msg])
    (hrecv : step s (.recv (some msg)) = some s') :
    (s'.numChat < s.numChat ↔ c'.pc = .exited) ↔
      (¬ exitString <:+: name ∨ exitString <:+: cstr line) := by
  obtain ⟨hmsg, hquits⟩ := typed_sent htyped hsent
  rw [head_of_run hclient] at hmsg
  have hzero : 0 ∉ msg := by
    rw [hmsg]
    simp [frame, hname, zero_not_mem_cstr]
  have hne : msg ≠ [] := by
    rw [hmsg]
    simp [frame]
  have hremoved : s'.numChat < s.numChat ↔
      exitString <:+: name ∨ exitString <:+: cstr line := by
    rw [removed_iff_exitsOn hne hrecv, exitsOn, strstr_isSome_iff, cstr_eq_self hzero,
      hmsg, exit_infix_frame_iff]
  rw [hremoved, hquits]
  tauto

/-- One client is in the table, on socket 4, and has sent something. -/
def readyRun : List Label :=
  [.next, .select [3], .accept 4, .send, .next, .next, .next, .select [4]]

/-- "bob" types "exit", and both sides take it for the end. -/
theorem agree_on_bob :
    ∃ c' s s',
      clientStep (Client.start [98, 111, 98]) (.typed [101, 120, 105, 116, 10]) = some c' ∧
      run step (State.start 3) readyRun = some s ∧
      step s (.recv (some (frame [98, 111, 98] ++ [101, 120, 105, 116, 10]))) = some s' ∧
      c'.pc = .exited ∧
      (s'.numChat < s.numChat ↔ c'.pc = .exited) :=
  ⟨_, _, _, rfl, rfl, rfl, rfl,
    (@removed_iff_quits_iff [98, 111, 98] [101, 120, 105, 116, 10] _ [] _ _ _ _
      (by decide) rfl rfl rfl rfl).mpr (Or.inl (by decide))⟩

/-- A client named "exit" types "hi": the server removes it, and it does not quit. -/
theorem disagree_on_exit :
    ∃ c' s s',
      clientStep (Client.start exitString) (.typed [104, 105, 10]) = some c' ∧
      c'.sent = [frame exitString ++ [104, 105, 10]] ∧
      run step (State.start 3) readyRun = some s ∧
      step s (.recv (some (frame exitString ++ [104, 105, 10]))) = some s' ∧
      s'.numChat < s.numChat ∧
      c'.pc = .select :=
  ⟨_, _, _, rfl, rfl, rfl, rfl, by decide, rfl⟩

end Agreement

end Chat
end SysProg
