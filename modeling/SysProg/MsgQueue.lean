import SysProg.Lib.CString
import SysProg.Lib.Lines
import SysProg.Lib.Run
import Mathlib.Tactic

/-!
# The message queue of sp/msg/msg_sender.c and sp/msg/msg_receiver.c

The sender reads lines and puts each of them into a message queue; the receiver takes the
messages out and prints them.  Both stop at the first line that starts with "quit".

**Steps.**  A label is one step of one of the two processes, up to its next call.  The
queue holds at most `cap` messages.  `msgrcv` waits while there is no message; `msgsnd` is
called with `IPC_NOWAIT`, so that it fails when the queue is full, and the sender exits.
The receiver may be started before the queue exists; it exits then.  Other errors of the
calls are left out.

**Results.**  The receiver prints the lines in order, in every run (`printed_in_order`).
But the sender gets to its "quit" exactly if it never finds the queue full
(`delivers_iff_room`): a sender that is faster than the receiver gives up.
-/

namespace SysProg
namespace MsgQueue

open CString Lines Run

section Program

def MSG_TYPE : Int := 1

/-- "quit" -/
def MSG_QUIT : List UInt8 := [113, 117, 105, 116]

/-- `printf("msg >> %s", text)` -/
def shown (text : List UInt8) : List UInt8 :=
  [109, 115, 103, 32, 62, 62, 32] ++ text

/-- `struct msgbuf`; the array `mtext` is zero behind the given bytes. -/
structure Msgbuf where
  mtype : Int
  mtext : List UInt8
deriving DecidableEq, Repr

/-- `getline`, with the rest of the input, or nothing at its end. -/
def getline (stdin : List UInt8) : Option (List UInt8 × List UInt8) :=
  if stdin = [] then none
  else some (cutLine newline stdin.length stdin)

/-- `memset`, and `strncpy` of as many bytes as `getline` returned. -/
def fillBuf (line : List UInt8) : Msgbuf where
  mtype := MSG_TYPE
  mtext := (cstr line).take line.length

inductive SenderPc where
  | msgget
  | getline
  | msgsnd (line : List UInt8)
  | strncmp (line : List UInt8)
  /-- after `return 0` -/
  | returned
  /-- after `exit(EXIT_FAILURE)` -/
  | exited
  /-- `strncpy` has written behind `mtext` -/
  | undefined
deriving DecidableEq, Repr

inductive ReceiverPc where
  | msgget
  | msgrcv
  | received (buf : Msgbuf)
  | returned
  | exited
deriving DecidableEq, Repr

def SenderPc.stopped : SenderPc → Bool
  | .returned => true
  | .exited => true
  | .undefined => true
  | _ => false

/--
Both processes, the sender's input and the queue, which `created` says to exist.  The last
two fields are history: the lines that were sent and the texts that were printed.
-/
structure State where
  sender : SenderPc
  stdin : List UInt8
  receiver : ReceiverPc
  created : Bool
  queue : List Msgbuf
  sent : List (List UInt8)
  printed : List (List UInt8)
deriving DecidableEq, Repr

/-- No message is in the queue, which may exist already. -/
def State.start (stdin : List UInt8) (created : Bool) : State where
  sender := .msgget
  stdin := stdin
  receiver := .msgget
  created := created
  queue := []
  sent := []
  printed := []

def senderStep (cap : Nat) (s : State) : Option State :=
  match s.sender with
  | .msgget => some { s with created := true, sender := .getline }
  | .getline =>
      match getline s.stdin with
      | none => some { s with sender := .exited }
      | some (line, rest) =>
          if line.length ≤ BUFSIZ then
            some { s with stdin := rest, sender := .msgsnd line }
          else some { s with stdin := rest, sender := .undefined }
  | .msgsnd line =>
      if s.queue.length < cap then
        some { s with
          queue := s.queue ++ [fillBuf line]
          sent := s.sent ++ [line]
          sender := .strncmp line }
      else some { s with sender := .exited }
  | .strncmp line =>
      if strncmpEq MSG_QUIT line MSG_QUIT.length then some { s with sender := .returned }
      else some { s with sender := .getline }
  | _ => none

/-- `msgrcv` takes messages of this type. -/
def wanted (buf : Msgbuf) : Bool :=
  buf.mtype == MSG_TYPE

def receiverStep (s : State) : Option State :=
  match s.receiver with
  | .msgget =>
      if s.created then some { s with receiver := .msgrcv }
      else some { s with receiver := .exited }
  | .msgrcv =>
      match s.queue.find? wanted with
      | none => none
      | some buf =>
          some { s with
            queue := s.queue.eraseP wanted
            receiver := .received buf }
  | .received buf =>
      if strncmpEq buf.mtext MSG_QUIT MSG_QUIT.length then
        some { s with receiver := .returned }
      else
        some { s with
          printed := s.printed ++ [shown (cstr buf.mtext)]
          receiver := .msgrcv }
  | _ => none

inductive Proc where
  | sender
  | receiver
deriving DecidableEq, Repr

def step (cap : Nat) (s : State) : Proc → Option State
  | .sender => senderStep cap s
  | .receiver => receiverStep s

def SenderPc.sends : SenderPc → Bool
  | .msgsnd _ => true
  | _ => false

/-- A call of `msgsnd` finds room in the queue. -/
def Room (cap : Nat) (s : State) (who : Proc) : Prop :=
  who = .sender → s.sender.sends = true → s.queue.length < cap

instance (cap : Nat) (s : State) (who : Proc) : Decidable (Room cap s who) :=
  inferInstanceAs (Decidable (_ → _ → _))

end Program

section Input

/-- The line starts with "quit". -/
def Quits (line : List UInt8) : Prop :=
  MSG_QUIT <+: line

instance (line : List UInt8) : Decidable (Quits line) :=
  inferInstanceAs (Decidable (_ <+: _))

/-- Lines that fit into a message, the last of which ends the conversation. -/
structure Input where
  lines : List (List UInt8)
  terminated : ∀ line ∈ lines, ∃ text, line = text ++ [newline] ∧ newline ∉ text
  noZero : ∀ line ∈ lines, 0 ∉ line
  short : ∀ line ∈ lines, line.length < BUFSIZ
  ends : ∃ front last, lines = front ++ [last] ∧ Quits last

def Input.stdin (input : Input) : List UInt8 :=
  input.lines.flatten

/-- The lines before the first "quit". -/
def Input.before (input : Input) : List (List UInt8) :=
  input.lines.takeWhile (fun line => decide (¬ Quits line))

/-- The lines up to the first "quit", with that line. -/
def Input.upToQuit (input : Input) : List (List UInt8) :=
  input.lines.take (input.before.length + 1)

/-- What the receiver has printed is in order, and the sender has not stopped too early. -/
structure Delivers (input : Input) (s : State) : Prop where
  printed : s.printed <+: input.before.map shown
  sent : s.sender.stopped = true → input.upToQuit <+: s.sent

variable {input : Input} {past todo : List (List UInt8)} {line : List UInt8}

theorem Input.before_of_append
    (hlines : input.lines = past ++ todo)
    (hpast : ∀ l ∈ past, ¬ Quits l) :
    input.before = past ++ todo.takeWhile (fun line => decide (¬ Quits line)) := by
  rw [Input.before, hlines]
  exact List.takeWhile_append_of_pos (by simpa using hpast)

theorem Input.upToQuit_of_quits
    (hlines : input.lines = past ++ line :: todo)
    (hpast : ∀ l ∈ past, ¬ Quits l)
    (hquits : Quits line) :
    input.upToQuit = past ++ [line] := by
  have hbefore := Input.before_of_append hlines hpast
  rw [List.takeWhile_cons_of_neg (by simpa using hquits), List.append_nil] at hbefore
  rw [Input.upToQuit, hbefore, hlines, List.take_length_add_append]
  rfl

/-- Lines without a "quit" are not enough. -/
theorem Input.not_upToQuit_prefix
    (hlines : input.lines = past ++ line :: todo)
    (hpast : ∀ l ∈ past, ¬ Quits l) :
    ¬ input.upToQuit <+: past := by
  intro hpre
  have hle := hpre.length_le
  rw [Input.upToQuit, Input.before_of_append hlines hpast, hlines] at hle
  simp only [List.length_take, List.length_append, List.length_cons] at hle
  omega

/-- There is a line to come as long as no "quit" was among the lines. -/
theorem Input.todo_ne_nil
    (hlines : input.lines = past ++ todo)
    (hpast : ∀ l ∈ past, ¬ Quits l) :
    ∃ line rest, todo = line :: rest := by
  cases todo with
  | nil =>
      obtain ⟨front, last, heq, hquits⟩ := input.ends
      rw [hlines, List.append_nil] at heq
      exact absurd hquits (hpast last (by simp [heq]))
  | cons line rest =>
      exact ⟨line, rest, rfl⟩

theorem getline_line
    (hline : ∃ text, line = text ++ [newline] ∧ newline ∉ text)
    (rest : List UInt8) :
    getline (line ++ rest) = some (line, rest) := by
  obtain ⟨text, rfl, hnew⟩ := hline
  have hlen : text.length < (text ++ newline :: rest).length := by simp
  rw [List.append_assoc, List.singleton_append]
  simp only [getline, cutLine_line hnew hlen]
  exact if_neg (by simp)

theorem zero_not_mem_MSG_QUIT :
    0 ∉ MSG_QUIT := by
  decide

/-- Both processes recognise the lines that start with "quit". -/
theorem strncmpEq_quit_iff
    (line : List UInt8) :
    strncmpEq line MSG_QUIT MSG_QUIT.length = true ↔ Quits line := by
  rw [strncmpEq_iff zero_not_mem_MSG_QUIT, Quits, List.prefix_iff_eq_take]
  exact eq_comm

theorem fillBuf_mtext
    (hzero : 0 ∉ line) :
    (fillBuf line).mtext = line := by
  simp [fillBuf, cstr_eq_self hzero]

end Input

section Receiver

variable {cap : Nat} {s s' : State} {past rest : List (List UInt8)}

def ReceiverPc.stopped : ReceiverPc → Bool
  | .returned => true
  | .exited => true
  | _ => false

/-- The message that the receiver has taken and not looked at. -/
def ReceiverPc.held : ReceiverPc → List (List UInt8)
  | .received buf => [buf.mtext]
  | _ => []

/-- What was sent has been printed, in order, or is still to come. -/
structure Split (s : State) (past rest : List (List UInt8)) : Prop where
  sent_eq : s.sent = past ++ rest
  rest_eq : s.receiver.stopped = false →
    rest = s.receiver.held ++ s.queue.map Msgbuf.mtext
  noQuit : ∀ line ∈ past, ¬ Quits line
  printed_eq : s.printed = past.map shown
  wanted : ∀ buf ∈ s.queue, wanted buf = true
  noZero : ∀ line ∈ s.sent, 0 ∉ line

def Received (s : State) : Prop :=
  ∃ past rest, Split s past rest

theorem Split.receiverStep
    (h : Split s past rest)
    (hstep : receiverStep s = some s') :
    Received s' := by
  obtain ⟨hsent, hrest, hpast, hprinted, hwanted, hzero⟩ := h
  cases hpc : s.receiver with
  | msgget =>
      simp only [MsgQueue.receiverStep, hpc] at hstep
      have hqueue := hrest (by rw [hpc]; rfl)
      rw [hpc] at hqueue
      split_ifs at hstep
      · cases hstep
        exact ⟨past, rest, hsent, fun _ => hqueue, hpast, hprinted, hwanted, hzero⟩
      · cases hstep
        exact ⟨past, rest, hsent, fun h => (by cases h), hpast, hprinted, hwanted, hzero⟩
  | msgrcv =>
      simp only [MsgQueue.receiverStep, hpc] at hstep
      have hqueue := hrest (by rw [hpc]; rfl)
      rw [hpc] at hqueue
      cases hq : s.queue with
      | nil =>
          simp [hq] at hstep
      | cons buf queue =>
          -- all messages are of the type that `msgrcv` asks for, so it takes the first
          have hbuf : MsgQueue.wanted buf = true := hwanted buf (by simp [hq])
          rw [hq, List.find?_cons_of_pos hbuf, List.eraseP_cons_of_pos hbuf] at hstep
          cases hstep
          refine ⟨past, rest, hsent, fun _ => ?_, hpast, hprinted, ?_, hzero⟩
          · rw [hqueue, hq]
            rfl
          · exact fun b hb => hwanted b (by simp [hq, hb])
  | received buf =>
      simp only [MsgQueue.receiverStep, hpc] at hstep
      have hqueue := hrest (by rw [hpc]; rfl)
      rw [hpc] at hqueue
      split_ifs at hstep with hquit
      · cases hstep
        exact ⟨past, rest, hsent, fun h => (by cases h), hpast, hprinted, hwanted, hzero⟩
      · cases hstep
        rw [strncmpEq_quit_iff] at hquit
        have hbuf : 0 ∉ buf.mtext := hzero _ (by simp [hsent, hqueue, ReceiverPc.held])
        refine ⟨past ++ [buf.mtext], s.queue.map Msgbuf.mtext, ?_, fun _ => rfl, ?_, ?_,
          hwanted, hzero⟩
        · simp [hsent, hqueue, ReceiverPc.held]
        · rw [List.forall_mem_append, List.forall_mem_singleton]
          exact ⟨hpast, hquit⟩
        · simp [hprinted, cstr_eq_self hbuf]
  | returned =>
      simp [MsgQueue.receiverStep, hpc] at hstep
  | exited =>
      simp [MsgQueue.receiverStep, hpc] at hstep

/-- A line that is sent is still to come. -/
theorem Split.send
    {line : List UInt8}
    (h : Split s past rest)
    (hline : 0 ∉ line)
    (hsent : s'.sent = s.sent ++ [line])
    (hqueue : s'.queue = s.queue ++ [fillBuf line])
    (hreceiver : s'.receiver = s.receiver)
    (hprinted : s'.printed = s.printed) :
    Split s' past (rest ++ [line]) := by
  refine ⟨?_, ?_, h.noQuit, hprinted.trans h.printed_eq, ?_, ?_⟩
  · rw [hsent, h.sent_eq, List.append_assoc]
  · intro hrunning
    rw [hreceiver] at hrunning ⊢
    rw [h.rest_eq hrunning, hqueue]
    simp [fillBuf_mtext hline]
  · rw [hqueue, List.forall_mem_append, List.forall_mem_singleton]
    exact ⟨h.wanted, rfl⟩
  · rw [hsent, List.forall_mem_append, List.forall_mem_singleton]
    exact ⟨h.noZero, hline⟩

theorem Received.senderStep
    (h : Received s)
    (hline : ∀ line, s.sender = .msgsnd line → 0 ∉ line)
    (hstep : senderStep cap s = some s') :
    Received s' := by
  obtain ⟨past, rest, hsplit⟩ := h
  cases hpc : s.sender with
  | msgget =>
      simp only [MsgQueue.senderStep, hpc] at hstep
      cases hstep
      exact ⟨past, rest, { hsplit with }⟩
  | getline =>
      simp only [MsgQueue.senderStep, hpc] at hstep
      split at hstep
      · cases hstep
        exact ⟨past, rest, { hsplit with }⟩
      · split_ifs at hstep <;> cases hstep <;> exact ⟨past, rest, { hsplit with }⟩
  | msgsnd line =>
      simp only [MsgQueue.senderStep, hpc] at hstep
      split_ifs at hstep
      · cases hstep
        exact ⟨past, rest ++ [line], hsplit.send (hline line hpc) rfl rfl rfl rfl⟩
      · cases hstep
        exact ⟨past, rest, { hsplit with }⟩
  | strncmp line =>
      simp only [MsgQueue.senderStep, hpc] at hstep
      split_ifs at hstep <;> cases hstep <;> exact ⟨past, rest, { hsplit with }⟩
  | _ =>
      simp [MsgQueue.senderStep, hpc] at hstep

/-- The receiver has printed the lines before the first "quit", as far as they were sent. -/
theorem Received.printed
    {input : Input}
    (h : Received s)
    (hsent : s.sent <+: input.lines) :
    s.printed <+: input.before.map shown := by
  obtain ⟨past, rest, hsplit⟩ := h
  obtain ⟨todo, htodo⟩ := hsent
  rw [hsplit.sent_eq, List.append_assoc] at htodo
  rw [hsplit.printed_eq, Input.before_of_append htodo.symm hsplit.noQuit, List.map_append]
  exact List.prefix_append _ _

end Receiver

section Sender

variable {cap : Nat} {s s' : State} {input : Input}

/--
Where the sender is in its input and what it has sent, as long as it has always found room.
-/
inductive SenderAt
    (input : Input) (pc : SenderPc) (stdin : List UInt8) (sent : List (List UInt8)) : Prop
  | getline {todo : List (List UInt8)}
      (hpc : pc = .msgget ∨ pc = .getline)
      (hlines : input.lines = sent ++ todo)
      (hsent : ∀ l ∈ sent, ¬ Quits l)
      (hstdin : stdin = todo.flatten)
  | msgsnd {line : List UInt8} {todo : List (List UInt8)}
      (hpc : pc = .msgsnd line)
      (hlines : input.lines = sent ++ line :: todo)
      (hsent : ∀ l ∈ sent, ¬ Quits l)
      (hstdin : stdin = todo.flatten)
  | strncmp {past : List (List UInt8)} {line : List UInt8} {todo : List (List UInt8)}
      (hpc : pc = .strncmp line)
      (hlines : input.lines = past ++ line :: todo)
      (hsent : sent = past ++ [line])
      (hpast : ∀ l ∈ past, ¬ Quits l)
      (hstdin : stdin = todo.flatten)
  | returned {past : List (List UInt8)} {line : List UInt8} {todo : List (List UInt8)}
      (hpc : pc = .returned)
      (hlines : input.lines = past ++ line :: todo)
      (hsent : sent = past ++ [line])
      (hpast : ∀ l ∈ past, ¬ Quits l)
      (hquits : Quits line)

/-- Every call of `msgsnd` has found room so far. -/
def Good (input : Input) (s : State) : Prop :=
  SenderAt input s.sender s.stdin s.sent ∧ Received s

/-- The sender has given up, with a line in its hands. -/
def GaveUp (input : Input) (s : State) : Prop :=
  s.sender = .exited ∧
    ∃ line todo, input.lines = s.sent ++ line :: todo ∧ ∀ l ∈ s.sent, ¬ Quits l

theorem SenderAt.noZero
    {line : List UInt8}
    (h : SenderAt input s.sender s.stdin s.sent)
    (hline : s.sender = .msgsnd line) :
    0 ∉ line := by
  cases h with
  | msgsnd hpc hlines _ _ =>
      rw [hpc] at hline
      cases hline
      exact input.noZero _ (by simp [hlines])
  | getline hpc _ _ _ =>
      rcases hpc with hpc | hpc <;> rw [hpc] at hline <;> cases hline
  | strncmp hpc _ _ _ _ =>
      rw [hpc] at hline
      cases hline
  | returned hpc _ _ _ _ =>
      rw [hpc] at hline
      cases hline

theorem SenderAt.sent_prefix
    (h : SenderAt input s.sender s.stdin s.sent) :
    s.sent <+: input.lines := by
  cases h with
  | getline _ hlines _ _ =>
      exact ⟨_, hlines.symm⟩
  | msgsnd _ hlines _ _ =>
      exact ⟨_, hlines.symm⟩
  | strncmp _ hlines hsent _ _ =>
      exact ⟨_, by rw [hsent, hlines, List.append_assoc]; rfl⟩
  | returned _ hlines hsent _ _ =>
      exact ⟨_, by rw [hsent, hlines, List.append_assoc]; rfl⟩

/-- The sender goes on if it finds room, and gives up otherwise. -/
theorem SenderAt.senderStep
    (h : SenderAt input s.sender s.stdin s.sent)
    (hstep : senderStep cap s = some s') :
    (Room cap s .sender → SenderAt input s'.sender s'.stdin s'.sent) ∧
      (¬ Room cap s .sender → GaveUp input s') := by
  cases h with
  | @getline todo hpc hlines hsent hstdin =>
      have hroom : Room cap s .sender := by
        rcases hpc with hpc | hpc <;> simp [Room, hpc, SenderPc.sends]
      refine ⟨fun _ => ?_, fun hfull => absurd hroom hfull⟩
      rcases hpc with hpc | hpc
      · simp only [MsgQueue.senderStep, hpc] at hstep
        cases hstep
        exact .getline (Or.inr rfl) hlines hsent hstdin
      · -- the last line quits, so there is one more
        obtain ⟨line, rest, rfl⟩ := Input.todo_ne_nil hlines hsent
        have hmem : line ∈ input.lines := by simp [hlines]
        have hlen : line.length ≤ BUFSIZ := Nat.le_of_lt (input.short line hmem)
        rw [List.flatten_cons] at hstdin
        simp only [MsgQueue.senderStep, hpc, hstdin,
          getline_line (input.terminated line hmem), if_pos hlen] at hstep
        cases hstep
        exact .msgsnd rfl hlines hsent rfl
  | @msgsnd line todo hpc hlines hsent hstdin =>
      have hroom : Room cap s .sender ↔ s.queue.length < cap := by
        simp [Room, hpc, SenderPc.sends]
      rw [hroom]
      simp only [MsgQueue.senderStep, hpc] at hstep
      split_ifs at hstep with hlt
      · cases hstep
        exact ⟨fun _ => .strncmp rfl hlines rfl hsent hstdin, fun hfull => absurd hlt hfull⟩
      · cases hstep
        exact ⟨fun hfree => absurd hfree hlt, fun _ => ⟨rfl, line, todo, hlines, hsent⟩⟩
  | @strncmp past line todo hpc hlines hsent hpast hstdin =>
      have hroom : Room cap s .sender := by simp [Room, hpc, SenderPc.sends]
      refine ⟨fun _ => ?_, fun hfull => absurd hroom hfull⟩
      simp only [MsgQueue.senderStep, hpc] at hstep
      rw [strncmpEq_comm] at hstep
      split_ifs at hstep with hquits <;> rw [strncmpEq_quit_iff] at hquits
      · cases hstep
        exact .returned rfl hlines hsent hpast hquits
      · cases hstep
        refine .getline (Or.inr rfl) ?_ ?_ hstdin
        · rw [hlines, hsent, List.append_assoc]
          rfl
        · rw [hsent, List.forall_mem_append, List.forall_mem_singleton]
          exact ⟨hpast, hquits⟩
  | returned hpc _ _ _ _ =>
      simp [MsgQueue.senderStep, hpc] at hstep

/-- The receiver's steps do not change what the sender has. -/
theorem receiverStep_frame
    (hstep : receiverStep s = some s') :
    s'.sender = s.sender ∧ s'.stdin = s.stdin ∧ s'.sent = s.sent := by
  simp only [receiverStep] at hstep
  split at hstep
  · split_ifs at hstep <;> cases hstep <;> exact ⟨rfl, rfl, rfl⟩
  · split at hstep
    · cases hstep
    · cases hstep
      exact ⟨rfl, rfl, rfl⟩
  · split_ifs at hstep <;> cases hstep <;> exact ⟨rfl, rfl, rfl⟩
  · cases hstep

theorem start_good
    (created : Bool) :
    Good input (State.start input.stdin created) := by
  refine ⟨.getline (Or.inl rfl) (List.nil_append _).symm (by simp [State.start]) rfl, ?_⟩
  exact ⟨[], [], rfl, fun _ => rfl, by simp, rfl, by simp [State.start], by simp [State.start]⟩

theorem received_step
    {who : Proc}
    (h : Received s)
    (hline : ∀ line, s.sender = .msgsnd line → 0 ∉ line)
    (hstep : step cap s who = some s') :
    Received s' := by
  cases who with
  | sender =>
      exact h.senderStep hline hstep
  | receiver =>
      obtain ⟨past, rest, hsplit⟩ := h
      exact hsplit.receiverStep hstep

theorem good_step
    {who : Proc}
    (h : Good input s)
    (hroom : Room cap s who)
    (hstep : step cap s who = some s') :
    Good input s' := by
  obtain ⟨hsender, hreceived⟩ := h
  refine ⟨?_, received_step hreceived (fun _ => hsender.noZero) hstep⟩
  cases who with
  | sender =>
      exact (hsender.senderStep hstep).1 hroom
  | receiver =>
      obtain ⟨hpc, hstdin, hsent⟩ := receiverStep_frame hstep
      rw [hpc, hstdin, hsent]
      exact hsender

theorem gaveUp_of_full
    {who : Proc}
    (h : Good input s)
    (hfull : ¬ Room cap s who)
    (hstep : step cap s who = some s') :
    GaveUp input s' ∧ Received s' := by
  refine ⟨?_, received_step h.2 (fun _ => h.1.noZero) hstep⟩
  cases who with
  | sender =>
      exact (h.1.senderStep hstep).2 hfull
  | receiver =>
      exact absurd (fun hwho => by cases hwho) hfull

theorem gaveUp_step
    {who : Proc}
    (h : GaveUp input s ∧ Received s)
    (hstep : step cap s who = some s') :
    GaveUp input s' ∧ Received s' := by
  obtain ⟨hgaveUp, hreceived⟩ := h
  have hline : ∀ line, s.sender = .msgsnd line → 0 ∉ line := by
    rw [hgaveUp.1]
    exact fun _ hpc => by cases hpc
  refine ⟨?_, received_step hreceived hline hstep⟩
  cases who with
  | sender =>
      simp [step, senderStep, hgaveUp.1] at hstep
  | receiver =>
      obtain ⟨hpc, _, hsent⟩ := receiverStep_frame hstep
      rw [GaveUp, hpc, hsent]
      exact hgaveUp

theorem Good.delivers
    (h : Good input s) :
    Delivers input s := by
  obtain ⟨hsender, hreceived⟩ := h
  refine ⟨hreceived.printed hsender.sent_prefix, fun hstopped => ?_⟩
  cases hsender with
  | getline hpc _ _ _ =>
      rcases hpc with hpc | hpc <;> rw [hpc] at hstopped <;> cases hstopped
  | msgsnd hpc _ _ _ =>
      rw [hpc] at hstopped
      cases hstopped
  | strncmp hpc _ _ _ _ =>
      rw [hpc] at hstopped
      cases hstopped
  | returned _ hlines hsent hpast hquits =>
      rw [Input.upToQuit_of_quits hlines hpast hquits, hsent]

theorem GaveUp.not_delivers
    (h : GaveUp input s) :
    ¬ Delivers input s := by
  obtain ⟨hpc, line, todo, hlines, hsent⟩ := h
  intro hdelivers
  exact Input.not_upToQuit_prefix hlines hsent (hdelivers.sent (by rw [hpc]; rfl))

theorem good_or_gaveUp
    (input : Input) (created : Bool) (cap : Nat) {es : List Proc} {t : State}
    (hrun : run (step cap) (State.start input.stdin created) es = some t) :
    (Along (step cap) (Room cap) (State.start input.stdin created) es ∧ Good input t) ∨
      (¬ Along (step cap) (Room cap) (State.start input.stdin created) es ∧
        GaveUp input t ∧ Received t) :=
  good_or_bad (fun _ _ _ => good_step) (fun _ _ _ => gaveUp_of_full)
    (fun _ _ _ => gaveUp_step) (start_good created) hrun

/-- Whatever becomes of the sender, the receiver's output is in order. -/
theorem printed_in_order
    (input : Input) (created : Bool) (cap : Nat) {es : List Proc} {t : State}
    (hrun : run (step cap) (State.start input.stdin created) es = some t) :
    t.printed <+: input.before.map shown := by
  rcases good_or_gaveUp input created cap hrun with ⟨_, hgood⟩ | ⟨_, hgaveUp, hreceived⟩
  · exact hgood.delivers.printed
  · obtain ⟨_, line, todo, hlines, _⟩ := hgaveUp
    exact hreceived.printed ⟨_, hlines.symm⟩

/--
In every run, the receiver's output is in order and the sender gets to its "quit" exactly if
each call of `msgsnd` finds room in the queue.
-/
theorem delivers_iff_room
    (input : Input) (created : Bool) (cap : Nat) {es : List Proc} {t : State}
    (hrun : run (step cap) (State.start input.stdin created) es = some t) :
    Delivers input t ↔
      Along (step cap) (Room cap) (State.start input.stdin created) es := by
  rcases good_or_gaveUp input created cap hrun with
    ⟨halong, hgood⟩ | ⟨hfull, hgaveUp, _⟩
  · exact iff_of_true hgood.delivers halong
  · exact iff_of_false hgaveUp.not_delivers hfull

end Sender

section Example

/-- "hi" and "quit" -/
def hiQuit : Input where
  lines := [[104, 105, 10], [113, 117, 105, 116, 10]]
  terminated := by
    simp only [List.forall_mem_cons, List.not_mem_nil, false_imp_iff, implies_true, and_true]
    exact ⟨⟨[104, 105], by decide⟩, ⟨[113, 117, 105, 116], by decide⟩⟩
  noZero := by decide
  short := by decide
  ends := ⟨[[104, 105, 10]], [113, 117, 105, 116, 10], rfl, by decide⟩

/-- The receiver takes the first message before the sender sends the second. -/
def inTurns : List Proc :=
  [.sender, .sender, .sender, .receiver, .receiver, .receiver, .sender, .sender, .sender,
    .sender, .receiver, .receiver]

theorem delivers_inTurns :
    ∃ t, run (step 1) (State.start hiQuit.stdin false) inTurns = some t ∧
      t.sender = .returned ∧
      Delivers hiQuit t :=
  ⟨_, rfl, rfl, (@delivers_iff_room hiQuit false 1 inTurns _ rfl).mpr (by decide)⟩

/-- The sender finds the first message still in the queue. -/
def slowReceiver : List Proc :=
  [.sender, .sender, .sender, .sender, .sender, .sender]

theorem slowReceiver_not_delivers :
    ∃ t, run (step 1) (State.start hiQuit.stdin false) slowReceiver = some t ∧
      t.sender = .exited ∧
      t.sent = [[104, 105, 10]] ∧
      ¬ Delivers hiQuit t := by
  refine ⟨_, rfl, rfl, rfl, ?_⟩
  intro hdelivers
  exact absurd (hdelivers.sent rfl) (by decide)

end Example

end MsgQueue
end SysProg
