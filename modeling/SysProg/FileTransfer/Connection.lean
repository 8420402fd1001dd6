import SysProg.FileTransfer.Programs
import SysProg.Lib.Run
import Mathlib.Tactic

/-!
# One transfer: client, server and the connection between them

The system consists of a client in `send_file`, a server in `recv_file`, the
bytes under way in both directions, and the file that the server creates.  Any
interleaving of the two is a list of labels; a label carries the result of one
system call, within what the kernel may answer:

* `send` and `write` take at least one byte and at most what they were given;
* `recv` returns any nonempty part of what is under way, and the end of the
  stream only when nothing is under way and the other side is closed;
* `read` returns any nonempty part of what is left of the file, and 0 at its end;
* every call may fail, and either process may be killed at any point.

`Moves` lists everything a step can do; `step_moves` is its only proof about the
step function, and the results of the next modules are case analyses over it.
-/

namespace SysProg
namespace FileTransfer

open Run CString

universe u v

variable {α : Type u} {β : Type v}

/-- Result of `recv` as the kernel gives it. -/
inductive RecvRet where
  | eintr
  | error
  | count (n : Nat)
deriving DecidableEq, Repr

/-- One system call of one of the processes, with its result. -/
inductive Label where
  | clntSend (ret : Option Nat)
  | clntRecv (ret : Option Nat)
  | clntRead (ret : Option Nat)
  | clntKilled
  | servRecv (ret : RecvRet)
  | servOpen (ok : Bool)
  /-- the bytes of the flag that the unchecked `send` got rid of -/
  | servSend (n : Nat)
  | servWrite (ret : Option Nat)
  | servKilled
deriving DecidableEq, Repr

/-- `toServer` and `toClient` are the bytes sent and not yet received. -/
structure Transfer (α : Type u) where
  clnt : Clnt α
  serv : Serv α
  toServer : List α
  toClient : List UInt8
  file : List α

/-- What the client's `send` is given. -/
def Clnt.sendArg (c : Clnt α) : List α :=
  match c.pc with
  | .sendName => c.filename
  | .send => c.buf.take c.retRead
  | _ => []

/-- The most that the server's `recv` asks for. -/
def Serv.recvMax (v : Serv α) : Nat :=
  match v.pc with
  | .recvName => PATH_MAX - 1
  | _ => BUFSIZ

/-- A count returned by `send` or `write` for a request of `len` bytes. -/
def TakesSome (len : Nat) : Option Nat → Prop
  | none => True
  | some k => k ≤ len ∧ (0 < len → 0 < k)

instance (len : Nat) (ret : Option Nat) : Decidable (TakesSome len ret) := by
  unfold TakesSome
  split <;> infer_instance

/-- A count returned by `recv` or `read` with `avail` bytes there. -/
def GivesSome (request avail : Nat) (atEnd : Bool) (n : Nat) : Prop :=
  n ≤ request ∧ n ≤ avail ∧ (n = 0 → avail = 0 ∧ atEnd = true)

instance (request avail : Nat) (atEnd : Bool) (n : Nat) :
    Decidable (GivesSome request avail atEnd n) :=
  inferInstanceAs (Decidable (_ ∧ _))

/-- A step of the client program. -/
def clntStep
    (s : Transfer α) (r : ClntResult) (toClient : List UInt8) :
    Option (Transfer α) :=
  (sendFile s.clnt r).map (fun p =>
    { s with
      clnt := p.1
      toServer := s.toServer ++ p.2
      toClient := toClient })

/-- A step of the server program. -/
def servStep
    (s : Transfer α) (r : ServResult α)
    (toServer : List α) (toClient : List UInt8) :
    Option (Transfer α) :=
  (recvFile s.serv r).map (fun p =>
    { s with
      serv := p.1
      toServer := toServer
      toClient := toClient
      file := s.file ++ p.2 })

/-- One step of the whole transfer. -/
def step (s : Transfer α) : Label → Option (Transfer α)
  | .clntSend ret =>
      if TakesSome s.clnt.sendArg.length ret then
        clntStep s (.send ret) s.toClient
      else none
  | .clntRecv none => clntStep s (.recv none) s.toClient
  | .clntRecv (some n) =>
      if GivesSome 4 s.toClient.length s.serv.closed n then
        clntStep s (.recv (some (s.toClient.take n))) (s.toClient.drop n)
      else none
  | .clntRead none => clntStep s (.read none) s.toClient
  | .clntRead (some n) =>
      if GivesSome BUFSIZ (s.clnt.file.length - s.clnt.offset) true n then
        clntStep s (.read (some n)) s.toClient
      else none
  | .clntKilled =>
      if s.clnt.closed then none
      else some { s with clnt := { s.clnt with pc := .killed } }
  | .servRecv .eintr => servStep s .eintr s.toServer s.toClient
  | .servRecv .error => servStep s .recvError s.toServer s.toClient
  | .servRecv (.count n) =>
      if GivesSome s.serv.recvMax s.toServer.length s.clnt.closed n then
        servStep s (.recv (s.toServer.take n)) (s.toServer.drop n) s.toClient
      else none
  | .servOpen ok => servStep s (.opened ok) s.toServer s.toClient
  | .servSend n =>
      servStep s .send s.toServer (s.toClient ++ s.serv.flag.take n)
  | .servWrite ret =>
      if TakesSome s.serv.retLen ret then
        servStep s (.write ret) s.toServer s.toClient
      else none
  | .servKilled =>
      if s.serv.ended then none
      else some { s with serv := { s.serv with pc := .killed } }

/-- A client about to send `filename`, with any bytes in the variable `flag`. -/
def Clnt.start (filename file : List α) (flag : List UInt8) : Clnt α where
  filename := filename
  file := file
  offset := 0
  buf := []
  retRead := 0
  flag := flag
  pc := .sendName
  sends := []

/-- A server child that has just accepted the connection. -/
def Serv.start : Serv α where
  filename := []
  opened := false
  buf := []
  retLen := 0
  pc := .recvName
  openArg := none
  closedCfd := 0
  closedFd := 0

/-- The connection is established and nothing has been sent. -/
def Transfer.start
    (filename file : List α) (flag : List UInt8) : Transfer α where
  clnt := Clnt.start filename file flag
  serv := Serv.start
  toServer := []
  toClient := []
  file := []

section Moves

/-- Everything one step can do. -/
inductive Moves (s : Transfer α) : Label → Transfer α → Prop
  | nameSent
      (hpc : s.clnt.pc = .sendName) :
      Moves s (.clntSend (some s.clnt.filename.length))
        { s with
          clnt := { s.clnt with pc := .recvFlag }
          toServer := s.toServer ++ s.clnt.filename }
  | nameCut {k : Nat}
      (hpc : s.clnt.pc = .sendName)
      (hk : k < s.clnt.filename.length) :
      Moves s (.clntSend (some k))
        { s with
          clnt := { s.clnt with pc := .failed }
          toServer := s.toServer ++ s.clnt.filename.take k }
  /-- a call of the client failed: nothing goes out, `goto ERROR` -/
  | clntError {l : Label} {sends : List (List α)}
      (hl : l = .clntSend none ∨ l = .clntRecv none ∨ l = .clntRead none)
      (hpc : s.clnt.closed = false) :
      Moves s l
        { s with clnt := { s.clnt with pc := .failed, sends := sends } }
  | flagRead {n : Nat} {flag : List UInt8} {pc : ClntPc}
      (hpc : s.clnt.pc = .recvFlag)
      (hn : GivesSome 4 s.toClient.length s.serv.closed n)
      (hflag : flag = s.toClient.take n ++ s.clnt.flag.drop (s.toClient.take n).length)
      (hnext : pc = if flag = flagRefused then .failed else .read) :
      Moves s (.clntRecv (some n))
        { s with
          clnt := { s.clnt with flag := flag, pc := pc }
          toClient := s.toClient.drop n }
  | fileEnd
      (hpc : s.clnt.pc = .read)
      (hend : s.clnt.file.length ≤ s.clnt.offset) :
      Moves s (.clntRead (some 0))
        { s with clnt := { s.clnt with pc := .returned } }
  | chunkRead {n : Nat}
      (hpc : s.clnt.pc = .read)
      (hn : 0 < n)
      (hleft : s.clnt.offset + n ≤ s.clnt.file.length) :
      Moves s (.clntRead (some n))
        { s with
          clnt :=
            { s.clnt with
              buf := (s.clnt.file.drop s.clnt.offset).take n
              retRead := n
              offset := s.clnt.offset + n
              pc := .send } }
  | chunkSent {k : Nat} {pc : ClntPc}
      (hpc : s.clnt.pc = .send)
      (hk : TakesSome (s.clnt.buf.take s.clnt.retRead).length (some k))
      (hnext : pc = if s.clnt.retRead - k = 0 then .read else .send) :
      Moves s (.clntSend (some k))
        { s with
          clnt :=
            { s.clnt with
              retRead := s.clnt.retRead - k
              pc := pc
              sends := s.clnt.sends ++ [s.clnt.buf.take s.clnt.retRead] }
          toServer := s.toServer ++ s.clnt.buf.take k }
  | clntKilled
      (hpc : s.clnt.closed = false) :
      Moves s .clntKilled
        { s with clnt := { s.clnt with pc := .killed } }
  /-- `recv` interrupted, or a `write` that failed and is tried again -/
  | servRetry {l : Label}
      (hl : l = .servRecv .eintr ∨ l = .servWrite none) :
      Moves s l s
  | nameError
      (hpc : s.serv.pc = .recvName) :
      Moves s (.servRecv .error)
        { s with serv := { s.serv with pc := .returned (-1) } }
  | nameRead {n : Nat}
      (hpc : s.serv.pc = .recvName)
      (hn : GivesSome (PATH_MAX - 1) s.toServer.length s.clnt.closed n) :
      Moves s (.servRecv (.count n))
        { s with
          serv := { s.serv with filename := s.toServer.take n, pc := .openFile }
          toServer := s.toServer.drop n }
  | fileOpened {ok : Bool}
      (hpc : s.serv.pc = .openFile) :
      Moves s (.servOpen ok)
        { s with
          serv :=
            { s.serv with
              opened := ok
              pc := .sendFlag
              openArg := some s.serv.filename } }
  | flagAccepted {n : Nat}
      (hpc : s.serv.pc = .sendFlag)
      (hopened : s.serv.opened = true) :
      Moves s (.servSend n)
        { s with
          serv := { s.serv with pc := .recvData }
          toClient := s.toClient ++ flagOk.take n }
  | flagDenied {n : Nat}
      (hpc : s.serv.pc = .sendFlag)
      (hopened : s.serv.opened = false) :
      Moves s (.servSend n)
        { s with
          serv :=
            { s.serv with
              pc := .returned (-1), closedCfd := s.serv.closedCfd + 1 }
          toClient := s.toClient ++ flagRefused.take n }
  | dataError
      (hpc : s.serv.pc = .recvData) :
      Moves s (.servRecv .error)
        { s with
          serv :=
            { s.serv with
              pc := .returned (-1)
              closedCfd := s.serv.closedCfd + 1
              closedFd := s.serv.closedFd + 1 } }
  | dataEnd
      (hpc : s.serv.pc = .recvData)
      (hempty : s.toServer = [])
      (hclosed : s.clnt.closed = true) :
      Moves s (.servRecv (.count 0))
        { s with
          serv :=
            { s.serv with
              pc := .returned 0
              closedCfd := s.serv.closedCfd + 1
              closedFd := s.serv.closedFd + 1 } }
  | dataRead {n : Nat}
      (hpc : s.serv.pc = .recvData)
      (hn : 0 < n)
      (hle : n ≤ s.toServer.length) :
      Moves s (.servRecv (.count n))
        { s with
          serv :=
            { s.serv with
              buf := s.toServer.take n
              retLen := n
              pc := .write }
          toServer := s.toServer.drop n }
  | chunkWritten {k : Nat} {pc : ServPc}
      (hpc : s.serv.pc = .write)
      (hk : TakesSome s.serv.retLen (some k))
      (hnext : pc = if s.serv.retLen - k = 0 then .recvData else .write) :
      Moves s (.servWrite (some k))
        { s with
          serv := { s.serv with retLen := s.serv.retLen - k, pc := pc }
          file := s.file ++ s.serv.buf.take k }
  | servKilled
      (hpc : s.serv.ended = false) :
      Moves s .servKilled
        { s with serv := { s.serv with pc := .killed } }

variable {s s' : Transfer α}

theorem clntStep_call
    {r : ClntResult} {toClient : List UInt8}
    (hstep : clntStep s r toClient = some s') :
    ∃ c out, SendCall s.clnt r c out ∧
      s' =
        { s with
          clnt := c
          toServer := s.toServer ++ out
          toClient := toClient } := by
  obtain ⟨⟨c, out⟩, hcall, heq⟩ := Option.map_eq_some_iff.mp hstep
  exact ⟨c, out, sendFile_call hcall, heq.symm⟩

theorem clntSend_moves
    {ret : Option Nat}
    (hret : TakesSome s.clnt.sendArg.length ret)
    (hstep : clntStep s (.send ret) s.toClient = some s') :
    Moves s (.clntSend ret) s' := by
  obtain ⟨c, out, hcall, rfl⟩ := clntStep_call hstep
  cases hcall with
  | nameError hpc =>
      simp only [List.append_nil]
      exact Moves.clntError (Or.inl rfl) (by simp [Clnt.closed, hpc])
  | @nameSent k hpc =>
      have hk : k ≤ s.clnt.filename.length := by
        simpa [Clnt.sendArg, hpc] using hret.1
      by_cases hall : k = s.clnt.filename.length
      · subst hall
        simp only [if_true, List.take_length]
        exact Moves.nameSent hpc
      · simp only [hall, if_false]
        exact Moves.nameCut hpc (by omega)
  | dataError hpc =>
      simp only [List.append_nil]
      exact Moves.clntError (Or.inl rfl) (by simp [Clnt.closed, hpc])
  | @dataSent k hpc =>
      have hk : TakesSome (s.clnt.buf.take s.clnt.retRead).length (some k) := by
        simpa [Clnt.sendArg, hpc] using hret
      exact Moves.chunkSent hpc hk rfl

theorem clntRecv_moves
    {ret : Option Nat}
    (hstep : step s (.clntRecv ret) = some s') :
    Moves s (.clntRecv ret) s' := by
  cases ret with
  | none =>
      obtain ⟨c, out, hcall, rfl⟩ := clntStep_call hstep
      cases hcall with
      | flagError hpc =>
          simp only [List.append_nil]
          exact Moves.clntError (Or.inr (Or.inl rfl)) (by simp [Clnt.closed, hpc])
  | some n =>
      obtain ⟨hn, hclnt⟩ := Option.ite_none_right_eq_some.mp hstep
      obtain ⟨c, out, hcall, rfl⟩ := clntStep_call hclnt
      cases hcall with
      | flagRead hpc =>
          simp only [List.append_nil]
          exact Moves.flagRead hpc hn rfl rfl

theorem clntRead_moves
    {ret : Option Nat}
    (hstep : step s (.clntRead ret) = some s') :
    Moves s (.clntRead ret) s' := by
  cases ret with
  | none =>
      obtain ⟨c, out, hcall, rfl⟩ := clntStep_call hstep
      cases hcall with
      | readError hpc =>
          simp only [List.append_nil]
          exact Moves.clntError (Or.inr (Or.inr rfl)) (by simp [Clnt.closed, hpc])
  | some n =>
      obtain ⟨⟨_, hleft, hzero⟩, hclnt⟩ := Option.ite_none_right_eq_some.mp hstep
      obtain ⟨c, out, hcall, rfl⟩ := clntStep_call hclnt
      cases hcall with
      | fileEnd hpc =>
          have hend := (hzero rfl).1
          simp only [List.append_nil]
          exact Moves.fileEnd hpc (by omega)
      | chunkRead hpc =>
          simp only [List.append_nil]
          exact Moves.chunkRead hpc (by omega) (by omega)

theorem servStep_call
    {r : ServResult α} {toServer : List α} {toClient : List UInt8}
    (hstep : servStep s r toServer toClient = some s') :
    ∃ v out, RecvCall s.serv r v out ∧
      s' =
        { s with
          serv := v
          toServer := toServer
          toClient := toClient
          file := s.file ++ out } := by
  obtain ⟨⟨v, out⟩, hcall, heq⟩ := Option.map_eq_some_iff.mp hstep
  exact ⟨v, out, recvFile_call hcall, heq.symm⟩

theorem servRecv_moves
    {ret : RecvRet}
    (hstep : step s (.servRecv ret) = some s') :
    Moves s (.servRecv ret) s' := by
  cases ret with
  | eintr =>
      obtain ⟨v, out, hcall, rfl⟩ := servStep_call hstep
      cases hcall with
      | interrupted =>
          simp only [List.append_nil]
          exact Moves.servRetry (Or.inl rfl)
  | error =>
      obtain ⟨v, out, hcall, rfl⟩ := servStep_call hstep
      cases hcall with
      | nameError hpc =>
          simp only [List.append_nil]
          exact Moves.nameError hpc
      | dataError hpc =>
          simp only [List.append_nil]
          exact Moves.dataError hpc
  | count n =>
      obtain ⟨hn, hserv⟩ := Option.ite_none_right_eq_some.mp hstep
      obtain ⟨v, out, hcall, rfl⟩ := servStep_call hserv
      generalize hbytes : s.toServer.take n = bytes at hcall
      cases hcall with
      | nameRead hpc =>
          subst hbytes
          simp only [List.append_nil]
          exact Moves.nameRead hpc (by simpa [Serv.recvMax, hpc] using hn)
      | dataEnd hpc =>
          obtain ⟨_, hle, hzero⟩ := hn
          have hlen := congrArg List.length hbytes
          rw [List.length_take, List.length_nil, Nat.min_eq_left hle] at hlen
          subst hlen
          have hempty : s.toServer = [] := List.length_eq_zero_iff.mp (hzero rfl).1
          simp only [List.append_nil, List.drop_zero]
          exact Moves.dataEnd hpc hempty (hzero rfl).2
      | dataRead hpc hne =>
          obtain ⟨_, hle, _⟩ := hn
          have hpos : 0 < n := by
            rw [Nat.pos_iff_ne_zero]
            rintro rfl
            exact hne (hbytes.symm.trans List.take_zero)
          subst hbytes
          simp only [List.append_nil, List.length_take, Nat.min_eq_left hle]
          exact Moves.dataRead hpc hpos hle

theorem servWrite_moves
    {ret : Option Nat}
    (hstep : step s (.servWrite ret) = some s') :
    Moves s (.servWrite ret) s' := by
  obtain ⟨hk, hserv⟩ := Option.ite_none_right_eq_some.mp hstep
  obtain ⟨v, out, hcall, rfl⟩ := servStep_call hserv
  cases hcall with
  | writeError hpc =>
      simp only [List.append_nil]
      exact Moves.servRetry (Or.inr rfl)
  | written hpc =>
      exact Moves.chunkWritten hpc hk rfl

theorem servSend_moves
    {n : Nat}
    (hstep : step s (.servSend n) = some s') :
    Moves s (.servSend n) s' := by
  obtain ⟨v, out, hcall, rfl⟩ := servStep_call hstep
  cases hcall with
  | accepted hpc hopened =>
      have hflag : s.serv.flag = flagOk := by
        simp [Serv.flag, hopened]
      simp only [hflag, List.append_nil]
      exact Moves.flagAccepted hpc hopened
  | denied hpc hopened =>
      have hflag : s.serv.flag = flagRefused := by
        simp [Serv.flag, hopened]
      simp only [hflag, List.append_nil]
      exact Moves.flagDenied hpc hopened

/-- Every step is one of the moves. -/
theorem step_moves
    {l : Label}
    (hstep : step s l = some s') :
    Moves s l s' := by
  cases l with
  | clntSend ret =>
      simp only [step] at hstep
      split_ifs at hstep with hret
      exact clntSend_moves hret hstep
  | clntRecv ret =>
      exact clntRecv_moves hstep
  | clntRead ret =>
      exact clntRead_moves hstep
  | clntKilled =>
      simp only [step] at hstep
      split_ifs at hstep with hclosed
      simp only [Option.some.injEq] at hstep
      subst hstep
      exact Moves.clntKilled (by simpa using hclosed)
  | servRecv ret =>
      exact servRecv_moves hstep
  | servOpen ok =>
      obtain ⟨v, out, hcall, rfl⟩ := servStep_call hstep
      cases hcall with
      | fileOpened hpc =>
          simp only [List.append_nil]
          exact Moves.fileOpened hpc
  | servSend n =>
      exact servSend_moves hstep
  | servWrite ret =>
      exact servWrite_moves hstep
  | servKilled =>
      simp only [step] at hstep
      split_ifs at hstep with hended
      simp only [Option.some.injEq] at hstep
      subst hstep
      exact Moves.servKilled (by simpa using hended)

variable {l : Label}

/-- A closed client takes no further step. -/
theorem clnt_eq_of_closed
    (h : s.clnt.closed = true)
    (hmove : Moves s l s') :
    s'.clnt = s.clnt := by
  cases hmove with
  | clntError hl hpc =>
      simp [h] at hpc
  | clntKilled hpc =>
      simp [h] at hpc
  | nameSent hpc =>
      simp [Clnt.closed, hpc] at h
  | nameCut hpc hk =>
      simp [Clnt.closed, hpc] at h
  | flagRead hpc hn hflag hnext =>
      simp [Clnt.closed, hpc] at h
  | fileEnd hpc hend =>
      simp [Clnt.closed, hpc] at h
  | chunkRead hpc hn hleft =>
      simp [Clnt.closed, hpc] at h
  | chunkSent hpc hk hnext =>
      simp [Clnt.closed, hpc] at h
  | _ =>
      rfl

/-- An ended server takes no further step. -/
theorem serv_eq_of_ended
    (h : s.serv.ended = true)
    (hmove : Moves s l s') :
    s'.serv = s.serv := by
  cases hmove with
  | servKilled hpc =>
      simp [h] at hpc
  | nameError hpc =>
      simp [Serv.ended, hpc] at h
  | nameRead hpc hn =>
      simp [Serv.ended, hpc] at h
  | fileOpened hpc =>
      simp [Serv.ended, hpc] at h
  | flagAccepted hpc hopened =>
      simp [Serv.ended, hpc] at h
  | flagDenied hpc hopened =>
      simp [Serv.ended, hpc] at h
  | dataError hpc =>
      simp [Serv.ended, hpc] at h
  | dataEnd hpc hempty hclosed =>
      simp [Serv.ended, hpc] at h
  | dataRead hpc hn hle =>
      simp [Serv.ended, hpc] at h
  | chunkWritten hpc hk hnext =>
      simp [Serv.ended, hpc] at h
  | _ =>
      rfl

end Moves

end FileTransfer
end SysProg
