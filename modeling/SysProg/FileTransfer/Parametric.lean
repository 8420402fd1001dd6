import SysProg.FileTransfer.Connection
import Mathlib.Tactic

/-!
# The transfer does not look at the bytes

Neither program branches on a byte of the file or of the name: renaming the bytes
of a state and taking a step commute (`step_map`).  One schedule therefore does
the same to every file of one length, and it is enough to follow the positions of
the bytes.
-/

namespace SysProg
namespace FileTransfer

open Run CString

universe u v

variable {α : Type u} {β : Type v}

def Clnt.map (f : α → β) (c : Clnt α) : Clnt β where
  filename := c.filename.map f
  file := c.file.map f
  offset := c.offset
  buf := c.buf.map f
  retRead := c.retRead
  flag := c.flag
  pc := c.pc
  sends := c.sends.map (List.map f)

def Serv.map (f : α → β) (v : Serv α) : Serv β where
  filename := v.filename.map f
  opened := v.opened
  buf := v.buf.map f
  retLen := v.retLen
  pc := v.pc
  openArg := v.openArg.map (List.map f)
  closedCfd := v.closedCfd
  closedFd := v.closedFd

def ServResult.map (f : α → β) : ServResult α → ServResult β
  | .eintr => .eintr
  | .recvError => .recvError
  | .recv bytes => .recv (bytes.map f)
  | .opened ok => .opened ok
  | .send => .send
  | .write ret => .write ret

/-- Rename every byte of the state. -/
def Transfer.map (f : α → β) (s : Transfer α) : Transfer β where
  clnt := s.clnt.map f
  serv := s.serv.map f
  toServer := s.toServer.map f
  toClient := s.toClient
  file := s.file.map f

variable (f : α → β)

theorem sendFile_map
    (c : Clnt α) (r : ClntResult) :
    sendFile (c.map f) r =
      (sendFile c r).map (fun p => (p.1.map f, p.2.map f)) := by
  obtain ⟨filename, file, offset, buf, retRead, flag, pc, sends⟩ := c
  cases r with
  | send ret =>
      cases pc <;> cases ret <;> simp [sendFile, Clnt.map]
      rfl
  | recv ret =>
      cases pc <;> cases ret <;> simp [sendFile, Clnt.map]
      rfl
  | read ret =>
      rcases ret with _ | _ | n <;> cases pc <;> simp [sendFile, Clnt.map]

theorem recvFile_map
    (v : Serv α) (r : ServResult α) :
    recvFile (v.map f) (r.map f) =
      (recvFile v r).map (fun p => (p.1.map f, p.2.map f)) := by
  obtain ⟨filename, opened, buf, retLen, pc, openArg, closedCfd, closedFd⟩ := v
  cases r with
  | eintr =>
      cases pc <;> simp [recvFile, Serv.map, ServResult.map]
  | recvError =>
      cases pc <;> simp [recvFile, Serv.map, ServResult.map]
  | recv bytes =>
      cases pc <;> by_cases hnil : bytes = [] <;>
        simp [recvFile, Serv.map, ServResult.map, hnil]
  | opened ok =>
      cases pc <;> simp [recvFile, Serv.map, ServResult.map]
  | send =>
      cases pc <;> cases opened <;> simp [recvFile, Serv.map, ServResult.map]
  | write ret =>
      cases pc <;> cases ret <;> simp [recvFile, Serv.map, ServResult.map]
      rfl

theorem clntStep_map
    (s : Transfer α) (r : ClntResult) (toClient : List UInt8) :
    clntStep (s.map f) r toClient = (clntStep s r toClient).map (Transfer.map f) := by
  simp only [clntStep, Transfer.map, sendFile_map, Option.map_map]
  congr 1
  funext p
  simp [Transfer.map]

theorem servStep_map
    (s : Transfer α) (r : ServResult α) (toServer : List α) (toClient : List UInt8) :
    servStep (s.map f) (r.map f) (toServer.map f) toClient =
      (servStep s r toServer toClient).map (Transfer.map f) := by
  simp only [servStep, Transfer.map, recvFile_map, Option.map_map]
  congr 1
  funext p
  simp [Transfer.map]

theorem Clnt.length_sendArg_map
    (c : Clnt α) :
    (c.map f).sendArg.length = c.sendArg.length := by
  obtain ⟨filename, file, offset, buf, retRead, flag, pc, sends⟩ := c
  cases pc <;> simp [Clnt.sendArg, Clnt.map]

/-- Renaming commutes with every step. -/
theorem step_map
    (s : Transfer α) (l : Label) :
    step (s.map f) l = (step s l).map (Transfer.map f) := by
  cases l with
  | clntSend ret =>
      simp only [step]
      rw [show (s.map f).clnt = s.clnt.map f from rfl, Clnt.length_sendArg_map]
      split_ifs
      · exact clntStep_map f s _ _
      · rfl
  | clntRecv ret =>
      cases ret with
      | none =>
          exact clntStep_map f s _ _
      | some n =>
          change
            (if GivesSome 4 s.toClient.length s.serv.closed n then
              clntStep (s.map f) (.recv (some (s.toClient.take n))) (s.toClient.drop n)
            else none) = _
          simp only [step]
          split_ifs
          · exact clntStep_map f s _ _
          · rfl
  | clntRead ret =>
      cases ret with
      | none =>
          exact clntStep_map f s _ _
      | some n =>
          have hlen : (s.map f).clnt.file.length = s.clnt.file.length :=
            List.length_map _
          simp only [step, hlen]
          change
            (if GivesSome BUFSIZ (s.clnt.file.length - s.clnt.offset) true n then
              clntStep (s.map f) (.read (some n)) s.toClient
            else none) = _
          split_ifs
          · exact clntStep_map f s _ _
          · rfl
  | clntKilled =>
      change (if s.clnt.closed then none else _) = _
      simp only [step]
      split_ifs
      · rfl
      · rfl
  | servRecv ret =>
      cases ret with
      | eintr =>
          exact servStep_map f s .eintr s.toServer s.toClient
      | error =>
          exact servStep_map f s .recvError s.toServer s.toClient
      | count n =>
          have hlen : (s.map f).toServer.length = s.toServer.length :=
            List.length_map _
          simp only [step, hlen]
          change
            (if GivesSome s.serv.recvMax s.toServer.length s.clnt.closed n then
              servStep (s.map f) (.recv ((s.toServer.map f).take n))
                ((s.toServer.map f).drop n) s.toClient
            else none) = _
          split_ifs
          · rw [← List.map_take, ← List.map_drop]
            exact servStep_map f s (.recv (s.toServer.take n)) _ _
          · rfl
  | servOpen ok =>
      exact servStep_map f s (.opened ok) s.toServer s.toClient
  | servSend n =>
      exact servStep_map f s .send s.toServer _
  | servWrite ret =>
      change
        (if TakesSome s.serv.retLen ret then
          servStep (s.map f) (.write ret) (s.toServer.map f) s.toClient
        else none) = _
      simp only [step]
      split_ifs
      · exact servStep_map f s (.write ret) s.toServer s.toClient
      · rfl
  | servKilled =>
      change (if s.serv.ended then none else _) = _
      simp only [step]
      split_ifs
      · rfl
      · rfl

end FileTransfer
end SysProg
