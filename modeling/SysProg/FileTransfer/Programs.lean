import SysProg.Lib.CString
import Mathlib.Tactic

/-!
# The file transfer programs sp/sock/clnt/clnt.c and sp/sock/serv/serv.c

`send_file` sends the file name, waits for a four-byte flag, and then sends the
file in chunks of at most `BUFSIZ` bytes.  `recv_file` takes one `recv` for the
name, creates the file, answers with the flag, and then writes what it receives
until the end of the stream.

Each function is presented as the state it has between two system calls,
together with what it does with the result of the call it is blocked in:
`sendFile` and `recvFile` return nothing when the result does not answer that
call.  `SendCall` and `RecvCall` list their cases, and the proofs of the modules
above go through these lists.  What the kernel may answer is the business of
those modules.

The byte type is a parameter.  Neither program looks at the bytes of the file,
and the name is only handed to `open`.
-/

namespace SysProg
namespace FileTransfer

open CString

universe u

variable {α : Type u}

def PATH_MAX : Nat := 4096

/-- The bytes of the `int` 0 and of the `int` -1, in either byte order. -/
def flagOk : List UInt8 := [0, 0, 0, 0]
def flagRefused : List UInt8 := [255, 255, 255, 255]

section Client

/-- The system call `send_file` is blocked in, or how it ended. -/
inductive ClntPc where
  | sendName
  | recvFlag
  | read
  | send
  | returned
  /-- the label `ERROR`: both descriptors closed, `exit(EXIT_FAILURE)` -/
  | failed
  | killed
deriving DecidableEq, Repr

/--
The locals of `send_file` and the file behind `fd`.  `buf` holds what the last
`read` stored, `flag` the four bytes of the variable of that name.  `sends` is
history: the buffers handed to `send` in the data loop.
-/
structure Clnt (α : Type u) where
  filename : List α
  file : List α
  offset : Nat
  buf : List α
  retRead : Nat
  flag : List UInt8
  pc : ClntPc
  sends : List (List α)

/-- Result of a system call of the client; `none` is -1. -/
inductive ClntResult where
  | send (ret : Option Nat)
  | recv (ret : Option (List UInt8))
  | read (ret : Option Nat)

/-- `send_file`, with the bytes that went out on the socket. -/
def sendFile (c : Clnt α) : ClntResult → Option (Clnt α × List α)
  | .send ret =>
      match c.pc, ret with
      | .sendName, none => some ({ c with pc := .failed }, [])
      | .sendName, some k =>
          some
            ({ c with
                pc := if k = c.filename.length then .recvFlag else .failed },
              c.filename.take k)
      | .send, none =>
          some
            ({ c with
                pc := .failed
                sends := c.sends ++ [c.buf.take c.retRead] },
              [])
      | .send, some k =>
          -- the next call starts at `buf` again, not behind what was sent
          some
            ({ c with
                retRead := c.retRead - k
                pc := if c.retRead - k = 0 then .read else .send
                sends := c.sends ++ [c.buf.take c.retRead] },
              c.buf.take k)
      | _, _ => none
  | .recv ret =>
      match c.pc, ret with
      | .recvFlag, none => some ({ c with pc := .failed }, [])
      | .recvFlag, some bytes =>
          -- a short `recv` leaves the rest of the variable as it was
          let flag := bytes ++ c.flag.drop bytes.length
          some
            ({ c with
                flag := flag
                pc := if flag = flagRefused then .failed else .read },
              [])
      | _, _ => none
  | .read ret =>
      match c.pc, ret with
      | .read, none => some ({ c with pc := .failed }, [])
      | .read, some 0 => some ({ c with pc := .returned }, [])
      | .read, some (n + 1) =>
          some
            ({ c with
                buf := (c.file.drop c.offset).take (n + 1)
                retRead := n + 1
                offset := c.offset + (n + 1)
                pc := .send },
              [])
      | _, _ => none

/-- What the result of a system call does to `send_file`, call by call. -/
inductive SendCall (c : Clnt α) : ClntResult → Clnt α → List α → Prop
  | nameError
      (hpc : c.pc = .sendName) :
      SendCall c (.send none) { c with pc := .failed } []
  | nameSent {k : Nat}
      (hpc : c.pc = .sendName) :
      SendCall c (.send (some k))
        { c with pc := if k = c.filename.length then .recvFlag else .failed }
        (c.filename.take k)
  | dataError
      (hpc : c.pc = .send) :
      SendCall c (.send none)
        { c with pc := .failed, sends := c.sends ++ [c.buf.take c.retRead] } []
  | dataSent {k : Nat}
      (hpc : c.pc = .send) :
      SendCall c (.send (some k))
        { c with
          retRead := c.retRead - k
          pc := if c.retRead - k = 0 then .read else .send
          sends := c.sends ++ [c.buf.take c.retRead] }
        (c.buf.take k)
  | flagError
      (hpc : c.pc = .recvFlag) :
      SendCall c (.recv none) { c with pc := .failed } []
  | flagRead {bytes : List UInt8}
      (hpc : c.pc = .recvFlag) :
      SendCall c (.recv (some bytes))
        { c with
          flag := bytes ++ c.flag.drop bytes.length
          pc := if bytes ++ c.flag.drop bytes.length = flagRefused then .failed else .read }
        []
  | readError
      (hpc : c.pc = .read) :
      SendCall c (.read none) { c with pc := .failed } []
  | fileEnd
      (hpc : c.pc = .read) :
      SendCall c (.read (some 0)) { c with pc := .returned } []
  | chunkRead {n : Nat}
      (hpc : c.pc = .read) :
      SendCall c (.read (some (n + 1)))
        { c with
          buf := (c.file.drop c.offset).take (n + 1)
          retRead := n + 1
          offset := c.offset + (n + 1)
          pc := .send }
        []

theorem sendFile_call
    {c c' : Clnt α} {r : ClntResult} {out : List α}
    (h : sendFile c r = some (c', out)) :
    SendCall c r c' out := by
  unfold sendFile at h
  cases r with
  | send ret =>
      simp only at h
      split at h
      · rename_i hpc
        cases h
        exact .nameError hpc
      · rename_i hpc
        cases h
        exact .nameSent hpc
      · rename_i hpc
        cases h
        exact .dataError hpc
      · rename_i hpc
        cases h
        exact .dataSent hpc
      · cases h
  | recv ret =>
      simp only at h
      split at h
      · rename_i hpc
        cases h
        exact .flagError hpc
      · rename_i hpc
        cases h
        exact .flagRead hpc
      · cases h
  | read ret =>
      simp only at h
      split at h
      · rename_i hpc
        cases h
        exact .readError hpc
      · rename_i hpc
        cases h
        exact .fileEnd hpc
      · rename_i hpc
        cases h
        exact .chunkRead hpc
      · cases h

/-- The socket of the client is closed: by `close` or by the end of the process. -/
def Clnt.closed (c : Clnt α) : Bool :=
  match c.pc with
  | .returned => true
  | .failed => true
  | .killed => true
  | _ => false

/-- The client has passed the test of the flag without an error. -/
def Clnt.inDataLoop (c : Clnt α) : Bool :=
  match c.pc with
  | .read => true
  | .send => true
  | .returned => true
  | _ => false

end Client

section Server

/-- The system call `recv_file` is blocked in, or how it ended. -/
inductive ServPc where
  | recvName
  | openFile
  | sendFlag
  | recvData
  | write
  | returned (ret : Int)
  | killed
deriving DecidableEq, Repr

/--
The locals of `recv_file`.  `filename` holds the bytes received into the zeroed
array, `opened` says whether `fd` is a descriptor.  The last three fields are
history: the array handed to `open`, and the calls of `close` made so far.
-/
structure Serv (α : Type u) where
  filename : List α
  opened : Bool
  buf : List α
  retLen : Nat
  pc : ServPc
  openArg : Option (List α)
  closedCfd : Nat
  closedFd : Nat

/-- Result of a system call of the server. -/
inductive ServResult (α : Type u) where
  /-- `recv` with -1 and `EINTR` -/
  | eintr
  /-- `recv` with -1 and another errno -/
  | recvError
  | recv (bytes : List α)
  | opened (ok : Bool)
  | send
  | write (ret : Option Nat)

/-- `recv_file`, with the bytes that were written to the file. -/
def recvFile (v : Serv α) : ServResult α → Option (Serv α × List α)
  | .eintr =>
      match v.pc with
      | .recvName => some (v, [])
      | .recvData => some (v, [])
      | _ => none
  | .recvError =>
      match v.pc with
      -- this path leaves `cfd` open
      | .recvName => some ({ v with pc := .returned (-1) }, [])
      | .recvData =>
          some
            ({ v with
                pc := .returned (-1)
                closedCfd := v.closedCfd + 1
                closedFd := v.closedFd + 1 },
              [])
      | _ => none
  | .recv bytes =>
      match v.pc with
      | .recvName =>
          some ({ v with filename := bytes, pc := .openFile }, [])
      | .recvData =>
          if bytes = [] then
            some
              ({ v with
                  pc := .returned 0
                  closedCfd := v.closedCfd + 1
                  closedFd := v.closedFd + 1 },
                [])
          else
            some
              ({ v with buf := bytes, retLen := bytes.length, pc := .write }, [])
      | _ => none
  | .opened ok =>
      match v.pc with
      | .openFile =>
          some
            ({ v with
                opened := ok
                pc := .sendFlag
                openArg := some v.filename },
              [])
      | _ => none
  | .send =>
      match v.pc with
      | .sendFlag =>
          -- the result of this `send` is not looked at
          if v.opened then some ({ v with pc := .recvData }, [])
          else
            some
              ({ v with pc := .returned (-1), closedCfd := v.closedCfd + 1 }, [])
      | _ => none
  | .write ret =>
      match v.pc, ret with
      | .write, none => some (v, [])
      | .write, some k =>
          -- as in the client, the next call starts at `buf` again
          some
            ({ v with
                retLen := v.retLen - k
                pc := if v.retLen - k = 0 then .recvData else .write },
              v.buf.take k)
      | _, _ => none

/-- What the result of a system call does to `recv_file`, call by call. -/
inductive RecvCall (v : Serv α) : ServResult α → Serv α → List α → Prop
  | interrupted :
      RecvCall v .eintr v []
  | nameError
      (hpc : v.pc = .recvName) :
      RecvCall v .recvError { v with pc := .returned (-1) } []
  | dataError
      (hpc : v.pc = .recvData) :
      RecvCall v .recvError
        { v with
          pc := .returned (-1)
          closedCfd := v.closedCfd + 1
          closedFd := v.closedFd + 1 }
        []
  | nameRead {bytes : List α}
      (hpc : v.pc = .recvName) :
      RecvCall v (.recv bytes) { v with filename := bytes, pc := .openFile } []
  | dataEnd
      (hpc : v.pc = .recvData) :
      RecvCall v (.recv [])
        { v with
          pc := .returned 0
          closedCfd := v.closedCfd + 1
          closedFd := v.closedFd + 1 }
        []
  | dataRead {bytes : List α}
      (hpc : v.pc = .recvData)
      (hne : bytes ≠ []) :
      RecvCall v (.recv bytes)
        { v with buf := bytes, retLen := bytes.length, pc := .write } []
  | fileOpened {ok : Bool}
      (hpc : v.pc = .openFile) :
      RecvCall v (.opened ok)
        { v with opened := ok, pc := .sendFlag, openArg := some v.filename } []
  | accepted
      (hpc : v.pc = .sendFlag)
      (hopened : v.opened = true) :
      RecvCall v .send { v with pc := .recvData } []
  | denied
      (hpc : v.pc = .sendFlag)
      (hopened : v.opened = false) :
      RecvCall v .send { v with pc := .returned (-1), closedCfd := v.closedCfd + 1 } []
  | writeError
      (hpc : v.pc = .write) :
      RecvCall v (.write none) v []
  | written {k : Nat}
      (hpc : v.pc = .write) :
      RecvCall v (.write (some k))
        { v with
          retLen := v.retLen - k
          pc := if v.retLen - k = 0 then .recvData else .write }
        (v.buf.take k)

theorem recvFile_call
    {v v' : Serv α} {r : ServResult α} {out : List α}
    (h : recvFile v r = some (v', out)) :
    RecvCall v r v' out := by
  unfold recvFile at h
  cases r with
  | eintr =>
      simp only at h
      split at h
      · cases h
        exact .interrupted
      · cases h
        exact .interrupted
      · cases h
  | recvError =>
      simp only at h
      split at h
      · rename_i hpc
        cases h
        exact .nameError hpc
      · rename_i hpc
        cases h
        exact .dataError hpc
      · cases h
  | recv bytes =>
      simp only at h
      split at h
      · rename_i hpc
        cases h
        exact .nameRead hpc
      · rename_i hpc
        split_ifs at h with hnil
        · subst hnil
          cases h
          exact .dataEnd hpc
        · cases h
          exact .dataRead hpc hnil
      · cases h
  | opened ok =>
      simp only at h
      split at h
      · rename_i hpc
        cases h
        exact .fileOpened hpc
      · cases h
  | send =>
      simp only at h
      split at h
      · rename_i hpc
        split_ifs at h with hopened
        · cases h
          exact .accepted hpc hopened
        · cases h
          exact .denied hpc (by simpa using hopened)
      · cases h
  | write ret =>
      simp only at h
      split at h
      · rename_i hpc
        cases h
        exact .writeError hpc
      · rename_i hpc
        cases h
        exact .written hpc
      · cases h

/-- The connection is closed on the server's side. -/
def Serv.closed (v : Serv α) : Bool :=
  0 < v.closedCfd || v.pc == .killed

/-- `recv_file` has returned or its process is gone. -/
def Serv.ended (v : Serv α) : Bool :=
  match v.pc with
  | .returned _ => true
  | .killed => true
  | _ => false

/-- The four bytes that the server sends. -/
def Serv.flag (v : Serv α) : List UInt8 :=
  if v.opened then flagOk else flagRefused

end Server

end FileTransfer
end SysProg
