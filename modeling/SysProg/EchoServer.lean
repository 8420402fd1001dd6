import SysProg.Lib.Run

/-!
# The echo servers inet_tcp_serv1.c, unix_tcp_serv.c and inet6_tcp_serv1.c of ALSP

A child accepts connections, and in each session sends back what it receives, at most 40 bytes
at a time.  The three programs have the same loop, with one difference: the IPv6 server writes a
0 into the last but one byte of what it has received, before it sends it back.

A failed `recv` ends the session without closing the descriptor.  A failed `send` closes it, and
the loop goes on; the next `recv` then fails.

**Steps.** `step` is one system call of a child, with its result as the label.  A write outside
`buf` leads to `undefined`.

**Results.** `inet6_agrees_iff`: the IPv6 server echoes a stream like the IPv4 server, and stays
inside `buf`, exactly if each part has at least two bytes, the last but one of them 0.
`closed_once_iff`: the descriptors of all ended sessions have been closed once, exactly if no
`recv` from an open descriptor failed with an error other than `EINTR`.
-/

namespace SysProg
namespace EchoServer

open Run

section Buffer

/-- `sizeof(buf)` -/
def bufSize : Nat := 40

structure Buffer where
  bytes : List UInt8
  length_eq : bytes.length = bufSize
deriving DecidableEq, Repr

/-- What a successful `recv` returns. -/
structure Chunk where
  bytes : List UInt8
  pos : 0 < bytes.length
  le : bytes.length ≤ bufSize
deriving DecidableEq, Repr

/-- The bytes go to the start of the buffer. -/
def Buffer.put (buf : Buffer) (chunk : Chunk) : Buffer where
  bytes := chunk.bytes ++ buf.bytes.drop chunk.bytes.length
  length_eq := by
    have hle := chunk.le
    rw [List.length_append, List.length_drop, buf.length_eq]
    omega

def Buffer.clear (buf : Buffer) (i : Nat) : Buffer where
  bytes := buf.bytes.set i 0
  length_eq := by
    rw [List.length_set, buf.length_eq]

end Buffer

section Program

inductive Server where
  | inet
  | unix
  | inet6
deriving DecidableEq, Repr

/-- The next system call of a child. -/
inductive Pc where
  | accept
  | recv
  | send
  | exited
  | undefined
deriving DecidableEq, Repr

structure Child where
  pc : Pc
  buf : Buffer
  retLen : Nat
  /-- the session's descriptor is open -/
  isOpen : Bool
  /-- calls of `close` with the session's descriptor -/
  closes : Nat
  /-- bytes sent in the session -/
  sent : List UInt8
  /-- for each session that has ended, its number of `close` calls -/
  ended : List Nat
deriving DecidableEq, Repr

inductive AcceptResult where
  | failed
  | accepted
  /-- the connection is accepted and `getnameinfo` fails -/
  | unnamed
deriving DecidableEq, Repr

inductive RecvResult where
  | eintr
  | error
  | eof
  | data (chunk : Chunk)
deriving DecidableEq, Repr

/-- A system call returns; `none` stands for -1. -/
inductive Label where
  | accept (ret : AcceptResult)
  | recv (ret : RecvResult)
  | send (ret : Option Nat)
deriving DecidableEq, Repr

/-- The index of the byte that the server sets to 0. -/
def editIndex (server : Server) (retLen : Nat) : Option Int :=
  match server with
  | .inet | .unix => none
  | .inet6 => some (retLen - 2)

def IndexInside (server : Server) (retLen : Nat) : Prop :=
  ∀ i ∈ editIndex server retLen, 0 ≤ i ∧ i < bufSize

instance (server : Server) (retLen : Nat) : Decidable (IndexInside server retLen) :=
  inferInstanceAs (Decidable (∀ i ∈ editIndex server retLen, 0 ≤ i ∧ i < bufSize))

def edit (server : Server) (retLen : Nat) (buf : Buffer) : Buffer :=
  match editIndex server retLen with
  | none => buf
  | some i => buf.clear i.toNat

/-- The loop is left, and the child accepts again. -/
def Child.finish (s : Child) : Child :=
  { s with pc := .accept, ended := s.ended ++ [s.closes] }

/-- `close(cfd)` -/
def Child.close (s : Child) : Child :=
  { s with isOpen := false, closes := s.closes + 1 }

def afterAccept (server : Server) (s : Child) : AcceptResult → Option Child
  | .failed => some s
  | .accepted => some { s with pc := .recv, isOpen := true, closes := 0, sent := [] }
  | .unnamed => if server = .inet6 then some { s with pc := .exited } else none

/-- What follows `recv`; on a closed descriptor it fails. -/
def afterRecv (server : Server) (s : Child) : RecvResult → Option Child
  | .eintr => some s
  | .error => some s.finish
  | .eof => if s.isOpen then some s.close.finish else none
  | .data chunk =>
      if s.isOpen then
        if IndexInside server chunk.bytes.length then
          some { s with
            pc := .send
            buf := edit server chunk.bytes.length (s.buf.put chunk)
            retLen := chunk.bytes.length }
        else some { s with pc := .undefined }
      else none

def afterSend (s : Child) : Option Nat → Option Child
  | none => some { s.close with pc := .recv }
  | some n =>
      if n ≤ s.retLen then some { s with pc := .recv, sent := s.sent ++ s.buf.bytes.take n }
      else none

def step (server : Server) (s : Child) (e : Label) : Option Child :=
  match s.pc, e with
  | .accept, .accept ret => afterAccept server s ret
  | .recv, .recv ret => afterRecv server s ret
  | .send, .send ret => afterSend s ret
  | _, _ => none

/-- A child before its first session. -/
def start (buf : Buffer) : Child := ⟨.accept, buf, 0, false, 0, [], []⟩

/-- A child in the session that it has just accepted. -/
def session (buf : Buffer) : Child := ⟨.recv, buf, 0, true, 0, [], []⟩

end Program

/-! ## The two versions of the echo -/

section Echo

variable {server : Server} {s t : Child} {buf : Buffer}

/-- The stream is received in these parts, and each is sent completely. -/
def echoLabels : List Chunk → List Label
  | [] => []
  | chunk :: chunks =>
      .recv (.data chunk) :: .send (some chunk.bytes.length) :: echoLabels chunks

def stream (chunks : List Chunk) : List UInt8 :=
  (chunks.map Chunk.bytes).flatten

/-- What the server makes of a part. -/
def edited (server : Server) (chunk : Chunk) : List UInt8 :=
  match editIndex server chunk.bytes.length with
  | none => chunk.bytes
  | some i => chunk.bytes.set i.toNat 0

/-- The child waits for the next part. -/
structure Waiting (s : Child) : Prop where
  pc : s.pc = .recv
  isOpen : s.isOpen = true

theorem length_edited
    (server : Server) (chunk : Chunk) :
    (edited server chunk).length = chunk.bytes.length := by
  unfold edited
  cases editIndex server chunk.bytes.length with
  | none =>
      rfl
  | some i =>
      simp

/-- What stands at the start of the buffer when it is sent. -/
theorem take_edit_put
    (server : Server) (buf : Buffer) (chunk : Chunk)
    (hinside : IndexInside server chunk.bytes.length) :
    (edit server chunk.bytes.length (buf.put chunk)).bytes.take chunk.bytes.length =
      edited server chunk := by
  have hpos := chunk.pos
  unfold edit edited
  cases hindex : editIndex server chunk.bytes.length with
  | none =>
      simp [Buffer.put]
  | some i =>
      have hlow := (hinside i hindex).1
      have hlt : i.toNat < chunk.bytes.length := by
        cases server with
        | inet => cases hindex
        | unix => cases hindex
        | inet6 =>
            simp only [editIndex, Option.some.injEq] at hindex
            omega
      simp only [Buffer.clear, Buffer.put]
      rw [List.set_append_left _ _ hlt]
      exact List.take_left' (List.length_set)

/-- One part is received and sent back. -/
theorem run_chunk
    (hs : Waiting s)
    {chunk : Chunk}
    (hinside : IndexInside server chunk.bytes.length) :
    ∃ m,
      Waiting m ∧
      m.sent = s.sent ++ edited server chunk ∧
      ∀ es,
        run (step server) s (.recv (.data chunk) :: .send (some chunk.bytes.length) :: es) =
          run (step server) m es := by
  refine ⟨{ s with
    pc := .recv
    buf := edit server chunk.bytes.length (s.buf.put chunk)
    retLen := chunk.bytes.length
    sent := s.sent ++ edited server chunk }, ⟨rfl, hs.isOpen⟩, rfl, ?_⟩
  intro es
  simp [step, hs.pc, afterRecv, hs.isOpen, hinside, afterSend,
    take_edit_put server s.buf chunk hinside]

/-- A stream is sent back with each part edited, if all writes are inside `buf`. -/
theorem run_echo
    (hs : Waiting s)
    (chunks : List Chunk)
    (hinside : ∀ chunk ∈ chunks, IndexInside server chunk.bytes.length) :
    ∃ t,
      run (step server) s (echoLabels chunks) = some t ∧
      t.sent = s.sent ++ (chunks.map (edited server)).flatten := by
  induction chunks generalizing s with
  | nil =>
      exact ⟨s, rfl, by simp⟩
  | cons chunk chunks ih =>
      rw [List.forall_mem_cons] at hinside
      obtain ⟨m, hm, hsent, hrun⟩ := run_chunk hs hinside.1
      obtain ⟨t, ht, hrest⟩ := ih hm hinside.2
      refine ⟨t, ?_, ?_⟩
      · rw [echoLabels, hrun, ht]
      · rw [hrest, hsent, List.map_cons, List.flatten_cons, List.append_assoc]

/-- Edits keep the lengths, so the streams are equal only if all parts are. -/
theorem flatten_edited_eq_iff
    (server : Server) (chunks : List Chunk) :
    (chunks.map (edited server)).flatten = stream chunks ↔
      ∀ chunk ∈ chunks, edited server chunk = chunk.bytes := by
  induction chunks with
  | nil =>
      simp [stream]
  | cons chunk chunks ih =>
      rw [List.forall_mem_cons, ← ih]
      simp only [stream, List.map_cons, List.flatten_cons]
      constructor
      · intro heq
        exact List.append_inj heq (length_edited server chunk)
      · rintro ⟨hhead, htail⟩
        rw [hhead, htail]

theorem indexInside_inet
    (retLen : Nat) :
    IndexInside .inet retLen := by
  intro i hi
  cases hi

theorem indexInside_inet6_iff
    (chunk : Chunk) :
    IndexInside .inet6 chunk.bytes.length ↔ 2 ≤ chunk.bytes.length := by
  have hle := chunk.le
  simp only [IndexInside, editIndex, Option.mem_some_iff, forall_eq']
  omega

theorem edited_inet6_eq_iff
    {chunk : Chunk}
    (hlength : 2 ≤ chunk.bytes.length) :
    edited .inet6 chunk = chunk.bytes ↔ chunk.bytes[chunk.bytes.length - 2]? = some 0 := by
  have hindex : ((chunk.bytes.length : Int) - 2).toNat = chunk.bytes.length - 2 := by omega
  have hlt : chunk.bytes.length - 2 < chunk.bytes.length := by omega
  simp only [edited, editIndex, hindex]
  constructor
  · intro heq
    rw [← heq]
    simp [hlt]
  · intro hzero
    obtain ⟨_, hget⟩ := List.getElem?_eq_some_iff.mp hzero
    rw [← hget]
    exact List.set_getElem_self hlt

/-- The IPv6 server processes the stream and sends the same as the IPv4 server: the stream. -/
def Agrees (buf : Buffer) (chunks : List Chunk) : Prop :=
  ∃ t6 t4,
    run (step .inet6) (session buf) (echoLabels chunks) = some t6 ∧
    run (step .inet) (session buf) (echoLabels chunks) = some t4 ∧
    t6.sent = t4.sent ∧
    t4.sent = stream chunks ∧
    ∀ chunk ∈ chunks, IndexInside .inet6 chunk.bytes.length

theorem waiting_session
    (buf : Buffer) :
    Waiting (session buf) :=
  ⟨rfl, rfl⟩

/-- The IPv4 server sends every stream back unchanged. -/
theorem inet_echoes
    (buf : Buffer) (chunks : List Chunk) :
    ∃ t,
      run (step .inet) (session buf) (echoLabels chunks) = some t ∧
      t.sent = stream chunks := by
  obtain ⟨t, hrun, hsent⟩ :=
    run_echo (waiting_session buf) chunks (fun chunk _ => indexInside_inet chunk.bytes.length)
  exact ⟨t, hrun, hsent⟩

/--
For every stream and every way to cut it: the IPv6 server sends back what the IPv4 server sends
back, the stream, and writes only inside `buf`, if and only if every part has at least two bytes
and the last but one is 0.
-/
theorem inet6_agrees_iff
    (buf : Buffer) (chunks : List Chunk) :
    Agrees buf chunks ↔
      ∀ chunk ∈ chunks,
        2 ≤ chunk.bytes.length ∧ chunk.bytes[chunk.bytes.length - 2]? = some 0 := by
  constructor
  · rintro ⟨t6, t4, hrun6, _, hsame, hstream, hinside⟩
    obtain ⟨t, hrun, hsent⟩ := run_echo (waiting_session buf) chunks hinside
    obtain rfl : t = t6 := by
      rw [hrun] at hrun6
      exact Option.some.inj hrun6
    have heq : (chunks.map (edited .inet6)).flatten = stream chunks := by
      rw [← hstream, ← hsame, hsent]
      rfl
    intro chunk hchunk
    have hlength := (indexInside_inet6_iff chunk).mp (hinside chunk hchunk)
    have hkept := (flatten_edited_eq_iff .inet6 chunks).mp heq chunk hchunk
    exact ⟨hlength, (edited_inet6_eq_iff hlength).mp hkept⟩
  · intro hzero
    have hinside : ∀ chunk ∈ chunks, IndexInside .inet6 chunk.bytes.length := by
      intro chunk hchunk
      exact (indexInside_inet6_iff chunk).mpr (hzero chunk hchunk).1
    have heq : (chunks.map (edited .inet6)).flatten = stream chunks := by
      rw [flatten_edited_eq_iff]
      intro chunk hchunk
      exact (edited_inet6_eq_iff (hzero chunk hchunk).1).mpr (hzero chunk hchunk).2
    obtain ⟨t6, hrun6, hsent6⟩ := run_echo (waiting_session buf) chunks hinside
    obtain ⟨t4, hrun4, hsent4⟩ := inet_echoes buf chunks
    refine ⟨t6, t4, hrun6, hrun4, ?_, hsent4, hinside⟩
    rw [hsent6, hsent4, heq]
    rfl

def blankBuffer : Buffer := ⟨List.replicate bufSize 0, List.length_replicate⟩

/-- The line `hi` with its line feed. -/
def hiChunk : Chunk := ⟨[104, 105, 10], by decide, by decide⟩

/-- Of a line of three bytes the second is lost. -/
theorem not_agrees_hi :
    ¬ Agrees blankBuffer [hiChunk] := by
  rintro ⟨t6, t4, hrun6, hrun4, hsame, _, _⟩
  cases hrun6
  cases hrun4
  exact absurd hsame (by decide)

end Echo

/-! ## Closing the descriptor -/

section Closing

variable {server : Server} {s t : Child} {e : Label} {es : List Label} {buf : Buffer}

/-- No `recv` from an open descriptor fails, other than with `EINTR`. -/
def NoFailure (s : Child) (e : Label) : Prop :=
  e = .recv .error → s.isOpen = false

instance (s : Child) (e : Label) : Decidable (NoFailure s e) :=
  inferInstanceAs (Decidable (_ → _))

/-- What a step does to the descriptor. -/
inductive Moves (s : Child) : Label → Child → Prop where
  /-- the session has not begun, or the process ends -/
  | idle (e : Label) (t : Child) :
      e ≠ .recv .error →
      t.pc ≠ .recv → t.pc ≠ .send →
      t.ended = s.ended →
      Moves s e t
  | begins (t : Child) :
      t.pc = .recv → t.isOpen = true → t.closes = 0 →
      t.ended = s.ended →
      Moves s (.accept .accepted) t
  | goesOn (e : Label) (t : Child) :
      e ≠ .recv .error →
      s.pc = .recv ∨ s.pc = .send →
      (t.pc = .send → t.isOpen = true) →
      t.isOpen = s.isOpen → t.closes = s.closes →
      t.ended = s.ended →
      Moves s e t
  | fails :
      s.pc = .recv →
      Moves s (.recv .error) s.finish
  | ends :
      s.pc = .recv → s.isOpen = true →
      Moves s (.recv .eof) s.close.finish
  | sendFails :
      s.pc = .send →
      Moves s (.send none) { s.close with pc := .recv }

theorem step_moves
    (h : step server s e = some t) :
    Moves s e t := by
  unfold step at h
  split at h
  case h_1 ret hpc =>
      cases ret with
      | failed =>
          cases h
          exact .idle _ _ (by simp) (by simp [hpc]) (by simp [hpc]) rfl
      | accepted =>
          cases h
          exact .begins _ rfl rfl rfl rfl
      | unnamed =>
          obtain ⟨_, hsome⟩ := Option.ite_none_right_eq_some.mp h
          cases hsome
          exact .idle _ _ (by simp) (by simp) (by simp) rfl
  case h_2 ret hpc =>
      cases ret with
      | eintr =>
          cases h
          exact .goesOn _ _ (by simp) (Or.inl hpc) (by simp [hpc]) rfl rfl rfl
      | error =>
          cases h
          exact .fails hpc
      | eof =>
          obtain ⟨hopen, hsome⟩ := Option.ite_none_right_eq_some.mp h
          cases hsome
          exact .ends hpc hopen
      | data chunk =>
          obtain ⟨hopen, hsome⟩ := Option.ite_none_right_eq_some.mp h
          split_ifs at hsome
          · cases hsome
            exact .goesOn _ _ (by simp) (Or.inl hpc) (fun _ => hopen) rfl rfl rfl
          · cases hsome
            exact .idle _ _ (by simp) (by simp) (by simp) rfl
  case h_3 ret hpc =>
      cases ret with
      | none =>
          cases h
          exact .sendFails hpc
      | some n =>
          obtain ⟨_, hsome⟩ := Option.ite_none_right_eq_some.mp h
          cases hsome
          exact .goesOn _ _ (by simp) (Or.inr hpc) (by simp) rfl rfl rfl
  case h_4 =>
      cases h

/-- In a session the descriptor has been closed once, or it is open. -/
structure ClosedOnce (s : Child) : Prop where
  ended : ∀ n ∈ s.ended, n = 1
  closes : s.pc = .recv ∨ s.pc = .send → s.closes = if s.isOpen then 0 else 1
  sending : s.pc = .send → s.isOpen = true

/-- Outside of a session only the ended ones count. -/
theorem closedOnce_of_outside
    (hended : ∀ n ∈ s.ended, n = 1)
    (hrecv : s.pc ≠ .recv)
    (hsend : s.pc ≠ .send) :
    ClosedOnce s := by
  refine ⟨hended, ?_, fun hpc => absurd hpc hsend⟩
  rintro (hpc | hpc)
  · exact absurd hpc hrecv
  · exact absurd hpc hsend

theorem closedOnce_finish
    (hended : ∀ n ∈ s.ended, n = 1)
    (hcloses : s.closes = 1) :
    ClosedOnce s.finish := by
  refine closedOnce_of_outside ?_ (by simp [Child.finish]) (by simp [Child.finish])
  intro n hn
  rcases List.mem_append.mp hn with hold | hnew
  · exact hended n hold
  · rw [List.mem_singleton.mp hnew, hcloses]

theorem closedOnce_step
    (hs : ClosedOnce s)
    (hG : NoFailure s e)
    (h : step server s e = some t) :
    ClosedOnce t := by
  cases step_moves h with
  | idle _ _ _ hrecv hsend hended =>
      exact closedOnce_of_outside (hended ▸ hs.ended) hrecv hsend
  | begins _ hpc hopen hcloses hended =>
      exact ⟨hended ▸ hs.ended, fun _ => by simp [hopen, hcloses], fun _ => hopen⟩
  | goesOn _ _ _ hpc hsending hopen hcloses hended =>
      refine ⟨hended ▸ hs.ended, ?_, hsending⟩
      intro _
      rw [hopen, hcloses]
      exact hs.closes hpc
  | fails hpc =>
      have hclosed := hG rfl
      have hcloses := hs.closes (Or.inl hpc)
      rw [hclosed] at hcloses
      exact closedOnce_finish hs.ended hcloses
  | ends hpc hopen =>
      have hcloses := hs.closes (Or.inl hpc)
      rw [hopen] at hcloses
      simp only [if_true] at hcloses
      have hclosed : s.close.closes = 1 := by
        rw [Child.close, hcloses]
      exact closedOnce_finish hs.ended hclosed
  | sendFails hpc =>
      have hcloses := hs.closes (Or.inr hpc)
      rw [hs.sending hpc] at hcloses
      refine ⟨hs.ended, ?_, ?_⟩
      · intro _
        simp [Child.close, hcloses]
      · intro hsend
        cases hsend

/-- Ended sessions stay in the list. -/
theorem mem_ended_step
    {n : Nat}
    (hn : n ∈ s.ended)
    (h : step server s e = some t) :
    n ∈ t.ended := by
  cases step_moves h with
  | idle _ _ _ _ _ hended =>
      rwa [hended]
  | begins _ _ _ _ hended =>
      rwa [hended]
  | goesOn _ _ _ _ _ _ _ hended =>
      rwa [hended]
  | fails =>
      exact List.mem_append_left _ hn
  | ends =>
      exact List.mem_append_left _ hn
  | sendFails =>
      exact hn

/-- A failure on an open descriptor ends a session that never closed it. -/
theorem ended_zero_of_failure
    (hs : ClosedOnce s)
    (hG : ¬ NoFailure s e)
    (h : step server s e = some t) :
    0 ∈ t.ended := by
  simp only [NoFailure, Classical.not_imp, Bool.not_eq_false] at hG
  obtain ⟨rfl, hopen⟩ := hG
  cases step_moves h with
  | idle _ _ hne =>
      exact absurd rfl hne
  | goesOn _ _ hne =>
      exact absurd rfl hne
  | fails hpc =>
      have hcloses := hs.closes (Or.inl hpc)
      rw [hopen] at hcloses
      simp only [if_true] at hcloses
      simp [Child.finish, hcloses]

theorem closedOnce_start
    (buf : Buffer) :
    ClosedOnce (start buf) := by
  refine closedOnce_of_outside ?_ (by simp [start]) (by simp [start])
  intro n hn
  cases hn

/--
Over all sequences of results, in any number of sessions: the descriptor of each ended session
has been closed exactly once, if and only if no `recv` from an open descriptor failed with an
error other than `EINTR`.
-/
theorem closed_once_iff
    (hrun : run (step server) (start buf) es = some t) :
    (∀ n ∈ t.ended, n = 1) ↔ Along (step server) NoFailure (start buf) es := by
  have hsplit :
      (Along (step server) NoFailure (start buf) es ∧ ClosedOnce t) ∨
        (¬ Along (step server) NoFailure (start buf) es ∧ 0 ∈ t.ended) :=
    good_or_bad
      (fun _ _ _ hs hG hstep => closedOnce_step hs hG hstep)
      (fun _ _ _ hs hG hstep => ended_zero_of_failure hs hG hstep)
      (fun _ _ _ hzero hstep => mem_ended_step hzero hstep)
      (closedOnce_start buf) hrun
  rcases hsplit with ⟨halong, hclosed⟩ | ⟨hnot, hzero⟩
  · exact iff_of_true hclosed.ended halong
  · refine iff_of_false ?_ hnot
    intro hall
    exact absurd (hall 0 hzero) (by omega)

/-- One session is ended by the peer, the other by a failed `send`. -/
def sendFailure : List Label :=
  [.accept .accepted, .recv (.data hiChunk), .send (some 3), .recv .eintr, .recv .eof,
    .accept .accepted, .recv (.data hiChunk), .send none, .recv .error]

theorem closed_once_sendFailure :
    ∃ t,
      run (step .inet) (start blankBuffer) sendFailure = some t ∧
      t.ended = [1, 1] ∧
      Along (step .inet) NoFailure (start blankBuffer) sendFailure :=
  ⟨_, rfl, rfl, (closed_once_iff rfl).mp (by decide)⟩

/-- The connection is reset: the session ends, and its descriptor stays open. -/
def resetSession : List Label :=
  [.accept .accepted, .recv .error]

theorem not_closed_once_resetSession :
    ∃ t,
      run (step .inet) (start blankBuffer) resetSession = some t ∧
      t.pc = .accept ∧
      ¬ ∀ n ∈ t.ended, n = 1 :=
  ⟨_, rfl, rfl, by decide⟩

end Closing
end EchoServer
end SysProg
