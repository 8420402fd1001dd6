import SysProg.FileTransfer.Completion
import SysProg.FileTransfer.Name
import SysProg.FileTransfer.Parametric
import SysProg.Lib.RestartPipe
import Mathlib.Tactic

/-!
# The content of the transferred file

Both inner loops count down what is left of a chunk, and both hand the buffer to
the next call from its beginning: `send(sfd, buf, ret_read, 0)` and
`write(fd, buf, ret_len)`.  A transfer is a pipe whose stages start over
(`pipe_step`), so one short result is enough to spoil the file.

`content_iff_noShort`: a schedule in which both functions return 0 carries every
file of its length over unchanged exactly when no `send` of the data loop and no
`write` of it is short.
-/

namespace SysProg
namespace FileTransfer

open Run RestartPipe

universe u

variable {α : Type u} {s s' : Transfer α} {l : Label}

section Pipe

/-- Neither inner loop needs a second call. -/
def NoShort (s : Transfer α) : Label → Prop
  | .clntSend (some k) => s.clnt.pc = .send → k = s.clnt.retRead
  | .servWrite (some k) => k = s.serv.retLen
  | _ => True

instance (s : Transfer α) (l : Label) : Decidable (NoShort s l) :=
  match l with
  | .clntSend (some k) => inferInstanceAs (Decidable (s.clnt.pc = .send → k = s.clnt.retRead))
  | .servWrite (some k) => inferInstanceAs (Decidable (k = s.serv.retLen))
  | .clntSend none | .servWrite none | .clntRecv _ | .clntRead _ | .clntKilled | .servRecv _
  | .servOpen _ | .servSend _ | .servKilled => .isTrue trivial

/-- The data path; before the name has been taken it holds no content. -/
def Transfer.pipe (s : Transfer α) : Pipe α where
  out := s.file
  held := s.serv.buf
  heldLeft := s.serv.retLen
  stream := if s.serv.pc = .recvName then [] else s.toServer
  chunk := s.clnt.buf
  chunkLeft := s.clnt.retRead
  rest := s.clnt.file.drop s.clnt.offset

/-- `recv_file` returned -1 or its process ended. -/
def Serv.failed (v : Serv α) : Bool :=
  match v.pc with
  | .returned ret => ret != 0
  | .killed => true
  | _ => false

/-- One of the two functions will not return 0. -/
def Stopped (s : Transfer α) : Prop :=
  s.clnt.lost = true ∨ s.serv.failed = true

theorem Serv.ended_of_failed
    {v : Serv α}
    (h : v.failed = true) :
    v.ended = true := by
  unfold Serv.failed at h
  unfold Serv.ended
  split at h <;> simp_all

theorem Stopped.step
    (h : Stopped s)
    (hmove : Moves s l s') :
    Stopped s' := by
  rcases h with hlost | hfailed
  · left
    rw [clnt_eq_of_closed (Clnt.closed_of_lost hlost) hmove]
    exact hlost
  · right
    rw [serv_eq_of_ended (Serv.ended_of_failed hfailed) hmove]
    exact hfailed

/-- The counters of the inner loops are positive inside them and zero outside. -/
structure Loops (s : Transfer α) : Prop where
  sending : s.clnt.pc = .send → 0 < s.clnt.retRead ∧ s.clnt.retRead ≤ s.clnt.buf.length
  notSending : s.clnt.pc ≠ .send → s.clnt.retRead = 0
  writing : s.serv.pc = .write → 0 < s.serv.retLen
  notWriting : s.serv.pc ≠ .write → s.serv.retLen = 0
  nameFirst : s.clnt.pc = .sendName → s.serv.pc = .recvName

/-- The outcome of a step for the data path. -/
def PipeStep (s : Transfer α) (l : Label) (s' : Transfer α) : Prop :=
  Stopped s' ∨
  (Loops s' ∧
    ∃ op, exec s.pipe op = some s'.pipe ∧ (Full s.pipe op ↔ NoShort s l))

variable {name content : List α}

/-- A step of the server between its loops moves nothing in the pipe. -/
theorem pipeStep_of_serv
    (h : Loops s)
    {v : Serv α}
    (toClient : List UInt8)
    (hpc : s.serv.pc ≠ .recvName ∧ s.serv.pc ≠ .write)
    (hnext : v.pc ≠ .recvName ∧ v.pc ≠ .write)
    (hbuf : v.buf = s.serv.buf)
    (hlen : v.retLen = s.serv.retLen)
    (hG : NoShort s l) :
    PipeStep s l { s with serv := v, toClient := toClient } := by
  have hleft := h.notWriting hpc.2
  refine Or.inr ⟨⟨h.sending, h.notSending, ?_, ?_, ?_⟩, .idle, ?_, iff_of_true trivial hG⟩
  · exact fun hwrite => absurd hwrite hnext.2
  · exact fun _ => hlen.trans hleft
  · exact fun hname => absurd (h.nameFirst hname) hpc.1
  · simp [exec, Transfer.pipe, hpc.1, hnext.1, hbuf, hlen]

/-- The client's inner loop ends when nothing is left of the buffer. -/
theorem pipeStep_chunkSent
    (hinv : HandshakeInv name content s)
    (h : Loops s)
    {k : Nat} {pc : ClntPc} {sends : List (List α)}
    (hpc : s.clnt.pc = .send)
    (hk : TakesSome (s.clnt.buf.take s.clnt.retRead).length (some k))
    (hnext : pc = if s.clnt.retRead - k = 0 then .read else .send) :
    PipeStep s (.clntSend (some k))
      { s with
        clnt := { s.clnt with retRead := s.clnt.retRead - k, pc := pc, sends := sends }
        toServer := s.toServer ++ s.clnt.buf.take k } := by
  obtain ⟨hpos, hle⟩ := h.sending hpc
  have hserv := hinv.nameTaken_of_inDataLoop (by simp [Clnt.inDataLoop, hpc])
  rw [List.length_take, Nat.min_eq_left hle] at hk
  obtain ⟨hk, hkpos⟩ := hk
  refine Or.inr ⟨⟨?_, ?_, h.writing, h.notWriting, ?_⟩, .send k, ?_, ?_⟩
  · simp only [hnext]
    split_ifs with hzero
    · simp
    · intro _
      omega
  · simp only [hnext]
    split_ifs with hzero
    · exact fun _ => hzero
    · simp
  · simp only [hnext]
    split_ifs <;> simp
  · simp [exec, Transfer.pipe, hserv, hkpos hpos, hk]
  · simp [Full, NoShort, Transfer.pipe, hpc]

/-- The server's inner loop ends when nothing is left of the buffer. -/
theorem pipeStep_chunkWritten
    (h : Loops s)
    {k : Nat} {pc : ServPc}
    (hpc : s.serv.pc = .write)
    (hk : TakesSome s.serv.retLen (some k))
    (hnext : pc = if s.serv.retLen - k = 0 then .recvData else .write) :
    PipeStep s (.servWrite (some k))
      { s with
        serv := { s.serv with retLen := s.serv.retLen - k, pc := pc }
        file := s.file ++ s.serv.buf.take k } := by
  have hpos := h.writing hpc
  obtain ⟨hk, hkpos⟩ := hk
  refine Or.inr ⟨⟨h.sending, h.notSending, ?_, ?_, ?_⟩, .write k, ?_, by rfl⟩
  · simp only [hnext]
    split_ifs with hzero
    · simp
    · intro _
      omega
  · simp only [hnext]
    split_ifs with hzero
    · exact fun _ => hzero
    · simp
  · exact fun hname => absurd (h.nameFirst hname) (by simp [hpc])
  · have hpast : pc ≠ .recvName := by
      rw [hnext]
      split_ifs <;> simp
    simp [exec, Transfer.pipe, hpc, hpast, hkpos hpos, hk]

/-- Every step is a call of a stage of the pipe, unless it stops the transfer. -/
theorem pipe_step
    (hinv : HandshakeInv name content s)
    (h : Loops s)
    (hwhole : WholeName s l)
    (hmove : Moves s l s') :
    PipeStep s l s' := by
  cases hmove with
  | nameSent hpc =>
      have hserv := h.nameFirst hpc
      have hleft := h.notSending (by simp [hpc])
      refine Or.inr ⟨⟨by simp, fun _ => hleft, h.writing, h.notWriting, by simp⟩, .idle, ?_, ?_⟩
      · simp [exec, Transfer.pipe, hserv]
      · simp [Full, NoShort, hpc]
  | nameCut hpc hk =>
      exact Or.inl (Or.inl rfl)
  | clntError hl hpc =>
      exact Or.inl (Or.inl rfl)
  | flagRead hpc hn hflag hnext =>
      have hleft := h.notSending (by simp [hpc])
      refine Or.inr ⟨⟨?_, fun _ => hleft, h.writing, h.notWriting, ?_⟩, .idle, rfl, by rfl⟩
      · simp only [hnext]
        split_ifs <;> simp
      · simp only [hnext]
        split_ifs <;> simp
  | fileEnd hpc hend =>
      have hleft := h.notSending (by simp [hpc])
      exact Or.inr
        ⟨⟨by simp, fun _ => hleft, h.writing, h.notWriting, by simp⟩, .idle, rfl, by rfl⟩
  | @chunkRead n hpc hn hleft =>
      have hzero := h.notSending (by simp [hpc])
      have hlen : n ≤ (s.clnt.file.drop s.clnt.offset).length := by
        rw [List.length_drop]
        omega
      refine Or.inr ⟨⟨?_, by simp, h.writing, h.notWriting, by simp⟩, .load n, ?_, by rfl⟩
      · intro _
        exact ⟨hn, by rw [List.length_take, Nat.min_eq_left hlen]⟩
      · simp [exec, Transfer.pipe, hzero, List.drop_drop]
        omega
  | chunkSent hpc hk hnext =>
      exact pipeStep_chunkSent hinv h hpc hk hnext
  | clntKilled hpc =>
      exact Or.inl (Or.inl rfl)
  | servRetry hl =>
      refine Or.inr ⟨h, .idle, rfl, ?_⟩
      rcases hl with rfl | rfl <;> rfl
  | nameError hpc =>
      exact Or.inl (Or.inr rfl)
  | nameRead hpc hn =>
      have hleft := h.notWriting (by simp [hpc])
      obtain ⟨hsent, _, hdrop⟩ := hinv.whole_name hpc hn (hwhole hpc)
      refine Or.inr ⟨⟨h.sending, h.notSending, by simp, fun _ => hleft, ?_⟩, .idle, ?_, by rfl⟩
      · exact fun hpc => absurd hpc hsent
      · simp [exec, Transfer.pipe, hpc, hdrop]
  | fileOpened hpc =>
      exact pipeStep_of_serv h _ (by simp [hpc]) (by simp) rfl rfl trivial
  | flagAccepted hpc hopened =>
      exact pipeStep_of_serv h _ (by simp [hpc]) (by simp) rfl rfl trivial
  | flagDenied hpc hopened =>
      exact Or.inl (Or.inr rfl)
  | dataError hpc =>
      exact Or.inl (Or.inr rfl)
  | dataEnd hpc hempty hclosed =>
      exact pipeStep_of_serv h _ (by simp [hpc]) (by simp) rfl rfl trivial
  | @dataRead n hpc hn hle =>
      have hleft := h.notWriting (by simp [hpc])
      refine Or.inr ⟨⟨h.sending, h.notSending, fun _ => hn, by simp, ?_⟩, .recv n, ?_, by rfl⟩
      · exact fun hname => absurd (h.nameFirst hname) (by simp [hpc])
      · simp [exec, Transfer.pipe, hpc, hleft, hle]
  | chunkWritten hpc hk hnext =>
      exact pipeStep_chunkWritten h hpc hk hnext
  | servKilled hpc =>
      exact Or.inl (Or.inr rfl)

theorem start_loops
    (name content : List α) (flag : List UInt8) :
    Loops (Transfer.start name content flag) := by
  refine ⟨?_, fun _ => rfl, ?_, fun _ => rfl, fun _ => rfl⟩
  · simp [Transfer.start, Clnt.start]
  · simp [Transfer.start, Serv.start]

theorem start_contents
    (name content : List α) (flag : List UInt8) :
    (Transfer.start name content flag).pipe.contents = content := by
  simp [Transfer.pipe, Pipe.contents, Transfer.start, Clnt.start, Serv.start]

theorem stopped_of_run
    {t : Transfer α} {es : List Label}
    (h : Stopped s)
    (hrun : run step s es = some t) :
    Stopped t :=
  run_invariant (fun _ _ _ h hstep => h.step (step_moves hstep)) h hrun

/-- What the calls of a pipe keep, a transfer keeps until it stops. -/
theorem pipe_invariant
    {P : Pipe α → Prop} {G : Transfer α → Label → Prop}
    {t : Transfer α} {es : List Label}
    (hP : ∀ (s : Transfer α) l op p',
      P s.pipe → G s l → exec s.pipe op = some p' →
      (Full s.pipe op ↔ NoShort s l) → P p')
    (hinv : HandshakeInv name content s)
    (hloops : Loops s)
    (hpipe : P s.pipe)
    (hwhole : Along step WholeName s es)
    (hG : Along step G s es)
    (hrun : run step s es = some t) :
    Stopped t ∨ (Loops t ∧ P t.pipe) := by
  have h : Stopped t ∨ (HandshakeInv name content t ∧ Loops t ∧ P t.pipe) := by
    refine run_invariant_along
      (P := fun s => Stopped s ∨ (HandshakeInv name content s ∧ Loops s ∧ P s.pipe))
      ?_ (Or.inr ⟨hinv, hloops, hpipe⟩) (along_and hwhole hG) hrun
    rintro a e b (hstopped | ⟨ha, hloopsa, hpipea⟩) ⟨hw, hg⟩ hstep
    · exact Or.inl (hstopped.step (step_moves hstep))
    · rcases pipe_step ha hloopsa hw (step_moves hstep) with
        hstop | ⟨hloopsb, op, hexec, hfull⟩
      · exact Or.inl hstop
      · exact Or.inr ⟨ha.step (step_moves hstep), hloopsb, hP a e op _ hpipea hg hexec hfull⟩
  rcases h with hstopped | ⟨_, hkept⟩
  · exact Or.inl hstopped
  · exact Or.inr hkept

/-- Both functions have returned 0. -/
structure BothReturned (s : Transfer α) : Prop where
  clnt : s.clnt.pc = .returned
  serv : s.serv.pc = .returned 0

theorem BothReturned.not_stopped
    (h : BothReturned s) :
    ¬ Stopped s := by
  rintro (hlost | hfailed)
  · simp [Clnt.lost, h.clnt] at hlost
  · simp [Serv.failed, h.serv] at hfailed

variable {flag : List UInt8} {es : List Label}

/-- When both have returned, all that the pipe held is in the file. -/
theorem BothReturned.contents_eq
    (h : BothReturned s)
    (hrun : run step (Transfer.start name content flag) es = some s)
    (hloops : Loops s) :
    s.pipe.contents = s.file := by
  have hread := hloops.notSending (by simp [h.clnt])
  have hlen := hloops.notWriting (by simp [h.serv])
  have hempty := (endSeen_of_run hrun h.serv).2
  have hoffset := (dataLoop_of_run hrun).atEnd h.clnt
  simp [Transfer.pipe, Pipe.contents, hread, hlen, hempty, hoffset]

/-- Without short results the file arrives as it is. -/
theorem file_eq_of_noShort
    (hrun : run step (Transfer.start name content flag) es = some s)
    (hlen : s.serv.filename.length = name.length)
    (hdone : BothReturned s)
    (hfull : Along step NoShort (Transfer.start name content flag) es) :
    s.file = content := by
  have h : Stopped s ∨ (Loops s ∧ s.pipe.contents = content) := by
    refine pipe_invariant (P := fun p => p.contents = content) ?_
      (start_handshakeInv name content flag) (start_loops name content flag)
      (start_contents name content flag) (wholeName_of_length hrun hlen) hfull hrun
    intro a e op p' ha hg hexec hiff
    rw [contents_eq_of_full hexec (hiff.mpr hg)]
    exact ha
  rcases h with hstopped | ⟨hloops, hcontents⟩
  · exact absurd hstopped hdone.not_stopped
  · rw [← hdone.contents_eq hrun hloops, hcontents]

end Pipe

section Positions

variable {name : List Nat} {flag : List UInt8} {es : List Label} {n : Nat}
variable {s : Transfer Nat}

theorem start_lagging
    (name : List Nat) (n : Nat) (flag : List UInt8) :
    Lagging (Transfer.start name (List.range n) flag).pipe := by
  refine ⟨Nat.zero_le _, Nat.zero_le _, ?_, trivial, trivial⟩
  rw [start_contents, List.range_eq_range']
  exact lags_range' 0 n

/-- A short result leaves a byte of the file behind its place. -/
theorem noShort_of_not_slips
    (hrun : run step (Transfer.start name (List.range n) flag) es = some s)
    (hlen : s.serv.filename.length = name.length)
    (hdone : BothReturned s)
    (hfile : ¬ Slips 0 s.file) :
    Along step NoShort (Transfer.start name (List.range n) flag) es := by
  rcases along_or_break NoShort hrun with halong |
    ⟨before, e, after, m, m', heq, hbefore, hG, hstep, hafter⟩
  · exact halong
  exfalso
  have hwhole := wholeName_of_length hrun hlen
  rw [heq] at hwhole
  have hinv := handshakeInv_of_run hbefore
  have hm : Stopped m ∨ (Loops m ∧ Lagging m.pipe) :=
    pipe_invariant (G := fun _ _ => True) (fun _ _ _ _ ha _ hexec _ => ha.exec hexec)
      (start_handshakeInv name (List.range n) flag) (start_loops _ _ flag)
      (start_lagging name n flag) (along_of_append hwhole)
      (along_of_forall_mem (fun _ _ => trivial) _) hbefore
  have hrest : run step m (e :: after) = some s := by
    simp [hstep, hafter]
  rcases hm with hstopped | ⟨hloops, hlag⟩
  · exact hdone.not_stopped (stopped_of_run hstopped hrest)
  have htail := along_suffix hwhole hbefore
  have hwholem' : Along step WholeName m' after := by
    have hnext := htail.2
    rwa [hstep] at hnext
  rcases pipe_step hinv hloops htail.1 (step_moves hstep) with
    hstopped | ⟨hloops', op, hexec, hiff⟩
  · exact hdone.not_stopped (stopped_of_run hstopped hafter)
  -- from here on the pipe holds a byte that is behind its place
  have hslip : Lagging m'.pipe ∧ Slips 0 m'.pipe.contents :=
    ⟨hlag.exec hexec, slips_of_not_full hlag hexec (fun hfull => hG (hiff.mp hfull))⟩
  have hend : Stopped s ∨ (Loops s ∧ Lagging s.pipe ∧ Slips 0 s.pipe.contents) := by
    refine pipe_invariant (P := fun p => Lagging p ∧ Slips 0 p.contents)
      (G := fun _ _ => True) ?_ (hinv.step (step_moves hstep)) hloops' hslip hwholem'
      (along_of_forall_mem (fun _ _ => trivial) _) hafter
    rintro a f op' p' ⟨hlaga, hslipa⟩ _ hexec' _
    exact ⟨hlaga.exec hexec', slips_exec hlaga hslipa hexec'⟩
  rcases hend with hstopped | ⟨hloopss, _, hslips⟩
  · exact hdone.not_stopped hstopped
  · rw [hdone.contents_eq hrun hloopss] at hslips
    exact hfile hslips

end Positions

section Bytes

/-- The byte at a position of the content, and behind it of the name. -/
def byteAt (content name : List UInt8) (i : Nat) : UInt8 :=
  (content ++ name).getD i 0

variable {name content flag : List UInt8} {es : List Label}

theorem map_byteAt_range
    (content name : List UInt8) :
    (List.range content.length).map (byteAt content name) = content := by
  apply List.ext_getElem
  · simp
  · intro i hi hi'
    simp [byteAt, List.getElem?_append_left hi', List.getElem?_eq_getElem hi']

theorem map_byteAt_range'
    (content name : List UInt8) :
    (List.range' content.length name.length).map (byteAt content name) = name := by
  apply List.ext_getElem
  · simp
  · intro i hi hi'
    simp [byteAt, List.getElem?_append_right, List.getElem?_eq_getElem hi']

/-- The transfer in which every byte is its position. -/
def positionsStart (n m : Nat) (flag : List UInt8) : Transfer Nat :=
  Transfer.start (List.range' n m) (List.range n) flag

theorem start_eq_map
    (name content flag : List UInt8) :
    Transfer.start name content flag =
      (positionsStart content.length name.length flag).map (byteAt content name) := by
  simp [positionsStart, Transfer.start, Transfer.map, Clnt.map, Serv.map, Clnt.start,
    Serv.start, map_byteAt_range, map_byteAt_range']

/-- The run of a transfer is that of its positions, with the bytes put in. -/
theorem run_start
    (name content flag : List UInt8) (es : List Label) :
    run step (Transfer.start name content flag) es =
      (run step (positionsStart content.length name.length flag) es).map
        (Transfer.map (byteAt content name)) := by
  rw [start_eq_map, run_map _ (step_map (byteAt content name))]

theorem along_noShort_start
    (name content flag : List UInt8) (es : List Label) :
    Along step NoShort (Transfer.start name content flag) es ↔
      Along step NoShort (positionsStart content.length name.length flag) es := by
  rw [start_eq_map]
  refine along_map_iff _ (step_map (byteAt content name)) ?_ _ _
  intro s l
  cases l <;> rfl

/-- The content that marks one position. -/
def marked (n i : Nat) : List UInt8 :=
  (List.range n).map (fun j => if j = i then 1 else 0)

/-- Positions behind their place show on some content. -/
theorem not_slips_of_forall_content
    (name : List UInt8) (n : Nat)
    {file : List Nat}
    (h : ∀ content : List UInt8,
      content.length = n → file.map (byteAt content name) = content) :
    ¬ Slips 0 file := by
  intro hslips
  obtain ⟨i, x, hx, hlt⟩ := hslips.exists_getElem?
  have heq := congrArg (fun l => l[i]?) (h (marked n i) (by simp [marked]))
  simp only [List.getElem?_map, hx, Option.map_some] at heq
  have hi : i < n := by
    by_contra hge
    simp [marked, hge] at heq
  have hxn : x < n := by omega
  have hbyte : byteAt (marked n i) name x = 0 := by
    simp [byteAt, marked, hxn, List.getElem?_append_left]
    omega
  rw [hbyte] at heq
  simp [marked, hi] at heq

/--
A schedule in which both functions return 0 after a complete handshake carries
every content of its length over exactly when it has no short result.
-/
theorem content_iff_noShort
    {s : Transfer UInt8}
    (hrun : run step (Transfer.start name content flag) es = some s)
    (hname : s.serv.filename = name)
    (hdone : BothReturned s) :
    (∀ c : List UInt8, c.length = content.length →
        ∃ s', run step (Transfer.start name c flag) es = some s' ∧ s'.file = c) ↔
      Along step NoShort (Transfer.start name content flag) es := by
  rw [run_start, Option.map_eq_some_iff] at hrun
  obtain ⟨s₀, hrun₀, hs⟩ := hrun
  have hdone₀ : BothReturned s₀ := by
    rw [← hs] at hdone
    exact ⟨hdone.clnt, hdone.serv⟩
  have hlen₀ : s₀.serv.filename.length = (List.range' content.length name.length).length := by
    rw [List.length_range', ← hname, ← hs]
    exact (List.length_map _).symm
  have hrun_c : ∀ c : List UInt8, c.length = content.length →
      run step (Transfer.start name c flag) es = some (s₀.map (byteAt c name)) := by
    intro c hc
    rw [run_start, hc, hrun₀]
    rfl
  rw [along_noShort_start]
  constructor
  · intro hall
    refine noShort_of_not_slips hrun₀ hlen₀ hdone₀ ?_
    refine not_slips_of_forall_content name content.length ?_
    intro c hc
    obtain ⟨s', hs', hfile⟩ := hall c hc
    rw [hrun_c c hc, Option.some.injEq] at hs'
    rw [← hs'] at hfile
    exact hfile
  · intro hfull c hc
    refine ⟨_, hrun_c c hc, ?_⟩
    have hfile : s₀.file = List.range content.length :=
      file_eq_of_noShort hrun₀ hlen₀ hdone₀ hfull
    have hbytes := map_byteAt_range c name
    rw [hc, ← hfile] at hbytes
    exact hbytes

/-- Three bytes in two chunks; every call takes what it is given. -/
def fullResultsRun : List Label :=
  [.clntSend (some 1), .servRecv (.count 1), .servOpen true, .servSend 4,
    .clntRecv (some 4), .clntRead (some 2), .clntSend (some 2), .clntRead (some 1),
    .clntSend (some 1), .clntRead (some 0), .servRecv (.count 3), .servWrite (some 3),
    .servRecv (.count 0)]

theorem content_of_fullResultsRun :
    ∃ s : Transfer UInt8,
      run step (Transfer.start [97] [4, 5, 6] [0, 0, 0, 0]) fullResultsRun = some s ∧
      s.file = [4, 5, 6] :=
  (@content_iff_noShort [97] [1, 2, 3] [0, 0, 0, 0] fullResultsRun _ rfl rfl
    ⟨rfl, rfl⟩).mpr (by decide) [4, 5, 6] rfl

/-- The `send` of a chunk of two bytes takes one byte at a time. -/
def shortSendRun : List Label :=
  [.clntSend (some 1), .servRecv (.count 1), .servOpen true, .servSend 4,
    .clntRecv (some 4), .clntRead (some 2), .clntSend (some 1), .clntSend (some 1),
    .clntRead (some 0), .servRecv (.count 2), .servWrite (some 2),
    .servRecv (.count 0)]

/-- The file "ab" arrives as "aa", and both functions return 0. -/
theorem shortSend_spoilsFile :
    ∃ s : Transfer UInt8,
      run step (Transfer.start [102] [97, 98] [0, 0, 0, 0]) shortSendRun = some s ∧
      s.serv.filename = [102] ∧
      s.clnt.pc = .returned ∧
      s.serv.pc = .returned 0 ∧
      s.file = [97, 97] :=
  ⟨_, rfl, rfl, rfl, rfl, rfl⟩

end Bytes

end FileTransfer
end SysProg
