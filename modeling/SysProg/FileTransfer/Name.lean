import SysProg.FileTransfer.Connection
import SysProg.Lib.CString
import Mathlib.Tactic

/-!
# The name of the transferred file

The client sends the bare file name and waits for the flag.  The name has neither
a length nor a terminator on the wire: what the server's first `recv` returns is
taken for the name, and the rest of the stream for the content.

`opensName_iff_wholeName`: the server opens the client's name, and writes no byte
of it into the file, exactly when that `recv` returns the whole name.  The bytes
of the transfer carry their origin there, so that "a byte of the name" is a
property of a byte in the file and not of its value.
-/

namespace SysProg
namespace FileTransfer

open Run CString

universe u

variable {α : Type u} {s s' : Transfer α} {l : Label}

section Name

/-- The `recv` that takes the name returns all of it. -/
def WholeName (s : Transfer α) : Label → Prop
  | .servRecv (.count n) =>
      s.serv.pc = .recvName → n = s.clnt.filename.length
  | _ => True

instance (s : Transfer α) (l : Label) : Decidable (WholeName s l) := by
  unfold WholeName
  split <;> infer_instance

/-- While the server waits for the name, at most the name is under way. -/
structure NamePending (name : List α) (s : Transfer α) : Prop where
  toClient : s.toClient = []
  closed : s.serv.closed = false
  servBuf : s.serv.buf = []
  file : s.file = []
  openArg : s.serv.openArg = none
  waiting : s.clnt.inDataLoop = false
  sent : s.toServer <+: name

/-- What holds in every run, whatever is cut or fails. -/
structure HandshakeInv (name content : List α) (s : Transfer α) : Prop where
  filename : s.clnt.filename = name
  source : s.clnt.file = content
  silent : s.clnt.pc = .sendName → s.toServer = []
  clntBuf : ∀ b ∈ s.clnt.buf, b ∈ content
  pending : s.serv.pc = .recvName → NamePending name s

variable {name content : List α}

theorem start_handshakeInv
    (name content : List α) (flag : List UInt8) :
    HandshakeInv name content (Transfer.start name content flag) := by
  refine ⟨rfl, rfl, fun _ => rfl, by simp [Transfer.start, Clnt.start], ?_⟩
  intro _
  exact ⟨rfl, rfl, rfl, rfl, rfl, rfl, List.nil_prefix⟩

/-- The client cannot get past the flag while the server waits for the name. -/
theorem NamePending.no_flag
    (h : NamePending name s)
    {n : Nat}
    (hn : GivesSome 4 s.toClient.length s.serv.closed n) :
    False := by
  obtain ⟨_, havail, hzero⟩ := hn
  rw [h.toClient, List.length_nil] at havail
  have hclosed := (hzero (by omega)).2
  rw [h.closed] at hclosed
  simp at hclosed

/-- A client that waits or is gone has nothing to do with the data loop. -/
theorem NamePending.of_clnt
    (h : NamePending name s)
    (hserv : s'.serv = s.serv)
    (hclient : s'.toClient = s.toClient)
    (hfile : s'.file = s.file)
    (hloop : s'.clnt.inDataLoop = false)
    (hsent : s'.toServer <+: name) :
    NamePending name s' := by
  refine ⟨by rw [hclient, h.toClient], by rw [hserv, h.closed],
    by rw [hserv, h.servBuf], by rw [hfile, h.file], by rw [hserv, h.openArg],
    hloop, hsent⟩

/-- While the client is in its data loop the name has been taken. -/
theorem HandshakeInv.nameTaken_of_inDataLoop
    (hinv : HandshakeInv name content s)
    (hloop : s.clnt.inDataLoop = true) :
    s.serv.pc ≠ .recvName := by
  intro hserv
  rw [(hinv.pending hserv).waiting] at hloop
  exact Bool.false_ne_true hloop

theorem HandshakeInv.step
    (h : HandshakeInv name content s)
    (hmove : Moves s l s') :
    HandshakeInv name content s' := by
  cases hmove with
  | nameSent hpc =>
      refine ⟨h.filename, h.source, by simp, h.clntBuf, fun hserv => ?_⟩
      refine (h.pending hserv).of_clnt rfl rfl rfl rfl ?_
      simp [h.silent hpc, h.filename]
  | @nameCut k hpc hk =>
      refine ⟨h.filename, h.source, by simp, h.clntBuf, fun hserv => ?_⟩
      refine (h.pending hserv).of_clnt rfl rfl rfl rfl ?_
      simpa [h.silent hpc, h.filename] using List.take_prefix k name
  | clntError hl hpc =>
      refine ⟨h.filename, h.source, by simp, h.clntBuf, fun hserv => ?_⟩
      exact (h.pending hserv).of_clnt rfl rfl rfl rfl (h.pending hserv).sent
  | clntKilled hpc =>
      refine ⟨h.filename, h.source, by simp, h.clntBuf, fun hserv => ?_⟩
      exact (h.pending hserv).of_clnt rfl rfl rfl rfl (h.pending hserv).sent
  | flagRead hpc hn hflag hnext =>
      refine ⟨h.filename, h.source, ?_, h.clntBuf, fun hserv => ?_⟩
      · simp only [hnext]
        split_ifs <;> simp
      · exact ((h.pending hserv).no_flag hn).elim
  | fileEnd hpc hend =>
      have hserv := h.nameTaken_of_inDataLoop (by simp [Clnt.inDataLoop, hpc])
      exact ⟨h.filename, h.source, by simp, h.clntBuf, fun hp => absurd hp hserv⟩
  | chunkRead hpc hn hleft =>
      have hserv := h.nameTaken_of_inDataLoop (by simp [Clnt.inDataLoop, hpc])
      refine ⟨h.filename, h.source, by simp, ?_, fun hp => absurd hp hserv⟩
      intro b hb
      rw [← h.source]
      exact List.mem_of_mem_drop (List.mem_of_mem_take hb)
  | chunkSent hpc hk hnext =>
      have hserv := h.nameTaken_of_inDataLoop (by simp [Clnt.inDataLoop, hpc])
      refine ⟨h.filename, h.source, ?_, h.clntBuf, fun hp => absurd hp hserv⟩
      simp only [hnext]
      split_ifs <;> simp
  | servRetry hl =>
      exact h
  | nameRead hpc hn =>
      refine ⟨h.filename, h.source, ?_, h.clntBuf, by simp⟩
      intro hsend
      simp [h.silent hsend]
  | dataRead hpc hn hle =>
      refine ⟨h.filename, h.source, ?_, h.clntBuf, by simp⟩
      intro hsend
      simp [h.silent hsend]
  | chunkWritten hpc hk hnext =>
      refine ⟨h.filename, h.source, h.silent, h.clntBuf, ?_⟩
      simp only [hnext]
      split_ifs <;> simp
  | _ =>
      -- the other steps of the server end the wait for the name
      exact ⟨h.filename, h.source, h.silent, h.clntBuf, by simp⟩

/-- The server has taken `taken` for the name. -/
structure NameTaken (taken : List α) (s : Transfer α) : Prop where
  past : s.serv.pc ≠ .recvName
  filename : s.serv.filename = taken
  openArg : s.serv.openArg = none ∨ s.serv.openArg = some taken

theorem NameTaken.step
    {taken : List α}
    (h : NameTaken taken s)
    (hmove : Moves s l s') :
    NameTaken taken s' := by
  cases hmove with
  | nameError hpc =>
      exact absurd hpc h.past
  | nameRead hpc hn =>
      exact absurd hpc h.past
  | fileOpened hpc =>
      exact ⟨by simp, h.filename, Or.inr (by simp [h.filename])⟩
  | chunkWritten hpc hk hnext =>
      refine ⟨?_, h.filename, h.openArg⟩
      simp only [hnext]
      split_ifs <;> simp
  | servRetry hl =>
      exact h
  | _ =>
      exact ⟨by simp [h.past], h.filename, h.openArg⟩

theorem NameTaken.arg_eq
    {taken arg : List α}
    (h : NameTaken taken s)
    (hopen : s.serv.openArg = some arg) :
    arg = taken := by
  rcases h.openArg with hnone | hsome
  · rw [hnone] at hopen
    simp at hopen
  · rw [hsome] at hopen
    exact (Option.some.inj hopen).symm

/-- The bytes behind the name are all content. -/
structure ContentOnly (content : List α) (s : Transfer α) : Prop where
  sentName : s.clnt.pc ≠ .sendName
  toServer : ∀ b ∈ s.toServer, b ∈ content
  servBuf : ∀ b ∈ s.serv.buf, b ∈ content
  file : ∀ b ∈ s.file, b ∈ content

theorem ContentOnly.step
    (h : ContentOnly content s)
    (hbuf : ∀ b ∈ s.clnt.buf, b ∈ content)
    (hpast : s.serv.pc ≠ .recvName)
    (hmove : Moves s l s') :
    ContentOnly content s' := by
  cases hmove with
  | nameSent hpc =>
      exact absurd hpc h.sentName
  | nameCut hpc hk =>
      exact absurd hpc h.sentName
  | nameRead hpc hn =>
      exact absurd hpc hpast
  | flagRead hpc hn hflag hnext =>
      refine ⟨?_, h.toServer, h.servBuf, h.file⟩
      simp only [hnext]
      split_ifs <;> simp
  | chunkSent hpc hk hnext =>
      refine ⟨?_, ?_, h.servBuf, h.file⟩
      · simp only [hnext]
        split_ifs <;> simp
      · intro b hb
        rcases List.mem_append.mp hb with hold | hnew
        · exact h.toServer b hold
        · exact hbuf b (List.mem_of_mem_take hnew)
  | dataRead hpc hn hle =>
      refine ⟨h.sentName, ?_, ?_, h.file⟩
      · intro b hb
        exact h.toServer b (List.mem_of_mem_drop hb)
      · intro b hb
        exact h.toServer b (List.mem_of_mem_take hb)
  | chunkWritten hpc hk hnext =>
      refine ⟨h.sentName, h.toServer, h.servBuf, ?_⟩
      intro b hb
      rcases List.mem_append.mp hb with hold | hnew
      · exact h.file b hold
      · exact h.servBuf b (List.mem_of_mem_take hnew)
  | servRetry hl =>
      exact h
  | _ =>
      exact ⟨by simp [h.sentName], h.toServer, h.servBuf, h.file⟩

/--
The state of the name once its `recv` is known to be whole: still to come,
never received because `recv_file` returned before, or received.
-/
def NameKept (name content : List α) (s : Transfer α) : Prop :=
  s.serv.pc = .recvName ∨
  (s.serv.ended = true ∧ s.serv.openArg = none ∧ s.file = []) ∨
  (NameTaken name s ∧ ContentOnly content s)

/-- A whole name leaves nothing of it in the stream. -/
theorem HandshakeInv.whole_name
    (h : HandshakeInv name content s)
    {n : Nat}
    (hpc : s.serv.pc = .recvName)
    (hn : GivesSome (PATH_MAX - 1) s.toServer.length s.clnt.closed n)
    (hwhole : n = s.clnt.filename.length) :
    s.clnt.pc ≠ .sendName ∧ s.toServer.take n = name ∧ s.toServer.drop n = [] := by
  have hsent := (h.pending hpc).sent
  obtain ⟨_, havail, hzero⟩ := hn
  rw [h.filename] at hwhole
  have hall : s.toServer = name :=
    hsent.eq_of_length (le_antisymm hsent.length_le (by omega))
  refine ⟨?_, by simp [hall, hwhole], by simp [hall, hwhole]⟩
  intro hsend
  have hempty : name.length = 0 := by
    rw [← hall, h.silent hsend, List.length_nil]
  have hclosed := (hzero (by omega)).2
  simp [Clnt.closed, hsend] at hclosed

theorem NameKept.step
    (h : NameKept name content s)
    (hinv : HandshakeInv name content s)
    (hwhole : WholeName s l)
    (hmove : Moves s l s') :
    NameKept name content s' := by
  rcases h with hpc | ⟨hended, harg, hfile⟩ | ⟨htaken, honly⟩
  · have hp := hinv.pending hpc
    cases hmove with
    | nameError hname =>
        exact Or.inr (Or.inl ⟨rfl, hp.openArg, hp.file⟩)
    | servKilled hrunning =>
        exact Or.inr (Or.inl ⟨rfl, hp.openArg, hp.file⟩)
    | nameRead hname hn =>
        obtain ⟨hsent, htake, hdrop⟩ := hinv.whole_name hpc hn (hwhole hpc)
        refine Or.inr (Or.inr ⟨⟨by simp, htake, Or.inl hp.openArg⟩, ?_⟩)
        exact ⟨hsent, by simp [hdrop], by simp [hp.servBuf], by simp [hp.file]⟩
    | _ =>
        left
        simp_all
  · right
    left
    cases hmove with
    | chunkWritten hwrite hk hnext =>
        simp [Serv.ended, hwrite] at hended
    | _ =>
        first
          | exact ⟨hended, harg, hfile⟩
          | simp_all [Serv.ended]
  · exact Or.inr (Or.inr ⟨htaken.step hmove, honly.step hinv.clntBuf htaken.past hmove⟩)

theorem handshakeInv_of_run
    {flag : List UInt8} {es : List Label}
    (hrun : run step (Transfer.start name content flag) es = some s) :
    HandshakeInv name content s :=
  run_invariant (fun _ _ _ h hstep => h.step (step_moves hstep))
    (start_handshakeInv name content flag) hrun

theorem nameKept_of_run
    {flag : List UInt8} {es : List Label}
    (hrun : run step (Transfer.start name content flag) es = some s)
    (hwhole : Along step WholeName (Transfer.start name content flag) es) :
    NameKept name content s := by
  have h : HandshakeInv name content s ∧ NameKept name content s := by
    refine run_invariant_along
      (P := fun s => HandshakeInv name content s ∧ NameKept name content s)
      (G := WholeName) ?_ ⟨start_handshakeInv name content flag, Or.inl rfl⟩ hwhole hrun
    rintro s l s' ⟨hinv, hkept⟩ hG hstep
    exact ⟨hinv.step (step_moves hstep), hkept.step hinv hG (step_moves hstep)⟩
  exact h.2

/-- A `recv` that is not whole fixes a shorter name. -/
theorem nameTaken_of_not_wholeName
    (hinv : HandshakeInv name content s)
    (hG : ¬ WholeName s l)
    (hmove : Moves s l s') :
    ∃ taken, NameTaken taken s' ∧ taken.length < name.length := by
  cases hmove with
  | @nameRead n hpc hn =>
      refine ⟨s.toServer.take n, ⟨by simp, rfl, Or.inl (hinv.pending hpc).openArg⟩, ?_⟩
      have hne : n ≠ s.clnt.filename.length := by
        intro heq
        exact hG (fun _ => heq)
      have hsent := (hinv.pending hpc).sent.length_le
      have havail := hn.2.1
      rw [hinv.filename] at hne
      rw [List.length_take]
      omega
  | dataEnd hpc hempty hclosed =>
      exact absurd (fun hname => absurd (hpc.symm.trans hname) (by simp)) hG
  | dataRead hpc hn hle =>
      exact absurd (fun hname => absurd (hpc.symm.trans hname) (by simp)) hG
  | clntError hl hpc =>
      rcases hl with rfl | rfl | rfl <;> exact absurd trivial hG
  | servRetry hl =>
      rcases hl with rfl | rfl <;> exact absurd trivial hG
  | _ =>
      exact absurd trivial hG

/-- A run takes the whole name, or ends with a shorter one taken for it. -/
theorem nameTaken_or_wholeName
    {flag : List UInt8} {es : List Label}
    (hrun : run step (Transfer.start name content flag) es = some s) :
    Along step WholeName (Transfer.start name content flag) es ∨
      ∃ taken, NameTaken taken s ∧ taken.length < name.length := by
  rcases along_or_break WholeName hrun with halong |
    ⟨before, l, after, m, m', _, hbefore, hG, hstep, hafter⟩
  · exact Or.inl halong
  · obtain ⟨taken, htaken, hlt⟩ :=
      nameTaken_of_not_wholeName (handshakeInv_of_run hbefore) hG (step_moves hstep)
    exact Or.inr
      ⟨taken, run_invariant (fun _ _ _ h hs => h.step (step_moves hs)) htaken hafter, hlt⟩

/-- A server that holds as many bytes as the name has got the whole name. -/
theorem wholeName_of_length
    {flag : List UInt8} {es : List Label}
    (hrun : run step (Transfer.start name content flag) es = some s)
    (hlen : s.serv.filename.length = name.length) :
    Along step WholeName (Transfer.start name content flag) es := by
  rcases nameTaken_or_wholeName hrun with halong | ⟨taken, htaken, hlt⟩
  · exact halong
  · rw [htaken.filename] at hlen
    omega

end Name

section Origin

/-- Where a byte on the wire comes from. -/
inductive Origin where
  | name
  | content
deriving DecidableEq, Repr

def tag (origin : Origin) (bytes : List UInt8) : List (UInt8 × Origin) :=
  bytes.map (fun b => (b, origin))

/-- A transfer whose bytes carry their origin. -/
def taggedStart (name content flag : List UInt8) : Transfer (UInt8 × Origin) :=
  Transfer.start (tag .name name) (tag .content content) flag

@[simp] theorem map_fst_tag
    (origin : Origin) (bytes : List UInt8) :
    (tag origin bytes).map Prod.fst = bytes := by
  simp [tag, Function.comp_def]

@[simp] theorem length_tag
    (origin : Origin) (bytes : List UInt8) :
    (tag origin bytes).length = bytes.length := by
  simp [tag]

theorem snd_of_mem_tag
    {origin : Origin} {bytes : List UInt8} {b : UInt8 × Origin}
    (hb : b ∈ tag origin bytes) :
    b.2 = origin := by
  simp only [tag, List.mem_map] at hb
  obtain ⟨_, _, rfl⟩ := hb
  rfl

/--
The server opens the client's name, and writes nothing of it into the file,
exactly when the `recv` of the name returns all of it.
-/
theorem opensName_iff_wholeName
    {name content flag : List UInt8} {es : List Label}
    {s : Transfer (UInt8 × Origin)} {arg : List (UInt8 × Origin)}
    (hname : 0 ∉ name)
    (hrun : run step (taggedStart name content flag) es = some s)
    (hopen : s.serv.openArg = some arg) :
    (cstr (arg.map Prod.fst) = name ∧ ∀ b ∈ s.file, b.2 = .content) ↔
      Along step WholeName (taggedStart name content flag) es := by
  constructor
  · rintro ⟨hcstr, _⟩
    rcases nameTaken_or_wholeName hrun with halong | ⟨taken, htaken, hlt⟩
    · exact halong
    have hle := cstr_length_le (arg.map Prod.fst)
    rw [hcstr, htaken.arg_eq hopen, List.length_map] at hle
    rw [length_tag] at hlt
    omega
  · intro hwhole
    rcases nameKept_of_run hrun hwhole with hpc | ⟨_, harg, _⟩ | ⟨htaken, honly⟩
    · rw [((handshakeInv_of_run hrun).pending hpc).openArg] at hopen
      simp at hopen
    · rw [harg] at hopen
      simp at hopen
    · refine ⟨by rw [htaken.arg_eq hopen, map_fst_tag, cstr_eq_self hname], ?_⟩
      intro b hb
      exact snd_of_mem_tag (honly.file b hb)

/-- Name "ab" and content "xy", every call doing all it was asked for. -/
def wholeNameRun : List Label :=
  [.clntSend (some 2), .servRecv (.count 2), .servOpen true, .servSend 4,
    .clntRecv (some 4), .clntRead (some 2), .clntSend (some 2),
    .servRecv (.count 2), .servWrite (some 2)]

theorem opensName_of_wholeNameRun :
    ∃ s arg,
      run step (taggedStart [97, 98] [120, 121] [0, 0, 0, 0]) wholeNameRun = some s ∧
      s.serv.openArg = some arg ∧
      s.file.length = 2 ∧
      cstr (arg.map Prod.fst) = [97, 98] ∧
      ∀ b ∈ s.file, b.2 = .content :=
  ⟨_, _, rfl, rfl, rfl,
    (@opensName_iff_wholeName [97, 98] [120, 121] [0, 0, 0, 0] wholeNameRun _ _
      (by decide) rfl rfl).mpr (by decide)⟩

/-- The same name, of which the first `recv` returns one byte. -/
def splitNameRun : List Label :=
  [.clntSend (some 2), .servRecv (.count 1), .servOpen true, .servSend 4,
    .servRecv (.count 1), .servWrite (some 1)]

/-- The server opens "a" and writes the second byte of the name into it. -/
theorem splitName_opensOther :
    ∃ s arg,
      run step (taggedStart [97, 98] [120, 121] [0, 0, 0, 0]) splitNameRun = some s ∧
      s.serv.openArg = some arg ∧
      cstr (arg.map Prod.fst) ≠ [97, 98] ∧
      ∃ b ∈ s.file, b.2 = .name :=
  ⟨_, _, rfl, rfl, by decide, (98, .name), by decide, rfl⟩

end Origin

end FileTransfer
end SysProg
