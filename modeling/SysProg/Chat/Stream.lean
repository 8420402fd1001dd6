import SysProg.Chat.Server
import SysProg.Lib.Lines
import Mathlib.Tactic

/-!
# What the chat server relays of a client's stream

A client sends lines, and a line with "exit" in it ends its part in the chat.  The
server knows no lines: it looks for "exit" in the C string of every chunk that
`recv` returns, and drops the whole chunk with the client.

`beforeExit` is the intended meaning, the lines before the first one that contains
"exit"; `relay` is what the server makes of a stream cut into chunks, and
`casts_eq_relay` connects it to the runs of the server.

`broadcast_iff_exitAligned`: the two agree exactly if no line contains "exit", or a
chunk starts with the first such line and the server finds "exit" in that chunk.
-/

namespace SysProg
namespace Chat

open Run CString Lines SlotTable

section Relay

/-- The bytes of the lines before the first line that contains "exit". -/
def beforeExit (stream : List UInt8) : List UInt8 :=
  ((splitLines newline stream).takeWhile
    (fun line => decide (¬ exitString <:+: line))).flatten

/-- The chunks that the server broadcasts. -/
def relay (cut : List (List UInt8)) : List (List UInt8) :=
  cut.takeWhile (fun chunk => !exitsOn chunk)

variable {stream : List UInt8} {cut : List (List UInt8)}

theorem exitsOn_iff
    (msg : List UInt8) :
    exitsOn msg = true ↔ exitString <:+: cstr msg :=
  strstr_isSome_iff (cstr msg) exitString

/-- The server finds "exit" only where it is. -/
theorem infix_of_exitsOn
    {msg : List UInt8}
    (h : exitsOn msg = true) :
    exitString <:+: msg :=
  ((exitsOn_iff msg).mp h).trans (List.takeWhile_prefix _).isInfix

theorem not_infix_beforeExit
    (stream : List UInt8) :
    ¬ exitString <:+: beforeExit stream := by
  have hends : LinesEnd newline
      ((splitLines newline stream).takeWhile
        (fun line => decide (¬ exitString <:+: line))) :=
    List.IsChain.prefix (linesEnd_splitLines newline stream) (List.takeWhile_prefix _)
  rw [beforeExit, infix_flatten_iff (by decide) (by decide) hends]
  rintro ⟨line, hline, hexit⟩
  have hnot := List.mem_takeWhile_imp hline
  simp [hexit] at hnot

theorem beforeExit_eq_self
    (h : ¬ exitString <:+: stream) :
    beforeExit stream = stream := by
  have hlines : ∀ line ∈ splitLines newline stream, ¬ exitString <:+: line := by
    intro line hline hexit
    apply h
    have hin := (infix_flatten_iff (by decide) (by decide)
      (linesEnd_splitLines newline stream)).mpr ⟨line, hline, hexit⟩
    rwa [flatten_splitLines] at hin
  have hall : (splitLines newline stream).takeWhile
      (fun line => decide (¬ exitString <:+: line)) = splitLines newline stream := by
    rw [List.takeWhile_eq_self_iff]
    intro line hline
    simpa using hlines line hline
  rw [beforeExit, hall, flatten_splitLines]

theorem relay_eq_self
    (h : ∀ chunk ∈ cut, exitsOn chunk = false) :
    relay cut = cut := by
  rw [relay, List.takeWhile_eq_self_iff]
  intro chunk hchunk
  simp [h chunk hchunk]

theorem relay_append_exit
    {chunk : List UInt8} {post : List (List UInt8)}
    (h : ∀ chunk ∈ cut, exitsOn chunk = false)
    (hexit : exitsOn chunk = true) :
    relay (cut ++ chunk :: post) = cut := by
  rw [relay, List.takeWhile_append_of_pos (by simpa using h)]
  simp [hexit]

/-- Chunks behind one that contains "exit" do not matter. -/
theorem relay_of_prefix
    {read : List (List UInt8)}
    (hread : read <+: cut)
    (hexit : ∃ chunk ∈ read, exitsOn chunk = true) :
    relay read = relay cut := by
  obtain ⟨rest, rfl⟩ := hread
  obtain ⟨chunk, hchunk, hexit⟩ := hexit
  have hne : (read.takeWhile (fun chunk => !exitsOn chunk)).length ≠ read.length := by
    intro hlen
    have hself := (List.takeWhile_prefix (fun chunk => !exitsOn chunk)).eq_of_length hlen
    rw [List.takeWhile_eq_self_iff] at hself
    simpa [hexit] using hself chunk hchunk
  rw [relay, relay, List.takeWhile_append, if_neg hne]

/-- No line contains "exit", or a chunk starts where the first such line does. -/
def ExitAligned (cut : List (List UInt8)) : Prop :=
  ¬ exitString <:+: cut.flatten ∨
  ∃ pre chunk post,
    cut = pre ++ chunk :: post ∧
    pre.flatten = beforeExit cut.flatten ∧
    exitsOn chunk = true

theorem not_exitsOn_of_flatten
    (h : ¬ exitString <:+: cut.flatten) :
    ∀ chunk ∈ cut, exitsOn chunk = false := by
  intro chunk hchunk
  cases hexit : exitsOn chunk with
  | false =>
      rfl
  | true =>
      have hin := (infix_of_exitsOn hexit).trans (List.infix_of_mem_flatten hchunk)
      exact absurd hin h

/-- The relay of a cut is the intended one exactly if the cut is aligned. -/
theorem relay_eq_beforeExit_iff :
    (relay cut).flatten = beforeExit cut.flatten ↔ ExitAligned cut := by
  constructor
  · intro heq
    by_cases hexit : exitString <:+: cut.flatten
    · right
      -- something is dropped, so a chunk stops the relay
      have hne : relay cut ≠ cut := by
        intro hself
        rw [hself] at heq
        exact not_infix_beforeExit cut.flatten (heq ▸ hexit)
      obtain ⟨chunk, post, hpost⟩ :
          ∃ chunk post, cut.dropWhile (fun chunk => !exitsOn chunk) = chunk :: post := by
        cases hdrop : cut.dropWhile (fun chunk => !exitsOn chunk) with
        | nil =>
            have hsplit := List.takeWhile_append_dropWhile
              (p := fun chunk => !exitsOn chunk) (l := cut)
            rw [hdrop, List.append_nil] at hsplit
            exact absurd hsplit hne
        | cons chunk post =>
            exact ⟨chunk, post, rfl⟩
      refine ⟨relay cut, chunk, post, ?_, heq, ?_⟩
      · rw [relay, ← hpost, List.takeWhile_append_dropWhile]
      · have hhead := List.head?_dropWhile_not (fun chunk => !exitsOn chunk) cut
        rw [hpost] at hhead
        simpa using hhead
    · exact Or.inl hexit
  · rintro (hnone | ⟨pre, chunk, post, hcut, hpre, hexit⟩)
    · rw [relay_eq_self (not_exitsOn_of_flatten hnone), beforeExit_eq_self hnone]
    · have hquiet : ∀ c ∈ pre, exitsOn c = false := by
        apply not_exitsOn_of_flatten
        rw [hpre]
        exact not_infix_beforeExit cut.flatten
      rw [← hpre, hcut, relay_append_exit hquiet hexit]

end Relay

section Runs

variable {s s' : State} {l : Label}

/-- The histories of the connections. -/
structure Streams (s : State) : Prop where
  known : ∀ sock c, s.conn sock = some c → c < s.nextConn
  unique : ∀ sock sock' c, s.conn sock = some c → s.conn sock' = some c → sock = sock'
  unborn : ∀ c, s.nextConn ≤ c → s.rcvd c = []
  /-- a client that has sent "exit" is gone -/
  quiet : ∀ sock c, s.conn sock = some c → ∀ chunk ∈ s.rcvd c, exitsOn chunk = false
  relayed : ∀ c, s.casts c = relay (s.rcvd c)

theorem start_streams
    (listenSock : Int) :
    Streams (State.start listenSock) := by
  refine ⟨?_, ?_, fun _ _ => rfl, ?_, fun _ => rfl⟩ <;> simp [State.start]

/-- A new descriptor for a new connection. -/
theorem Streams.joined
    (h : Streams s)
    {sock : Int}
    (hsock : Unused s sock) :
    Streams
      { s with
        clisockList := Function.update s.clisockList s.numChat sock
        numChat := s.numChat + 1
        conn := Function.update s.conn sock (some s.nextConn)
        nextConn := s.nextConn + 1
        pc := .welcome sock } := by
  -- an open descriptor is the new one or one from before
  have hcases : ∀ sock' c,
      Function.update s.conn sock (some s.nextConn) sock' = some c →
      (sock' = sock ∧ c = s.nextConn) ∨ (s.conn sock' = some c ∧ c < s.nextConn) := by
    intro sock' c hc
    by_cases heq : sock' = sock
    · subst heq
      simp only [Function.update_self, Option.some.injEq] at hc
      exact Or.inl ⟨rfl, hc.symm⟩
    · rw [Function.update_of_ne heq] at hc
      exact Or.inr ⟨hc, h.known sock' c hc⟩
  refine ⟨?_, ?_, ?_, ?_, h.relayed⟩
  · intro sock' c hc
    simp only
    rcases hcases sock' c hc with ⟨_, hnew⟩ | ⟨_, hlt⟩ <;> omega
  · intro sock₁ sock₂ c h₁ h₂
    rcases hcases sock₁ c h₁ with ⟨hs₁, hc₁⟩ | ⟨hs₁, hc₁⟩
    · rcases hcases sock₂ c h₂ with ⟨hs₂, _⟩ | ⟨_, hc₂⟩
      · rw [hs₁, hs₂]
      · omega
    · rcases hcases sock₂ c h₂ with ⟨_, hc₂⟩ | ⟨hs₂, _⟩
      · omega
      · exact h.unique sock₁ sock₂ c hs₁ hs₂
  · intro c hc
    exact h.unborn c (by simp only at hc; omega)
  · intro sock' c hc
    rcases hcases sock' c hc with ⟨_, hnew⟩ | ⟨hold, _⟩
    · rw [hnew]
      simp [h.unborn s.nextConn (le_refl _)]
    · exact h.quiet sock' c hold

/-- A chunk with "exit" ends the stream of its connection. -/
theorem Streams.exited
    (h : Streams s)
    {i c : Nat} {msg : List UInt8}
    (hc : s.conn (s.clisockList i) = some c)
    (hexit : exitsOn msg = true) :
    Streams
      { s.removeclient i with
        rcvd := Function.update s.rcvd c (s.rcvd c ++ [msg])
        pc := .scan (i + 1) } := by
  have hlt := h.known _ c hc
  refine ⟨?_, ?_, ?_, ?_, ?_⟩
  · intro sock d hd
    exact h.known sock d (removeclient_conn hd).1
  · intro sock₁ sock₂ d h₁ h₂
    exact h.unique sock₁ sock₂ d (removeclient_conn h₁).1 (removeclient_conn h₂).1
  · intro d hd
    have hne : d ≠ c := by
      simp only [State.removeclient] at hd
      omega
    simp only [Function.update_of_ne hne]
    exact h.unborn d hd
  · intro sock d hd
    obtain ⟨hold, hsock⟩ := removeclient_conn hd
    have hne : d ≠ c := by
      rintro rfl
      exact hsock (h.unique _ _ _ hold hc)
    simp only [Function.update_of_ne hne]
    exact h.quiet sock d hold
  · intro d
    by_cases hdc : d = c
    · subst hdc
      have hquiet := h.quiet _ d hc
      simp only [Function.update_self, State.removeclient]
      rw [relay_append_exit hquiet hexit, h.relayed d, relay_eq_self hquiet]
    · simp only [Function.update_of_ne hdc]
      exact h.relayed d

/-- Any other chunk is received and broadcast. -/
theorem Streams.cast
    (h : Streams s)
    {i c : Nat} {msg : List UInt8}
    (hc : s.conn (s.clisockList i) = some c)
    (hexit : exitsOn msg = false) :
    Streams
      { s with
        rcvd := Function.update s.rcvd c (s.rcvd c ++ [msg])
        casts := Function.update s.casts c (s.casts c ++ [msg])
        pc := .broadcast i 0 msg } := by
  have hlt := h.known _ c hc
  have hquiet : ∀ chunk ∈ s.rcvd c ++ [msg], exitsOn chunk = false := by
    intro chunk hchunk
    rcases List.mem_append.mp hchunk with hold | hnew
    · exact h.quiet _ c hc chunk hold
    · rw [List.mem_singleton.mp hnew]
      exact hexit
  refine ⟨h.known, h.unique, ?_, ?_, ?_⟩
  · intro d hd
    have hne : d ≠ c := by
      simp only at hd
      omega
    simp only [Function.update_of_ne hne]
    exact h.unborn d hd
  · intro sock d hd
    by_cases hdc : d = c
    · subst hdc
      simpa using hquiet
    · simp only [Function.update_of_ne hdc]
      exact h.quiet sock d hd
  · intro d
    by_cases hdc : d = c
    · subst hdc
      simp only [Function.update_self]
      rw [relay_eq_self hquiet, h.relayed d, relay_eq_self (h.quiet _ d hc)]
    · simp only [Function.update_of_ne hdc]
      exact h.relayed d

theorem Streams.step
    (h : Streams s)
    (heffect : Effect s l s') :
    Streams s' := by
  cases heffect with
  | control hlist hnum hconn hnext hreset hrcvd hcasts =>
      refine ⟨?_, ?_, ?_, ?_, ?_⟩
      · rw [hconn, hnext]
        exact h.known
      · rw [hconn]
        exact h.unique
      · rw [hnext, hrcvd]
        exact h.unborn
      · rw [hconn, hrcvd]
        exact h.quiet
      · rw [hcasts, hrcvd]
        exact h.relayed
  | reset hc =>
      exact ⟨h.known, h.unique, h.unborn, h.quiet, h.relayed⟩
  | joined hsock hroom =>
      exact h.joined hsock
  | left hi hc =>
      refine ⟨?_, ?_, h.unborn, ?_, h.relayed⟩
      · intro sock d hd
        exact h.known sock d (removeclient_conn hd).1
      · intro sock₁ sock₂ d h₁ h₂
        exact h.unique sock₁ sock₂ d (removeclient_conn h₁).1 (removeclient_conn h₂).1
      · intro sock d hd
        exact h.quiet sock d (removeclient_conn hd).1
  | exited hi hc hmsg hexit =>
      exact h.exited hc hexit
  | cast hi hc hmsg hexit =>
      exact h.cast hc hexit

variable {listenSock : Int} {es : List Label}

/-- In every run the server broadcasts the relay of what it received. -/
theorem casts_eq_relay
    (hrun : run step (State.start listenSock) es = some s)
    (c : Nat) :
    s.casts c = relay (s.rcvd c) := by
  have h : Streams s :=
    run_invariant (fun _ _ _ h hstep => h.step (step_effect hstep))
      (start_streams listenSock) hrun
  exact h.relayed c

/--
A client's stream, cut into the results of `recv` on its connection, of which the
server has read all, or all up to a chunk with "exit".  What was broadcast for the
client is the lines before the first "exit" exactly if the cut is aligned.
-/
theorem broadcast_iff_exitAligned
    {c : Nat} {stream : List UInt8} {cut : List (List UInt8)}
    (hrun : run step (State.start listenSock) es = some s)
    (hcut : cut.flatten = stream)
    (hread : s.rcvd c <+: cut)
    (hdone : s.rcvd c = cut ∨ ∃ chunk ∈ s.rcvd c, exitsOn chunk = true) :
    (s.casts c).flatten = beforeExit stream ↔ ExitAligned cut := by
  have hrelay : relay (s.rcvd c) = relay cut := by
    rcases hdone with hall | hexit
    · rw [hall]
    · exact relay_of_prefix hread hexit
  rw [casts_eq_relay hrun, hrelay, ← hcut]
  exact relay_eq_beforeExit_iff

/-- One client joins; the listening socket is 3, its own is 4. -/
def oneClient : List Label :=
  [.next, .select [3], .accept 4, .send, .next, .next, .next]

/-- "hi" and "exit" arrive as two chunks. -/
def twoChunksRun : List Label :=
  oneClient ++
    [.select [4], .recv (some [104, 105, 10]), .send, .next, .next, .next,
      .select [4], .recv (some [101, 120, 105, 116, 10])]

theorem broadcast_in_twoChunksRun :
    ∃ s, run step (State.start 3) twoChunksRun = some s ∧
      (s.casts 0).flatten =
        beforeExit [104, 105, 10, 101, 120, 105, 116, 10] :=
  ⟨_, rfl,
    (@broadcast_iff_exitAligned _ 3 twoChunksRun 0 _
      [[104, 105, 10], [101, 120, 105, 116, 10]] rfl rfl
      (List.prefix_refl _) (Or.inl rfl)).mpr
      (Or.inr ⟨[[104, 105, 10]], [101, 120, 105, 116, 10], [], rfl, by decide, by decide⟩)⟩

/-- The same stream arrives as one chunk. -/
def oneChunkRun : List Label :=
  oneClient ++ [.select [4], .recv (some [104, 105, 10, 101, 120, 105, 116, 10])]

/-- The line "hi" is not broadcast. -/
theorem oneChunk_dropsLine :
    ∃ s, run step (State.start 3) oneChunkRun = some s ∧
      (s.rcvd 0).flatten = [104, 105, 10, 101, 120, 105, 116, 10] ∧
      s.casts 0 = [] ∧
      beforeExit (s.rcvd 0).flatten = [104, 105, 10] :=
  ⟨_, rfl, rfl, rfl, by decide⟩

end Runs

section Sends

variable {s s' : State} {l : Label}

/-- In the loop over the clients, those before `j` have been sent the message. -/
def Broadcasting (s : State) : Prop :=
  ∀ i j msg, s.pc = .broadcast i j msg →
    j ≤ s.numChat ∧
    ∃ earlier,
      s.sent = earlier ++ (live s.clisockList j).map (fun sock => (sock, msg))

/-- Outside of the loop over the clients nothing is asked. -/
theorem broadcasting_of_pc
    (hpc : ∀ i j msg, s.pc ≠ .broadcast i j msg) :
    Broadcasting s := by
  intro i j msg hloop
  exact absurd hloop (hpc i j msg)

theorem nextStep_pc
    (hstep : nextStep s = some s')
    (i j : Nat) (msg : List UInt8) :
    s'.pc ≠ .broadcast i j msg := by
  unfold nextStep at hstep
  split at hstep
  · split_ifs at hstep
    · cases hstep
      simp
    · cases hstep
      simp
  · split_ifs at hstep
    · cases hstep
      simp
    · cases hstep
      simp
    · cases hstep
      simp
  · split_ifs at hstep
    cases hstep
    simp
  · cases hstep

theorem Broadcasting.sendStep
    (h : Broadcasting s)
    (hstep : sendStep s = some s') :
    Broadcasting s' := by
  unfold Chat.sendStep at hstep
  split at hstep
  · rename_i sock hpc
    cases hstep
    rcases sendTo_eq_or s sock startString (.scan 0) with heq | heq
    · rw [heq]
      exact broadcasting_of_pc (by simp)
    · rw [heq]
      exact broadcasting_of_pc (by simp)
  · rename_i i j msg hpc
    split_ifs at hstep with hj
    cases hstep
    rcases sendTo_eq_or s (s.clisockList j) msg (.broadcast i (j + 1) msg) with heq | heq
    · rw [heq]
      intro i' j' msg' hpc'
      cases hpc'
    · rw [heq]
      intro i' j' msg' hpc'
      cases hpc'
      obtain ⟨_, earlier, hsent⟩ := h i j msg hpc
      refine ⟨hj, earlier, ?_⟩
      rw [hsent, live_succ, List.map_append, List.append_assoc]
      rfl
  · cases hstep

theorem Broadcasting.step
    (h : Broadcasting s)
    (hstep : step s l = some s') :
    Broadcasting s' := by
  cases l with
  | send =>
      exact h.sendStep hstep
  | recv ret =>
      simp only [Chat.step, recvStep] at hstep
      split at hstep
      · split_ifs at hstep
        cases hstep
        intro i j msg hpc
        unfold State.recvFrom at hpc ⊢
        split at hpc
        · cases hpc
        · cases hpc
        · split_ifs at hpc with hexit
          cases hpc
          simp only [hexit]
          exact ⟨Nat.zero_le _, s.sent, by simp⟩
      · cases hstep
  | peerReset c =>
      simp only [Chat.step] at hstep
      split_ifs at hstep
      cases hstep
      exact h
  | next =>
      exact broadcasting_of_pc (nextStep_pc hstep)
  | select ready =>
      obtain ⟨_, hsome⟩ := Option.ite_none_right_eq_some.mp hstep
      cases hsome
      refine broadcasting_of_pc ?_
      intro i j msg
      simp only
      split_ifs
      · simp
      · simp
  | accept sock =>
      obtain ⟨_, hsome⟩ := Option.ite_none_right_eq_some.mp hstep
      cases hsome
      refine broadcasting_of_pc ?_
      intro i j msg
      unfold State.addclient
      split_ifs
      · simp
      · simp
  | _ =>
      obtain ⟨_, hsome⟩ := Option.ite_none_right_eq_some.mp hstep
      cases hsome
      exact broadcasting_of_pc (by simp)

/-- When the loop over the clients ends, every client has been sent the message. -/
theorem broadcast_reaches_all
    {listenSock : Int} {es : List Label}
    {i j : Nat} {msg : List UInt8}
    (hrun : run step (State.start listenSock) es = some s)
    (hpc : s.pc = .broadcast i j msg)
    (hend : s.numChat ≤ j) :
    ∃ earlier, s.sent = earlier ++ s.socks.map (fun sock => (sock, msg)) := by
  have h : Broadcasting s :=
    run_invariant (fun _ _ _ h hstep => h.step hstep)
      (by simp [Broadcasting, State.start]) hrun
  obtain ⟨hle, hsent⟩ := h i j msg hpc
  rw [State.socks, le_antisymm hend hle]
  exact hsent

end Sends

end Chat
end SysProg
