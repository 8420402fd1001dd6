import SysProg.FileTransfer.Connection
import Mathlib.Tactic

/-!
# What a completed `recv_file` says about the client

The end of the stream is the only mark of the end of the file: the server returns
0 and reports the file as complete when `recv` returns 0.  The client closes its
socket on the label `ERROR` as well, and the kernel closes it when the process
ends, so the server cannot tell a complete file from an abandoned one.

`sentAll_iff_clntGoesOn`: when the server has returned 0, the client has read its
file to the end and handed all of it to `send`, exactly when no step of the run
made the client give up or end.
-/

namespace SysProg
namespace FileTransfer

open Run

universe u

variable {α : Type u} {s s' : Transfer α} {l : Label}

section Handing

/-- The client went to `ERROR` or its process ended. -/
def Clnt.lost (c : Clnt α) : Bool :=
  match c.pc with
  | .failed => true
  | .killed => true
  | _ => false

/-- The buffers handed to `send` so far cover what was read of the file. -/
def HandedOver (c : Clnt α) : Prop :=
  ∃ chunks : List (List α),
    chunks.Sublist c.sends ∧ chunks.flatten = c.file.take c.offset

/-- The last chunk has been read and not yet been handed to `send`. -/
def ChunkPending (c : Clnt α) : Prop :=
  c.pc = .send ∧
  c.retRead = c.buf.length ∧
  ∃ chunks : List (List α),
    chunks.Sublist c.sends ∧ chunks.flatten ++ c.buf = c.file.take c.offset

/-- The data loop of `send_file`, as long as the client goes on. -/
structure DataLoop (c : Clnt α) : Prop where
  offset : c.offset ≤ c.file.length
  atEnd : c.pc = .returned → c.offset = c.file.length
  handed : c.lost = false → HandedOver c ∨ ChunkPending c

theorem start_dataLoop
    (name content : List α) (flag : List UInt8) :
    DataLoop (Clnt.start name content flag) := by
  refine ⟨Nat.zero_le _, by simp [Clnt.start], fun _ => Or.inl ?_⟩
  exact ⟨[], List.nil_sublist _, by simp [Clnt.start]⟩

/-- Outside the inner loop every chunk has been handed over. -/
theorem DataLoop.handedOver
    {c : Clnt α}
    (h : DataLoop c)
    (hlost : c.lost = false)
    (hsend : c.pc ≠ .send) :
    HandedOver c := by
  rcases h.handed hlost with hover | ⟨hpc, _⟩
  · exact hover
  · exact absurd hpc hsend

/-- The first `send` of a chunk is given all of it. -/
theorem DataLoop.handedOver_of_send
    {c : Clnt α}
    (h : DataLoop c)
    (hpc : c.pc = .send) :
    ∃ chunks : List (List α),
      chunks.Sublist (c.sends ++ [c.buf.take c.retRead]) ∧
      chunks.flatten = c.file.take c.offset := by
  rcases h.handed (by simp [Clnt.lost, hpc]) with ⟨chunks, hsub, heq⟩ | ⟨_, hall, chunks, hsub, heq⟩
  · exact ⟨chunks, hsub.trans (List.sublist_append_left _ _), heq⟩
  · refine ⟨chunks ++ [c.buf], ?_, by simpa using heq⟩
    rw [hall, List.take_length]
    exact hsub.append (List.Sublist.refl _)

theorem DataLoop.step
    (h : DataLoop s.clnt)
    (hmove : Moves s l s') :
    DataLoop s'.clnt := by
  cases hmove with
  | nameSent hpc =>
      refine ⟨h.offset, by simp, fun _ => Or.inl ?_⟩
      exact h.handedOver (by simp [Clnt.lost, hpc]) (by simp [hpc])
  | nameCut hpc hk =>
      exact ⟨h.offset, by simp, by simp [Clnt.lost]⟩
  | clntError hl hpc =>
      exact ⟨h.offset, by simp, by simp [Clnt.lost]⟩
  | flagRead hpc hn hflag hnext =>
      refine ⟨h.offset, ?_, ?_⟩
      · simp only [hnext]
        split_ifs <;> simp
      · exact fun _ => Or.inl (h.handedOver (by simp [Clnt.lost, hpc]) (by simp [hpc]))
  | fileEnd hpc hend =>
      refine ⟨h.offset, fun _ => le_antisymm h.offset hend, ?_⟩
      exact fun _ => Or.inl (h.handedOver (by simp [Clnt.lost, hpc]) (by simp [hpc]))
  | chunkRead hpc hn hleft =>
      refine ⟨hleft, by simp, fun _ => Or.inr ⟨rfl, ?_, ?_⟩⟩
      · simp only [List.length_take, List.length_drop]
        omega
      · obtain ⟨chunks, hsub, heq⟩ := h.handedOver (by simp [Clnt.lost, hpc]) (by simp [hpc])
        refine ⟨chunks, hsub, ?_⟩
        rw [heq, List.take_add]
  | chunkSent hpc hk hnext =>
      refine ⟨h.offset, ?_, fun _ => Or.inl (h.handedOver_of_send hpc)⟩
      simp only [hnext]
      split_ifs <;> simp
  | clntKilled hpc =>
      exact ⟨h.offset, by simp, by simp [Clnt.lost]⟩
  | _ =>
      exact h

end Handing

section Agreement

/-- The client's step neither fails nor ends it. -/
def ClntGoesOn (s : Transfer α) : Label → Prop
  | .clntSend none => False
  | .clntSend (some k) => s.clnt.pc = .sendName → k = s.clnt.filename.length
  | .clntRecv none => False
  | .clntRecv (some n) =>
      s.toClient.take n ++ s.clnt.flag.drop (s.toClient.take n).length ≠ flagRefused
  | .clntRead none => False
  | .clntKilled => False
  | _ => True

instance (s : Transfer α) (l : Label) : Decidable (ClntGoesOn s l) := by
  unfold ClntGoesOn
  split <;> infer_instance

theorem lost_of_not_clntGoesOn
    (hG : ¬ ClntGoesOn s l)
    (hmove : Moves s l s') :
    s'.clnt.lost = true := by
  cases hmove with
  | nameSent hpc =>
      exact absurd (fun _ => rfl) hG
  | nameCut hpc hk =>
      rfl
  | clntError hl hpc =>
      rfl
  | flagRead hpc hn hflag hnext =>
      rw [ClntGoesOn, ← hflag, not_not] at hG
      rw [if_pos hG] at hnext
      simp [Clnt.lost, hnext]
  | chunkSent hpc hk hnext =>
      exact absurd (fun hname => absurd (hpc.symm.trans hname) (by simp)) hG
  | clntKilled hpc =>
      rfl
  | servRetry hl =>
      rcases hl with rfl | rfl <;> exact absurd trivial hG
  | _ =>
      exact absurd trivial hG

/-- A client that goes on is not lost. -/
theorem lost_step
    (h : s.clnt.lost = false)
    (hG : ClntGoesOn s l)
    (hmove : Moves s l s') :
    s'.clnt.lost = false := by
  cases hmove with
  | nameCut hpc hk =>
      have hall := hG hpc
      omega
  | clntError hl hpc =>
      rcases hl with rfl | rfl | rfl <;> exact hG.elim
  | flagRead hpc hn hflag hnext =>
      rw [ClntGoesOn, ← hflag] at hG
      rw [if_neg hG] at hnext
      simp [Clnt.lost, hnext]
  | chunkSent hpc hk hnext =>
      simp only [Clnt.lost, hnext]
      split_ifs <;> rfl
  | clntKilled hpc =>
      exact hG.elim
  | nameSent hpc =>
      rfl
  | fileEnd hpc hend =>
      rfl
  | chunkRead hpc hn hleft =>
      rfl
  | _ =>
      exact h

theorem Clnt.closed_of_lost
    {c : Clnt α}
    (h : c.lost = true) :
    c.closed = true := by
  unfold Clnt.lost at h
  unfold Clnt.closed
  split at h <;> simp_all

/-- The server returns 0 only on the end of the stream. -/
def EndSeen (s : Transfer α) : Prop :=
  s.serv.pc = .returned 0 → s.clnt.closed = true ∧ s.toServer = []

theorem EndSeen.step
    (h : EndSeen s)
    (hmove : Moves s l s') :
    EndSeen s' := by
  intro hserv
  by_cases hbefore : s.serv.pc = .returned 0
  · -- nothing is under way and nobody is left to send
    obtain ⟨hclosed, hempty⟩ := h hbefore
    rw [clnt_eq_of_closed hclosed hmove]
    refine ⟨hclosed, ?_⟩
    cases hmove with
    | nameSent hpc =>
        simp [Clnt.closed, hpc] at hclosed
    | nameCut hpc hk =>
        simp [Clnt.closed, hpc] at hclosed
    | chunkSent hpc hk hnext =>
        simp [Clnt.closed, hpc] at hclosed
    | _ =>
        simp [hempty]
  · cases hmove with
    | dataEnd hpc hempty hend =>
        exact ⟨hend, hempty⟩
    | chunkWritten hpc hk hnext =>
        simp only [hnext] at hserv
        split_ifs at hserv
    | _ =>
        simp_all

/-- `send_file` returned 0 with all of the file handed to `send`. -/
structure SentAll (c : Clnt α) : Prop where
  readToEnd : c.pc = .returned
  offset : c.offset = c.file.length
  handed :
    ∃ chunks : List (List α), chunks.Sublist c.sends ∧ chunks.flatten = c.file

theorem DataLoop.sentAll
    {c : Clnt α}
    (h : DataLoop c)
    (hpc : c.pc = .returned) :
    SentAll c := by
  have hend := h.atEnd hpc
  obtain ⟨chunks, hsub, heq⟩ := h.handedOver (by simp [Clnt.lost, hpc]) (by simp [hpc])
  refine ⟨hpc, hend, chunks, hsub, ?_⟩
  rw [heq, hend, List.take_length]

variable {name content : List α} {flag : List UInt8} {es : List Label}

theorem endSeen_of_run
    (hrun : run step (Transfer.start name content flag) es = some s) :
    EndSeen s :=
  run_invariant (fun _ _ _ h hstep => h.step (step_moves hstep))
    (by simp [EndSeen, Transfer.start, Serv.start]) hrun

theorem dataLoop_of_run
    (hrun : run step (Transfer.start name content flag) es = some s) :
    DataLoop s.clnt :=
  run_invariant (P := fun s => DataLoop s.clnt)
    (fun _ _ _ h hstep => h.step (step_moves hstep))
    (start_dataLoop name content flag) hrun

/--
When `recv_file` has returned 0, the client has sent all of its file exactly if
it went on in every step of the run.
-/
theorem sentAll_iff_clntGoesOn
    (hrun : run step (Transfer.start name content flag) es = some s)
    (hserv : s.serv.pc = .returned 0) :
    SentAll s.clnt ↔
      Along step ClntGoesOn (Transfer.start name content flag) es := by
  have hstays : ∀ (a : Transfer α) (e : Label) (b : Transfer α),
      a.clnt.lost = true → step a e = some b → b.clnt.lost = true := by
    intro a e b ha hab
    rw [clnt_eq_of_closed (Clnt.closed_of_lost ha) (step_moves hab)]
    exact ha
  have hstart : (Transfer.start name content flag).clnt.lost = false := rfl
  rcases good_or_bad (fun _ _ _ h hG hs => lost_step h hG (step_moves hs))
      (fun _ _ _ _ hG hs => lost_of_not_clntGoesOn hG (step_moves hs)) hstays hstart hrun with
    ⟨halong, hkept⟩ | ⟨hG, hlost⟩
  · refine iff_of_true ?_ halong
    have hclosed := (endSeen_of_run hrun hserv).1
    apply (dataLoop_of_run hrun).sentAll
    cases hpc : s.clnt.pc <;> simp [Clnt.closed, Clnt.lost, hpc] at hclosed hkept ⊢
  · refine iff_of_false (fun hsent => ?_) hG
    simp [Clnt.lost, hsent.readToEnd] at hlost

/-- Two bytes of content, sent in two calls of `send`. -/
def completeRun : List Label :=
  [.clntSend (some 1), .servRecv (.count 1), .servOpen true, .servSend 4,
    .clntRecv (some 4), .clntRead (some 2), .clntSend (some 1), .clntSend (some 1),
    .clntRead (some 0), .servRecv (.count 2), .servWrite (some 2),
    .servRecv (.count 0)]

theorem sentAll_in_completeRun :
    ∃ s : Transfer UInt8,
      run step (Transfer.start [97] [120, 121] [0, 0, 0, 0]) completeRun = some s ∧
      s.serv.pc = .returned 0 ∧
      SentAll s.clnt :=
  ⟨_, rfl, rfl,
    (@sentAll_iff_clntGoesOn UInt8 _ [97] [120, 121] [0, 0, 0, 0] completeRun
      rfl rfl).mpr (by decide)⟩

/-- The client's `read` fails after the first of two bytes. -/
def abandonedRun : List Label :=
  [.clntSend (some 1), .servRecv (.count 1), .servOpen true, .servSend 4,
    .clntRecv (some 4), .clntRead (some 1), .clntSend (some 1), .clntRead none,
    .servRecv (.count 1), .servWrite (some 1), .servRecv (.count 0)]

/-- The server reports a complete file of one byte. -/
theorem abandoned_reportedComplete :
    ∃ s : Transfer UInt8,
      run step (Transfer.start [97] [120, 121] [0, 0, 0, 0]) abandonedRun = some s ∧
      s.serv.pc = .returned 0 ∧
      s.clnt.pc = .failed ∧
      s.clnt.offset < s.clnt.file.length ∧
      s.clnt.sends = [[120]] :=
  ⟨_, rfl, rfl, rfl, by decide, rfl⟩

end Agreement

end FileTransfer
end SysProg
