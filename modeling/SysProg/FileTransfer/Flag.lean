import SysProg.FileTransfer.Connection
import Mathlib.Tactic

/-!
# The flag of the file transfer

The client asks for the four bytes of the flag in one `recv` and then looks at
the variable, whatever the call has stored in it.

`goAhead_iff`: the client goes on to its data loop only after a successful `open`
of the server, exactly when the bytes which that `recv` does not fill happen to
be those of -1 or the server did open the file.
-/

namespace SysProg
namespace FileTransfer

open Run

universe u

variable {α : Type u} {s s' : Transfer α} {l : Label}

section Flag

/--
The `recv` of the flag answers a successful `open`, or it leaves only bytes of
-1 in the variable.  A `recv` of all four bytes leaves none.
-/
def FlagCovered (s : Transfer α) : Label → Prop
  | .clntRecv (some n) =>
      s.serv.opened = true ∨ ∀ b ∈ s.clnt.flag.drop n, b = 255
  | _ => True

instance (s : Transfer α) (l : Label) : Decidable (FlagCovered s l) :=
  match l with
  | .clntRecv (some n) =>
      inferInstanceAs (Decidable (s.serv.opened = true ∨ ∀ b ∈ s.clnt.flag.drop n, b = 255))
  | .clntRecv none | .servRecv _ | .clntSend _ | .clntRead _ | .clntKilled | .servOpen _
  | .servSend _ | .servWrite _ | .servKilled => .isTrue trivial

/-- `recv_file` has not got to the `send` of the flag. -/
def Serv.beforeFlag (v : Serv α) : Bool :=
  match v.pc with
  | .recvName => true
  | .openFile => true
  | .sendFlag => true
  | _ => false

/-- `recv_file` has not got to the `open`. -/
def Serv.beforeOpen (v : Serv α) : Bool :=
  match v.pc with
  | .recvName => true
  | .openFile => true
  | _ => false

/-- What is under way to the client, whatever is cut or fails. -/
structure FlagInv (s : Transfer α) : Prop where
  flagLength : s.clnt.flag.length = 4
  notOpened : s.serv.beforeOpen = true → s.serv.opened = false
  notSent : s.serv.beforeFlag = true → s.toClient = []
  refused : s.serv.opened = false → ∀ b ∈ s.toClient, b = 255

theorem FlagInv.step
    (h : FlagInv s)
    (hmove : Moves s l s') :
    FlagInv s' := by
  cases hmove with
  | @flagRead n flag pc hpc hn hflag hnext =>
      obtain ⟨hmax, havail, _⟩ := hn
      refine ⟨?_, h.notOpened, ?_, ?_⟩
      · have hlen := h.flagLength
        simp only [hflag, List.length_append, List.length_drop, List.length_take]
        omega
      · intro hbefore
        simp [h.notSent hbefore]
      · intro hclosed b hb
        exact h.refused hclosed b (List.mem_of_mem_drop hb)
  | fileOpened hpc =>
      have hempty := h.notSent (by simp [Serv.beforeFlag, hpc])
      exact ⟨h.flagLength, by simp [Serv.beforeOpen], fun _ => hempty, by simp [hempty]⟩
  | flagAccepted hpc hopened =>
      exact ⟨h.flagLength, by simp [Serv.beforeOpen], by simp [Serv.beforeFlag],
        by simp [hopened]⟩
  | flagDenied hpc hclosed =>
      have hempty := h.notSent (by simp [Serv.beforeFlag, hpc])
      refine ⟨h.flagLength, by simp [Serv.beforeOpen], by simp [Serv.beforeFlag], ?_⟩
      intro _ b hb
      rw [hempty, List.nil_append] at hb
      exact List.eq_of_mem_replicate (n := 4) (List.mem_of_mem_take hb)
  | nameRead hpc hn =>
      have hempty := h.notSent (by simp [Serv.beforeFlag, hpc])
      have hclosed := h.notOpened (by simp [Serv.beforeOpen, hpc])
      exact ⟨h.flagLength, fun _ => hclosed, fun _ => hempty, h.refused⟩
  | chunkWritten hpc hk hnext =>
      refine ⟨h.flagLength, ?_, ?_, h.refused⟩
      · simp only [Serv.beforeOpen, hnext]
        split_ifs <;> simp
      · simp only [Serv.beforeFlag, hnext]
        split_ifs <;> simp
  | servRetry hl =>
      exact h
  | nameError hpc =>
      exact ⟨h.flagLength, by simp [Serv.beforeOpen], by simp [Serv.beforeFlag], h.refused⟩
  | dataError hpc =>
      exact ⟨h.flagLength, by simp [Serv.beforeOpen], by simp [Serv.beforeFlag], h.refused⟩
  | dataEnd hpc hempty hclosed =>
      exact ⟨h.flagLength, by simp [Serv.beforeOpen], by simp [Serv.beforeFlag], h.refused⟩
  | dataRead hpc hn hle =>
      exact ⟨h.flagLength, by simp [Serv.beforeOpen], by simp [Serv.beforeFlag], h.refused⟩
  | servKilled hpc =>
      exact ⟨h.flagLength, by simp [Serv.beforeOpen], by simp [Serv.beforeFlag], h.refused⟩
  | _ =>
      exact ⟨h.flagLength, h.notOpened, h.notSent, h.refused⟩

theorem start_flagInv
    (name content : List α)
    {flag : List UInt8}
    (hflag : flag.length = 4) :
    FlagInv (Transfer.start name content flag) :=
  ⟨hflag, fun _ => rfl, fun _ => rfl, by simp [Transfer.start]⟩

/-- The client goes ahead only if the `open` succeeded. -/
def GoAhead (s : Transfer α) : Prop :=
  s.clnt.inDataLoop = true → s.serv.opened = true

/-- Without a successful `open`, the variable reads -1 exactly if the rest of it does. -/
theorem FlagInv.flag_eq_refused_iff
    (h : FlagInv s)
    {n : Nat}
    (hclosed : s.serv.opened = false)
    (hn : GivesSome 4 s.toClient.length s.serv.closed n) :
    s.toClient.take n ++ s.clnt.flag.drop (s.toClient.take n).length = flagRefused ↔
      ∀ b ∈ s.clnt.flag.drop n, b = 255 := by
  obtain ⟨hmax, havail, _⟩ := hn
  have hlen := h.flagLength
  have htake : (s.toClient.take n).length = n := by
    rw [List.length_take, Nat.min_eq_left havail]
  have hbytes : ∀ b ∈ s.toClient.take n, b = 255 :=
    fun b hb => h.refused hclosed b (List.mem_of_mem_take hb)
  have htotal : (s.toClient.take n ++ s.clnt.flag.drop n).length = 4 := by
    rw [List.length_append, List.length_drop]
    omega
  rw [htake]
  change _ = List.replicate 4 255 ↔ _
  rw [List.eq_replicate_iff]
  constructor
  · rintro ⟨_, hall⟩ b hb
    exact hall b (List.mem_append_right _ hb)
  · intro hrest
    refine ⟨htotal, ?_⟩
    intro b hb
    rcases List.mem_append.mp hb with hnew | hold
    · exact hbytes b hnew
    · exact hrest b hold

theorem GoAhead.step
    (h : GoAhead s)
    (hinv : FlagInv s)
    (hcovered : FlagCovered s l)
    (hmove : Moves s l s') :
    GoAhead s' := by
  cases hmove with
  | flagRead hpc hn hflag hnext =>
      intro hloop
      rcases hcovered with hopened | hrest
      · exact hopened
      · by_contra hclosed
        have hrefused :=
          (hinv.flag_eq_refused_iff (by simpa using hclosed) hn).mpr hrest
        rw [if_pos (hflag.trans hrefused)] at hnext
        simp [Clnt.inDataLoop, hnext] at hloop
  | fileOpened hpc =>
      intro hloop
      have hclosed := hinv.notOpened (by simp [Serv.beforeOpen, hpc])
      have hopened := h hloop
      rw [hclosed] at hopened
      exact absurd hopened Bool.false_ne_true
  | chunkRead hpc hn hleft =>
      exact fun _ => h (by simp [Clnt.inDataLoop, hpc])
  | fileEnd hpc hend =>
      exact fun _ => h (by simp [Clnt.inDataLoop, hpc])
  | chunkSent hpc hk hnext =>
      exact fun _ => h (by simp [Clnt.inDataLoop, hpc])
  | nameSent hpc =>
      simp [GoAhead, Clnt.inDataLoop]
  | nameCut hpc hk =>
      simp [GoAhead, Clnt.inDataLoop]
  | clntError hl hpc =>
      simp [GoAhead, Clnt.inDataLoop]
  | clntKilled hpc =>
      simp [GoAhead, Clnt.inDataLoop]
  | _ =>
      exact h

/-- A flag that is not covered is taken for a go-ahead. -/
theorem not_goAhead_of_not_flagCovered
    (hinv : FlagInv s)
    (hG : ¬ FlagCovered s l)
    (hmove : Moves s l s') :
    ¬ GoAhead s' := by
  cases hmove with
  | flagRead hpc hn hflag hnext =>
      rw [FlagCovered, not_or, Bool.not_eq_true] at hG
      obtain ⟨hclosed, hrest⟩ := hG
      have hne := (hinv.flag_eq_refused_iff hclosed hn).not.mpr hrest
      rw [← hflag] at hne
      rw [if_neg hne] at hnext
      intro hahead
      have hopened := hahead (by simp [Clnt.inDataLoop, hnext])
      simp [hclosed] at hopened
  | clntError hl hpc =>
      rcases hl with rfl | rfl | rfl <;> exact absurd trivial hG
  | servRetry hl =>
      rcases hl with rfl | rfl <;> exact absurd trivial hG
  | _ =>
      exact absurd trivial hG

/--
At every point of a run the client is in its data loop only if the `open`
succeeded, exactly when the `recv` of the flag is covered.
-/
theorem goAhead_iff
    {name content : List α} {flag : List UInt8} {es : List Label}
    (hflag : flag.length = 4)
    (hrun : run step (Transfer.start name content flag) es = some s) :
    (∀ before after m,
        es = before ++ after →
        run step (Transfer.start name content flag) before = some m →
        GoAhead m) ↔
      Along step FlagCovered (Transfer.start name content flag) es := by
  constructor
  · intro hahead
    rcases along_or_break FlagCovered hrun with halong |
      ⟨before, l, after, m, m', heq, hbefore, hG, hstep, _⟩
    · exact halong
    have hinv : FlagInv m :=
      run_invariant (fun _ _ _ h hs => h.step (step_moves hs))
        (start_flagInv name content hflag) hbefore
    have hbad := not_goAhead_of_not_flagCovered hinv hG (step_moves hstep)
    refine absurd (hahead (before ++ [l]) after m' (by simp [heq]) ?_) hbad
    simp [run_append, hbefore, hstep]
  · intro hcovered before after m heq hbefore
    subst heq
    have h : FlagInv m ∧ GoAhead m := by
      refine run_invariant_along (P := fun s => FlagInv s ∧ GoAhead s)
        (G := FlagCovered) ?_ ⟨start_flagInv name content hflag, ?_⟩
        (along_of_append hcovered) hbefore
      · rintro s l s' ⟨hinv, hahead⟩ hG hstep
        exact ⟨hinv.step (step_moves hstep), hahead.step hinv hG (step_moves hstep)⟩
      · simp [GoAhead, Transfer.start, Clnt.start, Clnt.inDataLoop]
    exact h.2

/-- The flag arrives as a whole and covers whatever the variable held. -/
def fullFlagRun : List Label :=
  [.clntSend (some 2), .servRecv (.count 2), .servOpen true, .servSend 4,
    .clntRecv (some 4), .clntRead (some 2)]

theorem goAhead_in_fullFlagRun :
    ∃ s : Transfer UInt8,
      run step (Transfer.start [97, 98] [120, 121] [7, 7, 7, 7]) fullFlagRun = some s ∧
      s.clnt.inDataLoop = true ∧
      s.serv.opened = true :=
  ⟨_, rfl, rfl,
    (@goAhead_iff UInt8 _ [97, 98] [120, 121] [7, 7, 7, 7] fullFlagRun rfl rfl).mpr
      (by decide) fullFlagRun [] _ rfl rfl rfl⟩

/-- The server ends before it answers: `recv` returns 0 and stores nothing. -/
def noAnswerRun : List Label :=
  [.clntSend (some 2), .servKilled, .clntRecv (some 0)]

/-- A zero in the uninitialised variable is taken for a go-ahead. -/
theorem noAnswer_entersDataLoop :
    ∃ s : Transfer UInt8,
      run step (Transfer.start [97, 98] [120, 121] [0, 0, 0, 0]) noAnswerRun = some s ∧
      s.clnt.inDataLoop = true ∧
      s.serv.opened = false :=
  ⟨_, rfl, rfl, rfl⟩

end Flag

end FileTransfer
end SysProg
