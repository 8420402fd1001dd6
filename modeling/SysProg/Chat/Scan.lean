import SysProg.Chat.Server
import SysProg.Lib.SwapScan
import Mathlib.Tactic

/-!
# The scan of the client table

After `select` the server goes through its clients and calls `recv` on those that are
ready.  A client that leaves is replaced by the last one, and the loop goes on with the
next slot: the client that was moved is behind the index.  If it was ready, it is passed
over until the next turn of the main loop.

One scan calls `recv` on each ready client, and on no other socket, exactly if no removal
moves a ready client (`recvCalls_perm_iff_noSkip`).
-/

namespace SysProg
namespace Chat

open Run SlotTable SwapScan

variable {s s' : State} {l : Label}

section Scan

/-- The client is removed after this result of `recv`. -/
def removes : Option (List UInt8) → Bool
  | none => false
  | some [] => true
  | some msg => exitsOn msg

/-- The socket on which a step calls `recv`. -/
def recvCall (s : State) : Label → List Int
  | .recv _ =>
      match s.pc with
      | .scan i => [s.clisockList i]
      | _ => []
  | _ => []

/-- The sockets on which a run calls `recv`. -/
def recvCalls : State → List Label → List Int :=
  outputs step recvCall

/-- If the client at the index is removed, the client moved there is not ready. -/
def NoSkipAt (s : State) (ret : Option (List UInt8)) : Pc → Prop
  | .scan i =>
      removes ret = true →
        i = s.numChat - 1 ∨ s.readFds (s.clisockList (s.numChat - 1)) = false
  | _ => True

instance (s : State) (ret : Option (List UInt8)) (pc : Pc) : Decidable (NoSkipAt s ret pc) := by
  unfold NoSkipAt
  split <;> infer_instance

/-- A removal moves no client that is ready. -/
def NoSkip (s : State) : Label → Prop
  | .recv ret => NoSkipAt s ret s.pc
  | _ => True

instance (s : State) (l : Label) : Decidable (NoSkip s l) := by
  unfold NoSkip
  split <;> infer_instance

/-- The clients that the scan has not reached. -/
def State.back (s : State) : List Int :=
  match s.pc with
  | .scan i => s.socks.drop i
  | .broadcast i _ _ => s.socks.drop (i + 1)
  | _ => []

def InScan (s : State) : Prop :=
  (∃ i, s.pc = .scan i) ∨ ∃ i j msg, s.pc = .broadcast i j msg

def Dead (s : State) : Prop :=
  s.pc = .terminated ∨ s.pc = .undefined

/-- Where a step of the scan leads, and what it does to the clients that are to come. -/
structure ScanStep (s : State) (l : Label) (s' : State) : Prop where
  place : InScan s' ∨ s'.pc = .top ∨ Dead s'
  readFds : s'.readFds = s.readFds
  move : Dead s' ∨
    ∀ calls, Move s.readFds (NoSkip s l) s.back calls s'.back (calls ++ recvCall s l)

theorem back_of_scan
    {i : Nat}
    (hpc : s.pc = .scan i)
    (hi : i < s.numChat) :
    s.back = s.clisockList i :: s.socks.drop (i + 1) := by
  simp only [State.back, hpc]
  exact drop_live_of_lt _ hi

theorem scanStep_next
    (hscan : InScan s)
    (hstep : nextStep s = some s') :
    ScanStep s .next s' := by
  rcases hscan with ⟨i, hpc⟩ | ⟨i, j, msg, hpc⟩
  · simp only [nextStep, hpc] at hstep
    split_ifs at hstep with hi hin hready
    · cases hstep
      refine ⟨Or.inl (Or.inl ⟨i + 1, rfl⟩), rfl, Or.inr fun calls => ?_⟩
      exact .pass (back_of_scan hpc hi) (by simpa using hready) (List.append_nil _) trivial
    · cases hstep
      exact ⟨Or.inr (Or.inr (Or.inr rfl)), rfl, Or.inl (Or.inr rfl)⟩
    · cases hstep
      refine ⟨Or.inr (Or.inl rfl), rfl, Or.inr fun calls => ?_⟩
      refine .stays ?_ (List.append_nil _) trivial
      simp only [State.back, hpc]
      exact (drop_live_of_le _ (by omega)).symm
  · simp only [nextStep, hpc] at hstep
    split_ifs at hstep
    cases hstep
    refine ⟨Or.inl (Or.inl ⟨i + 1, rfl⟩), rfl, Or.inr fun calls => ?_⟩
    refine .stays ?_ (List.append_nil _) trivial
    simp [State.back, hpc, State.socks]

theorem scanStep_send
    (hscan : InScan s)
    (hstep : sendStep s = some s') :
    ScanStep s .send s' := by
  rcases hscan with ⟨i, hpc⟩ | ⟨i, j, msg, hpc⟩
  · simp [sendStep, hpc] at hstep
  · simp only [sendStep, hpc] at hstep
    split_ifs at hstep
    cases hstep
    rcases sendTo_eq_or s (s.clisockList j) msg (.broadcast i (j + 1) msg) with heq | heq
    · rw [heq]
      exact ⟨Or.inr (Or.inr (Or.inl rfl)), rfl, Or.inl (Or.inl rfl)⟩
    · rw [heq]
      refine ⟨Or.inl (Or.inr ⟨i, j + 1, msg, rfl⟩), rfl, Or.inr fun calls => ?_⟩
      refine .stays ?_ (List.append_nil _) trivial
      simp [State.back, hpc, State.socks]

/-- A removal drops the client at the index and takes the last one away. -/
theorem scanStep_removed
    {i : Nat} {ret : Option (List UInt8)}
    (hpc : s.pc = .scan i)
    (hi : i < s.numChat)
    (hready : s.readFds (s.clisockList i) = true)
    (hremoves : removes ret = true)
    (hpc' : s'.pc = .scan (i + 1))
    (hsocks : s'.socks = live (moveLast s.clisockList s.numChat i) (s.numChat - 1))
    (hfds : s'.readFds = s.readFds) :
    ScanStep s (.recv ret) s' := by
  refine ⟨Or.inl (Or.inl ⟨i + 1, hpc'⟩), hfds, Or.inr fun calls => ?_⟩
  have hback := back_of_scan hpc hi
  have hback' :
      s'.back = (live (moveLast s.clisockList s.numChat i) (s.numChat - 1)).drop (i + 1) := by
    simp only [State.back, hpc', hsocks]
  have hcall : recvCall s (.recv ret) = [s.clisockList i] := by
    simp [recvCall, hpc]
  rw [hcall]
  by_cases hlast : i = s.numChat - 1
  · -- the last client leaves, and nothing is moved
    refine .call (hback.trans ?_) hready rfl ?_
    · rw [hback', drop_live_of_le _ (by omega), State.socks, drop_live_of_le _ (by omega)]
    · simp only [NoSkip, NoSkipAt, hpc]
      exact fun _ => Or.inl hlast
  · have hmoved : s.socks.drop (i + 1) = s'.back ++ [s.clisockList (s.numChat - 1)] := by
      rw [hback']
      exact drop_succ_live_moveLast _ (by omega)
    rw [hmoved] at hback
    refine .remove hback hready rfl ?_
    simp only [NoSkip, NoSkipAt, hpc, hremoves, hlast, false_or, forall_const]

theorem scanStep_recv
    {ret : Option (List UInt8)}
    (hscan : InScan s)
    (hstep : recvStep s ret = some s') :
    ScanStep s (.recv ret) s' := by
  rcases hscan with ⟨i, hpc⟩ | ⟨i, j, msg, hpc⟩
  · simp only [recvStep, hpc] at hstep
    split_ifs at hstep with hguard
    obtain ⟨hi, _, hready, _⟩ := hguard
    cases hstep
    cases ret with
    | none =>
        exact ⟨Or.inr (Or.inr (Or.inr rfl)), rfl, Or.inl (Or.inr rfl)⟩
    | some msg =>
        cases msg with
        | nil =>
            exact scanStep_removed hpc hi hready rfl rfl rfl rfl
        | cons b msg =>
            simp only [State.recvFrom]
            split_ifs with hexit
            · exact scanStep_removed hpc hi hready hexit rfl rfl rfl
            · refine ⟨Or.inl (Or.inr ⟨i, 0, b :: msg, rfl⟩), rfl, Or.inr fun calls => ?_⟩
              refine .call (back_of_scan hpc hi) hready (by simp [recvCall, hpc]) ?_
              simp [NoSkip, NoSkipAt, hpc, removes, hexit]
  · simp [recvStep, hpc] at hstep

theorem scanStep_of_step
    (hscan : InScan s)
    (hstep : step s l = some s') :
    ScanStep s l s' := by
  have hpc : s.pc ≠ .select ∧ s.pc ≠ .accept := by
    rcases hscan with ⟨i, hpc⟩ | ⟨i, j, msg, hpc⟩ <;> simp [hpc]
  cases l with
  | next =>
      exact scanStep_next hscan hstep
  | send =>
      exact scanStep_send hscan hstep
  | recv ret =>
      exact scanStep_recv hscan hstep
  | peerReset c =>
      simp only [step] at hstep
      split_ifs at hstep
      cases hstep
      exact ⟨Or.inl hscan, rfl, Or.inr fun calls => .stays rfl (List.append_nil _) trivial⟩
  | _ =>
      simp [step, hpc.1, hpc.2] at hstep

end Scan

section Run

/-- A relation between the clients to come and the calls made, up to the end of the scan. -/
def Tracks
    (Q : List Int → List Int → Prop) (ready : Int → Bool)
    (s : State) (calls : List Int) : Prop :=
  Dead s ∨ ((InScan s ∨ s.pc = .top) ∧ s.readFds = ready ∧ Q s.back calls)

theorem stays_dead
    (hdead : Dead s)
    (hstep : step s l = some s') :
    Dead s' := by
  cases l with
  | peerReset c =>
      simp only [step] at hstep
      split_ifs at hstep
      cases hstep
      exact hdead
  | _ =>
      rcases hdead with hpc | hpc <;>
        simp [step, nextStep, sendStep, recvStep, hpc] at hstep

variable {all calls : List Int} {ready : Int → Bool}

/-- What the moves of the scan make of a relation, up to the end of the scan. -/
theorem tracks_step
    {Q R : List Int → List Int → Prop}
    (hmove : ∀ {back calls back' calls'},
      Q back calls → Move ready (NoSkip s l) back calls back' calls' → R back' calls')
    (h : Tracks Q ready s calls)
    (hnot : s.pc ≠ .top)
    (hstep : step s l = some s') :
    Tracks R ready s' (calls ++ recvCall s l) := by
  rcases h with hdead | ⟨hplace, hfds, hQ⟩
  · exact Or.inl (stays_dead hdead hstep)
  · obtain ⟨hplace', hfds', hdead | hnext⟩ :=
      scanStep_of_step (hplace.resolve_right hnot) hstep
    · exact Or.inl hdead
    · subst hfds
      have hR := hmove hQ (hnext calls)
      rcases hplace' with hin | htop | hdead
      · exact Or.inr ⟨Or.inl hin, hfds', hR⟩
      · exact Or.inr ⟨Or.inr htop, hfds', hR⟩
      · exact Or.inl hdead

theorem complete_step
    (h : Tracks (Complete ready all) ready s calls)
    (hnot : s.pc ≠ .top)
    (hskip : NoSkip s l)
    (hstep : step s l = some s') :
    Tracks (Complete ready all) ready s' (calls ++ recvCall s l) :=
  tracks_step (fun hcomplete hmove => hcomplete.move hmove hskip) h hnot hstep

theorem missed_step
    (h : Tracks (Missed ready all) ready s calls)
    (hnot : s.pc ≠ .top)
    (hstep : step s l = some s') :
    Tracks (Missed ready all) ready s' (calls ++ recvCall s l) :=
  tracks_step (fun hmissed hmove => hmissed.move hmove) h hnot hstep

/-- A removal that moves a ready client misses it. -/
theorem missed_of_skip
    (h : Tracks (Complete ready all) ready s calls)
    (hnodup : all.Nodup)
    (hnot : s.pc ≠ .top)
    (hskip : ¬ NoSkip s l)
    (hstep : step s l = some s') :
    Tracks (Missed ready all) ready s' (calls ++ recvCall s l) :=
  tracks_step (fun hcomplete hmove => hcomplete.missed_of_move hnodup hmove hskip) h hnot hstep

variable {t : State} {es : List Label}

theorem tracks_at_top
    {Q : List Int → List Int → Prop}
    (h : Tracks Q ready s calls)
    (htop : s.pc = .top) :
    Q [] calls := by
  rcases h with (hpc | hpc) | ⟨_, _, hQ⟩
  · simp [htop] at hpc
  · simp [htop] at hpc
  · simpa [State.back, htop] using hQ

/--
In one scan of the table `recv` is called once on each ready client and on no other
socket, if and only if no removal moves a ready client behind the index.
-/
theorem recvCalls_perm_iff_noSkip
    (hstart : s.pc = .scan 0)
    (hnodup : s.socks.Nodup)
    (hrun : run step s es = some t)
    (hone : Along step (fun s _ => s.pc ≠ .top) s es)
    (hend : t.pc = .top) :
    (recvCalls s es).Perm (s.socks.filter s.readFds) ↔ Along step NoSkip s es := by
  have hback : s.back = s.socks := by
    simp [State.back, hstart]
  have hbegin : Tracks (Complete s.readFds s.socks) s.readFds s [] :=
    Or.inr ⟨Or.inl (Or.inl ⟨0, hstart⟩), rfl, by rw [hback]; exact complete_start⟩
  have hscan := outputs_good_or_bad
    (fun _ _ _ _ h hnot hskip hstep => complete_step h hnot hskip hstep)
    (fun _ _ _ _ h hnot hskip hstep => missed_of_skip h hnodup hnot hskip hstep)
    (fun _ _ _ _ h hnot hstep => missed_step h hnot hstep) hbegin hone hrun
  rcases hscan with ⟨halong, hcomplete⟩ | ⟨hskip, hmissed⟩
  · exact iff_of_true (tracks_at_top hcomplete hend).calls_perm halong
  · exact iff_of_false (tracks_at_top hmissed hend).not_perm hskip

/-- Three clients on the sockets 4, 5 and 6, of which `select` has reported some. -/
def threeClients (ready : List Int) : State :=
  { State.start 3 with
    clisockList := fun i => 4 + i
    numChat := 3
    readFds := fun fd => decide (fd ∈ ready)
    conn := fun fd => if 4 ≤ fd ∧ fd ≤ 6 then some (fd - 4).toNat else none
    nextConn := 3
    pc := .scan 0 }

/-- The first client leaves, and the second one sends "hi" to the two that are left. -/
def leaveRun : List Label :=
  [.recv (some []), .recv (some [104, 105]), .send, .send, .next, .next]

theorem recvCalls_leaveRun :
    ∃ t, run step (threeClients [4, 5]) leaveRun = some t ∧
      t.pc = .top ∧ t.socks = [6, 5] ∧
      (recvCalls (threeClients [4, 5]) leaveRun).Perm [4, 5] :=
  ⟨_, rfl, rfl, rfl,
    (@recvCalls_perm_iff_noSkip (threeClients [4, 5]) _ leaveRun rfl (by decide) rfl
      (by decide) rfl).mpr (by decide)⟩

/-- The first client leaves while the last one is ready. -/
def skipRun : List Label :=
  [.recv (some []), .next, .next]

theorem skipRun_misses :
    ∃ t, run step (threeClients [4, 6]) skipRun = some t ∧
      t.pc = .top ∧
      (threeClients [4, 6]).socks.filter (threeClients [4, 6]).readFds = [4, 6] ∧
      recvCalls (threeClients [4, 6]) skipRun = [4] :=
  ⟨_, rfl, rfl, by decide, by decide⟩

end Run

end Chat
end SysProg
