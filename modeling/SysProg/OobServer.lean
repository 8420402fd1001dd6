import SysProg.Lib.Run

/-!
# The session loop of ALSP/inet_tcp_serv1_OOB.c

A child of the server accepts connections and collects what it receives in `buf`, at the
position `cum_recv`.  `sockatmark` tells it whether to receive from the normal band or the
urgent byte; if there is no urgent byte, a `goto` leads back to the normal band.

* A failed `recv` of the normal band is reported, and its result -1 is added to `cum_recv`.
* The urgent byte is received with a length of 2, wherever `cum_recv` stands.
* The normal band is received with the length that is left of `buf`.  When nothing is left the
  result is 0, and this is taken for the end of the session.

**Steps.** `step` is one system call of a child, with its result as the label.  A call with a
region that is not inside `buf` leads to `undefined`.  `Link.step` adds a peer that sends no
urgent data.

**Results.** `inBounds_iff`: every region is inside `buf`, exactly if the failures since
`cum_recv` was last 0 never outnumber the bytes, and at most 253 bytes are left over at an
urgent `recv`.  `closesEnded_iff`: a connection is closed only after the peer has closed it,
exactly if no `recv` of an open connection returns after 255 bytes.
-/

namespace SysProg
namespace OobServer

open Run

section Child

/-- `sizeof(buf)` -/
def bufSize : Nat := 0xff

/-- The next system call of a child. -/
inductive Pc where
  | accept
  | sockatmark
  | recv
  | recvOob
  | undefined
deriving DecidableEq, Repr

structure Child where
  pc : Pc
  cumRecv : Int
deriving DecidableEq, Repr

inductive OobResult where
  /-- -1 with `EINVAL` -/
  | einval
  | error
  | received (n : Nat)
deriving DecidableEq, Repr

/-- A system call returns; `none` stands for -1. -/
inductive Label where
  | accept (ok : Bool)
  | sockatmark (ret : Int)
  | recv (ret : Option Nat)
  | recvOob (ret : OobResult)
deriving DecidableEq, Repr

/-- The region handed to `recv`, from `buf`. -/
structure Region where
  offset : Int
  length : Nat
deriving DecidableEq, Repr

def Region.Inside (region : Region) : Prop :=
  0 ≤ region.offset ∧ region.offset + region.length ≤ bufSize

instance (region : Region) : Decidable region.Inside :=
  inferInstanceAs (Decidable (_ ∧ _))

/-- `sizeof(buf) - cum_recv`, a `size_t`. -/
def room (cumRecv : Int) : Nat :=
  ((bufSize - cumRecv) % 2 ^ 64).toNat

def normalRegion (cumRecv : Int) : Region := ⟨cumRecv, room cumRecv⟩

def oobRegion (cumRecv : Int) : Region := ⟨cumRecv, 2⟩

/-- The region of the call that a child makes next, if it is a `recv`. -/
def nextRegion (s : Child) : Option Region :=
  match s.pc with
  | .recv => some (normalRegion s.cumRecv)
  | .recvOob => some (oobRegion s.cumRecv)
  | _ => none

/-- What follows `sockatmark`. -/
def afterMark (ret : Int) : Pc :=
  if ret = 0 then .recv else if ret = 1 then .recvOob else .sockatmark

/-- What follows a `recv` of the normal band. -/
def afterRecv (cumRecv : Int) : Option Nat → Child
  | none => ⟨.sockatmark, cumRecv + -1⟩
  | some 0 => ⟨.accept, 0⟩
  | some n => ⟨.sockatmark, cumRecv + n⟩

/-- What follows a `recv` of the urgent byte. -/
def afterOob (cumRecv : Int) : OobResult → Child
  | .einval => ⟨.recv, cumRecv⟩
  | .error => ⟨.sockatmark, cumRecv⟩
  | .received _ => ⟨.sockatmark, 0⟩

/-- The kernel returns no more bytes than it was asked for. -/
def Label.Within (length : Nat) : Label → Prop
  | .recv (some n) => n ≤ length
  | .recvOob (.received n) => n ≤ length
  | _ => True

instance (length : Nat) (e : Label) : Decidable (e.Within length) := by
  unfold Label.Within
  split <;> infer_instance

/-- A call with this region; what follows when the region is not inside `buf` is undefined. -/
def call (region : Region) (e : Label) (next : Child) : Option Child :=
  if e.Within region.length then
    if region.Inside then some next else some { next with pc := .undefined }
  else none

def step (s : Child) (e : Label) : Option Child :=
  match s.pc, e with
  | .accept, .accept ok => some ⟨if ok then .sockatmark else .accept, 0⟩
  | .sockatmark, .sockatmark ret => some { s with pc := afterMark ret }
  | .recv, .recv ret => call (normalRegion s.cumRecv) e (afterRecv s.cumRecv ret)
  | .recvOob, .recvOob ret => call (oobRegion s.cumRecv) e (afterOob s.cumRecv ret)
  | _, _ => none

def start : Child := ⟨.accept, 0⟩

end Child

section Tally

/-- The bytes received and the failures of the normal band, since `cum_recv` was last set to 0. -/
structure Tally where
  received : Nat
  failed : Nat
deriving DecidableEq, Repr

def Tally.after (tally : Tally) : Label → Tally
  | .accept _ => ⟨0, 0⟩
  | .sockatmark _ => tally
  | .recv none => { tally with failed := tally.failed + 1 }
  | .recv (some 0) => ⟨0, 0⟩
  | .recv (some n) => { tally with received := tally.received + n }
  | .recvOob (.received _) => ⟨0, 0⟩
  | .recvOob _ => tally

/-- The results so far leave a region inside `buf` to this call. -/
def Tally.Allows (tally : Tally) : Label → Prop
  | .recv _ => tally.failed ≤ tally.received
  | .recvOob _ => tally.failed ≤ tally.received ∧ tally.received ≤ tally.failed + 253
  | _ => True

/-- The results so far leave a region inside `buf` to every call. -/
def Tolerated : Tally → List Label → Prop
  | _, [] => True
  | tally, e :: es => tally.Allows e ∧ Tolerated (tally.after e) es

/-- `cum_recv` is what the tally says. -/
structure Counts (tally : Tally) (s : Child) : Prop where
  cumRecv : s.cumRecv = tally.received - tally.failed
  le : s.cumRecv ≤ bufSize

/-- The next call of the child gets a region inside `buf`. -/
def InBounds (s : Child) : Prop :=
  ∀ region ∈ nextRegion s, region.Inside

end Tally

section Bounds

variable {s t : Child} {tally : Tally} {e : Label} {es : List Label}

theorem room_eq
    {cumRecv : Int}
    (hlow : -1 ≤ cumRecv)
    (hhigh : cumRecv ≤ bufSize) :
    (room cumRecv : Int) = bufSize - cumRecv := by
  unfold room bufSize at *
  omega

/-- The normal band is received up to the end of `buf`, so only the start matters. -/
theorem normalRegion_inside_iff
    {cumRecv : Int}
    (hhigh : cumRecv ≤ bufSize) :
    (normalRegion cumRecv).Inside ↔ 0 ≤ cumRecv := by
  constructor
  · exact And.left
  · intro hlow
    refine ⟨hlow, ?_⟩
    have hroom := room_eq (by omega) hhigh
    simp only [normalRegion]
    omega

theorem oobRegion_inside_iff
    (cumRecv : Int) :
    (oobRegion cumRecv).Inside ↔ 0 ≤ cumRecv ∧ cumRecv ≤ 253 := by
  simp only [Region.Inside, oobRegion, bufSize]
  omega

theorem call_cases
    {region : Region} {next : Child}
    (h : call region e next = some t) :
    e.Within region.length ∧
      (region.Inside ∧ t = next ∨ ¬ region.Inside ∧ t.pc = .undefined) := by
  unfold call at h
  split_ifs at h with hwithin hinside
  · exact ⟨hwithin, Or.inl ⟨hinside, (Option.some.inj h).symm⟩⟩
  · refine ⟨hwithin, Or.inr ⟨hinside, ?_⟩⟩
    rw [← Option.some.inj h]

/-- What a step can do. -/
inductive Moves (s : Child) : Label → Child → Prop where
  | accept (ok : Bool) :
      s.pc = .accept →
      Moves s (.accept ok) ⟨if ok then .sockatmark else .accept, 0⟩
  | sockatmark (ret : Int) :
      s.pc = .sockatmark →
      Moves s (.sockatmark ret) { s with pc := afterMark ret }
  | recv (ret : Option Nat) :
      s.pc = .recv →
      (normalRegion s.cumRecv).Inside →
      (Label.recv ret).Within (room s.cumRecv) →
      Moves s (.recv ret) (afterRecv s.cumRecv ret)
  | recvOob (ret : OobResult) :
      s.pc = .recvOob →
      (oobRegion s.cumRecv).Inside →
      Moves s (.recvOob ret) (afterOob s.cumRecv ret)
  | undefined (e : Label) (t : Child) (region : Region) :
      region ∈ nextRegion s →
      ¬ region.Inside →
      t.pc = .undefined →
      Moves s e t

theorem step_moves
    (h : step s e = some t) :
    Moves s e t := by
  unfold step at h
  split at h
  case h_1 ok hpc =>
      cases h
      exact .accept ok hpc
  case h_2 ret hpc =>
      cases h
      exact .sockatmark ret hpc
  case h_3 ret hpc =>
      obtain ⟨hwithin, ⟨hinside, rfl⟩ | ⟨hout, hundefined⟩⟩ := call_cases h
      · exact .recv ret hpc hinside hwithin
      · exact .undefined _ t _ (by simp [nextRegion, hpc]) hout hundefined
  case h_4 ret hpc =>
      obtain ⟨hwithin, ⟨hinside, rfl⟩ | ⟨hout, hundefined⟩⟩ := call_cases h
      · exact .recvOob ret hpc hinside
      · exact .undefined _ t _ (by simp [nextRegion, hpc]) hout hundefined
  case h_5 =>
      cases h

theorem step_undefined
    (hpc : s.pc = .undefined)
    (e : Label) :
    step s e = none := by
  simp [step, hpc]

/-- The tally follows `cum_recv` as long as the behaviour is defined. -/
theorem counts_step
    (hcounts : Counts tally s)
    (h : step s e = some t) :
    t.pc = .undefined ∨ Counts (tally.after e) t := by
  obtain ⟨hcum, hle⟩ := hcounts
  cases step_moves h with
  | accept ok hpc =>
      exact Or.inr ⟨by simp [Tally.after], by simp [bufSize]⟩
  | sockatmark ret hpc =>
      exact Or.inr ⟨hcum, hle⟩
  | recv ret hpc hinside hwithin =>
      right
      match ret, hwithin with
      | none, _ =>
          refine ⟨?_, ?_⟩
          · simp only [afterRecv, Tally.after]
            omega
          · simp only [afterRecv]
            omega
      | some 0, _ =>
          exact ⟨by simp [afterRecv, Tally.after], by simp [afterRecv, bufSize]⟩
      | some (n + 1), hwithin =>
          have hlow : 0 ≤ s.cumRecv := hinside.1
          have hroom := room_eq (by omega) hle
          simp only [Label.Within] at hwithin
          refine ⟨?_, ?_⟩
          · simp only [afterRecv, Tally.after]
            omega
          · simp only [afterRecv]
            omega
  | recvOob ret hpc hinside =>
      right
      cases ret with
      | einval =>
          exact ⟨hcum, hle⟩
      | error =>
          exact ⟨hcum, hle⟩
      | received n =>
          exact ⟨by simp [afterOob, Tally.after], by simp [afterOob, bufSize]⟩
  | undefined _ _ region hregion hout hundefined =>
      exact Or.inl hundefined

/-- A call that returns had a region inside `buf` if the tally allowed it, and only then. -/
theorem inBounds_iff_allows
    (hcounts : Counts tally s)
    (h : step s e = some t) :
    InBounds s ↔ tally.Allows e := by
  obtain ⟨hcum, hle⟩ := hcounts
  unfold InBounds nextRegion
  unfold step at h
  split at h
  case h_1 hpc =>
      simp [hpc, Tally.Allows]
  case h_2 hpc =>
      simp [hpc, Tally.Allows]
  case h_3 hpc =>
      simp only [hpc, Option.mem_some_iff, forall_eq', normalRegion_inside_iff hle, Tally.Allows]
      omega
  case h_4 hpc =>
      simp only [hpc, Option.mem_some_iff, forall_eq', oobRegion_inside_iff, Tally.Allows]
      omega
  case h_5 =>
      cases h

theorem inBounds_iff_of_counts
    (hcounts : Counts tally s)
    (hrun : run step s es = some t) :
    Along step (fun s _ => InBounds s) s es ↔ Tolerated tally es := by
  induction es generalizing s tally with
  | nil =>
      exact Iff.rfl
  | cons e es ih =>
      obtain ⟨m, hm, hrest⟩ := run_cons_success hrun
      have hhead := inBounds_iff_allows hcounts hm
      have htail : Along step (fun s _ => InBounds s) m es ↔ Tolerated (tally.after e) es := by
        rcases counts_step hcounts hm with hundefined | hnext
        · -- nothing runs on from here
          cases es with
          | nil =>
              exact Iff.rfl
          | cons e' es' =>
              simp [step_undefined hundefined] at hrest
        · exact ih hnext hrest
      simp only [Along, Tolerated, hm, hhead, htail]

/--
Over all sequences of results: every `recv` is given a region inside `buf`, if and only if at
each `recv` the failures since `cum_recv` was last 0 do not outnumber the bytes received, and at
an urgent `recv` they leave at most 253.
-/
theorem inBounds_iff
    (hrun : run step start es = some t) :
    Along step (fun s _ => InBounds s) start es ↔ Tolerated ⟨0, 0⟩ es :=
  inBounds_iff_of_counts ⟨rfl, by decide⟩ hrun

/-- Bytes, an urgent byte and the end of the session, without a failure. -/
def urgentSession : List Label :=
  [.accept true, .sockatmark 0, .recv (some 253), .sockatmark 1, .recvOob (.received 1),
    .sockatmark 0, .recv (some 0)]

theorem inBounds_urgentSession :
    Along step (fun s _ => InBounds s) start urgentSession := by
  have hrun : run step start urgentSession = some ⟨.accept, 0⟩ := by rfl
  refine (inBounds_iff hrun).mpr ?_
  simp [Tolerated, urgentSession, Tally.Allows, Tally.after]

/-- The first `recv` fails, and the second is given the byte before `buf`. -/
def failedSession : List Label :=
  [.accept true, .sockatmark 0, .recv none, .sockatmark 0, .recv (some 1)]

theorem not_inBounds_failedSession :
    run step start failedSession = some ⟨.undefined, 0⟩ ∧
    ¬ Along step (fun s _ => InBounds s) start failedSession := by
  refine ⟨rfl, ?_⟩
  rintro ⟨_, _, _, _, hinside, _⟩
  exact absurd (hinside ⟨-1, 256⟩ rfl).1 (by decide)

end Bounds

/-! ## Sessions without urgent data -/

namespace Link

section Model

/-- A child and the connection that it serves. -/
structure State where
  child : Child
  /-- sent by the peer and not yet received -/
  pending : List UInt8
  /-- the number of bytes received over this connection -/
  delivered : Nat
  peerClosed : Bool
deriving DecidableEq, Repr

inductive Event where
  | send (bytes : List UInt8)
  | peerClose
  | accept (ok : Bool)
  | sockatmark
  | recv (n : Nat)
deriving DecidableEq, Repr

/-- `recv` can return `n`: 0 at the end of the stream, or if nothing was asked for. -/
def State.Returns (s : State) (n : Nat) : Prop :=
  if n = 0 then room s.child.cumRecv = 0 ∨ s.pending = [] ∧ s.peerClosed = true
  else n ≤ s.pending.length

instance (s : State) (n : Nat) : Decidable (s.Returns n) :=
  inferInstanceAs (Decidable (if n = 0 then _ else _))

/-- The connection after `n` bytes have been received; with 0 it is closed, and the next begins. -/
def State.take (s : State) (n : Nat) (child : Child) : State :=
  if n = 0 then ⟨child, [], 0, false⟩
  else ⟨child, s.pending.drop n, s.delivered + n, s.peerClosed⟩

def step (s : State) : Event → Option State
  | .send bytes =>
      if s.peerClosed then none else some { s with pending := s.pending ++ bytes }
  | .peerClose => some { s with peerClosed := true }
  | .accept ok =>
      (OobServer.step s.child (.accept ok)).map fun child => { s with child := child }
  | .sockatmark =>
      (OobServer.step s.child (.sockatmark 0)).map fun child => { s with child := child }
  | .recv n =>
      if s.Returns n then (OobServer.step s.child (.recv (some n))).map (s.take n) else none

def start : State := ⟨OobServer.start, [], 0, false⟩

/-- The child closes the connection when `recv` returns 0: by then the peer has closed it. -/
def ClosesEnded (s : State) (e : Event) : Prop :=
  e = .recv 0 → s.peerClosed = true

/-- A `recv` returns after 255 bytes only if the peer has closed the connection. -/
def EndedWhenFull (s : State) (e : Event) : Prop :=
  ∀ n, e = .recv n → s.delivered = bufSize → s.peerClosed = true

/-- `cum_recv` counts the bytes of the connection. -/
structure Synced (s : State) : Prop where
  normal : s.child.pc = .accept ∨ s.child.pc = .sockatmark ∨ s.child.pc = .recv
  cumRecv : s.child.cumRecv = s.delivered
  le : s.delivered ≤ bufSize
  fresh : s.child.pc = .accept → s.delivered = 0

end Model

section Closing

variable {s t : State} {e : Event} {es : List Event}

theorem synced_start :
    Synced start :=
  ⟨Or.inl rfl, rfl, Nat.zero_le _, fun _ => rfl⟩

/-- What is left of `buf` is what the connection has not filled. -/
theorem room_of_synced
    (hs : Synced s) :
    room s.child.cumRecv = bufSize - s.delivered := by
  have hle := hs.le
  have hcum := hs.cumRecv
  have hroom : (room s.child.cumRecv : Int) = bufSize - s.child.cumRecv :=
    room_eq (by omega) (by omega)
  omega

theorem inBounds_of_synced
    (hs : Synced s) :
    InBounds s.child := by
  have hle := hs.le
  have hcum := hs.cumRecv
  intro region hregion
  rcases hs.normal with hpc | hpc | hpc
  · simp [nextRegion, hpc] at hregion
  · simp [nextRegion, hpc] at hregion
  · simp only [nextRegion, hpc, Option.mem_some_iff] at hregion
    subst hregion
    exact (normalRegion_inside_iff (by omega)).mpr (by omega)

/-- Without urgent data and failures, this is what a `recv` leads to. -/
theorem step_recv
    {n : Nat}
    (hs : Synced s)
    (h : step s (.recv n) = some t) :
    s.Returns n ∧ n ≤ bufSize - s.delivered ∧
      t = s.take n (afterRecv s.child.cumRecv (some n)) := by
  obtain ⟨hreturns, hmap⟩ := Option.ite_none_right_eq_some.mp h
  obtain ⟨child, hchild, rfl⟩ := Option.map_eq_some_iff.mp hmap
  cases step_moves hchild with
  | recv _ hpc hinside hwithin =>
      rw [room_of_synced hs] at hwithin
      exact ⟨hreturns, hwithin, rfl⟩
  | undefined _ _ region hregion hout hundefined =>
      exact absurd (inBounds_of_synced hs region hregion) hout

theorem synced_take
    {n : Nat}
    (hs : Synced s)
    (hn : n ≤ bufSize - s.delivered) :
    Synced (s.take n (afterRecv s.child.cumRecv (some n))) := by
  cases n with
  | zero =>
      exact synced_start
  | succ n =>
      have hle := hs.le
      have hcum := hs.cumRecv
      refine ⟨Or.inr (Or.inl rfl), ?_, ?_, ?_⟩
      · simp only [State.take, afterRecv, Nat.succ_ne_zero, if_false]
        omega
      · simp only [State.take, Nat.succ_ne_zero, if_false]
        omega
      · intro haccept
        cases haccept

theorem synced_step
    (hs : Synced s)
    (h : step s e = some t) :
    Synced t := by
  cases e with
  | send bytes =>
      obtain ⟨_, hsome⟩ := Option.ite_none_left_eq_some.mp h
      cases hsome
      exact ⟨hs.normal, hs.cumRecv, hs.le, hs.fresh⟩
  | peerClose =>
      cases h
      exact ⟨hs.normal, hs.cumRecv, hs.le, hs.fresh⟩
  | accept ok =>
      obtain ⟨child, hchild, rfl⟩ := Option.map_eq_some_iff.mp h
      cases step_moves hchild with
      | accept _ hpc =>
          have hfresh := hs.fresh hpc
          refine ⟨?_, by simp [hfresh], hs.le, fun _ => hfresh⟩
          cases ok with
          | true => exact Or.inr (Or.inl rfl)
          | false => exact Or.inl rfl
      | undefined _ _ region hregion hout hundefined =>
          exact absurd (inBounds_of_synced hs region hregion) hout
  | sockatmark =>
      obtain ⟨child, hchild, rfl⟩ := Option.map_eq_some_iff.mp h
      cases step_moves hchild with
      | sockatmark _ hpc =>
          refine ⟨Or.inr (Or.inr rfl), hs.cumRecv, hs.le, ?_⟩
          intro haccept
          cases haccept
      | undefined _ _ region hregion hout hundefined =>
          exact absurd (inBounds_of_synced hs region hregion) hout
  | recv n =>
      obtain ⟨_, hn, rfl⟩ := step_recv hs h
      exact synced_take hs hn

/-- `recv` returns 0 on an open connection only if nothing was asked for, after 255 bytes. -/
theorem closesEnded_iff_of_step
    (hs : Synced s)
    (h : step s e = some t) :
    ClosesEnded s e ↔ EndedWhenFull s e := by
  constructor
  · rintro hcloses n rfl hfull
    obtain ⟨_, hn, _⟩ := step_recv hs h
    obtain rfl : n = 0 := by omega
    exact hcloses rfl
  · rintro hended rfl
    obtain ⟨hreturns, _, _⟩ := step_recv hs h
    simp only [State.Returns, if_true] at hreturns
    rcases hreturns with hroom | ⟨_, hclosed⟩
    · have hle := hs.le
      rw [room_of_synced hs] at hroom
      exact hended 0 rfl (by omega)
    · exact hclosed

/--
Whatever a peer sends without urgent data, and however it is cut: the child closes connections
only after the peer has closed them, if and only if no `recv` returns after 255 bytes of a
connection that the peer has not closed.
-/
theorem closesEnded_iff
    (hrun : run step start es = some t) :
    Along step ClosesEnded start es ↔ Along step EndedWhenFull start es := by
  constructor
  · intro h
    refine along_of_run ?_ synced_start h hrun
    intro s e t hs hcloses hstep
    exact ⟨synced_step hs hstep, (closesEnded_iff_of_step hs hstep).mp hcloses⟩
  · intro h
    refine along_of_run ?_ synced_start h hrun
    intro s e t hs hended hstep
    exact ⟨synced_step hs hstep, (closesEnded_iff_of_step hs hstep).mpr hended⟩

/-- The number of bytes that an event adds to the stream. -/
def Event.size : Event → Nat
  | .send bytes => bytes.length
  | _ => 0

/-- A connection never holds more than was sent. -/
theorem volume_step
    (h : step s e = some t) :
    t.delivered + t.pending.length ≤ s.delivered + s.pending.length + e.size := by
  cases e with
  | send bytes =>
      obtain ⟨_, hsome⟩ := Option.ite_none_left_eq_some.mp h
      cases hsome
      simp only [List.length_append, Event.size]
      omega
  | peerClose =>
      cases h
      simp [Event.size]
  | accept ok =>
      obtain ⟨child, _, rfl⟩ := Option.map_eq_some_iff.mp h
      simp [Event.size]
  | sockatmark =>
      obtain ⟨child, _, rfl⟩ := Option.map_eq_some_iff.mp h
      simp [Event.size]
  | recv n =>
      obtain ⟨hreturns, hmap⟩ := Option.ite_none_right_eq_some.mp h
      obtain ⟨child, _, rfl⟩ := Option.map_eq_some_iff.mp hmap
      unfold State.Returns at hreturns
      unfold State.take
      split_ifs at hreturns ⊢
      · simp
      · simp only [List.length_drop, Event.size]
        omega

/-- Streams of fewer than 255 bytes meet the condition. -/
theorem endedWhenFull_of_short
    (hrun : run step s es = some t)
    (hshort : s.delivered + s.pending.length + (es.map Event.size).sum < bufSize) :
    Along step EndedWhenFull s es := by
  induction es generalizing s with
  | nil =>
      trivial
  | cons e es ih =>
      obtain ⟨m, hm, hrest⟩ := run_cons_success hrun
      rw [List.map_cons, List.sum_cons] at hshort
      have hvolume := volume_step hm
      refine ⟨?_, ?_⟩
      · intro n _ hfull
        omega
      · rw [hm]
        exact ih hrest (by omega)

/-- A short stream, received in two parts. -/
def shortStream : List Event :=
  [.accept true, .send [104, 105, 10], .sockatmark, .recv 2, .sockatmark, .recv 1, .peerClose,
    .sockatmark, .recv 0]

theorem closesEnded_shortStream :
    Along step ClosesEnded start shortStream := by
  have hrun : run step start shortStream = some start := by rfl
  exact (closesEnded_iff hrun).mpr (endedWhenFull_of_short hrun (by decide))

/-- Some bytes are sent at once, and 255 of them are received. -/
def filling (bytes : List UInt8) : List Event :=
  [.accept true, .send bytes, .sockatmark, .recv 255, .sockatmark]

theorem run_filling
    {bytes : List UInt8}
    (hlength : 255 ≤ bytes.length) :
    run step start (filling bytes) = some ⟨⟨.recv, 255⟩, bytes.drop 255, 255, false⟩ := by
  have hreturns : State.Returns ⟨⟨.recv, 0⟩, bytes, 0, false⟩ 255 := by
    rw [State.Returns, if_neg (by omega)]
    exact hlength
  have hrecv : step ⟨⟨.recv, 0⟩, bytes, 0, false⟩ (.recv 255) =
      some ⟨⟨.sockatmark, 255⟩, bytes.drop 255, 255, false⟩ := by
    rw [step, if_pos hreturns]
    rfl
  change run step ⟨⟨.recv, 0⟩, bytes, 0, false⟩ [.recv 255, .sockatmark] = _
  rw [run_cons, hrecv]
  rfl

/-- After them the connection is closed. -/
def longStream (bytes : List UInt8) : List Event :=
  filling bytes ++ [.recv 0]

theorem longStream_closed
    {bytes : List UInt8}
    (hlength : 255 ≤ bytes.length) :
    run step start (longStream bytes) = some start ∧
    ¬ Along step ClosesEnded start (longStream bytes) := by
  have hrun := run_filling hlength
  constructor
  · rw [longStream, run_append, hrun]
    rfl
  · intro halong
    obtain ⟨hcloses, _⟩ := along_suffix halong hrun
    exact absurd (hcloses rfl) Bool.false_ne_true

/-- Of 256 bytes the last one is never received. -/
theorem not_closesEnded_longStream :
    run step start (longStream (List.replicate 256 120)) = some start ∧
    ¬ Along step ClosesEnded start (longStream (List.replicate 256 120)) := by
  have hlength : 255 ≤ (List.replicate 256 (120 : UInt8)).length := by
    rw [List.length_replicate]
    omega
  exact longStream_closed hlength

end Closing
end Link
end OobServer
end SysProg
