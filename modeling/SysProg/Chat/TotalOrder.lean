import SysProg.Chat.Stream
import SysProg.Chat.Table
import Mathlib.Tactic

/-!
# All clients of the chat server see one order

The server sends what a client wrote to every client in its table before it reads anything else.
So the broadcasts of a run have an order, and each client is sent all of them from the moment it
joins, in this order and once each, until it is removed.

**Observation.**  A `Watch` is the server with what can be seen from outside: all broadcasts
with the connection they came from, how many there were when a connection joined, and the
messages sent to each connection, as `State.sent` gets them.  `exists_watch`: every run of the
server can be watched.

**Result.**  `broadcasts_in_order`: over all runs, descriptors being used again and slots being
moved, every client has been sent a part of the broadcasts from its own start on without a gap;
at the top of the loop it is all of them, so that of two clients the one that joined later has
seen the end of what the other has seen.
-/

namespace SysProg
namespace Chat

open Run SlotTable

section Observation

/-- A broadcast that starts with this step: the connection it comes from and the message. -/
def castOf (s : State) : Label → Option (Nat × List UInt8)
  | .recv (some msg) =>
      match s.pc with
      | .scan i =>
          if msg ≠ [] ∧ exitsOn msg = false then
            (s.conn (s.clisockList i)).map (fun c => (c, msg))
          else none
      | _ => none
  | _ => none

/-- What has been sent in a step of a broadcast, and the connections it went to. -/
def deliveries (s s' : State) : List (Nat × List UInt8) :=
  match s.pc with
  | .broadcast _ _ _ =>
      (s'.sent.drop s.sent.length).filterMap (fun (sock, msg) =>
        (s.conn sock).map (fun c => (c, msg)))
  | _ => []

/-- The server and what is seen of it. -/
structure Watch where
  server : State
  order : List (Nat × List UInt8)
  since : Nat → Nat
  got : Nat → List (List UInt8)

def Watch.start (listenSock : Int) : Watch where
  server := State.start listenSock
  order := []
  since := fun _ => 0
  got := fun _ => []

/-- The first broadcast for a new connection is the next one. -/
def Watch.join (w : Watch) : Label → Nat → Nat
  | .accept _ => Function.update w.since w.server.nextConn w.order.length
  | _ => w.since

def Watch.deliver (w : Watch) (ds : List (Nat × List UInt8)) (c : Nat) : List (List UInt8) :=
  w.got c ++ (ds.filter (fun d => d.1 = c)).map Prod.snd

def watchStep (w : Watch) (l : Label) : Option Watch :=
  (step w.server l).map fun s =>
    { server := s
      order := w.order ++ (castOf w.server l).toList
      since := w.join l
      got := w.deliver (deliveries w.server s) }

/-- The messages broadcast from the moment on at which the connection joined. -/
def Watch.broadcasts (w : Watch) (c : Nat) : List (List UInt8) :=
  (w.order.drop (w.since c)).map Prod.snd

/-- What the client in slot `k` still has to be sent of the broadcast in progress. -/
def pending (pc : Pc) (k : Nat) : List (List UInt8) :=
  match pc with
  | .broadcast _ j msg => if k < j then [] else [msg]
  | _ => []

end Observation

section Invariant

variable {w w' : Watch} {l : Label}

/--
Everybody in the table has been sent the broadcasts since it joined, up to what is still
pending; who has left has been sent a first part of them.
-/
structure Ordered (w : Watch) : Prop where
  table : TableInv w.server
  streams : Streams w.server
  since_le : ∀ c < w.server.nextConn, w.since c ≤ w.order.length
  unborn : ∀ c, w.server.nextConn ≤ c → w.got c = []
  sent : ∀ c < w.server.nextConn, w.got c <+: w.broadcasts c
  current :
    w.server.pc ≠ .terminated →
      ∀ k < w.server.numChat, ∀ c, w.server.conn (w.server.clisockList k) = some c →
        w.got c ++ pending w.server.pc k = w.broadcasts c
  casts : ∀ c, w.server.casts c = (w.order.filter (fun b => b.1 = c)).map Prod.snd

theorem ordered_start
    (listenSock : Int) :
    Ordered (Watch.start listenSock) := by
  refine ⟨tableInv_start listenSock, start_streams listenSock, ?_, fun _ _ => rfl, ?_, ?_,
    fun _ => rfl⟩
  · intro c hc
    exact absurd hc (Nat.not_lt_zero c)
  · intro c hc
    exact absurd hc (Nat.not_lt_zero c)
  · intro _ k hk
    exact absurd hk (Nat.not_lt_zero k)

/-- Clients in different slots are different connections. -/
theorem Ordered.slot_unique
    (h : Ordered w)
    {j k c : Nat}
    (hj : j < w.server.numChat)
    (hk : k < w.server.numChat)
    (hcj : w.server.conn (w.server.clisockList j) = some c)
    (hck : w.server.conn (w.server.clisockList k) = some c) :
    j = k := by
  have hsock := h.streams.unique _ _ c hcj hck
  exact live_injective h.table.table.nodup hj hk hsock

/-- A step that only moves the control. -/
theorem Ordered.quiet
    (h : Ordered w)
    (htable : TableInv w'.server)
    (hstreams : Streams w'.server)
    (hlist : w'.server.clisockList = w.server.clisockList)
    (hnum : w'.server.numChat = w.server.numChat)
    (hconn : w'.server.conn = w.server.conn)
    (hnext : w'.server.nextConn = w.server.nextConn)
    (hcasts : w'.server.casts = w.server.casts)
    (horder : w'.order = w.order)
    (hsince : ∀ c < w.server.nextConn, w'.since c = w.since c)
    (hgot : w'.got = w.got)
    (hpending : w'.server.pc ≠ .terminated →
      w.server.pc ≠ .terminated ∧
        ∀ k < w.server.numChat, pending w'.server.pc k = pending w.server.pc k) :
    Ordered w' := by
  have hbroadcasts : ∀ c < w.server.nextConn, w'.broadcasts c = w.broadcasts c := by
    intro c hc
    rw [Watch.broadcasts, horder, hsince c hc, Watch.broadcasts]
  refine ⟨htable, hstreams, ?_, ?_, ?_, ?_, ?_⟩
  · intro c hc
    rw [hnext] at hc
    rw [hsince c hc, horder]
    exact h.since_le c hc
  · rw [hnext, hgot]
    exact h.unborn
  · intro c hc
    rw [hnext] at hc
    rw [hgot, hbroadcasts c hc]
    exact h.sent c hc
  · intro hpc k hk c hc
    obtain ⟨hrunning, hsame⟩ := hpending hpc
    rw [hnum] at hk
    rw [hconn, hlist] at hc
    rw [hgot, hsame k hk, hbroadcasts c (h.streams.known _ c hc)]
    exact h.current hrunning k hk c hc
  · rw [hcasts, horder]
    exact h.casts

/-- Outside of a broadcast, all clients are up to date. -/
theorem Ordered.settled
    (h : Ordered w)
    (hrunning : w.server.pc ≠ .terminated)
    (hpending : ∀ k, pending w.server.pc k = [])
    {sock : Int} {c : Nat}
    (hc : w.server.conn sock = some c) :
    w.got c = w.broadcasts c := by
  have hmem : sock ∈ w.server.socks := by
    rw [h.table.table.mem_iff, hc]
    simp
  obtain ⟨k, hk, rfl⟩ := mem_live_iff.mp hmem
  have hcurrent := h.current hrunning k hk c hc
  rw [hpending k, List.append_nil] at hcurrent
  exact hcurrent

/-- A removal, in the scan. -/
theorem Ordered.removed
    (h : Ordered w)
    {i i' : Nat} {rcvd : Nat → List (List UInt8)}
    (hpc : w.server.pc = .scan i')
    (hserver : w'.server = { w.server.removeclient i with rcvd := rcvd, pc := .scan (i + 1) })
    (htable : TableInv w'.server)
    (hstreams : Streams w'.server)
    (horder : w'.order = w.order)
    (hsince : w'.since = w.since)
    (hgot : w'.got = w.got) :
    Ordered w' := by
  have hbroadcasts : w'.broadcasts = w.broadcasts := by
    funext c
    rw [Watch.broadcasts, horder, hsince, Watch.broadcasts]
  have hnext : w'.server.nextConn = w.server.nextConn := by
    rw [hserver]
    rfl
  refine ⟨htable, hstreams, ?_, ?_, ?_, ?_, ?_⟩
  · rw [hnext, hsince, horder]
    exact h.since_le
  · rw [hnext, hgot]
    exact h.unborn
  · rw [hnext, hgot, hbroadcasts]
    exact h.sent
  · intro _ k _ c hc
    have hold : w.server.conn (w'.server.clisockList k) = some c := by
      rw [hserver] at hc ⊢
      exact (removeclient_conn hc).1
    have hup := h.settled (by rw [hpc]; simp) (by rw [hpc]; exact fun _ => rfl) hold
    rw [hserver]
    simp only [pending, List.append_nil]
    rw [hgot, hbroadcasts]
    exact hup
  · rw [hserver, horder]
    exact h.casts

/-- A client joins: nothing has been broadcast since. -/
theorem Ordered.joined
    (h : Ordered w)
    {sock : Int}
    (hpc : w.server.pc = .accept)
    (hserver : w'.server =
      { w.server with
        clisockList := Function.update w.server.clisockList w.server.numChat sock
        numChat := w.server.numChat + 1
        conn := Function.update w.server.conn sock (some w.server.nextConn)
        nextConn := w.server.nextConn + 1
        pc := .welcome sock })
    (htable : TableInv w'.server)
    (hstreams : Streams w'.server)
    (horder : w'.order = w.order)
    (hsince : w'.since = Function.update w.since w.server.nextConn w.order.length)
    (hgot : w'.got = w.got) :
    Ordered w' := by
  have hnew : w'.broadcasts w.server.nextConn = [] := by
    rw [Watch.broadcasts, hsince, horder, Function.update_self, List.drop_length, List.map_nil]
  have hold : ∀ c < w.server.nextConn, w'.broadcasts c = w.broadcasts c := by
    intro c hc
    rw [Watch.broadcasts, hsince, horder, Function.update_of_ne (by omega), Watch.broadcasts]
  have hnext : w'.server.nextConn = w.server.nextConn + 1 := by
    rw [hserver]
  refine ⟨htable, hstreams, ?_, ?_, ?_, ?_, ?_⟩
  · intro c hc
    rw [hsince, horder]
    by_cases heq : c = w.server.nextConn
    · rw [heq, Function.update_self]
    · rw [Function.update_of_ne heq]
      exact h.since_le c (by omega)
  · intro c hc
    rw [hgot]
    exact h.unborn c (by omega)
  · intro c hc
    rw [hgot]
    by_cases heq : c = w.server.nextConn
    · rw [heq, h.unborn _ (Nat.le_refl _)]
      exact List.nil_prefix
    · rw [hold c (by omega)]
      exact h.sent c (by omega)
  · intro _ k _ c hc
    rw [hserver] at hc ⊢
    simp only [pending, List.append_nil]
    rw [hgot]
    by_cases heq : Function.update w.server.clisockList w.server.numChat sock k = sock
    · simp only [heq, Function.update_self, Option.some.injEq] at hc
      rw [← hc, hnew]
      exact h.unborn _ (Nat.le_refl _)
    · simp only [Function.update_of_ne heq] at hc
      rw [hold c (h.streams.known _ c hc)]
      exact h.settled (by rw [hpc]; simp) (by rw [hpc]; exact fun _ => rfl) hc
  · rw [hserver, horder]
    exact h.casts

/-- A broadcast starts, with everybody still to be sent the message. -/
theorem Ordered.cast
    (h : Ordered w)
    {i c : Nat} {msg : List UInt8} {rcvd : Nat → List (List UInt8)}
    (hpc : w.server.pc = .scan i)
    (hserver : w'.server =
      { w.server with
        rcvd := rcvd
        casts := Function.update w.server.casts c (w.server.casts c ++ [msg])
        pc := .broadcast i 0 msg })
    (htable : TableInv w'.server)
    (hstreams : Streams w'.server)
    (horder : w'.order = w.order ++ [(c, msg)])
    (hsince : w'.since = w.since)
    (hgot : w'.got = w.got) :
    Ordered w' := by
  have hnext : w'.server.nextConn = w.server.nextConn := by
    rw [hserver]
  have hbroadcasts : ∀ d < w.server.nextConn, w'.broadcasts d = w.broadcasts d ++ [msg] := by
    intro d hd
    rw [Watch.broadcasts, hsince, horder, List.drop_append_of_le_length (h.since_le d hd),
      List.map_append]
    rfl
  refine ⟨htable, hstreams, ?_, ?_, ?_, ?_, ?_⟩
  · intro d hd
    rw [hnext] at hd
    rw [hsince, horder, List.length_append]
    exact Nat.le_add_right_of_le (h.since_le d hd)
  · rw [hnext, hgot]
    exact h.unborn
  · intro d hd
    rw [hnext] at hd
    rw [hgot, hbroadcasts d hd]
    exact (h.sent d hd).trans (List.prefix_append _ _)
  · intro _ k _ d hd
    rw [hserver] at hd
    rw [hserver, hgot, hbroadcasts d (h.streams.known _ d hd)]
    simp only [pending, Nat.not_lt_zero, if_false]
    rw [h.settled (by rw [hpc]; simp) (by rw [hpc]; exact fun _ => rfl) hd]
  · intro d
    rw [hserver, horder, List.filter_append, List.map_append, ← h.casts d]
    by_cases heq : d = c
    · subst heq
      simp
    · simp [Function.update_of_ne heq, Ne.symm heq]

/-- The client in slot `j` is sent the message of the broadcast. -/
theorem Ordered.delivered
    (h : Ordered w)
    {i j c : Nat} {msg : List UInt8} {sent : List (Int × List UInt8)}
    (hpc : w.server.pc = .broadcast i j msg)
    (hj : j < w.server.numChat)
    (hc : w.server.conn (w.server.clisockList j) = some c)
    (hserver : w'.server = { w.server with pc := .broadcast i (j + 1) msg, sent := sent })
    (htable : TableInv w'.server)
    (hstreams : Streams w'.server)
    (horder : w'.order = w.order)
    (hsince : w'.since = w.since)
    (hgot : w'.got = Function.update w.got c (w.got c ++ [msg])) :
    Ordered w' := by
  have hlt := h.streams.known _ c hc
  have hnext : w'.server.nextConn = w.server.nextConn := by
    rw [hserver]
  have hbroadcasts : w'.broadcasts = w.broadcasts := by
    funext d
    rw [Watch.broadcasts, hsince, horder, Watch.broadcasts]
  have hcurrent := h.current (by rw [hpc]; simp)
  have hnow : w.got c ++ [msg] = w.broadcasts c := by
    have hdue := hcurrent j hj c hc
    rw [hpc] at hdue
    simpa [pending] using hdue
  refine ⟨htable, hstreams, ?_, ?_, ?_, ?_, ?_⟩
  · rw [hnext, hsince, horder]
    exact h.since_le
  · intro d hd
    rw [hnext] at hd
    rw [hgot, Function.update_of_ne (by omega)]
    exact h.unborn d hd
  · intro d hd
    rw [hnext] at hd
    rw [hgot, hbroadcasts]
    by_cases heq : d = c
    · rw [heq, Function.update_self, hnow]
    · rw [Function.update_of_ne heq]
      exact h.sent d hd
  · intro _ k hk d hd
    rw [hserver] at hk hd
    rw [hserver, hgot, hbroadcasts]
    by_cases heq : d = c
    · subst heq
      have hkj : k = j := h.slot_unique hk hj hd hc
      subst hkj
      simp [pending, hnow]
    · have hkj : k ≠ j := by
        rintro rfl
        rw [hd, Option.some.injEq] at hc
        exact heq hc
      have hdue := hcurrent k hk d hd
      rw [hpc] at hdue
      have hsame : k < j + 1 ↔ k < j := by omega
      simp only [pending, hsame, Function.update_of_ne heq]
      exact hdue
  · rw [hserver, horder]
    exact h.casts

@[simp] theorem deliver_nil
    (w : Watch) :
    w.deliver [] = w.got := by
  funext c
  simp [Watch.deliver]

theorem deliver_singleton
    (w : Watch) (c : Nat) (msg : List UInt8) :
    w.deliver [(c, msg)] = Function.update w.got c (w.got c ++ [msg]) := by
  funext d
  by_cases hd : d = c
  · subst hd
    simp [Watch.deliver]
  · simp [Watch.deliver, hd, Ne.symm hd]

/-- Only `send` sends. -/
theorem sent_of_step
    {s s' : State}
    (hl : l ≠ .send)
    (hstep : Chat.step s l = some s') :
    s'.sent = s.sent := by
  cases l with
  | next =>
      simp only [Chat.step, nextStep] at hstep
      split at hstep
      · split_ifs at hstep <;> cases hstep <;> rfl
      · split_ifs at hstep <;> cases hstep <;> rfl
      · split_ifs at hstep
        cases hstep
        rfl
      · cases hstep
  | send =>
      exact absurd rfl hl
  | recv ret =>
      simp only [Chat.step, Chat.recvStep] at hstep
      split at hstep
      · obtain ⟨_, hsome⟩ := Option.ite_none_right_eq_some.mp hstep
        cases hsome
        unfold State.recvFrom
        split
        · rfl
        · rfl
        · split_ifs <;> rfl
      · cases hstep
  | accept sock =>
      obtain ⟨_, hsome⟩ := Option.ite_none_right_eq_some.mp hstep
      cases hsome
      unfold State.addclient
      split_ifs <;> rfl
  | _ =>
      obtain ⟨_, hsome⟩ := Option.ite_none_right_eq_some.mp hstep
      cases hsome
      rfl

theorem deliveries_of_sent_eq
    {s s' : State}
    (h : s'.sent = s.sent) :
    deliveries s s' = [] := by
  unfold deliveries
  split
  · simp [h]
  · rfl

theorem nextStep_pending
    {s s' : State}
    (hstep : nextStep s = some s') :
    s.pc ≠ .terminated ∧ ∀ k < s.numChat, pending s'.pc k = pending s.pc k := by
  unfold nextStep at hstep
  split at hstep
  case h_1 hpc =>
      rw [hpc]
      refine ⟨by simp, fun k _ => ?_⟩
      split_ifs at hstep
      · cases hstep
        rfl
      · cases hstep
        rfl
  case h_2 i hpc =>
      rw [hpc]
      refine ⟨by simp, fun k _ => ?_⟩
      split_ifs at hstep
      · cases hstep
        rfl
      · cases hstep
        rfl
      · cases hstep
        rfl
  case h_3 i j msg hpc =>
      split_ifs at hstep with hj
      cases hstep
      rw [hpc]
      refine ⟨by simp, fun k hk => ?_⟩
      -- everybody in the table has been sent the message
      have hsent : k < j := by omega
      simp [pending, hsent]
  case h_4 =>
      cases hstep

/-- A call of `send`. -/
theorem Ordered.sendStep
    (h : Ordered w)
    {s : State}
    (hstep : sendStep w.server = some s)
    (htable : TableInv s)
    (hstreams : Streams s) :
    Ordered
      { server := s
        order := w.order
        since := w.since
        got := w.deliver (deliveries w.server s) } := by
  unfold Chat.sendStep at hstep
  split at hstep
  case h_1 sock hpc =>
      have hnone : deliveries w.server s = [] := by
        simp [deliveries, hpc]
      rw [hnone, deliver_nil]
      rw [Option.some.injEq] at hstep
      rcases sendTo_eq_or w.server sock startString (.scan 0) with heq | heq
      · rw [heq] at hstep
        subst hstep
        exact h.quiet htable hstreams rfl rfl rfl rfl rfl rfl (fun _ _ => rfl) rfl (by simp)
      · rw [heq] at hstep
        subst hstep
        exact h.quiet htable hstreams rfl rfl rfl rfl rfl rfl (fun _ _ => rfl) rfl
          (by simp [hpc, pending])
  case h_2 i j msg hpc =>
      split_ifs at hstep with hj
      rw [Option.some.injEq] at hstep
      have hmem : w.server.clisockList j ∈ w.server.socks := mem_live_iff.mpr ⟨j, hj, rfl⟩
      obtain ⟨c, hc⟩ := Option.ne_none_iff_exists'.mp ((h.table.table.mem_iff _).mp hmem)
      cases hreset : w.server.reset c with
      | true =>
          simp only [State.sendTo, hc, hreset, if_true] at hstep
          have hnone : deliveries w.server s = [] := by
            rw [← hstep]
            exact deliveries_of_sent_eq rfl
          rw [hnone, deliver_nil]
          subst hstep
          exact h.quiet htable hstreams rfl rfl rfl rfl rfl rfl (fun _ _ => rfl) rfl (by simp)
      | false =>
          simp only [State.sendTo, hc, hreset, Bool.false_eq_true, if_false] at hstep
          have hsome : deliveries w.server s = [(c, msg)] := by
            simp [← hstep, deliveries, hpc, hc]
          rw [hsome, deliver_singleton]
          subst hstep
          exact h.delivered hpc hj hc rfl htable hstreams rfl rfl rfl
  case h_3 =>
      cases hstep

/-- A call of `recv`. -/
theorem Ordered.recvStep
    (h : Ordered w)
    {s : State} {ret : Option (List UInt8)}
    (hstep : recvStep w.server ret = some s)
    (htable : TableInv s)
    (hstreams : Streams s) :
    Ordered
      { server := s
        order := w.order ++ (castOf w.server (.recv ret)).toList
        since := w.since
        got := w.got } := by
  unfold Chat.recvStep at hstep
  split at hstep
  case h_1 i hpc =>
      split_ifs at hstep with hready
      obtain ⟨hi, _, _, hret⟩ := hready
      rw [Option.some.injEq] at hstep
      cases ret with
      | none =>
          subst hstep
          exact h.quiet htable hstreams rfl rfl rfl rfl rfl (by simp [castOf]) (fun _ _ => rfl) rfl
            (by simp [hpc, State.recvFrom, pending])
      | some msg =>
          obtain ⟨c, hc⟩ := Option.ne_none_iff_exists'.mp hret.2
          cases msg with
          | nil =>
              subst hstep
              exact h.removed hpc rfl htable hstreams (by simp [castOf, hpc]) rfl rfl
          | cons b msg =>
              simp only [State.recvFrom, hc, record] at hstep
              split_ifs at hstep with hexit
              · subst hstep
                exact h.removed hpc rfl htable hstreams (by simp [castOf, hpc, hexit]) rfl rfl
              · subst hstep
                exact h.cast hpc rfl htable hstreams (by simp [castOf, hpc, hexit, hc]) rfl rfl
  case h_2 =>
      cases hstep

theorem Ordered.step
    (h : Ordered w)
    (hstep : watchStep w l = some w') :
    Ordered w' := by
  obtain ⟨s, hs, rfl⟩ := Option.map_eq_some_iff.mp hstep
  have htable := h.table.step hs
  have hstreams := h.streams.step (step_effect hs)
  have hgot : l ≠ .send → w.deliver (deliveries w.server s) = w.got := by
    intro hl
    rw [deliveries_of_sent_eq (sent_of_step hl hs), deliver_nil]
  cases l with
  | next =>
      have hpending := nextStep_pending hs
      cases nextStep_effect (l := .next) hs with
      | control hlist hnum hconn hnext hreset hrcvd hcasts =>
          exact h.quiet htable hstreams hlist hnum hconn hnext hcasts (by simp [castOf])
            (fun _ _ => rfl) (hgot (by simp)) (fun _ => hpending)
  | send =>
      have hsent := h.sendStep hs htable hstreams
      simpa [castOf, Watch.join] using hsent
  | recv ret =>
      rw [hgot (by simp)]
      exact h.recvStep hs htable hstreams
  | accept sock =>
      obtain ⟨⟨hpc, hsock⟩, hsome⟩ := Option.ite_none_right_eq_some.mp hs
      rw [Option.some.injEq] at hsome
      unfold State.addclient at hsome
      split_ifs at hsome
      · subst hsome
        exact h.joined hpc rfl htable hstreams (by simp [castOf]) rfl (hgot (by simp))
      · subst hsome
        refine h.quiet htable hstreams rfl rfl rfl rfl rfl (by simp [castOf]) ?_
          (hgot (by simp)) (by simp [hpc, pending])
        intro c hc
        exact Function.update_of_ne (by omega) _ _
  | select ready =>
      obtain ⟨⟨hpc, _⟩, hsome⟩ := Option.ite_none_right_eq_some.mp hs
      cases hsome
      refine h.quiet htable hstreams rfl rfl rfl rfl rfl (by simp [castOf]) (fun _ _ => rfl)
        (hgot (by simp)) ?_
      intro _
      refine ⟨by rw [hpc]; simp, fun k _ => ?_⟩
      rw [hpc]
      simp only
      split_ifs
      · rfl
      · rfl
  | peerReset c =>
      obtain ⟨_, hsome⟩ := Option.ite_none_right_eq_some.mp hs
      cases hsome
      exact h.quiet htable hstreams rfl rfl rfl rfl rfl (by simp [castOf]) (fun _ _ => rfl)
        (hgot (by simp)) (fun hrunning => ⟨hrunning, fun _ _ => rfl⟩)
  | _ =>
      obtain ⟨_, hsome⟩ := Option.ite_none_right_eq_some.mp hs
      cases hsome
      exact h.quiet htable hstreams rfl rfl rfl rfl rfl (by simp [castOf]) (fun _ _ => rfl)
        (hgot (by simp)) (by simp)

end Invariant

section Results

variable {listenSock : Int} {es : List Label} {s : State}

/-- Every run of the server can be watched. -/
theorem exists_watch
    (hrun : run step (State.start listenSock) es = some s) :
    ∃ w, run watchStep (Watch.start listenSock) es = some w ∧ w.server = s := by
  have hmap : run step (State.start listenSock) es =
      (run watchStep (Watch.start listenSock) es).map Watch.server :=
    run_map Watch.server (fun w l => by simp [watchStep, Function.comp_def])
      (Watch.start listenSock) es
  rw [hrun] at hmap
  obtain ⟨w, hw, hs⟩ := Option.map_eq_some_iff.mp hmap.symm
  exact ⟨w, hw, hs⟩

/-- What the clients have been sent. -/
structure OneOrder (w : Watch) : Prop where
  /-- no gap, nothing twice, nothing else: also for those who have left -/
  sent : ∀ c < w.server.nextConn, w.got c <+: w.broadcasts c
  /-- at the top of the loop nothing is missing -/
  complete : w.server.pc = .top → ∀ sock c, w.server.conn sock = some c → w.got c = w.broadcasts c
  agree :
    w.server.pc = .top →
      ∀ sock sock' c c', w.server.conn sock = some c → w.server.conn sock' = some c' →
        w.since c ≤ w.since c' → w.got c' <:+ w.got c
  /-- the order is one of the messages of the clients, each client's in its own order -/
  casts : ∀ c, (w.order.filter (fun b => b.1 = c)).map Prod.snd = w.server.casts c

theorem Ordered.oneOrder
    {w : Watch}
    (h : Ordered w) :
    OneOrder w := by
  have hcomplete : w.server.pc = .top → ∀ sock c, w.server.conn sock = some c →
      w.got c = w.broadcasts c := by
    intro hpc sock c hc
    exact h.settled (by rw [hpc]; simp) (by rw [hpc]; exact fun _ => rfl) hc
  refine ⟨h.sent, hcomplete, ?_, fun c => (h.casts c).symm⟩
  intro hpc sock sock' c c' hc hc' hle
  rw [hcomplete hpc sock c hc, hcomplete hpc sock' c' hc', Watch.broadcasts, Watch.broadcasts]
  exact (List.drop_suffix_drop_left w.order hle).map Prod.snd

/--
Over every run of the server, with clients that join, leave and are reset at any time: there is
one order of all broadcasts, and every client has been sent those from its start on in this
order.
-/
theorem broadcasts_in_order
    (hrun : run step (State.start listenSock) es = some s) :
    ∃ w, run watchStep (Watch.start listenSock) es = some w ∧ w.server = s ∧ OneOrder w := by
  obtain ⟨w, hw, hs⟩ := exists_watch hrun
  have h : Ordered w :=
    run_invariant (fun _ _ _ h hstep => h.step hstep) (ordered_start listenSock) hw
  exact ⟨w, hw, hs, h.oneOrder⟩

/-- Two clients join, the first one writes "hi". -/
def joinAndWrite : List Label :=
  [.next, .select [3], .accept 4, .send, .next, .next, .next,
    .select [3], .accept 5, .send, .next, .next, .next, .next,
    .select [4], .recv (some [104, 105, 10]), .send, .send, .next, .next, .next]

theorem oneOrder_joinAndWrite :
    ∃ w,
      run watchStep (Watch.start 3) joinAndWrite = some w ∧
      w.server.pc = .top ∧
      w.got 1 = [[104, 105, 10]] ∧
      OneOrder w := by
  have hrun : run step (State.start 3) joinAndWrite = some _ := rfl
  obtain ⟨w, hw, _, horder⟩ := broadcasts_in_order hrun
  refine ⟨w, hw, ?_, ?_, horder⟩
  · cases hw
    rfl
  · cases hw
    rfl

end Results

end Chat
end SysProg
