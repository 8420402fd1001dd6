import SysProg.Lib.CString
import SysProg.Lib.Run
import Mathlib.Tactic

/-!
# The clients and the server of test/echo_clnt.c and test/echo_serv.c

A client sends what `fgets` has read, waits in one `recv` and prints what it gets, until it
reads "q".  The server serves one connection after the other: it sends back what it receives
until the client is gone.  Neither of them knows where a message ends.

At the end of its input `fgets` leaves the buffer as it is, and the client sends the last answer
again.

**Steps.**  The steps of any number of clients and of the server, in any order.  A turn of a
client is two steps, one up to its `send` and one from its `recv` on; a turn of the server, from
its `recv` to its `write`, is one, as what a client does in the meantime might as well be done
before.  A `recv` returns any part of what has arrived.  A client that closes its connection
with answers unread resets it at once, otherwise when another answer comes; SIGPIPE ends the
server if it then sends once more.  Other calls do not fail.  What the clients do after the end
of the server is not modelled.

**Results.**  `streams_conserved`: what a client has printed, with what is on the way, is what
it has sent; a client waits in vain only for the answer to an empty message, or because others
are served before it.  `replies_match`: if each `recv` returns a whole message, each answer is
the message it was asked for, and the server is never ended.
-/

namespace SysProg
namespace EchoPair

open CString Run

section Program

inductive ClientPc where
  /-- before `connect` -/
  | connecting
  /-- at `fgets` -/
  | asking
  /-- at `recv` -/
  | waiting
  | closed
deriving DecidableEq, Repr

/--
A client with its input, piece by piece as `fgets` returns it, the string in `msg` and its
connection in both directions; `sent` and `printed` are history.
-/
structure Client where
  pc : ClientPc
  input : List (List UInt8)
  msg : List UInt8
  up : List UInt8
  down : List UInt8
  reset : Bool
  sent : List (List UInt8)
  printed : List (List UInt8)
deriving DecidableEq, Repr

/--
The clients and the server: the connection it serves, those that wait, and what it has printed.
-/
structure State where
  client : Nat → Client
  serving : Option Nat
  backlog : List Nat
  out : List UInt8
  killed : Bool

/-- Each client with its input, and whatever is in its buffer. -/
def State.start (input : Nat → List (List UInt8)) (garbage : Nat → List UInt8) : State where
  client := fun c => ⟨.connecting, input c, cstr (garbage c), [], [], false, [], []⟩
  serving := none
  backlog := []
  out := []
  killed := false

def State.set (s : State) (c : Nat) (client : Client) : State :=
  { s with client := Function.update s.client c client }

/-- "q" and a newline -/
def quit : List UInt8 := [113, 10]

/-- `fgets`, which leaves the buffer alone at the end of the input. -/
def Client.fgets (cl : Client) : Client :=
  match cl.input with
  | [] => cl
  | piece :: input => { cl with input := input, msg := cstr piece }

/-- The comparison with "q" and, if it is something else, `send`. -/
def Client.send (cl : Client) : Client :=
  if cl.msg = quit then { cl with pc := .closed, reset := !cl.down.isEmpty }
  else { cl with pc := .waiting, up := cl.up ++ cl.msg, sent := cl.sent ++ [cl.msg] }

/-- `recv` returns `n` bytes, which are printed as a string. -/
def Client.recv (cl : Client) (n : Nat) : Client :=
  { cl with
    pc := .asking
    msg := cstr (cl.down.take n)
    down := cl.down.drop n
    printed := cl.printed ++ [cstr (cl.down.take n)] }

/-- The server gets `n` bytes, sends them back and prints them. -/
def Client.echo (cl : Client) (n : Nat) : Client :=
  { cl with
    up := cl.up.drop n
    down := cl.down ++ cl.up.take n
    reset := cl.reset || cl.pc == .closed }

inductive Label where
  | connect (c : Nat)
  | ask (c : Nat)
  | recv (c n : Nat)
  | accept
  | echo (n : Nat)
  /-- `recv` of the server returns 0 or -1 -/
  | hangup
  | sigpipe
deriving DecidableEq, Repr

def clientStep (s : State) : Label → Option State
  | .connect c =>
      if (s.client c).pc = .connecting then
        some { s.set c { s.client c with pc := .asking } with backlog := s.backlog ++ [c] }
      else none
  | .ask c =>
      if (s.client c).pc = .asking then some (s.set c (s.client c).fgets.send) else none
  | .recv c n =>
      if (s.client c).pc = .waiting ∧ 0 < n ∧ n ≤ (s.client c).down.length ∧ n ≤ BUFSIZ - 1 then
        some (s.set c ((s.client c).recv n))
      else none
  | _ => none

def serverStep (s : State) (l : Label) : Option State :=
  match s.serving, l with
  | none, .accept =>
      match s.backlog with
      | [] => none
      | c :: backlog => some { s with serving := some c, backlog := backlog }
  | some c, .echo n =>
      if 0 < n ∧ n ≤ (s.client c).up.length ∧ n ≤ BUFSIZ then
        some { s.set c ((s.client c).echo n) with out := s.out ++ (s.client c).up.take n }
      else none
  | some c, .hangup =>
      if (s.client c).pc = .closed ∧ ((s.client c).up = [] ∨ (s.client c).reset = true) then
        some { s with serving := none }
      else none
  | some c, .sigpipe =>
      if (s.client c).reset = true ∧ (s.client c).up ≠ [] then
        some { s with killed := true }
      else none
  | _, _ => none

def Label.ofServer : Label → Bool
  | .accept => true
  | .echo _ => true
  | .hangup => true
  | .sigpipe => true
  | _ => false

def step (s : State) (l : Label) : Option State :=
  if s.killed then none
  else if l.ofServer then serverStep s l
  else clientStep s l

end Program

section Effects

variable {s s' : State} {l : Label}

/-- What a step can do. -/
inductive Effect (s : State) : Label → State → Prop
  | connect {c : Nat}
      (hpc : (s.client c).pc = .connecting) :
      Effect s (.connect c)
        { s.set c { s.client c with pc := .asking } with backlog := s.backlog ++ [c] }
  | ask {c : Nat}
      (hpc : (s.client c).pc = .asking) :
      Effect s (.ask c) (s.set c (s.client c).fgets.send)
  | recv {c n : Nat}
      (hpc : (s.client c).pc = .waiting)
      (hpos : 0 < n)
      (hn : n ≤ (s.client c).down.length) :
      Effect s (.recv c n) (s.set c ((s.client c).recv n))
  | accept {c : Nat} {backlog : List Nat}
      (hserving : s.serving = none)
      (hbacklog : s.backlog = c :: backlog) :
      Effect s .accept { s with serving := some c, backlog := backlog }
  | echo {c n : Nat}
      (hserving : s.serving = some c)
      (hpos : 0 < n)
      (hn : n ≤ (s.client c).up.length) :
      Effect s (.echo n)
        { s.set c ((s.client c).echo n) with out := s.out ++ (s.client c).up.take n }
  | hangup {c : Nat}
      (hserving : s.serving = some c)
      (hpc : (s.client c).pc = .closed) :
      Effect s .hangup { s with serving := none }
  | sigpipe {c : Nat}
      (hserving : s.serving = some c)
      (hreset : (s.client c).reset = true)
      (hup : (s.client c).up ≠ []) :
      Effect s .sigpipe { s with killed := true }

theorem effect_of_clientStep
    (hstep : clientStep s l = some s') :
    Effect s l s' := by
  cases l with
  | connect c =>
      obtain ⟨hpc, hstep⟩ := Option.ite_none_right_eq_some.mp hstep
      cases hstep
      exact .connect hpc
  | ask c =>
      obtain ⟨hpc, hstep⟩ := Option.ite_none_right_eq_some.mp hstep
      cases hstep
      exact .ask hpc
  | recv c n =>
      obtain ⟨⟨hpc, hpos, hn, _⟩, hstep⟩ := Option.ite_none_right_eq_some.mp hstep
      cases hstep
      exact .recv hpc hpos hn
  | accept => cases hstep
  | echo n => cases hstep
  | hangup => cases hstep
  | sigpipe => cases hstep

theorem effect_of_serverStep
    (hstep : serverStep s l = some s') :
    Effect s l s' := by
  unfold serverStep at hstep
  split at hstep
  case h_1 hserving =>
      split at hstep
      · cases hstep
      · rename_i c backlog hbacklog
        cases hstep
        exact .accept hserving hbacklog
  case h_2 c n hserving =>
      obtain ⟨⟨hpos, hn, _⟩, hstep⟩ := Option.ite_none_right_eq_some.mp hstep
      cases hstep
      exact .echo hserving hpos hn
  case h_3 c hserving =>
      obtain ⟨⟨hpc, _⟩, hstep⟩ := Option.ite_none_right_eq_some.mp hstep
      cases hstep
      exact .hangup hserving hpc
  case h_4 c hserving =>
      obtain ⟨⟨hreset, hup⟩, hstep⟩ := Option.ite_none_right_eq_some.mp hstep
      cases hstep
      exact .sigpipe hserving hreset hup
  case h_5 => cases hstep

theorem effect_of_step
    (hstep : step s l = some s') :
    Effect s l s' := by
  unfold step at hstep
  split_ifs at hstep
  · exact effect_of_serverStep hstep
  · exact effect_of_clientStep hstep

end Effects

section Streams

variable {s s' : State} {l : Label} {cl : Client}

/-- One connection: nothing is lost on the way, and the client is at most one answer behind. -/
structure Client.Sound (cl : Client) : Prop where
  conserved : cl.printed.flatten ++ cl.down ++ cl.up = cl.sent.flatten
  nonzero : 0 ∉ cl.msg ∧ 0 ∉ cl.sent.flatten
  waiting : cl.pc = .waiting →
    cl.printed.length + 1 = cl.sent.length ∧ cl.printed.flatten <+: cl.sent.dropLast.flatten
  settled : cl.pc ≠ .waiting → cl.printed.length = cl.sent.length

theorem Client.Sound.fgets
    (h : cl.Sound) :
    cl.fgets.Sound := by
  unfold Client.fgets
  split
  · exact h
  · exact ⟨h.conserved, ⟨zero_not_mem_cstr _, h.nonzero.2⟩, h.waiting, h.settled⟩

@[simp] theorem Client.pc_fgets :
    cl.fgets.pc = cl.pc := by
  unfold Client.fgets
  split <;> rfl

theorem Client.Sound.send
    (h : cl.Sound)
    (hpc : cl.pc = .asking) :
    cl.send.Sound := by
  have hsettled := h.settled (by simp [hpc])
  unfold Client.send
  split_ifs with hquit
  · exact ⟨h.conserved, h.nonzero, by simp, fun _ => hsettled⟩
  · refine ⟨?_, ⟨h.nonzero.1, ?_⟩, ?_, by simp⟩
    · rw [List.flatten_append, ← h.conserved]
      simp
    · rw [List.flatten_append, List.flatten_singleton, List.mem_append]
      exact fun hmem => hmem.elim h.nonzero.2 h.nonzero.1
    · intro _
      refine ⟨by simp [hsettled], ?_⟩
      rw [List.dropLast_concat, ← h.conserved, List.append_assoc]
      exact List.prefix_append _ _

/-- No answer has a zero byte, where printing would stop. -/
theorem Client.Sound.cstr_down
    (h : cl.Sound)
    (n : Nat) :
    cstr (cl.down.take n) = cl.down.take n := by
  apply cstr_eq_self
  intro hmem
  apply h.nonzero.2
  rw [← h.conserved]
  simp [List.mem_of_mem_take hmem]

theorem Client.Sound.recv
    {n : Nat}
    (h : cl.Sound)
    (hpc : cl.pc = .waiting) :
    (cl.recv n).Sound := by
  obtain ⟨hlength, _⟩ := h.waiting hpc
  refine ⟨?_, ⟨zero_not_mem_cstr _, h.nonzero.2⟩, by simp [Client.recv], ?_⟩
  · have hconserved := h.conserved
    simp only [Client.recv, h.cstr_down, List.flatten_append, List.flatten_singleton]
    rwa [List.append_assoc cl.printed.flatten, List.take_append_drop]
  · intro _
    simp only [Client.recv, List.length_append, List.length_singleton]
    exact hlength

theorem Client.Sound.echo
    {n : Nat}
    (h : cl.Sound) :
    (cl.echo n).Sound := by
  refine ⟨?_, h.nonzero, h.waiting, h.settled⟩
  have hconserved := h.conserved
  simp only [Client.echo, List.append_assoc, List.take_append_drop] at hconserved ⊢
  exact hconserved

/-- There is one answer for each message but the one that the client waits for. -/
theorem Client.Sound.answers
    (h : cl.Sound) :
    cl.sent.length = cl.printed.length + if cl.pc = .waiting then 1 else 0 := by
  split_ifs with hpc
  · exact (h.waiting hpc).1.symm
  · exact (h.settled hpc).symm

/-- A client that waits for the answer to a message that is not empty has it on the way. -/
theorem Client.Sound.on_the_way
    {m : List UInt8}
    (h : cl.Sound)
    (hpc : cl.pc = .waiting)
    (hlast : cl.sent.getLast? = some m)
    (hm : m ≠ []) :
    cl.down ++ cl.up ≠ [] := by
  intro hnone
  obtain ⟨_, hprefix⟩ := h.waiting hpc
  have hconserved := h.conserved
  rw [List.append_assoc, hnone, List.append_nil] at hconserved
  have hlength := hprefix.length_le
  have hsent := List.dropLast_append_getLast? m hlast
  rw [hconserved, ← hsent, List.dropLast_concat, List.flatten_append, List.length_append] at hlength
  have hpos := List.length_pos_of_ne_nil hm
  simp only [List.flatten_singleton] at hlength
  omega

end Streams

section Invariant

variable {s s' : State} {l : Label}

/-- All connections, and the place of each in the service. -/
structure Invariant (s : State) : Prop where
  clients : ∀ c, (s.client c).Sound
  shown : ∀ c, ((s.client c).printed.flatten ++ (s.client c).down).Sublist s.out
  unserved : ∀ c, (s.client c).pc = .connecting ∨ c ∈ s.backlog →
    (s.client c).printed = [] ∧ (s.client c).down = []
  connected : ∀ c ∈ s.backlog, (s.client c).pc ≠ .connecting
  once : s.backlog.Nodup
  serving : ∀ c, s.serving = some c → c ∉ s.backlog ∧ (s.client c).pc ≠ .connecting

theorem invariant_start
    (input : Nat → List (List UInt8))
    (garbage : Nat → List UInt8) :
    Invariant (.start input garbage) := by
  refine ⟨?_, ?_, ?_, ?_, ?_, ?_⟩
  · intro c
    refine ⟨rfl, ⟨zero_not_mem_cstr _, ?_⟩, ?_, ?_⟩ <;> simp [State.start]
  all_goals simp [State.start]

/-- Something happens on one connection; the server may print. -/
theorem Invariant.set
    {c : Nat} {cl : Client} {out : List UInt8}
    (h : Invariant s)
    (hsound : cl.Sound)
    (hout : s.out.Sublist out)
    (hshown : (cl.printed.flatten ++ cl.down).Sublist out)
    (hbacklog : c ∈ s.backlog → cl.printed = [] ∧ cl.down = [])
    (hpc : cl.pc ≠ .connecting) :
    Invariant { s.set c cl with out := out } := by
  refine ⟨?_, ?_, ?_, ?_, h.once, ?_⟩
  · intro d
    simp only [State.set, Function.update_apply]
    split_ifs
    · exact hsound
    · exact h.clients d
  · intro d
    simp only [State.set, Function.update_apply]
    split_ifs
    · exact hshown
    · exact (h.shown d).trans hout
  · intro d hd
    simp only [State.set, Function.update_apply] at hd ⊢
    split_ifs at hd ⊢ with heq
    · subst heq
      exact hbacklog (hd.resolve_left hpc)
    · exact h.unserved d hd
  · intro d hd
    simp only [State.set, Function.update_apply]
    split_ifs
    · exact hpc
    · exact h.connected d hd
  · intro d hd
    refine ⟨(h.serving d hd).1, ?_⟩
    simp only [State.set, Function.update_apply]
    split_ifs
    · exact hpc
    · exact (h.serving d hd).2

theorem Invariant.connect
    {c : Nat}
    (h : Invariant s)
    (hpc : (s.client c).pc = .connecting) :
    Invariant { s.set c { s.client c with pc := .asking } with backlog := s.backlog ++ [c] } := by
  have hclient := h.clients c
  have hunserved := h.unserved c (Or.inl hpc)
  have hfresh : c ∉ s.backlog := fun hmem => h.connected c hmem hpc
  have hset : Invariant { s.set c { s.client c with pc := .asking } with out := s.out } := by
    refine h.set ?_ (List.Sublist.refl _) (h.shown c) (fun _ => hunserved) (by simp)
    have hsettled := hclient.settled (by simp [hpc])
    exact ⟨hclient.conserved, hclient.nonzero, by simp, fun _ => hsettled⟩
  refine ⟨hset.clients, hset.shown, ?_, ?_, ?_, ?_⟩
  · intro d hd
    rcases hd with hd | hd
    · exact hset.unserved d (Or.inl hd)
    · rcases List.mem_append.mp hd with hd | hd
      · exact hset.unserved d (Or.inr hd)
      · rw [List.mem_singleton.mp hd]
        simp only [State.set, Function.update_self]
        exact hunserved
  · intro d hd
    rcases List.mem_append.mp hd with hd | hd
    · exact hset.connected d hd
    · rw [List.mem_singleton.mp hd]
      simp [State.set]
  · rw [← List.concat_eq_append]
    exact h.once.concat hfresh
  · intro d hd
    refine ⟨?_, (hset.serving d hd).2⟩
    intro hmem
    rcases List.mem_append.mp hmem with hmem | hmem
    · exact (h.serving d hd).1 hmem
    · rw [List.mem_singleton.mp hmem] at hd
      exact (h.serving c hd).2 hpc

theorem Invariant.accept
    {c : Nat} {backlog : List Nat}
    (h : Invariant s)
    (hbacklog : s.backlog = c :: backlog) :
    Invariant { s with serving := some c, backlog := backlog } := by
  have honce := h.once
  rw [hbacklog, List.nodup_cons] at honce
  have hsub : ∀ d ∈ backlog, d ∈ s.backlog := by
    intro d hd
    rw [hbacklog]
    exact List.mem_cons_of_mem _ hd
  refine ⟨h.clients, h.shown, ?_, fun d hd => h.connected d (hsub d hd), honce.2, ?_⟩
  · intro d hd
    exact h.unserved d (hd.imp_right (hsub d))
  · intro d hd
    cases hd
    exact ⟨honce.1, h.connected c (by rw [hbacklog]; exact List.mem_cons_self)⟩

/-- What the client has read from its connection does not change when it sends. -/
theorem Client.send_fgets
    (cl : Client) :
    cl.fgets.send.printed = cl.printed ∧ cl.fgets.send.down = cl.down ∧
      cl.fgets.send.pc ≠ .connecting := by
  unfold Client.send Client.fgets
  split <;> split_ifs <;> simp

theorem Invariant.step
    (h : Invariant s)
    (hstep : step s l = some s') :
    Invariant s' := by
  cases effect_of_step hstep with
  | connect hpc =>
      exact h.connect hpc
  | @ask c hpc =>
      obtain ⟨hprinted, hdown, hplace⟩ := (s.client c).send_fgets
      have hsound : (s.client c).fgets.send.Sound :=
        (h.clients c).fgets.send (by rw [Client.pc_fgets, hpc])
      refine h.set hsound (List.Sublist.refl _) ?_ ?_ hplace
      · rw [hprinted, hdown]
        exact h.shown c
      · intro hmem
        rw [hprinted, hdown]
        exact h.unserved c (Or.inr hmem)
  | @recv c n hpc hpos hn =>
      refine h.set ((h.clients c).recv hpc) (List.Sublist.refl _) ?_ ?_ (by simp [Client.recv])
      · have hshown := h.shown c
        simp only [Client.recv, (h.clients c).cstr_down, List.flatten_append,
          List.flatten_singleton]
        rwa [List.append_assoc, List.take_append_drop]
      · intro hmem
        have hnone := (h.unserved c (Or.inr hmem)).2
        rw [hnone] at hn
        simp only [List.length_nil] at hn
        omega
  | accept hserving hbacklog =>
      exact h.accept hbacklog
  | @echo c n hserving hpos hn =>
      obtain ⟨hfresh, hpc⟩ := h.serving c hserving
      refine h.set (h.clients c).echo (List.sublist_append_left _ _) ?_ ?_ hpc
      · simp only [Client.echo, ← List.append_assoc]
        exact (h.shown c).append (List.Sublist.refl _)
      · intro hmem
        exact absurd hmem hfresh
  | hangup hserving hpc =>
      exact ⟨h.clients, h.shown, h.unserved, h.connected, h.once, by simp⟩
  | sigpipe hserving hreset hup =>
      exact ⟨h.clients, h.shown, h.unserved, h.connected, h.once, h.serving⟩

end Invariant

section Results

variable {s s' : State} {l : Label}

theorem Invariant.goes_on
    {c : Nat} {m : List UInt8}
    (h : Invariant s)
    (hkilled : s.killed = false)
    (hserving : s.serving = some c)
    (hpc : (s.client c).pc = .waiting)
    (hlast : (s.client c).sent.getLast? = some m)
    (hm : m ≠ []) :
    EchoPair.step s (.recv c 1) ≠ none ∨ EchoPair.step s (.echo 1) ≠ none := by
  have hway := (h.clients c).on_the_way hpc hlast hm
  by_cases hdown : (s.client c).down = []
  · right
    have hup : 1 ≤ (s.client c).up.length := by
      apply List.length_pos_of_ne_nil
      rwa [hdown, List.nil_append] at hway
    simp [EchoPair.step, hkilled, Label.ofServer, serverStep, hserving, hup, BUFSIZ]
  · left
    have hlength : 1 ≤ (s.client c).down.length := List.length_pos_of_ne_nil hdown
    simp [EchoPair.step, hkilled, Label.ofServer, clientStep, hpc, hlength, BUFSIZ]

/-- The client that is served waits, and nothing is on the way. -/
structure Stuck (c : Nat) (cl : Client) (s : State) : Prop where
  same : s.client c = cl
  serving : s.serving = some c
  waiting : cl.pc = .waiting
  down : cl.down = []
  up : cl.up = []

theorem Stuck.step
    {c : Nat} {cl : Client}
    (h : Stuck c cl s)
    (hstep : step s l = some s') :
    Stuck c cl s' := by
  have hpc : (s.client c).pc = .waiting := by rw [h.same, h.waiting]
  have hothers : ∀ {d : Nat} {dl : Client} {t : State}, d ≠ c →
      t.client = (s.set d dl).client → t.serving = s.serving → Stuck c cl t := by
    intro d dl t hne hclient hserving
    refine ⟨?_, hserving.trans h.serving, h.waiting, h.down, h.up⟩
    rw [hclient]
    exact (Function.update_of_ne (Ne.symm hne) ..).trans h.same
  cases effect_of_step hstep with
  | @connect d hd =>
      refine hothers (d := d) ?_ rfl rfl
      rintro rfl
      rw [hpc] at hd
      cases hd
  | @ask d hd =>
      refine hothers (d := d) ?_ rfl rfl
      rintro rfl
      rw [hpc] at hd
      cases hd
  | @recv d n hd hpos hn =>
      refine hothers (d := d) ?_ rfl rfl
      rintro rfl
      rw [h.same, h.down, List.length_nil] at hn
      omega
  | accept hserving hbacklog =>
      rw [h.serving] at hserving
      cases hserving
  | @echo d n hserving hpos hn =>
      rw [h.serving] at hserving
      cases hserving
      rw [h.same, h.up, List.length_nil] at hn
      omega
  | @hangup d hserving hclosed =>
      rw [h.serving] at hserving
      cases hserving
      rw [hpc] at hclosed
      cases hclosed
  | sigpipe hserving hreset hup =>
      exact ⟨h.same, h.serving, h.waiting, h.down, h.up⟩

/-- How many bytes a `recv` returns, and how many it could return. -/
def Label.bytes : Label → Option Nat
  | .recv _ n => some n
  | .echo n => some n
  | _ => none

def State.arrived (s : State) : Label → Option Nat
  | .recv c _ => some (s.client c).down.length
  | .echo _ => s.serving.map (fun c => (s.client c).up.length)
  | _ => none

/-- Each `recv` returns all that has been sent. -/
def Whole (s : State) (l : Label) : Prop :=
  s.arrived l = l.bytes

instance (s : State) (l : Label) : Decidable (Whole s l) :=
  inferInstanceAs (Decidable (_ = _))

/-- Only the answer to the last message is missing, which is on its way as a whole. -/
structure Client.InPhase (cl : Client) : Prop where
  waiting : cl.pc = .waiting →
    ∃ m, cl.sent = cl.printed ++ [m] ∧ (cl.up = m ∧ cl.down = [] ∨ cl.up = [] ∧ cl.down = m)
  settled : cl.pc ≠ .waiting → cl.sent = cl.printed ∧ cl.up = [] ∧ cl.down = []
  open_ : cl.reset = false

theorem Client.InPhase.send
    {cl : Client}
    (h : cl.InPhase)
    (hpc : cl.pc = .asking) :
    cl.send.InPhase := by
  obtain ⟨hsent, hup, hdown⟩ := h.settled (by simp [hpc])
  unfold Client.send
  split_ifs with hquit
  · exact ⟨by simp, fun _ => ⟨hsent, hup, hdown⟩, by simp [hdown]⟩
  · refine ⟨?_, by simp, h.open_⟩
    intro _
    exact ⟨cl.msg, by rw [hsent], Or.inl ⟨by simp [hup], hdown⟩⟩

theorem Client.InPhase.fgets
    {cl : Client}
    (h : cl.InPhase) :
    cl.fgets.InPhase := by
  unfold Client.fgets
  split
  · exact h
  · exact ⟨h.waiting, h.settled, h.open_⟩

theorem Client.InPhase.recv
    {cl : Client}
    (h : cl.InPhase)
    (hsound : cl.Sound)
    (hpc : cl.pc = .waiting)
    (hpos : 0 < cl.down.length) :
    (cl.recv cl.down.length).InPhase := by
  obtain ⟨m, hsent, hway⟩ := h.waiting hpc
  refine ⟨by simp [Client.recv], ?_, h.open_⟩
  intro _
  rcases hway with ⟨_, hdown⟩ | ⟨hup, hdown⟩
  · simp [hdown] at hpos
  · have hprinted := hsound.cstr_down cl.down.length
    rw [List.take_length] at hprinted
    refine ⟨?_, hup, List.drop_length⟩
    simp only [Client.recv, List.take_length, hprinted]
    rw [hsent, hdown]

theorem Client.InPhase.echo
    {cl : Client}
    (h : cl.InPhase)
    (hpos : 0 < cl.up.length) :
    (cl.echo cl.up.length).InPhase := by
  have hpc : cl.pc = .waiting := by
    by_contra hpc
    simp [(h.settled hpc).2.1] at hpos
  obtain ⟨m, hsent, hway⟩ := h.waiting hpc
  refine ⟨?_, fun hne => absurd hpc hne, by simp [Client.echo, h.open_, hpc]⟩
  intro _
  refine ⟨m, hsent, Or.inr ?_⟩
  rcases hway with ⟨hup, hdown⟩ | ⟨hup, _⟩
  · simp [Client.echo, hup, hdown]
  · simp [hup] at hpos

/-- All clients are in phase, and the server is there. -/
def InPhase (s : State) : Prop :=
  s.killed = false ∧ ∀ c, (s.client c).InPhase

theorem InPhase.set
    {c : Nat} {cl : Client}
    (h : InPhase s)
    (hcl : cl.InPhase) :
    ∀ d, ((s.set c cl).client d).InPhase := by
  intro d
  simp only [State.set, Function.update_apply]
  split_ifs
  · exact hcl
  · exact h.2 d

theorem InPhase.step
    (h : InPhase s)
    (hinv : Invariant s)
    (hwhole : Whole s l)
    (hstep : step s l = some s') :
    InPhase s' := by
  cases effect_of_step hstep with
  | @connect c hpc =>
      have hsettled := (h.2 c).settled (by simp [hpc])
      exact ⟨h.1, h.set ⟨by simp, fun _ => hsettled, (h.2 c).open_⟩⟩
  | @ask c hpc =>
      exact ⟨h.1, h.set ((h.2 c).fgets.send (by rw [Client.pc_fgets, hpc]))⟩
  | @recv c n hpc hpos hn =>
      obtain rfl : (s.client c).down.length = n := Option.some.inj hwhole
      exact ⟨h.1, h.set ((h.2 c).recv (hinv.clients c) hpc hpos)⟩
  | accept hserving hbacklog =>
      exact h
  | @echo c n hserving hpos hn =>
      have heq : (s.client c).up.length = n := by
        have hmap : s.serving.map (fun c => (s.client c).up.length) = some n := hwhole
        rwa [hserving, Option.map_some, Option.some.injEq] at hmap
      subst heq
      exact ⟨h.1, h.set ((h.2 c).echo hpos)⟩
  | hangup hserving hpc =>
      exact h
  | @sigpipe c hserving hreset hup =>
      rw [(h.2 c).open_] at hreset
      cases hreset

/--
If each `recv` returns all that has been sent, then each answer that a client prints is the
message it was asked for, at most one answer is missing, and the server is never ended by
SIGPIPE.
-/
theorem replies_match
    {input : Nat → List (List UInt8)} {garbage : Nat → List UInt8} {ls : List Label}
    (hwhole : Along step Whole (.start input garbage) ls)
    (hrun : run step (.start input garbage) ls = some s) :
    s.killed = false ∧
    ∀ c, (s.client c).sent = (s.client c).printed ∨
      (s.client c).pc = .waiting ∧ ∃ m, (s.client c).sent = (s.client c).printed ++ [m] := by
  have hstart : InPhase (.start input garbage) := by
    refine ⟨rfl, fun c => ⟨?_, ?_, rfl⟩⟩ <;> simp [State.start]
  have hboth : Invariant s ∧ InPhase s := by
    refine run_invariant_along (P := fun s => Invariant s ∧ InPhase s) ?_
      ⟨invariant_start input garbage, hstart⟩ hwhole hrun
    intro _ _ _ h hwhole hstep
    exact ⟨h.1.step hstep, h.2.step h.1 hwhole hstep⟩
  have h := hboth.2
  refine ⟨h.1, ?_⟩
  intro c
  by_cases hpc : (s.client c).pc = .waiting
  · obtain ⟨m, hsent, _⟩ := (h.2 c).waiting hpc
    exact Or.inr ⟨hpc, m, hsent⟩
  · exact Or.inl ((h.2 c).settled hpc).1

/-- One client asks once and quits; the server goes on to the next. -/
def oneQuestion : List Label :=
  [.connect 0, .accept, .ask 0, .echo 2, .recv 0 2, .ask 0, .connect 1, .hangup, .accept]

theorem replies_match_oneQuestion :
    ∃ s,
      run step (.start (fun _ => [[104, 10], quit]) (fun _ => [])) oneQuestion = some s ∧
      (s.client 0).printed = [[104, 10]] ∧
      s.serving = some 1 ∧
      s.killed = false := by
  have hrun : run step (.start (fun _ => [[104, 10], quit]) (fun _ => [])) oneQuestion =
      some _ := rfl
  exact ⟨_, hrun, rfl, rfl, (replies_match (by decide) hrun).1⟩

end Results

end EchoPair
end SysProg
