import SysProg.Chat.Client
import SysProg.Lib.Memory
import Mathlib.Tactic

/-!
# The messages of sp/select/clnt.c and of test/select_clnt.c

Both clients keep "[name] : " at the start of `bufall`, and the line or the received message
behind it.  They differ in two places: the array of the second is a byte shorter, and its
`send` is given `NAME_LEN` plus the length of the line where the first has the length of the
frame.  A frame is as long as `NAME_LEN` only for a name of 15 characters; with a shorter name
the bytes behind the line are sent as well.

**Steps.** One definition with the version as a parameter; the array is filled with any bytes
at the start.  A step is a `recv` or a line from `fgets`, as in the model of the first client
alone, which `client_agrees` connects with this one.

**Results.** `framed_iff`: after any run of the two clients on the same lines and messages, both
have sent exactly the frame and the line each time, if and only if the lines hold no zero byte
and the name has 15 characters.
-/

namespace SysProg
namespace Chat
namespace Framing

open Run CString Memory

section Program

/-- What the two clients do differently. -/
structure Version where
  /-- the size of `bufall` -/
  size : Nat
  /-- the length given to `send`, from `namelen` and the length of the string at `bufmsg` -/
  sendLen : Nat → Nat → Nat

/-- sp/select/clnt.c -/
def spVersion : Version where
  size := MAXLINE + NAME_LEN + 1
  sendLen := fun namelen msglen => namelen + msglen

/-- test/select_clnt.c, which computes `namelen` and does not use it here -/
def testVersion : Version where
  size := MAXLINE + NAME_LEN
  sendLen := fun _ msglen => NAME_LEN + msglen

/-- The array, the position of `bufmsg` in it, and as history the calls of `send`. -/
structure State (w : Version) where
  bufall : List UInt8
  hsize : bufall.length = w.size
  namelen : Nat
  pc : ClientPc
  sent : List (List UInt8)

variable {w : Version}

/-- Bytes and a terminator stored at an index of `bufall`. -/
def State.store (c : State w) (i : Nat) (bytes : List UInt8) : State w :=
  if h : i + (bytes ++ [0]).length ≤ c.bufall.length then
    { c with
      bufall := poke c.bufall i (bytes ++ [0])
      hsize := (length_poke h).trans c.hsize }
  else { c with pc := .undefined }

/-- The string at `bufmsg`. -/
def State.msg (c : State w) : List UInt8 :=
  cstr (c.bufall.drop c.namelen)

/-- `send`, and the test for "exit". -/
def State.sendLine (c : State w) : State w :=
  let len := w.sendLen c.namelen c.msg.length
  if len ≤ w.size then
    { c with
      sent := c.sent ++ [c.bufall.take len]
      pc := if (strstr c.msg exitString).isSome then .exited else .select }
  else { c with pc := .undefined }

def step (c : State w) : ClientLabel → Option (State w)
  | .recv none => if c.pc = .select then some c else none
  | .recv (some bytes) =>
      if c.pc = .select ∧ bytes.length ≤ MAXLINE then
        some (if bytes = [] then c else c.store c.namelen bytes)
      else none
  | .typed line =>
      if c.pc = .select ∧ Typed line then
        some
          (if (c.store c.namelen line).pc = .undefined then c.store c.namelen line
          else (c.store c.namelen line).sendLine)
      else none

/-- A connected client, with the bytes found in `bufall` behind the frame. -/
def State.start (name memory : List UInt8) (hsize : memory.length = w.size) : State w :=
  let c : State w := State.store ⟨memory, hsize, 0, .select, []⟩ 0 (frame name)
  { c with namelen := (cstr c.bufall).length }

/-- The lines among the labels of a run. -/
def typedLines (es : List ClientLabel) : List (List UInt8) :=
  es.filterMap (fun
    | .typed line => some line
    | .recv _ => none)

end Program

section Sends

variable {w : Version} {name memory : List UInt8} {c c' : State w}

theorem length_frame
    (name : List UInt8) :
    (frame name).length = name.length + 5 := by
  simp [frame]

theorem zero_not_mem_frame
    (hname : 0 ∉ name) :
    0 ∉ frame name := by
  simp [frame, hname]

/-- The frame is at the start of the array, and `bufmsg` behind it. -/
structure Framed (name : List UInt8) (c : State w) : Prop where
  namelen : c.namelen = (frame name).length
  head : c.bufall.take (frame name).length = frame name

theorem framed_start
    (hname : 0 ∉ name)
    (hfits : name.length + 6 ≤ w.size)
    (hsize : memory.length = w.size) :
    Framed name (State.start name memory hsize : State w) := by
  have hstore : 0 + (frame name ++ [0]).length ≤ memory.length := by
    simp only [List.length_append, length_frame, List.length_singleton]
    omega
  have hstr : cstr (poke memory 0 (frame name ++ [0])) = frame name := by
    rw [cstr_poke (Nat.zero_le _) (by simp), cstr_eq_self (zero_not_mem_frame hname)]
    simp
  refine ⟨?_, ?_⟩
  · simp only [State.start, State.store, dif_pos hstore, hstr]
  · simp only [State.start, State.store, dif_pos hstore]
    simp [poke]

theorem Framed.store
    (h : Framed name c)
    (bytes : List UInt8) :
    Framed name (c.store c.namelen bytes) := by
  simp only [State.store]
  split_ifs with hfits
  · refine ⟨h.namelen, ?_⟩
    have hle : c.namelen ≤ c.bufall.length := by omega
    exact (take_poke (Nat.le_of_eq h.namelen.symm) hle _).trans h.head
  · exact ⟨h.namelen, h.head⟩

/-- What `send` is given for a line: the array up to the length that the version computes. -/
def Sends (w : Version) (name line m : List UInt8) : Prop :=
  ∃ rest,
    m = (frame name ++ (line ++ 0 :: rest)).take
      (w.sendLen (frame name).length (cstr line).length) ∧
    m.length = w.sendLen (frame name).length (cstr line).length

/-- For names of up to 15 characters, every line fits and is sent from within the array. -/
structure Wide (w : Version) : Prop where
  size : MAXLINE + NAME_LEN ≤ w.size
  sendLen : ∀ namelen msglen, namelen ≤ NAME_LEN → w.sendLen namelen msglen ≤ NAME_LEN + msglen

theorem wide_sp : Wide spVersion := by
  refine ⟨by decide, ?_⟩
  intro namelen msglen h
  simp only [spVersion]
  omega

theorem wide_test : Wide testVersion :=
  ⟨Nat.le_refl _, fun _ _ _ => Nat.le_refl _⟩

/-- A line that fits is stored behind the frame. -/
theorem Framed.store_line
    (h : Framed name c)
    {line : List UInt8}
    (hfits : c.namelen + (line ++ [0]).length ≤ c.bufall.length) :
    (c.store c.namelen line).pc = c.pc ∧
      (c.store c.namelen line).sent = c.sent ∧
      (c.store c.namelen line).msg = cstr line ∧
      ∃ rest, (c.store c.namelen line).bufall = frame name ++ (line ++ 0 :: rest) := by
  have hle : c.namelen ≤ c.bufall.length := by omega
  rw [State.store, dif_pos hfits]
  refine ⟨rfl, rfl, cstr_drop_poke hle line, ?_⟩
  refine ⟨c.bufall.drop (c.namelen + (line ++ [0]).length), ?_⟩
  change poke c.bufall c.namelen (line ++ [0]) = _
  rw [poke, h.namelen, h.head]
  simp

/-- A typed line is sent. -/
theorem Framed.typed
    (h : Framed name c)
    (hw : Wide w)
    (hlen : name.length ≤ 15)
    {line : List UInt8}
    (hstep : step c (.typed line) = some c') :
    Framed name c' ∧ ∃ m, c'.sent = c.sent ++ [m] ∧ Sends w name line m := by
  obtain ⟨⟨hpc, -, hline, -⟩, heq⟩ := Option.ite_none_right_eq_some.mp hstep
  have hwide := hw.size
  have hshort := cstr_length_le line
  have hnamelen := h.namelen
  simp only [MAXLINE, NAME_LEN, length_frame] at hline hwide hnamelen
  have hfits : c.namelen + (line ++ [0]).length ≤ c.bufall.length := by
    rw [List.length_append, List.length_singleton, c.hsize]
    omega
  have hsend : w.sendLen (frame name).length (cstr line).length ≤ w.size := by
    have hle := hw.sendLen (frame name).length (cstr line).length
      (by simp only [NAME_LEN, length_frame]; omega)
    simp only [NAME_LEN] at hle
    omega
  obtain ⟨hpc', hsent, hmsg, rest, hbuf⟩ := h.store_line hfits
  have hstored := h.store line
  generalize c.store c.namelen line = d at heq hpc' hsent hmsg hbuf hstored
  have hdefined : d.pc ≠ .undefined := by
    rw [hpc', hpc]
    simp
  rw [if_neg hdefined, Option.some.injEq, State.sendLine, hmsg, hstored.namelen, if_pos hsend]
    at heq
  subst heq
  refine ⟨⟨rfl, hstored.head⟩, _, by rw [hsent], rest, by rw [hbuf], ?_⟩
  rw [List.length_take, d.hsize]
  exact Nat.min_eq_left hsend

theorem Framed.recv
    (h : Framed name c)
    {ret : Option (List UInt8)}
    (hstep : step c (.recv ret) = some c') :
    Framed name c' ∧ c'.sent = c.sent := by
  cases ret with
  | none =>
      obtain ⟨-, heq⟩ := Option.ite_none_right_eq_some.mp hstep
      cases heq
      exact ⟨h, rfl⟩
  | some bytes =>
      obtain ⟨-, heq⟩ := Option.ite_none_right_eq_some.mp hstep
      rw [Option.some.injEq] at heq
      subst heq
      split_ifs
      · exact ⟨h, rfl⟩
      · refine ⟨h.store bytes, ?_⟩
        simp only [State.store]
        split_ifs <;> rfl

/-- Over a run, every line has its message. -/
theorem Framed.run
    (h : Framed name c)
    (hw : Wide w)
    (hlen : name.length ≤ 15)
    (lines : List (List UInt8)) {es : List ClientLabel}
    (hsent : List.Forall₂ (Sends w name) lines c.sent)
    (hrun : run step c es = some c') :
    List.Forall₂ (Sends w name) (lines ++ typedLines es) c'.sent := by
  induction es generalizing c lines with
  | nil =>
      simp only [run_nil, Option.some.injEq] at hrun
      subst hrun
      simpa [typedLines] using hsent
  | cons e es ih =>
      obtain ⟨d, hstep, hrest⟩ := run_cons_success hrun
      cases e with
      | recv ret =>
          obtain ⟨hd, hsame⟩ := h.recv hstep
          exact ih hd lines (hsame ▸ hsent) hrest
      | typed line =>
          obtain ⟨hd, m, hm, hsends⟩ := h.typed hw hlen hstep
          have hnext := ih hd (lines ++ [line])
            (hm ▸ List.rel_append hsent (.cons hsends .nil)) hrest
          simpa [typedLines] using hnext

end Sends

section Results

variable {name memory memory' : List UInt8} {es : List ClientLabel}

theorem sends_of_run
    {w : Version} {c : State w}
    (hw : Wide w)
    (hname : 0 ∉ name)
    (hlen : name.length ≤ 15)
    {hsize : memory.length = w.size}
    (hrun : run step (State.start name memory hsize : State w) es = some c) :
    List.Forall₂ (Sends w name) (typedLines es) c.sent := by
  have hwide := hw.size
  simp only [MAXLINE, NAME_LEN] at hwide
  have hsent : (State.start name memory hsize : State w).sent = [] := by
    simp only [State.start, State.store]
    split_ifs <;> rfl
  refine (framed_start hname (by omega) hsize).run hw hlen [] ?_ hrun
  rw [hsent]
  exact .nil

/-- The bytes up to the end of the string. -/
theorem Sends.eq_of_length
    {w : Version} {line m : List UInt8}
    (h : Sends w name line m)
    (hlen : w.sendLen (frame name).length (cstr line).length =
      (frame name).length + (cstr line).length) :
    m = frame name ++ cstr line := by
  obtain ⟨rest, hm, -⟩ := h
  have htake : (line ++ 0 :: rest).take (cstr line).length = cstr line := by
    rw [List.take_append_of_le_length (cstr_length_le line)]
    exact List.prefix_iff_eq_take.mp (List.takeWhile_prefix _) |>.symm
  rw [hm, hlen, List.take_length_add_append, htake]

/-- The first client sends the frame and the string at `bufmsg`. -/
theorem sp_sent
    {c : State spVersion}
    (hname : 0 ∉ name)
    (hlen : name.length ≤ 15)
    {hsize : memory.length = spVersion.size}
    (hrun : run step (State.start name memory hsize : State spVersion) es = some c) :
    c.sent = (typedLines es).map (fun line => frame name ++ cstr line) := by
  have hsends := sends_of_run wide_sp hname hlen hrun
  rw [← List.forall₂_eq_eq_eq, List.forall₂_map_right_iff]
  exact hsends.flip.imp (fun m line h => Sends.eq_of_length h rfl)

/-- The lengths that the second client gives to `send`. -/
theorem test_sent_lengths
    {c : State testVersion}
    (hname : 0 ∉ name)
    (hlen : name.length ≤ 15)
    {hsize : memory.length = testVersion.size}
    (hrun : run step (State.start name memory hsize : State testVersion) es = some c) :
    c.sent.map List.length = (typedLines es).map (fun line => NAME_LEN + (cstr line).length) := by
  have hsends := sends_of_run wide_test hname hlen hrun
  rw [← List.forall₂_eq_eq_eq, List.forall₂_map_right_iff, List.forall₂_map_left_iff]
  refine hsends.flip.imp ?_
  rintro m line ⟨rest, -, hm⟩
  exact hm

/-- With a frame of `NAME_LEN` bytes the second client sends the same. -/
theorem test_sent
    {c : State testVersion}
    (hname : 0 ∉ name)
    (hlen : name.length = 15)
    {hsize : memory.length = testVersion.size}
    (hrun : run step (State.start name memory hsize : State testVersion) es = some c) :
    c.sent = (typedLines es).map (fun line => frame name ++ cstr line) := by
  have hsends := sends_of_run wide_test hname (Nat.le_of_eq hlen) hrun
  rw [← List.forall₂_eq_eq_eq, List.forall₂_map_right_iff]
  refine hsends.flip.imp (fun m line h => Sends.eq_of_length h ?_)
  simp [testVersion, NAME_LEN, length_frame, hlen]

/--
The two clients run on the same lines and messages.  All messages that they send are the frame
followed by the line, exactly if no line holds a zero byte and, unless there is no line at all,
the name has 15 characters.
-/
theorem framed_iff
    {c : State spVersion} {d : State testVersion}
    (hname : 0 ∉ name)
    (hlen : name.length ≤ 15)
    {hsize : memory.length = spVersion.size}
    {hsize' : memory'.length = testVersion.size}
    (hsp : run step (State.start name memory hsize : State spVersion) es = some c)
    (htest : run step (State.start name memory' hsize' : State testVersion) es = some d) :
    (c.sent = (typedLines es).map (fun line => frame name ++ line) ∧ d.sent = c.sent) ↔
      ∀ line ∈ typedLines es, 0 ∉ line ∧ name.length = 15 := by
  have hzero : c.sent = (typedLines es).map (fun line => frame name ++ line) ↔
      ∀ line ∈ typedLines es, 0 ∉ line := by
    rw [sp_sent hname hlen hsp, List.map_inj_left]
    simp only [List.append_cancel_left_eq, cstr_eq_self_iff]
  constructor
  · rintro ⟨hsent, hsame⟩ line hline
    have hlengths := test_sent_lengths hname hlen htest
    rw [hsame, sp_sent hname hlen hsp, List.map_map, List.map_inj_left] at hlengths
    have heq := hlengths line hline
    simp only [Function.comp_apply, List.length_append, length_frame, NAME_LEN] at heq
    exact ⟨hzero.mp hsent line hline, by omega⟩
  · intro h
    refine ⟨hzero.mpr (fun line hline => (h line hline).1), ?_⟩
    rw [sp_sent hname hlen hsp]
    cases hlines : typedLines es with
    | nil =>
        have hsends := sends_of_run wide_test hname hlen htest
        rw [hlines, List.forall₂_nil_left_iff] at hsends
        exact hsends
    | cons line lines =>
        have hlength : name.length = 15 := (h line (by simp [hlines])).2
        rw [test_sent hname hlength htest, hlines]

end Results

section Agreement

variable {name memory : List UInt8}

/-- The model of the first client with its own record, and the one with the array. -/
structure Same (name : List UInt8) (c : Client) (f : State spVersion) : Prop where
  pc : c.pc = f.pc
  sent : c.sent = f.sent
  framed : c.pc = .select → c.head = frame name ∧ Framed name f

theorem Same.store
    {c : Client} {f : State spVersion}
    (h : Same name c f)
    (hpc : c.pc = .select)
    (bytes : List UInt8) :
    Same name (c.store bytes) (f.store f.namelen bytes) := by
  obtain ⟨hhead, hframed⟩ := h.framed hpc
  have hiff : c.head.length + bytes.length + 1 ≤ bufallSize ↔
      f.namelen + (bytes ++ [0]).length ≤ f.bufall.length := by
    rw [hhead, hframed.namelen, f.hsize, List.length_append, List.length_singleton,
      ← Nat.add_assoc]
    rfl
  by_cases hfits : f.namelen + (bytes ++ [0]).length ≤ f.bufall.length
  · have hstored := hframed.store bytes
    rw [State.store, dif_pos hfits] at hstored ⊢
    refine ⟨?_, h.sent, fun _ => ⟨hhead, hstored⟩⟩
    simp only [Client.store, if_pos (hiff.mpr hfits), h.pc]
  · rw [State.store, dif_neg hfits]
    have hundefined : (c.store bytes).pc = .undefined := by
      simp only [Client.store, if_neg (mt hiff.mp hfits)]
    refine ⟨hundefined, h.sent, fun hselect => ?_⟩
    rw [hundefined] at hselect
    cases hselect

theorem Same.sendLine
    {c : Client} {f : State spVersion}
    (h : Same name c f)
    (hpc : c.pc = .select)
    {line : List UInt8}
    (hdefined : (c.store line).pc ≠ .undefined) :
    Same name (c.store line).sendLine (f.store f.namelen line).sendLine := by
  obtain ⟨hhead, hframed⟩ := h.framed hpc
  have hfits : f.namelen + (line ++ [0]).length ≤ f.bufall.length := by
    by_contra hlong
    apply hdefined
    rw [(h.store hpc line).pc, State.store, dif_neg hlong]
  obtain ⟨-, hsent, hmsg, rest, hbuf⟩ := hframed.store_line hfits
  have hstored := hframed.store line
  have hstr : cstr (c.store line).bufmsg = cstr line := cstr_append_zero line _
  have hsize := f.hsize
  have hshort := cstr_length_le line
  rw [List.length_append, List.length_singleton, hframed.namelen] at hfits
  generalize f.store f.namelen line = d at hsent hmsg hbuf hstored
  have hsends : Sends spVersion name line
      (d.bufall.take (spVersion.sendLen d.namelen d.msg.length)) := by
    refine ⟨rest, by rw [hbuf, hstored.namelen, hmsg], ?_⟩
    rw [List.length_take, d.hsize, hstored.namelen, hmsg]
    simp only [spVersion] at hsize ⊢
    omega
  have hlen : spVersion.sendLen d.namelen d.msg.length ≤ spVersion.size := by
    rw [hstored.namelen, hmsg]
    simp only [spVersion] at hsize ⊢
    omega
  have heq := hsends.eq_of_length rfl
  rw [State.sendLine, if_pos hlen, heq, hmsg]
  have hpcs : (c.store line).sendLine.pc =
      if (strstr (cstr line) exitString).isSome then .exited else .select := by
    simp only [Client.sendLine, Client.quits, hstr]
  refine ⟨hpcs, ?_, fun _ => ⟨hhead, ⟨hstored.namelen, hstored.head⟩⟩⟩
  change c.sent ++ [c.head ++ cstr (c.store line).bufmsg] = d.sent ++ [frame name ++ cstr line]
  rw [hstr, hhead, hsent, h.sent]

/-- The two models make the same steps. -/
theorem Same.step
    {c : Client} {f : State spVersion}
    (h : Same name c f)
    (l : ClientLabel) :
    Option.Rel (Same name) (clientStep c l) (Framing.step f l) := by
  by_cases hpc : c.pc = .select
  · have hpc' : f.pc = .select := h.pc ▸ hpc
    cases l with
    | recv ret =>
        cases ret with
        | none =>
            simp only [clientStep, Framing.step, hpc, hpc', if_true]
            exact .some h
        | some bytes =>
            simp only [clientStep, Framing.step, hpc, hpc', true_and]
            split_ifs with hlen hnil
            · exact .some h
            · exact .some (h.store hpc bytes)
            · exact .none
    | typed line =>
        simp only [clientStep, Framing.step, hpc, hpc', true_and, (h.store hpc line).pc]
        split_ifs with htyped hundefined
        · exact .some (h.store hpc line)
        · exact .some (h.sendLine hpc ((h.store hpc line).pc ▸ hundefined))
        · exact .none
  · have hpc' : f.pc ≠ .select := h.pc ▸ hpc
    rcases l with (_ | bytes) | line
    all_goals
      simp only [clientStep, Framing.step, hpc, hpc', false_and, if_false]
      exact .none

/-- The model of the first client in its own terms, and this one, send the same messages. -/
theorem client_agrees
    (hname : 0 ∉ name)
    (hsize : memory.length = spVersion.size)
    (es : List ClientLabel) :
    Option.Rel (Same name) (run clientStep (Client.start name) es)
      (run step (State.start name memory hsize) es) := by
  refine run_rel (fun c f l h => h.step l) ?_ es
  have hiff : (frame name).length + 1 ≤ bufallSize ↔
      0 + (frame name ++ [0]).length ≤ memory.length := by
    rw [hsize, List.length_append, List.length_singleton, Nat.zero_add]
    rfl
  by_cases hfits : 0 + (frame name ++ [0]).length ≤ memory.length
  · have hframed : Framed name (State.start name memory hsize : State spVersion) := by
      apply framed_start hname
      rw [List.length_append, List.length_singleton, length_frame] at hfits
      omega
    have hpc : (State.start name memory hsize : State spVersion).pc = .select := by
      rw [State.start, State.store, dif_pos hfits]
    have hsent : (State.start name memory hsize : State spVersion).sent = [] := by
      rw [State.start, State.store, dif_pos hfits]
    refine ⟨?_, hsent.symm, fun _ => ⟨rfl, hframed⟩⟩
    rw [hpc]
    exact if_pos (hiff.mpr hfits)
  · have hpc : (State.start name memory hsize : State spVersion).pc = .undefined := by
      rw [State.start, State.store, dif_neg hfits]
    have hsent : (State.start name memory hsize : State spVersion).sent = [] := by
      rw [State.start, State.store, dif_neg hfits]
    have hundefined : (Client.start name).pc = .undefined := if_neg (mt hiff.mp hfits)
    refine ⟨hundefined.trans hpc.symm, hsent.symm, fun hselect => ?_⟩
    rw [hundefined] at hselect
    cases hselect

end Agreement

section Example

/-- A name of 15 letters. -/
def longName : List UInt8 :=
  List.replicate 15 97

/-- The arrays are filled with the byte 7. -/
def spStart (name : List UInt8) : State spVersion :=
  State.start name (List.replicate 532 7) List.length_replicate

def testStart (name : List UInt8) : State testVersion :=
  State.start name (List.replicate 531 7) List.length_replicate

/-- A message arrives, and a line is typed. -/
def oneLine : List ClientLabel :=
  [.recv (some [104, 111, 108, 97]), .typed [104, 105, 10]]

theorem framed_longName :
    ∃ c d,
      run step (spStart longName) oneLine = some c ∧
      run step (testStart longName) oneLine = some d ∧
      c.sent = (typedLines oneLine).map (fun line => frame longName ++ line) ∧
      d.sent = c.sent := by
  obtain ⟨c, hsp⟩ : ∃ c, run step (spStart longName) oneLine = some c :=
    Option.isSome_iff_exists.mp (by decide +kernel)
  obtain ⟨d, htest⟩ : ∃ d, run step (testStart longName) oneLine = some d :=
    Option.isSome_iff_exists.mp (by decide +kernel)
  exact ⟨c, d, hsp, htest, (framed_iff (by decide) (by decide) hsp htest).mpr (by decide)⟩

/--
A client named "bob" types "hi" after it has received "hola".  The first version sends "[bob] :
hi" and a newline, the second goes on with the terminator and the bytes behind it.
-/
theorem not_framed_bob :
    ∃ c d,
      run step (spStart [98, 111, 98]) oneLine = some c ∧
      run step (testStart [98, 111, 98]) oneLine = some d ∧
      c.sent = [frame [98, 111, 98] ++ [104, 105, 10]] ∧
      d.sent = [frame [98, 111, 98] ++ [104, 105, 10, 0, 0, 7, 7, 7, 7, 7, 7, 7, 7, 7, 7]] ∧
      d.sent ≠ c.sent := by
  obtain ⟨c, hsp, hsent⟩ := Option.map_eq_some_iff.mp
    (show (run step (spStart [98, 111, 98]) oneLine).map State.sent =
      some [frame [98, 111, 98] ++ [104, 105, 10]] by decide +kernel)
  obtain ⟨d, htest, hsent'⟩ := Option.map_eq_some_iff.mp
    (show (run step (testStart [98, 111, 98]) oneLine).map State.sent =
      some [frame [98, 111, 98] ++ [104, 105, 10, 0, 0, 7, 7, 7, 7, 7, 7, 7, 7, 7, 7]] by
      decide +kernel)
  refine ⟨c, d, hsp, htest, hsent, hsent', ?_⟩
  rw [hsent, hsent']
  decide

end Example
end Framing
end Chat
end SysProg
