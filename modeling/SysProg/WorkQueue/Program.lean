import SysProg.WorkQueue.Queue
import Mathlib.Tactic

/-!
# The producer and the consumers of ALSP/cond_var.c

`tfunc_a` reads up to `MAX_ITEMS / 2` bytes from the FIFO, pushes them and broadcasts the
condition variable; `tfunc_b` pops an item and works on it, and waits for the condition
variable as long as the queue is empty.

**Steps.**  The sections under the mutex are atomic: a `push_item`, and one pass of the
loop in `pop_item` up to the unlock or to the call of `pthread_cond_wait`, which releases
the mutex and joins the waiters at once.  Waiters wake up by the broadcast or on their
own, and then compete for the mutex again.  There is any number of consumers.

**Results.**

* `nothingLost_iff_fits`: `tfunc_a` does not look at the return value of `push_item`, so
  the bytes that found no room are lost; no byte is lost exactly if every batch fits.
* `broadcast_pending_of_waiting`: a consumer waits while the queue has items only between
  a push and its broadcast.
-/

namespace SysProg
namespace WorkQueue

open RingBuffer Run

section System

/-- Where `tfunc_a` is. -/
inductive ProducerPc where
  | read
  /-- before the call of `push_item` with the bytes in `buf` -/
  | pushItem (buf : List Int8)
  | broadcast
  /-- after `exit`, which ends all threads -/
  | exited
deriving DecidableEq, Repr

/-- Where a `tfunc_b` is. -/
inductive ConsumerPc where
  /-- without the mutex, at the start of `pop_item` or after a wakeup -/
  | lock
  | condWait
  | processJob (item : Int)
deriving DecidableEq, Repr

/-- The queue and the threads; the last two fields are history. -/
structure State where
  wq : Workqueue
  producer : ProducerPc
  consumer : Nat → ConsumerPc
  bytesRead : List Int8
  popped : List Int

def State.start : State where
  wq := Workqueue.zero
  producer := .read
  consumer := fun _ => .lock
  bytesRead := []
  popped := []

inductive Label where
  | read (bytes : List Int8)
  /-- `read` returns -1 or 0 -/
  | readFails
  | pushItem
  | broadcast
  | popItem (k : Nat)
  /-- `pthread_cond_wait` returns without a broadcast -/
  | spuriousWakeup (k : Nat)
  | jobDone (k : Nat)
deriving DecidableEq, Repr

def wakeAll (consumer : Nat → ConsumerPc) (k : Nat) : ConsumerPc :=
  match consumer k with
  | .condWait => .lock
  | pc => pc

/-- A pass of the loop in `pop_item` by a consumer that gets the mutex. -/
def State.popItem (s : State) (k : Nat) : Option State :=
  match s.wq.popItem with
  | none => none
  | some (.taken item wq) =>
      some
        { s with
          wq := wq
          consumer := Function.update s.consumer k (.processJob item)
          popped := s.popped ++ [item] }
  | some .condWait =>
      some { s with consumer := Function.update s.consumer k .condWait }

def step (s : State) : Label → Option State
  | .read bytes =>
      if s.producer = .read ∧ 1 ≤ bytes.length ∧ bytes.length ≤ MAX_ITEMS / 2 then
        some { s with producer := .pushItem bytes, bytesRead := s.bytesRead ++ bytes }
      else none
  | .readFails =>
      if s.producer = .read then some { s with producer := .exited } else none
  | .pushItem =>
      match s.producer with
      | .pushItem buf =>
          match s.wq.pushItem (fun i => buf.getD i 0) buf.length with
          | none => none
          | some (_, wq) => some { s with wq := wq, producer := .broadcast }
      | _ => none
  | .broadcast =>
      if s.producer = .broadcast then
        some { s with producer := .read, consumer := wakeAll s.consumer }
      else none
  | .popItem k =>
      if s.producer ≠ .exited ∧ s.consumer k = .lock then s.popItem k else none
  | .spuriousWakeup k =>
      if s.producer ≠ .exited ∧ s.consumer k = .condWait then
        some { s with consumer := Function.update s.consumer k .lock }
      else none
  | .jobDone k =>
      if s.producer ≠ .exited then
        match s.consumer k with
        | .processJob _ => some { s with consumer := Function.update s.consumer k .lock }
        | _ => none
      else none

end System

section Effects

variable {s s' : State} {l : Label}

theorem batch_getD
    (buf : List Int8) (r : Nat) :
    batch (fun i => buf.getD i 0) (min buf.length r) = (buf.map Int8.toInt).take r := by
  apply List.ext_getElem
  · simp [Nat.min_comm]
  · intro i hi hi'
    simp only [length_batch] at hi
    have hlt : i < buf.length := by omega
    simp [batch, hlt]

/-- What a step can do to the queue and to the waiters. -/
inductive Effect (s : State) : Label → State → Prop
  | read {bytes : List Int8}
      (hpc : s.producer = .read) :
      Effect s (.read bytes)
        { s with producer := .pushItem bytes, bytesRead := s.bytesRead ++ bytes }
  | exit
      (hpc : s.producer = .read) :
      Effect s .readFails { s with producer := .exited }
  | pushed {buf : List Int8} {wq : Workqueue}
      (hpc : s.producer = .pushItem buf)
      (hbound : Bounded wq)
      (hitems : wq.items = s.wq.items ++
        (buf.map Int8.toInt).take (MAX_ITEMS - s.wq.items.length)) :
      Effect s .pushItem { s with wq := wq, producer := .broadcast }
  | broadcast
      (hpc : s.producer = .broadcast) :
      Effect s .broadcast
        { s with producer := .read, consumer := wakeAll s.consumer }
  | popped {k : Nat} {item : Int} {wq : Workqueue}
      (hbound : Bounded wq)
      (hitems : s.wq.items = item :: wq.items) :
      Effect s (.popItem k)
        { s with
          wq := wq
          consumer := Function.update s.consumer k (.processJob item)
          popped := s.popped ++ [item] }
  | waits {k : Nat}
      (hempty : s.wq.items = []) :
      Effect s (.popItem k)
        { s with consumer := Function.update s.consumer k .condWait }
  | resumes {k : Nat} {l : Label}
      (hl : l ≠ .pushItem) :
      Effect s l { s with consumer := Function.update s.consumer k .lock }

/-- Every step from a queue within its bounds has one of the effects. -/
theorem step_effect
    (h : Bounded s.wq)
    (hstep : step s l = some s') :
    Effect s l s' := by
  cases l with
  | read bytes =>
      simp only [step] at hstep
      split_ifs at hstep with hread
      cases hstep
      exact .read hread.1
  | readFails =>
      simp only [step] at hstep
      split_ifs at hstep with hread
      cases hstep
      exact .exit hread
  | pushItem =>
      simp only [step] at hstep
      split at hstep
      · rename_i buf hpc
        obtain ⟨wq, hpush, hbound, hitems⟩ :=
          pushItem_spec h (fun i => buf.getD i 0) buf.length
        rw [hpush] at hstep
        cases hstep
        rw [Int.toNat_natCast, batch_getD] at hitems
        exact .pushed hpc hbound hitems
      · cases hstep
  | broadcast =>
      simp only [step] at hstep
      split_ifs at hstep with hpc
      cases hstep
      exact .broadcast hpc
  | popItem k =>
      simp only [step] at hstep
      split_ifs at hstep
      rcases popItem_spec h with ⟨hempty, hpop⟩ | ⟨item, wq, hpop, hbound, hitems⟩
      · simp only [State.popItem, hpop] at hstep
        cases hstep
        exact .waits hempty
      · simp only [State.popItem, hpop] at hstep
        cases hstep
        exact .popped hbound hitems
  | spuriousWakeup k =>
      simp only [step] at hstep
      split_ifs at hstep
      cases hstep
      exact .resumes (by simp)
  | jobDone k =>
      simp only [step] at hstep
      split_ifs at hstep
      split at hstep
      · cases hstep
        exact .resumes (by simp)
      · cases hstep

theorem bounded_step
    (h : Bounded s.wq)
    (heffect : Effect s l s') :
    Bounded s'.wq := by
  cases heffect with
  | pushed hpc hbound hitems =>
      exact hbound
  | popped hbound hitems =>
      exact hbound
  | _ =>
      exact h

end Effects

section Conservation

variable {s s' : State} {l : Label} {es : List Label}

/-- The items of a batch that is read and not pushed yet. -/
def State.pending (s : State) : List Int :=
  match s.producer with
  | .pushItem buf => buf.map Int8.toInt
  | _ => []

/-- The bytes read are the items popped, then those queued, then the batch at hand. -/
structure Conserved (s : State) : Prop where
  bounded : Bounded s.wq
  all : s.bytesRead.map Int8.toInt = s.popped ++ s.wq.items ++ s.pending

/-- Bytes are missing. -/
structure Missing (s : State) : Prop where
  bounded : Bounded s.wq
  fewer : s.popped.length + s.wq.items.length + s.pending.length < s.bytesRead.length

/-- A batch that is pushed fits into the queue. -/
def Fits (s : State) : Label → Prop
  | .pushItem => s.pending.length + s.wq.cnt ≤ MAX_ITEMS
  | _ => True

instance (s : State) (l : Label) : Decidable (Fits s l) := by
  unfold Fits
  split <;> infer_instance

theorem fits_of_ne
    (hl : l ≠ .pushItem) :
    Fits s l := by
  cases l with
  | pushItem =>
      exact absurd rfl hl
  | _ =>
      trivial

theorem Conserved.step
    (h : Conserved s)
    (hfits : Fits s l)
    (heffect : Effect s l s') :
    Conserved s' := by
  refine ⟨bounded_step h.bounded heffect, ?_⟩
  have hall := h.all
  cases heffect with
  | read hpc =>
      simp only [State.pending, hpc] at hall
      simp [State.pending, hall]
  | exit hpc =>
      simpa [State.pending, hpc] using hall
  | @pushed buf wq hpc hbound hitems =>
      have hlen := length_items h.bounded
      have hroom : (buf.map Int8.toInt).length ≤ MAX_ITEMS - s.wq.items.length := by
        simp only [Fits, State.pending, hpc] at hfits
        omega
      rw [List.take_of_length_le hroom] at hitems
      simp only [State.pending, hpc] at hall
      simp [State.pending, hall, hitems]
  | broadcast hpc =>
      simpa [State.pending, hpc] using hall
  | popped hbound hitems =>
      rw [hitems] at hall
      simpa [State.pending] using hall
  | waits hempty =>
      exact hall
  | resumes hl =>
      exact hall

theorem Missing.step
    (h : Missing s)
    (heffect : Effect s l s') :
    Missing s' := by
  refine ⟨bounded_step h.bounded heffect, ?_⟩
  have hfewer := h.fewer
  cases heffect with
  | read hpc =>
      simp only [State.pending, hpc, List.length_nil] at hfewer
      simp only [State.pending, List.length_map, List.length_append]
      omega
  | exit hpc =>
      simpa [State.pending, hpc] using hfewer
  | pushed hpc hbound hitems =>
      simp only [State.pending, hpc, List.length_map] at hfewer
      simp only [State.pending, hitems, List.length_append, List.length_take,
        List.length_map, List.length_nil]
      omega
  | broadcast hpc =>
      simpa [State.pending, hpc] using hfewer
  | popped hbound hitems =>
      rw [hitems, List.length_cons] at hfewer
      simp only [State.pending, List.length_append, List.length_singleton] at hfewer ⊢
      omega
  | waits hempty =>
      exact hfewer
  | resumes hl =>
      exact hfewer

/-- A batch that does not fit leaves bytes missing. -/
theorem Conserved.missing
    (h : Conserved s)
    (hfits : ¬ Fits s l)
    (heffect : Effect s l s') :
    Missing s' := by
  refine ⟨bounded_step h.bounded heffect, ?_⟩
  have hlen := length_items h.bounded
  have hcnt := h.bounded.cnt_le
  have hall := congrArg List.length h.all
  simp only [List.length_map, List.length_append] at hall
  cases heffect with
  | pushed hpc hbound hitems =>
      simp only [Fits, State.pending, hpc, List.length_map] at hfits hall
      simp only [State.pending, hitems, List.length_append, List.length_take,
        List.length_map, List.length_nil]
      omega
  | resumes hl =>
      exact absurd (fits_of_ne hl) hfits
  | _ =>
      exact absurd trivial hfits

theorem conserved_start :
    Conserved State.start :=
  ⟨bounded_zero, rfl⟩

/--
When no batch is on its way into the queue, the bytes read are the items popped and then
those queued if and only if every batch so far has fitted.
-/
theorem nothingLost_iff_fits
    (hrun : run step State.start es = some s)
    (hreturned : ∀ buf, s.producer ≠ .pushItem buf) :
    s.bytesRead.map Int8.toInt = s.popped ++ s.wq.items ↔
      Along step Fits State.start es := by
  have hpending : s.pending = [] := by
    unfold State.pending
    split
    · rename_i buf hpc
      exact absurd hpc (hreturned buf)
    · rfl
  rcases good_or_bad
      (fun _ _ _ h hfits hstep => Conserved.step h hfits (step_effect h.bounded hstep))
      (fun _ _ _ h hfits hstep => h.missing hfits (step_effect h.bounded hstep))
      (fun _ _ _ h hstep => Missing.step h (step_effect h.bounded hstep))
      conserved_start hrun with
    ⟨halong, hconserved⟩ | ⟨hfits, hmissing⟩
  · exact iff_of_true (by simpa [hpending] using hconserved.all) halong
  · refine iff_of_false (fun heq => ?_) hfits
    have hfewer := hmissing.fewer
    have hlen := congrArg List.length heq
    simp only [List.length_map, List.length_append] at hlen
    simp only [hpending, List.length_nil] at hfewer
    omega

/-- Two bytes are read and pushed, one consumer waits before and pops after. -/
def handoverRun : List Label :=
  [.popItem 0, .read [97, -98], .pushItem, .broadcast, .popItem 0, .jobDone 0]

theorem nothingLost_handoverRun :
    ∃ s, run step State.start handoverRun = some s ∧
      s.bytesRead.map Int8.toInt = s.popped ++ s.wq.items ∧
      s.popped = [97] :=
  ⟨_, rfl,
    (@nothingLost_iff_fits _ handoverRun rfl (by intro buf h; cases h)).mpr (by decide), rfl⟩

/-- Three full reads while no consumer pops. -/
def burstRun : List Label :=
  [.read (List.replicate 32 97), .pushItem, .broadcast,
    .read (List.replicate 32 98), .pushItem, .broadcast,
    .read (List.replicate 32 99), .pushItem]

/-- `push_item` has returned 0 for the third batch, and its bytes are nowhere. -/
theorem burstRun_loses :
    ∃ s, run step State.start burstRun = some s ∧
      s.producer = .broadcast ∧
      s.bytesRead.map Int8.toInt ≠ s.popped ++ s.wq.items := by
  refine ⟨_, rfl, rfl, ?_⟩
  intro heq
  exact absurd (congrArg List.length heq) (by decide)

end Conservation

section Wakeup

variable {s s' : State} {l : Label} {es : List Label}

/-- Consumers wait only for an empty queue or for a broadcast that is due. -/
structure Awaited (s : State) : Prop where
  bounded : Bounded s.wq
  waiting : s.producer ≠ .broadcast → ∀ k, s.consumer k = .condWait → s.wq.items = []

theorem wakeAll_ne_condWait
    (consumer : Nat → ConsumerPc) (k : Nat) :
    wakeAll consumer k ≠ .condWait := by
  unfold wakeAll
  split
  · simp
  · assumption

theorem Awaited.step
    (h : Awaited s)
    (heffect : Effect s l s') :
    Awaited s' := by
  refine ⟨bounded_step h.bounded heffect, ?_⟩
  cases heffect with
  | read hpc =>
      exact fun _ => h.waiting (by simp [hpc])
  | exit hpc =>
      exact fun _ => h.waiting (by simp [hpc])
  | pushed hpc hbound hitems =>
      exact fun hne => absurd rfl hne
  | broadcast hpc =>
      intro _ k hk
      exact absurd hk (wakeAll_ne_condWait s.consumer k)
  | @popped k item wq hbound hitems =>
      intro hne k' hk'
      have hwait : s.consumer k' = .condWait := by
        by_cases heq : k' = k
        · simp [heq] at hk'
        · simpa [heq] using hk'
      rw [h.waiting hne k' hwait] at hitems
      cases hitems
  | waits hempty =>
      exact fun _ _ _ => hempty
  | @resumes k l hl =>
      intro hne k' hk'
      by_cases heq : k' = k
      · simp [heq] at hk'
      · exact h.waiting hne k' (by simpa [heq] using hk')

theorem awaited_start :
    Awaited State.start :=
  ⟨bounded_zero, fun _ _ _ => rfl⟩

/-- No wakeup is lost: with items in the queue, a waiter's broadcast is due. -/
theorem broadcast_pending_of_waiting
    {k : Nat}
    (hrun : run step State.start es = some s)
    (hwait : s.consumer k = .condWait)
    (hcnt : s.wq.cnt > 0) :
    s.producer = .broadcast := by
  have hinv : Awaited s :=
    run_invariant (P := Awaited)
      (fun _ _ _ h hstep => h.step (step_effect h.bounded hstep)) awaited_start hrun
  by_contra hne
  have hlen := length_items hinv.bounded
  rw [hinv.waiting hne k hwait, List.length_nil] at hlen
  omega

/-- A consumer waits, and the producer has pushed. -/
def gapRun : List Label :=
  [.popItem 0, .read [97], .pushItem]

theorem broadcast_pending_gapRun :
    ∃ s, run step State.start gapRun = some s ∧
      s.consumer 0 = .condWait ∧ s.wq.cnt > 0 ∧
      s.producer = .broadcast :=
  ⟨_, rfl, rfl, by decide, @broadcast_pending_of_waiting _ gapRun 0 rfl rfl (by decide)⟩

end Wakeup

end WorkQueue
end SysProg
