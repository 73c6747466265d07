import UsbSniffer.Lib.Queue
import UsbSniffer.Stream.Model

/-!
# The raw queue between the USB callback and the parser

`main.c`: `rawq_push` copies a transfer into free buffers and queues them,
`rawq_thread` passes them to `stream_feed` and gives them back, and
`rawq_stop` lets the thread finish. Each critical section is one step,
the copy and the call of `stream_feed` are steps of their own, and the
threads may take turns anywhere. A thread in `pthread_cond_wait` is
asleep until its condition is signalled or it wakes up for no reason.

The buffers are numbered and their bytes kept in a memory, so that a
buffer that two hands hold at once would be seen to be overwritten.
-/

namespace UsbSniffer.Rawq

open Lib Uhsif

/-- `RAWQ_CHUNK`. -/
def rawqChunk : Nat := 256 * 1024

/-- `RAWQ_SLOTS`. -/
def rawqSlots : Nat := 32

/-- `rawq_item`; a buffer is known by its number. -/
structure Item where
  buf : Nat
  len : Nat
  deriving DecidableEq, Repr

/-- Where `rawq_push` is. `rest` is what is left of its data. -/
inductive Pusher where
  | idle
  | loop (rest : List UInt8)
  | acquire (rest : List UInt8)
  | asleep (rest : List UInt8)
  | copy (rest : List UInt8) (buf : Nat)
  | enqueue (rest : List UInt8) (buf : Nat)
  deriving DecidableEq, Repr

/-- The pusher is in `pthread_cond_wait`. -/
def Pusher.isAsleep : Pusher → Bool
  | .asleep _ => true
  | _ => false

/-- Where `rawq_thread` is. -/
inductive Worker where
  | acquire
  | asleep
  | feed (it : Item)
  | release (buf : Nat)
  | exited
  deriving DecidableEq, Repr

/-- `rawq`, its two threads, the calls of `rawq_push` still to come, and
the buffers passed to `stream_feed` so far. -/
structure State where
  q : RingBuf Item
  free : Stack Nat
  mem : Nat → Ptr
  stop : Bool
  pusher : Pusher
  worker : Worker
  pushes : List (List UInt8)
  fed : List (List UInt8)
  returned : Bool

/-- `rawq_init`. -/
def init (pushes : List (List UInt8)) : State where
  q := { slots := fun _ => ⟨0, 0⟩, first := 0, next := 0, count := 0 }
  free := { slots := id, count := rawqSlots }
  mem := fun _ _ => 0
  stop := false
  pusher := .idle
  worker := .acquire
  pushes := pushes
  fed := []
  returned := false

/-! ## The threads -/

/-- `pthread_cond_signal(&r->nonfull)`, whose one waiter is the pusher. -/
def signalNonfull (s : State) : State :=
  match s.pusher with
  | .asleep rest => { s with pusher := .acquire rest }
  | _ => s

/-- `pthread_cond_signal(&r->nonempty)`, whose one waiter is the
worker. -/
def signalNonempty (s : State) : State :=
  match s.worker with
  | .asleep => { s with worker := .acquire }
  | _ => s

/-- `n` of `rawq_push`. -/
def partSize (rest : List UInt8) : Nat := min rest.length rawqChunk

/-- The first critical section of `rawq_push`: wait for a buffer, give up
when the queue is stopped, or take the buffer. -/
def takeBuffer (s : State) (rest : List UInt8) : State :=
  if s.free.count = 0 ∧ s.stop = false then { s with pusher := .asleep rest }
  else if s.stop = true ∨ s.free.count = 0 then { s with pusher := .idle }
  else { s with free := s.free.pop, pusher := .copy rest s.free.top }

/-- `memcpy(b, data + off, n)`. -/
def copyPart (s : State) (rest : List UInt8) (b : Nat) : State :=
  { s with
    mem := Function.update s.mem b (memcpy (s.mem b) 0 (rest.take (partSize rest)))
    pusher := .enqueue rest b }

/-- The second critical section of `rawq_push`. -/
def putItem (s : State) (rest : List UInt8) (b : Nat) : State :=
  signalNonempty
    { s with
      q := s.q.push rawqSlots ⟨b, partSize rest⟩
      pusher := .loop (rest.drop (partSize rest)) }

/-- A step of the thread that calls `rawq_push`. -/
def pusherStep (s : State) : Option State :=
  match s.pusher with
  | .idle =>
      match s.pushes with
      | [] => none
      | data :: rest => some { s with pushes := rest, pusher := .loop data }
  | .loop rest =>
      if rest = [] then some { s with pusher := .idle } else some { s with pusher := .acquire rest }
  | .acquire rest => some (takeBuffer s rest)
  | .asleep _ => none
  | .copy rest b => some (copyPart s rest b)
  | .enqueue rest b => some (putItem s rest b)

/-- The bytes `stream_feed` reads for an item. -/
def itemBytes (mem : Nat → Ptr) (it : Item) : List UInt8 := bytesAt (mem it.buf) it.len

/-- The first critical section of `rawq_thread`: wait for an item, end
when there is none and the queue is stopped, or take it off. -/
def takeItem (s : State) : State :=
  if s.q.count = 0 ∧ s.stop = false then { s with worker := .asleep }
  else if s.q.count = 0 ∧ s.stop = true then { s with worker := .exited }
  else signalNonfull { s with q := s.q.pop rawqSlots, worker := .feed s.q.front }

/-- `stream_feed(r->stream, it.buf, it.len)`. -/
def feedItem (s : State) (it : Item) : State :=
  { s with fed := s.fed ++ [itemBytes s.mem it], worker := .release it.buf }

/-- The second critical section of `rawq_thread`. -/
def giveBack (s : State) (b : Nat) : State :=
  { s with free := s.free.push b, worker := .acquire }

/-- A step of `rawq_thread`. -/
def workerStep (s : State) : Option State :=
  match s.worker with
  | .acquire => some (takeItem s)
  | .asleep => none
  | .feed it => some (feedItem s it)
  | .release b => some (giveBack s b)
  | .exited => none

/-- The critical section of `rawq_stop`. -/
def stopStep (s : State) : Option State :=
  if s.stop = true then none else some (signalNonfull (signalNonempty { s with stop := true }))

/-- `pthread_join` in `rawq_stop`, and its return. -/
def joinStep (s : State) : Option State :=
  if s.stop = true ∧ s.worker = .exited ∧ s.returned = false then some { s with returned := true }
  else none

/-- What can happen next. A thread asleep may wake up unsignalled. -/
inductive Action where
  | push
  | work
  | stop
  | join
  | wakePusher
  | wakeWorker
  deriving DecidableEq, Repr

def step (s : State) : Action → Option State
  | .push => pusherStep s
  | .work => workerStep s
  | .stop => stopStep s
  | .join => joinStep s
  | .wakePusher => if s.pusher.isAsleep then some (signalNonfull s) else none
  | .wakeWorker => if s.worker = .asleep then some (signalNonempty s) else none

/-- One step of any party. -/
def Step (s s' : State) : Prop := ∃ a, step s a = some s'

/-- The queue is not stopped before the pushes are complete. -/
def Orderly (s s' : State) : Prop :=
  s.stop = false → s'.stop = true → s.pusher = .idle ∧ s.pushes = []

instance (s s' : State) : Decidable (Orderly s s') :=
  inferInstanceAs (Decidable (_ → _ → _ ∧ _))

def OrderlyStep (s s' : State) : Prop := Step s s' ∧ Orderly s s'

/-- A given schedule, as long as it is possible and orderly. -/
def exec (s : State) : List Action → Option State
  | [] => some s
  | a :: more =>
      match step s a with
      | none => none
      | some s' => if Orderly s s' then exec s' more else none

theorem exec_run {s s' : State} {as : List Action} (h : exec s as = some s') :
    Relation.ReflTransGen OrderlyStep s s' := by
  induction as generalizing s with
  | nil =>
      cases h
      exact Relation.ReflTransGen.refl
  | cons a more ih =>
      rw [exec] at h
      split at h
      · cases h
      · rename_i mid hmid
        split at h
        · rename_i hord
          exact Relation.ReflTransGen.head ⟨⟨a, hmid⟩, hord⟩ (ih h)
        · cases h

/-! ## Who holds which buffer -/

/-- The buffer in the pusher's hands. -/
def Pusher.held : Pusher → Multiset Nat
  | .copy _ b => {b}
  | .enqueue _ b => {b}
  | _ => 0

/-- The buffer in the worker's hands. -/
def Worker.held : Worker → Multiset Nat
  | .feed it => {it.buf}
  | .release b => {b}
  | _ => 0

/-- All buffers: the free ones, those in the ring, the pusher's and the
worker's. -/
def owned (s : State) : Multiset Nat :=
  pool rawqSlots Item.buf s.free s.q (s.pusher.held + s.worker.held)

/-- The ring is in order, and every buffer is in exactly one place. -/
structure Core (s : State) : Prop where
  ring : s.q.Wf rawqSlots
  owned_eq : owned s = Multiset.range rawqSlots

/-- `Core`, and what a sleeping thread knows: the pusher went to sleep
with no free buffer, so all but the worker's were queued, and any item
taken off since would have woken it; the worker went to sleep on an empty
ring, and any item queued since would have woken it. -/
structure Inv (s : State) : Prop extends Core s where
  pusher_asleep : s.pusher.isAsleep = true → s.stop = false ∧ rawqSlots ≤ s.q.count + 1
  worker_asleep : s.worker = .asleep → s.stop = false ∧ s.q.count = 0

theorem count_pos {n : Nat} {stop : Bool} (h0 : ¬ (n = 0 ∧ stop = false))
    (hs : ¬ (n = 0 ∧ stop = true)) : 0 < n := by
  rcases Nat.eq_zero_or_pos n with hz | hpos
  · cases stop with
    | false => exact absurd ⟨hz, rfl⟩ h0
    | true => exact absurd ⟨hz, rfl⟩ hs
  · exact hpos

theorem Core.count_eq {s : State} (h : Core s) :
    s.free.count + s.q.count + (s.pusher.held.card + s.worker.held.card) = rawqSlots := by
  have hc := congrArg Multiset.card h.owned_eq
  rwa [owned, pool_card, Multiset.card_add, Multiset.card_range] at hc

theorem Worker.held_card (w : Worker) : w.held.card ≤ 1 := by
  cases w <;> simp [Worker.held]

/-- A buffer in the pusher's hands is in nobody else's. -/
theorem Core.pusher_owns {s : State} (h : Core s) {b : Nat} (hb : s.pusher.held = {b}) :
    (∀ it ∈ s.q.items rawqSlots, it.buf ≠ b) ∧ b ∉ s.worker.held := by
  have hnd : (owned s).Nodup := h.owned_eq ▸ Multiset.nodup_range rawqSlots
  have hb' : b ∈ s.pusher.held := hb ▸ Multiset.mem_singleton_self b
  refine ⟨pool_apart hnd (Multiset.mem_add.mpr (Or.inl hb')), fun hbw => ?_⟩
  obtain ⟨-, -, hdis⟩ := Multiset.nodup_add.mp (pool_hands hnd)
  exact Multiset.disjoint_left.mp hdis hb' hbw

/-! ## Signals -/

theorem signalNonempty_eq (s : State) :
    ∃ w, signalNonempty s = { s with worker := w } ∧ w ≠ .asleep ∧
      (w = s.worker ∨ (s.worker = .asleep ∧ w = .acquire)) := by
  rw [signalNonempty]
  cases hw : s.worker with
  | asleep => exact ⟨.acquire, rfl, nofun, Or.inr ⟨rfl, rfl⟩⟩
  | acquire => exact ⟨s.worker, rfl, hw ▸ nofun, Or.inl hw⟩
  | feed it => exact ⟨s.worker, rfl, hw ▸ nofun, Or.inl hw⟩
  | release b => exact ⟨s.worker, rfl, hw ▸ nofun, Or.inl hw⟩
  | exited => exact ⟨s.worker, rfl, hw ▸ nofun, Or.inl hw⟩

theorem signalNonfull_eq (s : State) :
    ∃ p, signalNonfull s = { s with pusher := p } ∧ p.isAsleep = false ∧
      (p = s.pusher ∨ ∃ rest, s.pusher = .asleep rest ∧ p = .acquire rest) := by
  rw [signalNonfull]
  cases hp : s.pusher with
  | asleep rest => exact ⟨.acquire rest, rfl, rfl, Or.inr ⟨rest, rfl, rfl⟩⟩
  | idle => exact ⟨s.pusher, rfl, hp ▸ rfl, Or.inl hp⟩
  | loop rest => exact ⟨s.pusher, rfl, hp ▸ rfl, Or.inl hp⟩
  | acquire rest => exact ⟨s.pusher, rfl, hp ▸ rfl, Or.inl hp⟩
  | copy rest b => exact ⟨s.pusher, rfl, hp ▸ rfl, Or.inl hp⟩
  | enqueue rest b => exact ⟨s.pusher, rfl, hp ▸ rfl, Or.inl hp⟩

theorem stop_signals (s : State) :
    (signalNonfull (signalNonempty { s with stop := true })).stop = true := by
  obtain ⟨w, he, -⟩ := signalNonempty_eq { s with stop := true }
  obtain ⟨p, he', -⟩ := signalNonfull_eq (signalNonempty { s with stop := true })
  rw [he', he]

theorem Core.signalNonempty {s : State} (h : Core s) : Core (signalNonempty s) := by
  obtain ⟨w, he, -, hcase⟩ := signalNonempty_eq s
  have hheld : w.held = s.worker.held := by
    rcases hcase with rfl | ⟨hs, rfl⟩
    · rfl
    · rw [hs]
      rfl
  rw [he]
  refine ⟨h.ring, ?_⟩
  rw [← h.owned_eq, owned, owned, hheld]

theorem Core.signalNonfull {s : State} (h : Core s) : Core (signalNonfull s) := by
  obtain ⟨p, he, -, hcase⟩ := signalNonfull_eq s
  have hheld : p.held = s.pusher.held := by
    rcases hcase with rfl | ⟨rest, hs, rfl⟩
    · rfl
    · rw [hs]
      rfl
  rw [he]
  refine ⟨h.ring, ?_⟩
  rw [← h.owned_eq, owned, owned, hheld]

/-- A worker just signalled is not asleep: nothing is asked of the
ring. -/
theorem Core.woken_worker {s : State} (h : Core s)
    (hp : s.pusher.isAsleep = true → s.stop = false ∧ rawqSlots ≤ s.q.count + 1) :
    Inv (Rawq.signalNonempty s) := by
  obtain ⟨w, he, hw, -⟩ := signalNonempty_eq s
  refine ⟨h.signalNonempty, ?_, ?_⟩
  · rw [he]
    exact hp
  · rw [he]
    exact fun ha => absurd ha hw

theorem Core.woken_pusher {s : State} (h : Core s)
    (hw : s.worker = .asleep → s.stop = false ∧ s.q.count = 0) :
    Inv (Rawq.signalNonfull s) := by
  obtain ⟨p, he, hp, -⟩ := signalNonfull_eq s
  refine ⟨h.signalNonfull, ?_, ?_⟩
  · rw [he]
    exact fun ha => absurd ha (by simp [hp])
  · rw [he]
    exact hw

/-! ## Every step keeps the invariant -/

theorem inv_init (pushes : List (List UInt8)) : Inv (init pushes) where
  ring := ⟨Nat.zero_le _, Nat.succ_pos 31, rfl⟩
  owned_eq := by
    simp [owned, pool, Multiset.range, init, Stack.items, RingBuf.items, Pusher.held, Worker.held]
  pusher_asleep := nofun
  worker_asleep := nofun

/-- A step that moves no buffer and touches no queue. -/
theorem Inv.moved {s s' : State} (h : Inv s) (hq : s'.q = s.q) (hfree : s'.free = s.free)
    (hp : s'.pusher.held = s.pusher.held) (hw : s'.worker.held = s.worker.held) : Core s' := by
  refine ⟨hq ▸ h.ring, ?_⟩
  rw [← h.owned_eq, owned, owned, hq, hfree, hp, hw]

theorem Inv.takeBuffer {s : State} (h : Inv s) {rest : List UInt8}
    (hp : s.pusher = .acquire rest) : Inv (takeBuffer s rest) := by
  have hheld : s.pusher.held = 0 := by rw [hp]; rfl
  have hcount := h.count_eq
  have hw1 := Worker.held_card s.worker
  rw [hheld, Multiset.card_zero] at hcount
  rw [Rawq.takeBuffer]
  by_cases h0 : s.free.count = 0 ∧ s.stop = false
  · rw [if_pos h0]
    -- no free buffer and none in the pusher's hands: the others are queued
    refine ⟨h.moved rfl rfl hheld.symm rfl, fun _ => ⟨h0.2, ?_⟩, h.worker_asleep⟩
    show rawqSlots ≤ s.q.count + 1
    omega
  · rw [if_neg h0]
    by_cases hs : s.stop = true ∨ s.free.count = 0
    · rw [if_pos hs]
      exact ⟨h.moved rfl rfl hheld.symm rfl, nofun, h.worker_asleep⟩
    · rw [if_neg hs]
      have hpos : 0 < s.free.count := Nat.pos_of_ne_zero fun hz => hs (Or.inr hz)
      refine ⟨⟨h.ring, ?_⟩, nofun, h.worker_asleep⟩
      rw [← h.owned_eq, owned, owned, hheld, zero_add, ← pool_take hpos, add_comm s.worker.held]
      rfl

theorem Inv.putItem {s : State} (h : Inv s) {rest : List UInt8} {b : Nat}
    (hp : s.pusher = .enqueue rest b) : Inv (putItem s rest b) := by
  have hheld : s.pusher.held = {b} := by rw [hp]; rfl
  have hcount := h.count_eq
  rw [hheld, Multiset.card_singleton] at hcount
  have hlt : s.q.count < rawqSlots := by omega
  refine Core.woken_worker ⟨h.ring.push hlt _, ?_⟩ nofun
  rw [← h.owned_eq, owned, owned, hheld, pool_enqueue h.ring hlt, add_comm {b} s.worker.held]
  show pool _ _ _ _ (0 + s.worker.held + {b}) = _
  rw [zero_add]

theorem Inv.takeItem {s : State} (h : Inv s) (hw : s.worker = .acquire) : Inv (takeItem s) := by
  have hheld : s.worker.held = 0 := by rw [hw]; rfl
  rw [Rawq.takeItem]
  by_cases h0 : s.q.count = 0 ∧ s.stop = false
  · rw [if_pos h0]
    exact ⟨h.moved rfl rfl rfl hheld.symm, h.pusher_asleep, fun _ => ⟨h0.2, h0.1⟩⟩
  · rw [if_neg h0]
    by_cases hs : s.q.count = 0 ∧ s.stop = true
    · rw [if_pos hs]
      exact ⟨h.moved rfl rfl rfl hheld.symm, h.pusher_asleep, nofun⟩
    · rw [if_neg hs]
      have hpos : 0 < s.q.count := count_pos h0 hs
      refine Core.woken_pusher ⟨h.ring.pop hpos, ?_⟩ nofun
      rw [← h.owned_eq, owned, owned, hheld, add_zero, ← pool_dequeue h.ring hpos]
      rfl

theorem Inv.giveBack {s : State} (h : Inv s) {b : Nat} (hw : s.worker = .release b) :
    Inv (giveBack s b) := by
  have hheld : s.worker.held = {b} := by rw [hw]; rfl
  refine ⟨⟨h.ring, ?_⟩, h.pusher_asleep, nofun⟩
  rw [← h.owned_eq, owned, owned, hheld]
  show pool _ _ (s.free.push b) s.q (s.pusher.held + 0) = _
  rw [pool_give, add_zero]

theorem Inv.pusherStep {s s' : State} (h : Inv s) (hs : pusherStep s = some s') : Inv s' := by
  rw [Rawq.pusherStep] at hs
  cases hp : s.pusher with
  | idle =>
      rw [hp] at hs
      cases hps : s.pushes with
      | nil => simp [hps] at hs
      | cons data more =>
          simp only [hps, Option.some.injEq] at hs
          subst hs
          exact ⟨h.moved rfl rfl (by rw [hp]; rfl) rfl, nofun, h.worker_asleep⟩
  | loop rest =>
      simp only [hp] at hs
      split at hs
      · cases hs
        exact ⟨h.moved rfl rfl (by rw [hp]; rfl) rfl, nofun, h.worker_asleep⟩
      · cases hs
        exact ⟨h.moved rfl rfl (by rw [hp]; rfl) rfl, nofun, h.worker_asleep⟩
  | acquire rest =>
      simp only [hp, Option.some.injEq] at hs
      exact hs ▸ h.takeBuffer hp
  | asleep rest => simp [hp] at hs
  | copy rest b =>
      simp only [hp, Option.some.injEq] at hs
      subst hs
      exact ⟨h.moved rfl rfl (by rw [hp]; rfl) rfl, nofun, h.worker_asleep⟩
  | enqueue rest b =>
      simp only [hp, Option.some.injEq] at hs
      exact hs ▸ h.putItem hp

theorem Inv.workerStep {s s' : State} (h : Inv s) (hs : workerStep s = some s') : Inv s' := by
  rw [Rawq.workerStep] at hs
  cases hw : s.worker with
  | acquire =>
      simp only [hw, Option.some.injEq] at hs
      exact hs ▸ h.takeItem hw
  | asleep => simp [hw] at hs
  | feed it =>
      simp only [hw, Option.some.injEq] at hs
      subst hs
      exact ⟨h.moved rfl rfl rfl (by rw [hw]; rfl), h.pusher_asleep, nofun⟩
  | release b =>
      simp only [hw, Option.some.injEq] at hs
      exact hs ▸ h.giveBack hw
  | exited => simp [hw] at hs

theorem Inv.stopStep {s s' : State} (h : Inv s) (hs : stopStep s = some s') : Inv s' := by
  rw [Rawq.stopStep] at hs
  split at hs
  · cases hs
  · cases hs
    have hcore : Core { s with stop := true } := h.moved rfl rfl rfl rfl
    obtain ⟨w, he, hw, -⟩ := signalNonempty_eq { s with stop := true }
    refine hcore.signalNonempty.woken_pusher fun ha => ?_
    rw [he] at ha
    exact absurd ha hw

theorem Inv.step {s s' : State} (h : Inv s) {a : Action} (hs : step s a = some s') : Inv s' := by
  cases a with
  | push => exact h.pusherStep hs
  | work => exact h.workerStep hs
  | stop => exact h.stopStep hs
  | join =>
      simp only [Rawq.step, joinStep] at hs
      split at hs
      · cases hs
        exact ⟨h.moved rfl rfl rfl rfl, h.pusher_asleep, h.worker_asleep⟩
      · cases hs
  | wakePusher =>
      simp only [Rawq.step] at hs
      split at hs
      · cases hs
        exact h.toCore.woken_pusher h.worker_asleep
      · cases hs
  | wakeWorker =>
      simp only [Rawq.step] at hs
      split at hs
      · cases hs
        exact h.toCore.woken_worker h.pusher_asleep
      · cases hs

theorem inv_run {pushes : List (List UInt8)} {s : State}
    (hrun : Relation.ReflTransGen Step (init pushes) s) : Inv s :=
  run_keeps (fun _ _ ⟨_, hs⟩ h => h.step hs) hrun (inv_init pushes)

/-! ## Nothing is lost -/

/-- What the pusher has yet to queue of its data. -/
def Pusher.rest : Pusher → List UInt8
  | .idle => []
  | .loop rest => rest
  | .acquire rest => rest
  | .asleep rest => rest
  | .copy rest _ => rest
  | .enqueue rest _ => rest

/-- What the worker has taken off and not yet passed on. -/
def Worker.pending (mem : Nat → Ptr) : Worker → List UInt8
  | .feed it => itemBytes mem it
  | _ => []

/-- The bytes in the ring, oldest first. -/
def queued (s : State) : List UInt8 := ((s.q.items rawqSlots).map (itemBytes s.mem)).flatten

/-- All the data: passed on, with the worker, queued, with the pusher and
yet to be pushed. -/
def traffic (s : State) : List UInt8 :=
  s.fed.flatten ++ s.worker.pending s.mem ++ queued s ++ s.pusher.rest ++ s.pushes.flatten

/-- The invariant of an orderly run: the traffic is what it was at the
start. -/
structure Flow (total : List UInt8) (s : State) : Prop where
  traffic_eq : traffic s = total
  copied : ∀ rest b, s.pusher = .enqueue rest b →
    itemBytes s.mem ⟨b, partSize rest⟩ = rest.take (partSize rest)
  stopped : s.stop = true → s.pusher = .idle ∧ s.pushes = []
  drained : s.worker = .exited → s.stop = true ∧ s.q.count = 0
  joined : s.returned = true → s.worker = .exited

theorem length_take_partSize (rest : List UInt8) :
    (rest.take (partSize rest)).length = partSize rest := by
  rw [List.length_take, partSize]
  omega

theorem itemBytes_update {mem : Nat → Ptr} {b : Nat} {p : Ptr} {it : Item} (h : it.buf ≠ b) :
    itemBytes (Function.update mem b p) it = itemBytes mem it := by
  rw [itemBytes, itemBytes, Function.update_of_ne h]

theorem Flow.signalNonempty {total : List UInt8} {s : State} (h : Flow total s) :
    Flow total (signalNonempty s) := by
  obtain ⟨w, he, -, hcase⟩ := signalNonempty_eq s
  rw [he]
  rcases hcase with rfl | ⟨hs, rfl⟩
  · exact h
  · refine ⟨?_, h.copied, h.stopped, nofun, fun hr => ?_⟩
    · rw [← h.traffic_eq, traffic, traffic, hs]
      rfl
    · have hx := h.joined hr
      rw [hs] at hx
      cases hx

theorem Flow.signalNonfull {total : List UInt8} {s : State} (h : Flow total s) :
    Flow total (signalNonfull s) := by
  obtain ⟨p, he, -, hcase⟩ := signalNonfull_eq s
  rw [he]
  rcases hcase with rfl | ⟨rest, hs, rfl⟩
  · exact h
  · refine ⟨?_, nofun, fun hst => ?_, h.drained, h.joined⟩
    · rw [← h.traffic_eq, traffic, traffic, hs]
      rfl
    · have hx := (h.stopped hst).1
      rw [hs] at hx
      cases hx

theorem flow_init (pushes : List (List UInt8)) : Flow pushes.flatten (init pushes) where
  traffic_eq := by simp [traffic, init, Worker.pending, queued, RingBuf.items, Pusher.rest]
  copied := nofun
  stopped := nofun
  drained := nofun
  joined := nofun

/-- A thread that runs holds no finished work: `stop` is not yet set while
the pusher has data. -/
theorem Flow.running {total : List UInt8} {s : State} (h : Flow total s)
    (hp : s.pusher ≠ .idle) : s.stop = false := by
  cases hst : s.stop with
  | false => rfl
  | true => exact absurd (h.stopped hst).1 hp

theorem Flow.takeBuffer {total : List UInt8} {s : State} (h : Flow total s) {rest : List UInt8}
    (hp : s.pusher = .acquire rest) : Flow total (takeBuffer s rest) := by
  have hst : s.stop = false := h.running (by rw [hp]; nofun)
  have htr : ∀ p : Pusher, p.rest = rest → traffic { s with pusher := p } = total := by
    intro p he
    rw [← h.traffic_eq, traffic, traffic, hp]
    show _ ++ _ ++ _ ++ p.rest ++ _ = _
    rw [he]
    rfl
  rw [Rawq.takeBuffer]
  by_cases h0 : s.free.count = 0
  · rw [if_pos ⟨h0, hst⟩]
    exact ⟨htr _ rfl, nofun, by simp [hst], h.drained, h.joined⟩
  · rw [if_neg (fun hx => h0 hx.1), if_neg (by simp [hst, h0])]
    exact ⟨htr _ rfl, nofun, by simp [hst], h.drained, h.joined⟩

/-- The copy touches no byte on its way to the parser: the buffer is in
the pusher's hands alone. -/
theorem Flow.copyPart {total : List UInt8} {s : State} (hi : Inv s) (h : Flow total s)
    {rest : List UInt8} {b : Nat} (hp : s.pusher = .copy rest b) :
    Flow total (copyPart s rest b) := by
  have hst : s.stop = false := h.running (by rw [hp]; nofun)
  -- the buffer is neither in the ring nor at the worker
  obtain ⟨hring, hworker⟩ := hi.toCore.pusher_owns (b := b) (by rw [hp]; rfl)
  have hqueued : queued (Rawq.copyPart s rest b) = queued s := by
    rw [queued, queued]
    congr 1
    exact List.map_congr_left fun it hit => itemBytes_update (hring it hit)
  have hpending : (Rawq.copyPart s rest b).worker.pending (Rawq.copyPart s rest b).mem =
      s.worker.pending s.mem := by
    show s.worker.pending (Function.update s.mem b _) = _
    cases hw : s.worker with
    | feed it =>
        rw [hw] at hworker
        exact itemBytes_update fun he => hworker (he ▸ Multiset.mem_singleton_self _)
    | acquire => rfl
    | asleep => rfl
    | release b => rfl
    | exited => rfl
  refine ⟨?_, ?_, by simp [Rawq.copyPart, hst], h.drained, h.joined⟩
  · rw [← h.traffic_eq, traffic, traffic, hqueued, hpending, hp]
    rfl
  · intro rest' b' he
    cases he
    rw [itemBytes]
    show bytesAt (Function.update s.mem b _ b) (partSize rest) = _
    rw [Function.update_self]
    have hcopy := bytesAt_memcpy (s.mem b) 0 (rest.take (partSize rest))
    rwa [Nat.zero_add, length_take_partSize] at hcopy

theorem Flow.putItem {total : List UInt8} {s : State} (hi : Inv s) (h : Flow total s)
    {rest : List UInt8} {b : Nat} (hp : s.pusher = .enqueue rest b) :
    Flow total (putItem s rest b) := by
  have hst : s.stop = false := h.running (by rw [hp]; nofun)
  have hcount := hi.toCore.count_eq
  have hlt : s.q.count < rawqSlots := by
    rw [show s.pusher.held = {b} by rw [hp]; rfl, Multiset.card_singleton] at hcount
    omega
  refine Flow.signalNonempty ⟨?_, nofun, by simp [hst], fun hx => ?_, h.joined⟩
  · rw [← h.traffic_eq, traffic, traffic, queued, RingBuf.items_push hi.ring hlt, List.map_append,
      List.flatten_append, List.map_singleton, List.flatten_singleton, h.copied rest b hp, hp]
    show _ ++ _ ++ (_ ++ rest.take (partSize rest)) ++ rest.drop (partSize rest) ++ _ = _
    simp only [List.append_assoc, Pusher.rest, queued]
    rw [← List.append_assoc (rest.take _), List.take_append_drop]
  · have hx' := (h.drained hx).1
    rw [hst] at hx'
    cases hx'

theorem Flow.takeItem {total : List UInt8} {s : State} (hi : Inv s) (h : Flow total s)
    (hw : s.worker = .acquire) : Flow total (takeItem s) := by
  have hret : s.returned ≠ true := fun hr => by
    have hx := h.joined hr
    rw [hw] at hx
    cases hx
  rw [Rawq.takeItem]
  by_cases h0 : s.q.count = 0 ∧ s.stop = false
  · rw [if_pos h0]
    refine ⟨?_, h.copied, h.stopped, nofun, fun hr => absurd hr hret⟩
    rw [← h.traffic_eq, traffic, traffic, hw]
    rfl
  · rw [if_neg h0]
    by_cases hs : s.q.count = 0 ∧ s.stop = true
    · rw [if_pos hs]
      refine ⟨?_, h.copied, h.stopped, fun _ => ⟨hs.2, hs.1⟩, fun _ => rfl⟩
      rw [← h.traffic_eq, traffic, traffic, hw]
      rfl
    · rw [if_neg hs]
      refine Flow.signalNonfull ⟨?_, h.copied, h.stopped, nofun, fun hr => absurd hr hret⟩
      -- the front of the ring becomes the worker's
      have hitems := RingBuf.items_pop hi.ring (count_pos h0 hs)
      rw [← h.traffic_eq, traffic, traffic, queued, queued, hitems, List.map_cons,
        List.flatten_cons, hw]
      simp only [Worker.pending, List.append_assoc, List.nil_append]

theorem Flow.pusherStep {total : List UInt8} {s s' : State} (hi : Inv s) (h : Flow total s)
    (hs : pusherStep s = some s') : Flow total s' := by
  rw [Rawq.pusherStep] at hs
  cases hp : s.pusher with
  | idle =>
      rw [hp] at hs
      cases hps : s.pushes with
      | nil => simp [hps] at hs
      | cons data more =>
          simp only [hps, Option.some.injEq] at hs
          subst hs
          refine ⟨?_, nofun, fun hst => ?_, h.drained, h.joined⟩
          · rw [← h.traffic_eq, traffic, traffic, hp, hps]
            simp [queued, Pusher.rest]
          · have hx := (h.stopped hst).2
            rw [hps] at hx
            cases hx
  | loop rest =>
      have hst : s.stop = false := h.running (by rw [hp]; nofun)
      simp only [hp] at hs
      split at hs
      · rename_i hnil
        cases hs
        refine ⟨?_, nofun, by simp [hst], h.drained, h.joined⟩
        rw [← h.traffic_eq, traffic, traffic, hp, hnil]
        rfl
      · cases hs
        refine ⟨?_, nofun, by simp [hst], h.drained, h.joined⟩
        rw [← h.traffic_eq, traffic, traffic, hp]
        rfl
  | acquire rest =>
      simp only [hp, Option.some.injEq] at hs
      exact hs ▸ h.takeBuffer hp
  | asleep rest => simp [hp] at hs
  | copy rest b =>
      simp only [hp, Option.some.injEq] at hs
      exact hs ▸ h.copyPart hi hp
  | enqueue rest b =>
      simp only [hp, Option.some.injEq] at hs
      exact hs ▸ h.putItem hi hp

theorem Flow.workerStep {total : List UInt8} {s s' : State} (hi : Inv s) (h : Flow total s)
    (hs : workerStep s = some s') : Flow total s' := by
  rw [Rawq.workerStep] at hs
  cases hw : s.worker with
  | acquire =>
      simp only [hw, Option.some.injEq] at hs
      exact hs ▸ h.takeItem hi hw
  | asleep => simp [hw] at hs
  | feed it =>
      simp only [hw, Option.some.injEq] at hs
      subst hs
      refine ⟨?_, h.copied, h.stopped, nofun, fun hr => ?_⟩
      · rw [← h.traffic_eq, traffic, traffic, hw]
        simp [feedItem, queued, Worker.pending]
      · have hx := h.joined hr
        rw [hw] at hx
        cases hx
  | release b =>
      simp only [hw, Option.some.injEq] at hs
      subst hs
      refine ⟨?_, h.copied, h.stopped, nofun, fun hr => ?_⟩
      · rw [← h.traffic_eq, traffic, traffic, hw]
        rfl
      · have hx := h.joined hr
        rw [hw] at hx
        cases hx
  | exited => simp [hw] at hs

theorem Flow.step {total : List UInt8} {s s' : State} (hi : Inv s) (h : Flow total s)
    {a : Action} (hs : step s a = some s')
    (hord : Orderly s s') : Flow total s' := by
  cases a with
  | push => exact h.pusherStep hi hs
  | work => exact h.workerStep hi hs
  | stop =>
      simp only [Rawq.step, stopStep] at hs
      split at hs
      · cases hs
      · rename_i hst
        cases hs
        -- an orderly stop: the pushes are complete
        have hidle := hord (Bool.eq_false_iff.mpr hst) (stop_signals _)
        refine Flow.signalNonfull (Flow.signalNonempty ⟨h.traffic_eq, h.copied, fun _ => hidle, ?_,
          h.joined⟩)
        exact fun hx => ⟨rfl, (h.drained hx).2⟩
  | join =>
      simp only [Rawq.step, joinStep] at hs
      split at hs
      · rename_i hc
        cases hs
        exact ⟨h.traffic_eq, h.copied, h.stopped, h.drained, fun _ => hc.2.1⟩
      · cases hs
  | wakePusher =>
      simp only [Rawq.step] at hs
      split at hs
      · cases hs
        exact h.signalNonfull
      · cases hs
  | wakeWorker =>
      simp only [Rawq.step] at hs
      split at hs
      · cases hs
        exact h.signalNonempty
      · cases hs

theorem flow_run {pushes : List (List UInt8)} {s : State}
    (hrun : Relation.ReflTransGen OrderlyStep (init pushes) s) :
    Inv s ∧ Flow pushes.flatten s :=
  run_keeps (I := fun s => Inv s ∧ Flow pushes.flatten s)
    (fun _ _ ⟨⟨_, hs⟩, hord⟩ ⟨hi, h⟩ => ⟨hi.step hs, h.step hi hs hord⟩) hrun
    ⟨inv_init pushes, flow_init pushes⟩

/-- Until `rawq_stop` has returned, some thread can go on without any
wake-up from outside, or the pushes are complete and the queue waits to
be stopped. -/
theorem Flow.progress {total : List UInt8} {s : State} (hi : Inv s) (h : Flow total s)
    (hret : s.returned = false) :
    (∃ s', Rawq.pusherStep s = some s') ∨ (∃ s', Rawq.workerStep s = some s') ∨
      (∃ s', joinStep s = some s') ∨ (s.stop = false ∧ s.pusher = .idle ∧ s.pushes = []) := by
  cases hw : s.worker with
  | acquire => exact Or.inr (Or.inl ⟨_, by rw [Rawq.workerStep, hw]⟩)
  | feed it => exact Or.inr (Or.inl ⟨_, by rw [Rawq.workerStep, hw]⟩)
  | release b => exact Or.inr (Or.inl ⟨_, by rw [Rawq.workerStep, hw]⟩)
  | exited =>
      obtain ⟨hst, -⟩ := h.drained hw
      exact Or.inr (Or.inr (Or.inl ⟨_, if_pos ⟨hst, hw, hret⟩⟩))
  | asleep =>
      -- the ring is empty, so it is the pusher's turn
      obtain ⟨hst, hq⟩ := hi.worker_asleep hw
      cases hp : s.pusher with
      | idle =>
          cases hps : s.pushes with
          | nil => exact Or.inr (Or.inr (Or.inr ⟨hst, rfl, rfl⟩))
          | cons data more => exact Or.inl ⟨_, by rw [Rawq.pusherStep, hp, hps]⟩
      | loop rest =>
          by_cases hrest : rest = []
          · exact Or.inl ⟨_, by rw [Rawq.pusherStep, hp]; exact if_pos hrest⟩
          · exact Or.inl ⟨_, by rw [Rawq.pusherStep, hp]; exact if_neg hrest⟩
      | acquire rest => exact Or.inl ⟨_, by rw [Rawq.pusherStep, hp]⟩
      | asleep rest =>
          obtain ⟨-, hcount⟩ := hi.pusher_asleep (by rw [hp]; rfl)
          rw [hq, rawqSlots] at hcount
          omega
      | copy rest b => exact Or.inl ⟨_, by rw [Rawq.pusherStep, hp]⟩
      | enqueue rest b => exact Or.inl ⟨_, by rw [Rawq.pusherStep, hp]⟩

/-- **The raw queue is a lossless FIFO.** In any run each buffer is in one
place, the ring never overfills although `rawq_push` does not look, and
the threads never wait for each other. If the pushes are complete before
`rawq_stop`, the queue never gets stuck, and when `rawq_stop` returns the
parser has been fed what was pushed. -/
theorem run_lossless (pushes : List (List UInt8)) :
    (∀ s, Relation.ReflTransGen Step (init pushes) s →
      owned s = Multiset.range rawqSlots ∧ s.q.count ≤ rawqSlots ∧
      ¬ (s.stop = false ∧ s.pusher.isAsleep = true ∧ s.worker = .asleep)) ∧
    (∀ s, Relation.ReflTransGen OrderlyStep (init pushes) s →
      (s.returned = true → s.fed.flatten = pushes.flatten) ∧
      (s.returned = false →
        (∃ s', pusherStep s = some s') ∨ (∃ s', workerStep s = some s') ∨
          (∃ s', joinStep s = some s') ∨
          (s.stop = false ∧ s.pusher = .idle ∧ s.pushes = []))) := by
  refine ⟨?_, ?_⟩
  · intro s hrun
    have hi := inv_run hrun
    refine ⟨hi.owned_eq, hi.ring.count_le, ?_⟩
    rintro ⟨-, hp, hw⟩
    have h1 := (hi.pusher_asleep hp).2
    have h2 := (hi.worker_asleep hw).2
    rw [rawqSlots] at h1
    omega
  · intro s hrun
    obtain ⟨hi, h⟩ := flow_run hrun
    refine ⟨fun hret => ?_, h.progress hi⟩
    have hw := h.joined hret
    obtain ⟨hst, hq⟩ := h.drained hw
    obtain ⟨hp, hps⟩ := h.stopped hst
    have ht := h.traffic_eq
    rw [traffic, queued, RingBuf.items_eq_nil hq, hw, hp, hps] at ht
    simpa [Worker.pending, Pusher.rest] using ht

/-- The worker sleeps first, a push wakes it, and the queue is stopped
before the item is taken off. -/
def sleepySchedule : List Action :=
  [.work, .push, .push, .push, .push, .push, .push, .stop, .work, .work, .work, .work, .join]

theorem run_lossless_sleepySchedule :
    ∃ s, exec (init [[1, 2, 3]]) sleepySchedule = some s ∧ s.returned = true ∧
      s.fed.flatten = [1, 2, 3] ∧ owned s = Multiset.range rawqSlots := by
  have hsome : ((exec (init [[1, 2, 3]]) sleepySchedule).map (·.returned)) = some true := by decide
  obtain ⟨s, hs, hret⟩ := Option.map_eq_some_iff.mp hsome
  have hrun := exec_run hs
  have hle : OrderlyStep ≤ Step := fun _ _ hst => hst.1
  exact ⟨s, hs, hret, ((run_lossless [[1, 2, 3]]).2 s hrun).1 hret,
    ((run_lossless [[1, 2, 3]]).1 s (Relation.ReflTransGen.mono hle _ _ hrun)).1⟩

end UsbSniffer.Rawq
