import UsbSniffer.Pcapng.Session

/-!
# A session comes to an end

Every step of a thread uses up some of the work that is left: bytes to be
staged, copied, queued and written, calls to be made, and a signal that
may wake a sleeper once. Wake-ups from outside give work back, so they
are not counted as steps of a thread.
-/

namespace UsbSniffer.Pcapng

open Lib Uhsif

/-! ## The work left -/

/-- A byte counts 11 until it is copied, 9 in the current chunk and 1 from
then on. What the rest counts makes each step cheaper than what it
leads to. -/
def Op.work : Op → Nat
  | .sinkWrite d => 11 * d.length + 4
  | .copy d => 11 * d.length + 3
  | .liveFlush => 2
  | .chunkFlush => 1
  | .drain => 1
  | .stop => 2
  | .join => 1

def Call.work : Call → Nat
  | .begin linkType => 11 * (headers linkType).length + 17
  | .write w => 11 * w.block.length + 6
  | .close => 6

def Writer.work : Writer → Nat
  | .acquire => 1
  | .asleep => 0
  | .write it off => it.len - off + 4
  | .release _ => 3
  | .exited => 0

/-- The producer's part: what it is doing, what it has staged and what is
to come. -/
def producerWork (s : State) : Nat :=
  (s.todo.map Op.work).sum + (s.calls.map Call.work).sum +
    (if s.begun = true then 0 else 11 * s.pend.length) +
    (if s.refill = true then 2 else 9 * s.chunkLen) +
    (if s.chunk = none then 1 else 0) + (if s.asleep = none then 1 else 0)

/-- The writer's part: what it is doing and what is queued. -/
def writerWork (s : State) : Nat :=
  s.writer.work + ((s.q.items wqSlots).map fun it => it.len + 5).sum

def work (s : State) : Nat := producerWork s + writerWork s

/-- A step of a thread, not a wake-up from outside. -/
def Action.own : Action → Bool
  | .produce _ => true
  | .write _ => true
  | _ => false

/-! ## Every step uses some of it up -/

section Work

variable {s s' : State}

theorem ite_one_le (p : Prop) [Decidable p] : (if p then 1 else 0) ≤ 1 := by
  split
  · exact Nat.le_refl 1
  · exact Nat.zero_le 1

/-- A step of the producer that leaves the writer and the ring alone. -/
theorem work_of_producer (hw : s'.writer = s.writer) (hq : s'.q = s.q)
    (h : producerWork s' < producerWork s) : work s' < work s := by
  rw [work, work, writerWork, writerWork, hw, hq]
  exact Nat.add_lt_add_right h _

/-- A step of the writer that leaves the producer alone. -/
theorem work_of_writer (hp : producerWork s' = producerWork s) (h : writerWork s' < writerWork s) :
    work s' < work s := by
  rw [work, work, hp]
  exact Nat.add_lt_add_left h _

/-- Waking the writer costs one. -/
theorem woken_work {w : Writer} (hcase : w = s.writer ∨ (s.writer = .asleep ∧ w = .acquire)) :
    w.work ≤ s.writer.work + 1 := by
  rcases hcase with rfl | ⟨hs, rfl⟩
  · exact Nat.le_succ _
  · exact Nat.le_add_left 1 _

/-- Going to sleep gives the signal that is yet to come for free. -/
theorem producerWork_sleep (ha : s.asleep = none) (c : Cond) :
    producerWork { s with asleep := some c } < producerWork s := by
  simp only [producerWork, ha]
  simp

/-- Going on to cheaper operations. -/
theorem producerWork_todo {todo : List Op}
    (h : (todo.map Op.work).sum < (s.todo.map Op.work).sum) :
    producerWork { s with todo := todo } < producerWork s := by
  simp only [producerWork]
  omega

theorem producerWork_refill (ha : s.asleep = none) (hr : s.refill = true) (b : Option Nat)
    (free : Stack Nat) :
    producerWork { s with freeq := free, chunk := b, chunkLen := 0, refill := false } <
      producerWork s := by
  have hb := ite_one_le (b = none)
  simp only [producerWork, ha, hr, if_true, Bool.false_eq_true, if_false, Nat.mul_zero]
  omega

theorem producerWork_got (hc : s.chunk = none) (b : Nat) (free : Stack Nat) :
    producerWork { s with freeq := free, chunk := some b } < producerWork s := by
  simp only [producerWork, hc]
  simp

/-- A round of the copy moves at least one byte. -/
theorem producerWork_copy {d : List UInt8} {k f : List Op} {n : Nat} (hr : s.refill = false)
    (ht : s.todo = .copy d :: k) (hpos : 0 < n) (hle : n ≤ d.length)
    (hf : f = [] ∨ f = [.chunkFlush]) (mem : Nat → Ptr) :
    producerWork { s with
      mem := mem, chunkLen := s.chunkLen + n, todo := f ++ .copy (d.drop n) :: k } <
      producerWork s := by
  have hfl : (f.map Op.work).sum ≤ 1 := by
    rcases hf with rfl | rfl
    · exact Nat.zero_le _
    · exact Nat.le_refl _
  simp only [producerWork, ht, hr, List.map_append, List.sum_append, List.map_cons, List.sum_cons,
    Op.work, List.length_drop, Bool.false_eq_true, if_false]
  omega

theorem ops_work (w : Write) : (w.ops.map Op.work).sum < 11 * w.block.length + 6 := by
  cases w with
  | epb ts data =>
      rw [Write.ops, Write.block]
      simp only [List.map_cons, List.map_nil, List.sum_cons, List.sum_nil, Op.work]
      omega
  | info ts str =>
      rw [Write.ops, Write.block]
      simp only [List.map_cons, List.map_nil, List.sum_cons, List.sum_nil, Op.work]
      omega
  | flush =>
      rw [Write.ops, Write.block]
      simp only [List.map_cons, List.map_nil, List.sum_cons, List.sum_nil, Op.work,
        List.length_nil]
      omega

theorem producerWork_call (ht : s.todo = []) {c : Call} {more : List Call}
    (hc : s.calls = c :: more) (hcalled : Called s c more s') :
    producerWork s' < producerWork s := by
  cases hcalled with
  | close hb =>
      simp only [producerWork, ht, hc, hb, List.map_cons, List.map_nil, List.sum_cons, List.sum_nil,
        Op.work, Call.work]
      omega
  | write hb w post =>
      have hops := ops_work w
      simp only [producerWork, ht, hc, List.map_cons, List.map_nil, List.sum_cons, List.sum_nil,
        Call.work]
      omega
  | begin hb linkType post =>
      have hsum : (([.sinkWrite fileHeader, .sinkWrite (usbHeader linkType), .sinkWrite infoHeader] ++
          if s.pend = [] then [] else [.sinkWrite s.pend] : List Op).map Op.work).sum ≤
          11 * (headers linkType).length + 11 * s.pend.length + 16 := by
        simp only [headers, List.map_append, List.map_cons, List.map_nil, List.sum_append,
          List.sum_cons, List.sum_nil, Op.work, List.length_append]
        split
        · simp only [List.map_nil, List.sum_nil]
          omega
        · simp only [List.map_cons, List.map_nil, List.sum_cons, List.sum_nil, Op.work]
          omega
      simp only [producerWork, ht, hc, hb, if_true, Bool.false_eq_true, if_false, List.map_cons,
        List.map_nil, List.sum_cons, List.sum_nil, Call.work]
      omega
  | stage hb hlim hfit htodo hst =>
      simp only [producerWork, ht, hc, hb, Bool.false_eq_true, if_false, List.map_cons,
        List.map_nil, List.sum_cons, List.sum_nil, Call.work, List.length_append]
      rcases htodo with rfl | rfl
      · simp only [List.map_nil, List.sum_nil]
        omega
      · simp only [List.map_cons, List.map_nil, List.sum_cons, List.sum_nil, Op.work]
        omega

/-- **Every step of a thread uses up work.** -/
theorem work_lt (h : Valid s) {a : Action} (hm : Move a s s') (hown : a.own = true) :
    work s' < work s := by
  have hpop : ∀ {op : Op} {k : List Op}, s.todo = op :: k → 0 < op.work →
      (k.map Op.work).sum < (s.todo.map Op.work).sum := by
    intro op k ht hpos
    rw [ht, List.map_cons, List.sum_cons]
    omega
  cases hm with
  | refillWait ha hr hf he => exact work_of_producer rfl rfl (producerWork_sleep ha _)
  | refillNull ha hr he => exact work_of_producer rfl rfl (producerWork_refill ha hr none s.freeq)
  | refillGot ha hr hf => exact work_of_producer rfl rfl (producerWork_refill ha hr _ _)
  | sinkSkip ha hr ht hg =>
      exact work_of_producer rfl rfl (producerWork_todo (hpop ht (Nat.succ_pos _)))
  | sinkEnter ha hr ht =>
      refine work_of_producer rfl rfl (producerWork_todo ?_)
      rw [ht]
      simp only [List.map_cons, List.sum_cons, Op.work]
      omega
  | copyDone ha hr ht =>
      refine work_of_producer rfl rfl (producerWork_todo ?_)
      rw [ht]
      simp only [List.map_cons, List.sum_cons, Op.work]
      omega
  | copyWait ha hr ht hc hf he => exact work_of_producer rfl rfl (producerWork_sleep ha _)
  | copyNull ha hr ht hc he =>
      exact work_of_producer rfl rfl (producerWork_todo (hpop ht (Nat.succ_pos _)))
  | copyGot ha hr ht hc hf => exact work_of_producer rfl rfl (producerWork_got hc _ _)
  | @copyPart _ _ k d c n ha hr ht hd hc hn f hfl =>
      -- there is room in the chunk and a byte to copy
      have hlt := h.room.lt hr ht nofun
      have hlen := List.length_pos_iff.mpr hd
      exact work_of_producer rfl rfl
        (producerWork_copy hr ht (by omega) (by omega) (flush_of_round hfl) _)
  | liveFlush ha hr ht hfl =>
      refine work_of_producer rfl rfl (producerWork_todo ?_)
      rcases hfl with rfl | rfl
      · exact hpop ht (Nat.succ_pos _)
      · rw [ht]
        simp only [List.map_append, List.sum_append, List.map_cons, List.map_nil, List.sum_cons,
          List.sum_nil, Op.work]
        omega
  | flushEmpty ha hr ht hc =>
      exact work_of_producer rfl rfl (producerWork_todo (hpop ht Nat.one_pos))
  | flushWait ha hr ht hc hq => exact work_of_producer rfl rfl (producerWork_sleep ha _)
  | flushDiscard ha hr ht hc he =>
      refine work_of_producer rfl rfl ?_
      simp only [producerWork, ht, hr, List.map_cons, List.sum_cons, Op.work, Bool.false_eq_true,
        if_false]
      omega
  | @flushQueue _ _ k c ha hr ht hc hl =>
      -- a byte is cheaper in the ring than in the chunk: one byte pays for the
      -- item, the refill and the wake-up of the writer
      have hcount := h.inv.count_eq
      rw [hand_some hr hc, Multiset.card_singleton] at hcount
      have hlt : s.q.count < wqSlots := by omega
      obtain ⟨w, he, -, hcase⟩ := signalNonempty_eq
        { s with q := s.q.push wqSlots ⟨c, s.chunkLen⟩, refill := true, todo := k }
      have hwake := woken_work hcase
      rw [he]
      simp only [work, producerWork, writerWork, ht, hr, RingBuf.items_push h.inv.ring hlt,
        List.map_append, List.sum_append, List.map_cons, List.map_nil, List.sum_cons, List.sum_nil,
        Op.work, if_true, Bool.false_eq_true, if_false] at hwake ⊢
      omega
  | drainWait ha hr ht hq => exact work_of_producer rfl rfl (producerWork_sleep ha _)
  | drainDone ha hr ht =>
      exact work_of_producer rfl rfl (producerWork_todo (hpop ht Nat.one_pos))
  | @stop _ _ k ha hr ht =>
      obtain ⟨w, he, -, hcase⟩ := signalNonempty_eq { s with stop := true, todo := k }
      have hwake := woken_work hcase
      rw [he]
      simp only [work, producerWork, writerWork, ht, List.map_cons, List.sum_cons, Op.work] at hwake ⊢
      omega
  | join ha hr ht hw =>
      exact work_of_producer rfl rfl (producerWork_todo (s := s) (hpop ht Nat.one_pos))
  | call ha hr ht hc hs =>
      have hcalled := h.script.called_of_call ht hc hs
      obtain ⟨b, p, cap, todo, rfl⟩ := call_eq hs
      exact work_of_producer rfl rfl (producerWork_call ht hc hcalled)
  | sleep hw hq hs =>
      refine work_of_writer rfl ?_
      simp only [writerWork, hw, Writer.work]
      omega
  | exit hw hq hs =>
      refine work_of_writer rfl ?_
      simp only [writerWork, hw, Writer.work]
      omega
  | take hw hq =>
      -- the item passes from the ring to the writer, and the producer may wake up
      obtain ⟨a, he, -, -⟩ := signal_eq .nonfull
        { s with q := s.q.pop wqSlots, writer := .write s.q.front 0 }
      have hitems := RingBuf.items_pop h.inv.ring hq
      have hawake := ite_one_le (a = none)
      rw [he]
      simp only [work, producerWork, writerWork, hw, hitems, List.map_cons, List.sum_cons,
        Writer.work]
      omega
  | written hw hoff =>
      refine work_of_writer rfl ?_
      simp only [writerWork, hw, Writer.work]
      omega
  | fail hw =>
      refine work_of_writer rfl ?_
      simp only [writerWork, hw, Writer.work]
      omega
  | accept hw hn hpos =>
      refine work_of_writer rfl ?_
      simp only [writerWork, hw, Writer.work]
      omega
  | @giveBack _ _ b hw =>
      obtain ⟨a, he, -, -⟩ := signal_eq .freecv
        { s with freeq := s.freeq.push b, writer := .acquire }
      have hawake := ite_one_le (a = none)
      rw [he]
      simp only [work, producerWork, writerWork, hw, Writer.work]
      omega
  | wakeProducer => cases hown
  | wakeWriter => cases hown

end Work

/-- One step of a thread. -/
def OwnStep (s s' : State) : Prop := ∃ a, a.own = true ∧ step s a = some s'

/-- **A session comes to an end**: no run of the threads' own steps goes
on for ever. -/
theorem Valid.ends {s : State} (h : Valid s) : Acc (fun t' t => OwnStep t t') s := by
  refine run_ends work (fun t t' ⟨a, hown, hs⟩ ht => ?_) h
  have hm := move_of_step hs
  exact ⟨ht.move hm, work_lt ht hm hown⟩

end UsbSniffer.Pcapng
