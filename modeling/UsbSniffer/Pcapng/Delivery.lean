import UsbSniffer.Pcapng.Termination

/-!
# What reaches the file

As long as `fwrite` does not fail, the file, the chunk being written, the
ring, the current chunk and what is still to come are together the stream
the session stands for. At the end of `pcapng_close` all but the file is
empty.
-/

namespace UsbSniffer.Pcapng

open Lib Uhsif

/-- What an operation has yet to copy. -/
def Op.bytes : Op → List UInt8
  | .sinkWrite d => d
  | .copy d => d
  | _ => []

def toCopy (todo : List Op) : List UInt8 := (todo.map Op.bytes).flatten

/-- What the calls to come will add to the stream. -/
def toCome (begun : Bool) (pend : List UInt8) : List Call → List UInt8
  | [] => []
  | .write w :: more =>
      if begun = true then w.block ++ toCome begun pend more
      else toCome begun (pend ++ w.block) more
  | .begin linkType :: more => headers linkType ++ pend ++ toCome true pend more
  | .close :: more => toCome begun pend more

/-- What the writer has yet to write of its chunk. -/
def Writer.pending (mem : Nat → Ptr) : Writer → List UInt8
  | .write it off => (itemBytes mem it).drop off
  | _ => []

/-- The bytes in the ring, oldest first. -/
def queued (s : State) : List UInt8 := ((s.q.items wqSlots).map (itemBytes s.mem)).flatten

/-- The bytes in the current chunk. -/
def staged (s : State) : List UInt8 :=
  if s.refill = true then [] else (s.chunk.map fun c => bytesAt (s.mem c) s.chunkLen).getD []

/-- The whole stream: written, with the writer, queued, in the current
chunk, to be copied and to come. -/
def stream (s : State) : List UInt8 :=
  s.file ++ s.writer.pending s.mem ++ queued s ++ staged s ++ toCopy s.todo ++
    toCome s.begun s.pend s.calls

/-- The producer is past the last `chunk_flush` of a call. -/
def Settled (calls : List Call) : List Op → Prop
  | [] => calls = []
  | op :: _ => op.isData = false

/-- The invariant of a run in which `fwrite` does not fail. -/
structure Flow (total : List UInt8) (s : State) : Prop where
  intact : s.wrErr = false
  stream_eq : stream s = total
  settled : Settled s.calls s.todo → staged s = []

@[simp] theorem toCopy_nil : toCopy [] = [] := rfl

@[simp] theorem toCopy_cons (op : Op) (k : List Op) : toCopy (op :: k) = op.bytes ++ toCopy k := rfl

theorem staged_refill {s : State} (hr : s.refill = true) : staged s = [] := by
  rw [staged, if_pos hr]

theorem staged_none {s : State} (hc : s.chunk = none) : staged s = [] := by
  rw [staged, hc]
  split
  · rfl
  · rfl

theorem staged_some {s : State} {c : Nat} (hr : s.refill = false) (hc : s.chunk = some c) :
    staged s = bytesAt (s.mem c) s.chunkLen := by
  rw [staged, hr, hc]
  rfl

theorem staged_zero {s : State} (hl : s.chunkLen = 0) : staged s = [] := by
  rw [staged, hl]
  split
  · rfl
  · cases s.chunk with
    | none => rfl
    | some c => rfl

/-- What a session stands for. -/
theorem toCome_session (pend : List UInt8) (pre post : List Write) (linkType : UInt32) :
    toCome false pend (session pre linkType post) =
      headers linkType ++ (pend ++ blocks pre) ++ blocks post := by
  have hafter : ∀ (p : List UInt8) (ws : List Write),
      toCome true p (ws.map .write ++ [.close]) = blocks ws := by
    intro p ws
    induction ws with
    | nil => rfl
    | cons w more ih =>
        rw [List.map_cons, List.cons_append, toCome, if_pos rfl, ih, blocks_cons]
  induction pre generalizing pend with
  | nil =>
      rw [session, List.map_nil, List.nil_append, toCome, hafter, blocks_nil, List.append_nil]
  | cons w more ih =>
      rw [session, List.map_cons, List.cons_append, toCome, if_neg Bool.false_ne_true]
      rw [← session, ih, blocks_cons]
      simp only [List.append_assoc]

theorem flow_pcapngOpen (pre post : List Write) (linkType : UInt32) :
    Flow (headers linkType ++ blocks pre ++ blocks post)
      (pcapngOpen (session pre linkType post)) where
  intact := rfl
  stream_eq := by
    have hcome := toCome_session [] pre post linkType
    rw [List.nil_append] at hcome
    rw [← hcome]
    rfl
  settled := fun _ => rfl

/-! ## Every step keeps the stream -/

theorem not_settled {calls : List Call} {op : Op} {k : List Op} (hop : op.isData = true) :
    ¬ Settled calls (op :: k) := by
  intro hx
  rw [Settled, hop] at hx
  cases hx

theorem not_settled_data {calls : List Call} {todo : List Op} (hc : calls ≠ [])
    (h : ∀ op ∈ todo, op.isData = true) : ¬ Settled calls todo := by
  cases todo with
  | nil => exact hc
  | cons op k => exact not_settled (h op List.mem_cons_self)

theorem toCopy_ops (w : Write) : toCopy w.ops = w.block := by
  cases w with
  | epb ts data => rw [Write.ops, toCopy_cons, toCopy_nil, Op.bytes, List.append_nil, Write.block]
  | info ts str =>
      have hflush : Op.bytes .chunkFlush = [] := rfl
      rw [Write.ops, toCopy_cons, toCopy_cons, toCopy_nil, hflush, Op.bytes, List.append_nil,
        List.append_nil, Write.block]
  | flush => rfl

theorem toCopy_begin (linkType : UInt32) (pend : List UInt8) :
    toCopy ([.sinkWrite fileHeader, .sinkWrite (usbHeader linkType), .sinkWrite infoHeader] ++
      if pend = [] then [] else [.sinkWrite pend]) = headers linkType ++ pend := by
  simp only [List.cons_append, List.nil_append, toCopy_cons, Op.bytes, headers, List.append_assoc]
  by_cases hp : pend = []
  · rw [if_pos hp, hp]
    rfl
  · rw [if_neg hp, toCopy_cons, toCopy_nil, Op.bytes, List.append_nil]

theorem itemBytes_update {mem : Nat → Ptr} {b : Nat} {p : Ptr} {it : Item} (h : it.buf ≠ b) :
    itemBytes (Function.update mem b p) it = itemBytes mem it := by
  rw [itemBytes, itemBytes, Function.update_of_ne h]

theorem itemBytes_length (mem : Nat → Ptr) (it : Item) : (itemBytes mem it).length = it.len := by
  simp [itemBytes, bytesAt]

theorem pending_signalNonempty {s : State} {w : Writer} (mem : Nat → Ptr)
    (hcase : w = s.writer ∨ (s.writer = .asleep ∧ w = .acquire)) :
    w.pending mem = s.writer.pending mem := by
  rcases hcase with rfl | ⟨hs, rfl⟩
  · rfl
  · rw [hs]
    rfl

namespace Flow

variable {total : List UInt8} {s s' : State}

/-- The producer goes on to other operations with the same bytes. -/
theorem goOn (h : Flow total s) {op : Op} {k todo : List Op} (ht : s.todo = op :: k)
    (hbytes : toCopy todo = toCopy (op :: k)) (hset : Settled s.calls todo → staged s = []) :
    Flow total { s with todo := todo } := by
  refine ⟨h.intact, ?_, hset⟩
  rw [← h.stream_eq, stream, stream, ht, ← hbytes]
  rfl

/-- The copy touches no byte on its way to the file: the chunk is in the
producer's hands alone. -/
theorem copyPart (h : Flow total s) (hi : Inv s) {k flush : List Op} {d : List UInt8} {c n : Nat}
    (hr : s.refill = false) (ht : s.todo = .copy d :: k) (hc : s.chunk = some c)
    (hn : n = min d.length (wqChunk - s.chunkLen)) (hfl : flush = [] ∨ flush = [.chunkFlush]) :
    Flow total
      { s with
        mem := Function.update s.mem c (memcpy (s.mem c) s.chunkLen (d.take n))
        chunkLen := s.chunkLen + n
        todo := flush ++ .copy (d.drop n) :: k } := by
  -- the chunk is neither in the ring nor at the writer
  obtain ⟨hring, hwriter⟩ := hi.toCore.chunk_apart (hand_some hr hc)
  have hlen : (d.take n).length = n := by
    rw [List.length_take]
    omega
  have hqueued : ((s.q.items wqSlots).map (itemBytes (Function.update s.mem c
      (memcpy (s.mem c) s.chunkLen (d.take n))))).flatten = queued s := by
    rw [queued]
    congr 1
    exact List.map_congr_left fun it hit => itemBytes_update (hring it hit)
  have hpending : s.writer.pending (Function.update s.mem c
      (memcpy (s.mem c) s.chunkLen (d.take n))) = s.writer.pending s.mem := by
    cases hw : s.writer with
    | write it off =>
        rw [hw] at hwriter
        rw [Writer.pending, Writer.pending, itemBytes_update]
        exact fun he => hwriter (he ▸ Multiset.mem_singleton_self _)
    | acquire => rfl
    | asleep => rfl
    | release b => rfl
    | exited => rfl
  have hstaged : staged
      { s with
        mem := Function.update s.mem c (memcpy (s.mem c) s.chunkLen (d.take n))
        chunkLen := s.chunkLen + n
        todo := flush ++ .copy (d.drop n) :: k } = staged s ++ d.take n := by
    have hcopy := bytesAt_memcpy (s.mem c) s.chunkLen (d.take n)
    rw [hlen] at hcopy
    refine (staged_some (by exact hr) (by exact hc)).trans ?_
    show bytesAt (Function.update s.mem c _ c) (s.chunkLen + n) = _
    rw [Function.update_self, hcopy, staged_some hr hc]
  have htodo : toCopy (flush ++ .copy (d.drop n) :: k) = d.drop n ++ toCopy k := by
    rcases hfl with rfl | rfl
    · rfl
    · rfl
  refine ⟨h.intact, ?_, fun hx => ?_⟩
  · rw [← h.stream_eq, stream, stream, queued, hqueued, hpending, hstaged, htodo, ht, toCopy_cons,
      Op.bytes]
    simp only [List.append_assoc]
    rw [← List.append_assoc (d.take n), List.take_append_drop]
  · refine absurd hx ?_
    rcases hfl with rfl | rfl
    · exact not_settled rfl
    · exact not_settled rfl

theorem queueChunk (h : Flow total s) (hi : Inv s) {k : List Op} {c : Nat}
    (hr : s.refill = false) (ht : s.todo = .chunkFlush :: k) (hc : s.chunk = some c) :
    Flow total (signalNonempty
      { s with q := s.q.push wqSlots ⟨c, s.chunkLen⟩, refill := true, todo := k }) := by
  have hcount := hi.toCore.count_eq
  rw [hand_some hr hc, Multiset.card_singleton] at hcount
  have hlt : s.q.count < wqSlots := by omega
  obtain ⟨w, he, -, hcase⟩ := signalNonempty_eq
    { s with q := s.q.push wqSlots ⟨c, s.chunkLen⟩, refill := true, todo := k }
  rw [he]
  refine ⟨h.intact, ?_, fun _ => staged_refill rfl⟩
  rw [← h.stream_eq, stream, stream, queued, RingBuf.items_push hi.ring hlt, List.map_append,
    List.flatten_append, List.map_singleton, List.flatten_singleton, pending_signalNonempty _ hcase,
    staged_refill rfl, staged_some hr hc, ht, toCopy_cons]
  simp only [List.append_assoc, List.nil_append, Op.bytes, itemBytes, queued]

theorem callStep (h : Flow total s) (hco : Course s) {c : Call} {more : List Call}
    (ht : s.todo = []) (hc : s.calls = c :: more)
    (hs : call { s with calls := more } c = some s') : Flow total s' := by
  have hstream := h.stream_eq
  rw [stream, ht, hc] at hstream
  -- a call adds to what is to be copied what it takes from what is to come
  have hcall : ∀ (b : Bool) (p : List UInt8) (cap : Nat) (todo : List Op),
      toCopy todo ++ toCome b p more = toCome s.begun s.pend (c :: more) →
      ¬ Settled more todo →
      Flow total { s with calls := more, begun := b, pend := p, pendCap := cap, todo := todo } := by
    intro b p cap todo hcome hset
    refine ⟨h.intact, ?_, fun hx => absurd hx hset⟩
    rw [← hstream, toCopy_nil, List.append_nil, ← hcome, ← List.append_assoc]
    rfl
  cases hco.taken_of_call ht hc hs with
  | close hb => exact hcall s.begun s.pend s.pendCap _ rfl (not_settled rfl)
  | write hb w post =>
      refine hcall s.begun s.pend s.pendCap w.ops ?_ ?_
      · rw [toCopy_ops, hb, toCome, if_pos rfl]
      · cases w with
        | epb ts data => exact not_settled rfl
        | info ts str => exact not_settled rfl
        | flush => exact not_settled rfl
  | begin hb linkType post =>
      refine hcall true s.pend s.pendCap _ ?_ (not_settled rfl)
      rw [toCome, toCopy_begin]
  | @stage hb w pre post linkType cap todo htodo =>
      refine hcall s.begun (s.pend ++ w.block) cap todo ?_ ?_
      · rw [toCome, if_neg (by simp [hb])]
        rcases htodo with rfl | rfl
        · rfl
        · rfl
      · rcases htodo with rfl | rfl
        · exact not_settled_data (by simp [session]) nofun
        · exact not_settled rfl

theorem takeItem (h : Flow total s) (hi : Inv s) (hw : s.writer = .acquire)
    (hq : 0 < s.q.count) :
    Flow total (signal .nonfull { s with q := s.q.pop wqSlots, writer := .write s.q.front 0 }) := by
  rw [signal_with]
  refine ⟨h.intact, ?_, h.settled⟩
  have hitems := RingBuf.items_pop hi.ring hq
  rw [← h.stream_eq, stream, stream, queued, queued, hitems, List.map_cons, List.flatten_cons, hw]
  simp only [Writer.pending, List.drop_zero, List.append_assoc, List.nil_append]
  rfl

theorem accept (h : Flow total s) {it : Item} {off : Nat} (hw : s.writer = .write it off) (n : Nat) :
    Flow total
      { s with
        file := s.file ++ ((itemBytes s.mem it).drop off).take n
        writer := .write it (off + n) } := by
  refine ⟨h.intact, ?_, h.settled⟩
  rw [← h.stream_eq, stream, stream, hw]
  simp only [Writer.pending]
  rw [List.append_assoc s.file, ← List.drop_drop, List.take_append_drop]
  rfl

theorem move (h : Flow total s) (hv : Orderly s) {a : Action} (hm : Move a s s')
    (hacc : a.accepts = true) : Flow total s' := by
  obtain ⟨hi, hco, hroom⟩ := hv
  -- no write has failed, so the branches that drop bytes are not taken
  have herr : s.wrErr ≠ true := by simp [h.intact]
  cases hm with
  | refillWait ha hr hf he => exact ⟨h.intact, h.stream_eq, h.settled⟩
  | refillNull ha hr he => exact absurd he herr
  | refillGot ha hr hf =>
      refine ⟨h.intact, ?_, fun _ => staged_zero rfl⟩
      rw [← h.stream_eq, stream, stream, staged_refill hr, staged_zero rfl]
      rfl
  | sinkSkip ha hr ht hg =>
      rcases hg with hb | he
      · simp [hco.begun_of_head ht nofun] at hb
      · exact absurd he herr
  | sinkEnter ha hr ht =>
      exact h.goOn ht rfl fun hx => absurd hx (not_settled rfl)
  | copyDone ha hr ht =>
      exact h.goOn ht rfl fun hx => absurd hx (not_settled rfl)
  | copyWait ha hr ht hc hf he => exact ⟨h.intact, h.stream_eq, h.settled⟩
  | copyNull ha hr ht hc he => exact absurd he herr
  | copyGot ha hr ht hc hf =>
      have hempty : staged { s with freeq := s.freeq.pop, chunk := some s.freeq.top } = [] :=
        staged_zero (hroom.unstarted hc)
      refine ⟨h.intact, ?_, fun _ => hempty⟩
      rw [← h.stream_eq, stream, stream, staged_none hc, hempty]
      rfl
  | copyPart ha hr ht hd hc hn hfl => exact h.copyPart hi hr ht hc hn (flush_of_round hfl)
  | liveFlush ha hr ht hfl =>
      have hp := hco.plan
      rw [ht] at hp
      obtain ⟨hcalls, hk⟩ := hp.sink rfl
      rcases hfl with rfl | rfl
      · exact h.goOn ht rfl fun hx => absurd hx (not_settled_data hcalls hk)
      · exact h.goOn ht rfl fun hx => absurd hx (not_settled rfl)
  | flushEmpty ha hr ht hc => exact h.goOn ht rfl fun _ => hc.elim staged_none staged_zero
  | flushWait ha hr ht hc hq => exact ⟨h.intact, h.stream_eq, h.settled⟩
  | flushDiscard ha hr ht hc he => exact absurd he herr
  | flushQueue ha hr ht hc hl => exact h.queueChunk hi hr ht hc
  | drainWait ha hr ht hq => exact ⟨h.intact, h.stream_eq, h.settled⟩
  | drainDone ha hr ht => exact h.goOn ht rfl fun _ => h.settled (by rw [ht]; rfl)
  | @stop _ _ k ha hr ht =>
      obtain ⟨w, he, -, hcase⟩ := signalNonempty_eq { s with stop := true, todo := k }
      rw [he]
      refine ⟨h.intact, ?_, fun _ => h.settled (by rw [ht]; rfl)⟩
      rw [← h.stream_eq, stream, stream, ht, pending_signalNonempty _ hcase]
      rfl
  | join ha hr ht hw =>
      refine ⟨h.intact, ?_, fun _ => h.settled (by rw [ht]; rfl)⟩
      rw [← h.stream_eq, stream, stream, ht]
      rfl
  | call ha hr ht hc hs => exact h.callStep hco ht hc hs
  | sleep hw hq hs =>
      refine ⟨h.intact, ?_, h.settled⟩
      rw [← h.stream_eq, stream, stream, hw]
      rfl
  | exit hw hq hs =>
      refine ⟨h.intact, ?_, h.settled⟩
      rw [← h.stream_eq, stream, stream, hw]
      rfl
  | take hw hq => exact h.takeItem hi hw hq
  | written hw hoff =>
      refine ⟨h.intact, ?_, h.settled⟩
      rw [← h.stream_eq, stream, stream, hw]
      simp only [Writer.pending]
      rw [List.drop_eq_nil_of_le (by rw [itemBytes_length]; exact hoff)]
      rfl
  | fail hw => cases hacc
  | accept hw hn hpos => exact h.accept hw _
  | giveBack hw =>
      rw [signal_with]
      refine ⟨h.intact, ?_, h.settled⟩
      rw [← h.stream_eq, stream, stream, hw]
      rfl
  | wakeProducer => exact ⟨h.intact, h.stream_eq, h.settled⟩
  | wakeWriter =>
      obtain ⟨w, he, -, hcase⟩ := signalNonempty_eq s
      rw [he]
      refine ⟨h.intact, ?_, h.settled⟩
      rw [← h.stream_eq, stream, stream, pending_signalNonempty _ hcase]
      rfl

/-- When `pcapng_close` is through, all of the stream is in the file. -/
theorem file_of_closed (h : Flow total s) (hco : Course s) (hc : s.closed = true) :
    s.file = total := by
  have hx := hco.joined hc
  have hq := (hco.exited hx).2
  obtain ⟨hcalls, htodo⟩ : s.calls = [] ∧ s.todo = [] := by
    have hp := hco.plan
    rw [hc] at hp
    generalize s.calls = calls at hp ⊢
    generalize s.todo = todo at hp ⊢
    generalize s.stop = stop at hp
    cases hp with
    | closed => exact ⟨rfl, rfl⟩
  have hstaged : staged s = [] := h.settled (by rw [htodo]; exact hcalls)
  have hstream := h.stream_eq
  rw [stream, queued, RingBuf.items_eq_nil hq, hx, hstaged, htodo, hcalls] at hstream
  simpa [Writer.pending, toCome] using hstream

end Flow

/-- Every run in which `fwrite` does not fail, however much is staged. -/
theorem flow_run (pre post : List Write) (linkType : UInt32) {s : State}
    (hrun : Relation.ReflTransGen WritingStep (pcapngOpen (session pre linkType post)) s) :
    Orderly s ∧ Flow (headers linkType ++ blocks pre ++ blocks post) s :=
  run_keeps (I := fun s => Orderly s ∧ Flow _ s)
    (fun _ _ ⟨_, hacc, hs⟩ ⟨hv, h⟩ => ⟨hv.move (move_of_step hs), h.move hv (move_of_step hs) hacc⟩)
    hrun ⟨orderly_pcapngOpen pre post linkType, flow_pcapngOpen pre post linkType⟩

/-- **The asynchronous writer loses, duplicates and reorders nothing.**
In any run of a session, whatever `fwrite` returns, each buffer is in one
place, the ring and the free stack never overfill, the threads never wait
for each other, one of them can go on until `pcapng_close` is through,
and they do not go on for ever. If `fwrite` never fails, the file then
holds the headers, the blocks written before `pcapng_begin` and those
after it, in call order. -/
theorem session_delivers (pre post : List Write) (linkType : UInt32)
    (hfit : ∀ w ∈ pre ++ post, w.Fits) (hpend : (blocks pre).length < stagingLimit) :
    (∀ s, Relation.ReflTransGen Step (pcapngOpen (session pre linkType post)) s →
      owned s = Multiset.range wqSlots ∧ s.q.count ≤ wqSlots ∧ s.freeq.count ≤ wqSlots ∧
      ¬ (s.asleep ≠ none ∧ s.writer = .asleep) ∧
      (s.closed = false →
        (∃ s', step s (.produce false) = some s') ∨ ∃ s', step s (.write 1) = some s') ∧
      Acc (fun t' t => OwnStep t t') s) ∧
    (∀ s, Relation.ReflTransGen WritingStep (pcapngOpen (session pre linkType post)) s →
      s.closed = true → s.file = headers linkType ++ blocks pre ++ blocks post) := by
  have hopen : Valid (pcapngOpen (session pre linkType post)) :=
    valid_pcapngOpen (fun w hw => hfit w (List.mem_append_left _ hw)) hpend
  refine ⟨fun s hrun => ?_, fun s hrun hc => ?_⟩
  · have h := hopen.run hrun
    have hcount := h.inv.count_eq
    exact ⟨h.inv.owned_eq, h.inv.ring.count_le, by omega, h.inv.not_both_asleep, h.progress, h.ends⟩
  · obtain ⟨hv, h⟩ := flow_run pre post linkType hrun
    exact h.file_of_closed hv.course hc

/-- The producer goes first, as far as the wait of `pcapng_close`; the
writer then takes one byte, and the rest. -/
def shortWrites : List Action :=
  List.replicate 29 (.produce false) ++ [.write 1, .write 1, .write 275, .write 1, .write 1] ++
    [.produce false, .produce false, .write 1, .produce false]

theorem session_delivers_shortWrites :
    ∃ s, exec (pcapngOpen (session [.epb 5 [1, 2, 3]] 288 [.info 7 [65]])) shortWrites = some s ∧
      s.closed = true ∧ owned s = Multiset.range wqSlots ∧
      s.file = headers 288 ++ blocks [.epb 5 [1, 2, 3]] ++ blocks [.info 7 [65]] := by
  have hsome : ((exec (pcapngOpen (session [.epb 5 [1, 2, 3]] 288 [.info 7 [65]])) shortWrites).map
      (·.closed)) = some true := by decide +kernel
  obtain ⟨s, hs, hc⟩ := Option.map_eq_some_iff.mp hsome
  have hrun := exec_run hs
  have hall : Relation.ReflTransGen Step
      (pcapngOpen (session [.epb 5 [1, 2, 3]] 288 [.info 7 [65]])) s :=
    Relation.ReflTransGen.mono (fun _ _ ⟨a, _, hst⟩ => ⟨a, hst⟩) _ _ hrun
  have hsession := session_delivers [.epb 5 [1, 2, 3]] [.info 7 [65]] 288
    (by simp [Write.Fits, Write.block, epbBlock_length, infoBlock_length, blockBufSize])
    (by simp [blocks, Write.block, epbBlock_length, stagingLimit])
  exact ⟨s, hs, hc, (hsession.1 s hall).1, hsession.2 s hrun hc⟩

end UsbSniffer.Pcapng
