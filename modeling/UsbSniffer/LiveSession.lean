import UsbSniffer.Gen2
import UsbSniffer.Rawq
import UsbSniffer.Pcapng.Reader
import UsbSniffer.Packet.Bounds
import UsbSniffer.Packet.Frames

/-!
# A live capture, from the uplink to the file

`run_capture_gen2` puts three threads in a row: the transport pushes its
transfers into the raw queue, a worker takes them through the stream and
the frame layer to the pcapng writer, and the writer has a thread of its
own. What each of them keeps was shown on its own: the queue is a
lossless FIFO, the stream layer does not care how its bytes are cut, the
writer loses and reorders nothing. `live_file` puts them together: with
the options, the lines about the link, the build stamp and the reason for
the end given, the file is a function of the bytes of the uplink,
whatever the transfers, the turns of the threads and the short writes,
and a reader of the format takes it back.

The session has three phases. The init commands read their ACKs
synchronously, before `pcapng_begin`; then the capture streams through
the queue; and the last command is synchronous again.
-/

namespace UsbSniffer

open Lib

/-- The call of `pcapng.c` a record is made by. -/
def Record.write : Record UInt8 → Pcapng.Write
  | .epb ts data => .epb ts data
  | .info ts m => .info ts (Pcapng.chars m.text)

/-- `dlt_for_speed`. -/
def dltForSpeed : CaptureSpeed → UInt32
  | .ls => 293
  | .fs => 294
  | .hs => 295
  | .reset => 288

namespace Gen2

/-- The chunks of the three phases, as `stream_feed` gets them. -/
structure Uplink where
  startup : List (List UInt8)
  streamed : List (List UInt8)
  closing : List (List UInt8)

/-- The same bytes, one chunk for each phase. -/
def Uplink.whole (u : Uplink) : Uplink :=
  ⟨[u.startup.flatten], [u.streamed.flatten], [u.closing.flatten]⟩

/-- Up to `pcapng_begin`. The first command lifts the suppression before
anything is read. -/
def atBegin (opts : PacketOpts) (u : Uplink) : Option (Gen2 UInt8) :=
  run bare (start opts) (.suppress false :: u.startup.map .chunk)

/-- What is left after `packet_announce`. -/
def rest (build why : String) (u : Uplink) : List Gen2Event :=
  .info ("Plugin build: " ++ build) ::
    (u.streamed.map .chunk ++ .stopInfo why :: u.closing.map .chunk)

/-- The whole session. -/
def atEnd (opts : PacketOpts) (build why : String) (u : Uplink) : Option (Gen2 UInt8) :=
  (atBegin opts u).bind fun g => run bare g (.announce :: rest build why u)

/-- The calls of `pcapng.c` between two states. -/
def writesSince (g g' : Gen2 UInt8) : List Pcapng.Write :=
  (g'.packet.out.drop g.packet.out.length).map Record.write

/-- What `run_capture_gen2` writes before and after `pcapng_begin`: the
lines about the link come first, and `packet_announce` flushes. -/
def liveWrites (opts : PacketOpts) (link : List (List UInt8)) (build why : String) (u : Uplink) :
    Option (List Pcapng.Write × List Pcapng.Write) := do
  let g ← atBegin opts u
  let announced ← run bare g [.announce]
  let g' ← run bare announced (rest build why u)
  some (g.packet.out.map Record.write,
    link.flatMap (fun line => [.info 0 line, .flush]) ++ writesSince g announced ++
      .flush :: writesSince announced g')

/-! ## Chunks -/

section Chunks

variable {β : Type} [ByteLike β] (mark : Nat → UInt8 → β)

/-- The callbacks do not see the stream. -/
theorem callbacks_stream (calls : List Callback) (g : Gen2 β) (s : Stream) :
    calls.foldl (callback mark) { g with stream := s } =
      { calls.foldl (callback mark) g with stream := s } := by
  induction calls generalizing g with
  | nil => rfl
  | cons c calls ih =>
      have hone : callback mark { g with stream := s } c =
          { callback mark g c with stream := s } := by
        cases c with
        | ack => rfl
        | rsync => rfl
        | data payload =>
            rw [callback, callback, dataCb, dataCb]
            split <;> rfl
      rw [List.foldl_cons, hone, ih, List.foldl_cons]

/-- Chunks in a row are one use of the stream layer. -/
theorem run_chunks (chunks : List (List UInt8)) (g : Gen2 β) :
    run mark g (chunks.map .chunk) =
      (feedAll Stream.feed g.stream chunks).map fun r =>
        { r.2.foldl (callback mark) g with stream := r.1 } := by
  induction chunks generalizing g with
  | nil => rfl
  | cons x xs ih =>
      rw [List.map_cons, run, event, feedAll]
      cases hfeed : g.stream.feed x with
      | none => rfl
      | some r =>
          obtain ⟨s, calls⟩ := r
          show run mark (calls.foldl (callback mark) { g with stream := s }) (xs.map .chunk) = _
          rw [ih, callbacks_stream]
          cases hrest : feedAll Stream.feed s xs with
          | none => simp [hrest]
          | some r =>
              obtain ⟨s', calls'⟩ := r
              simp [hrest, callbacks_stream, List.foldl_append]

theorem run_append (es es' : List Gen2Event) (g : Gen2 β) :
    run mark g (es ++ es') = (run mark g es).bind fun g' => run mark g' es' := by
  induction es generalizing g with
  | nil => rfl
  | cons e es ih =>
      rw [List.cons_append, run, run]
      cases g.event mark e with
      | none => rfl
      | some g' => exact ih g'

end Chunks

/-! ## Two sessions on the same bytes

Their streams may hold different leftovers, which drain to one place. -/

/-- Two sessions that no further byte can tell apart. -/
structure Alike (g g' : Gen2 UInt8) : Prop where
  ready : Stream.Ready g.stream
  ready' : Stream.Ready g'.stream
  settled : ∃ c l, BlockLayer.blockMachine.drain (Stream.abs g.stream).1 (Stream.abs g.stream).2 =
      (c, l, []) ∧
    BlockLayer.blockMachine.drain (Stream.abs g'.stream).1 (Stream.abs g'.stream).2 = (c, l, [])
  packet : g.packet = g'.packet
  suppressed : g.suppressed = g'.suppressed
  losses : g.losses = g'.losses

theorem alike_start (opts : PacketOpts) : Alike (start opts) (start opts) :=
  ⟨Stream.ready_new, Stream.ready_new, ⟨Stream.new.toCtl, [], Incremental.drain_of_none rfl,
    Incremental.drain_of_none rfl⟩, rfl, rfl, rfl⟩

/-- The callbacks do to both the same. -/
theorem Alike.callbacks {g g' : Gen2 UInt8} (h : Alike g g') (calls : List Callback) :
    (calls.foldl (callback bare) g).packet = (calls.foldl (callback bare) g').packet ∧
      (calls.foldl (callback bare) g).suppressed = (calls.foldl (callback bare) g').suppressed ∧
        (calls.foldl (callback bare) g).losses = (calls.foldl (callback bare) g').losses := by
  have hsame : { g with stream := g'.stream } = g' := by
    cases g
    cases g'
    cases h.packet
    cases h.suppressed
    cases h.losses
    rfl
  rw [← hsame, callbacks_stream bare calls g g'.stream]
  exact ⟨rfl, rfl, rfl⟩

/-- **However the bytes are cut**, both sessions go on and stay alike. -/
theorem Alike.chunks {g g' : Gen2 UInt8} (h : Alike g g') {xs ys : List (List UInt8)}
    (hbytes : xs.flatten = ys.flatten) :
    ∃ k k', run bare g (xs.map .chunk) = some k ∧ run bare g' (ys.map .chunk) = some k' ∧
      Alike k k' := by
  obtain ⟨c, l, hd, hd'⟩ := h.settled
  have hstep : BlockLayer.blockMachine.step c l = none := by
    have hrest := Incremental.step_drain (M := BlockLayer.blockMachine) (Stream.abs g.stream).1
      (Stream.abs g.stream).2
    rwa [hd] at hrest
  obtain ⟨s, o, hfeed, hs, ho, ha⟩ := Stream.feed_implements.feedAll xs h.ready hd hstep
  obtain ⟨s', o', hfeed', hs', ho', ha'⟩ := Stream.feed_implements.feedAll ys h.ready' hd' hstep
  rw [← hbytes] at ho' ha'
  obtain rfl : o = o' := by rw [← ho, ← ho']
  obtain ⟨hpacket, hsuppressed, hlosses⟩ := h.callbacks o
  exact ⟨{ o.foldl (callback bare) g with stream := s },
    { o.foldl (callback bare) g' with stream := s' }, by rw [run_chunks, hfeed]; rfl,
    by rw [run_chunks, hfeed']; rfl, hs, hs', ⟨_, _, ha, ha'⟩, hpacket, hsuppressed, hlosses⟩

/-- The calls of `main.c` do not see the stream either. -/
theorem Alike.event {g g' : Gen2 UInt8} (h : Alike g g') {e : Gen2Event}
    (he : ∀ data, e ≠ .chunk data) :
    ∃ k k', g.event bare e = some k ∧ g'.event bare e = some k' ∧ Alike k k' := by
  obtain ⟨hr, hr', hd, hp, hs, hl⟩ := h
  cases e with
  | chunk data => exact absurd rfl (he data)
  | suppress on => exact ⟨_, _, rfl, rfl, hr, hr', hd, hp, rfl, hl⟩
  | announce => exact ⟨_, _, rfl, rfl, hr, hr', hd, congrArg Packet.announce hp, hs, hl⟩
  | info msg => exact ⟨_, _, rfl, rfl, hr, hr', hd, congrArg (Packet.info · msg) hp, hs, hl⟩
  | stopInfo reason =>
      exact ⟨_, _, rfl, rfl, hr, hr', hd, congrArg (Packet.stopInfo · reason) hp, hs, hl⟩

/-- One call, and then what follows. -/
theorem Alike.cons {g g' : Gen2 UInt8} (h : Alike g g') {e : Gen2Event}
    (he : ∀ data, e ≠ .chunk data) {es es' : List Gen2Event}
    (hrest : ∀ k k', Alike k k' →
      ∃ m m', run bare k es = some m ∧ run bare k' es' = some m' ∧ Alike m m') :
    ∃ m m', run bare g (e :: es) = some m ∧ run bare g' (e :: es') = some m' ∧ Alike m m' := by
  obtain ⟨k, k', hk, hk', hkk⟩ := h.event he
  obtain ⟨m, m', hm, hm', hmm⟩ := hrest k k' hkk
  exact ⟨m, m', by rw [run, hk, Option.bind_some, hm], by rw [run, hk', Option.bind_some, hm'], hmm⟩

theorem alike_atBegin (opts : PacketOpts) {u v : Uplink}
    (hstartup : u.startup.flatten = v.startup.flatten) :
    ∃ g g', atBegin opts u = some g ∧ atBegin opts v = some g' ∧ Alike g g' :=
  (alike_start opts).cons (fun _ => Gen2Event.noConfusion) fun _ _ h => h.chunks hstartup

theorem Alike.rest {g g' : Gen2 UInt8} (h : Alike g g') (build why : String) {u v : Uplink}
    (hstreamed : u.streamed.flatten = v.streamed.flatten)
    (hclosing : u.closing.flatten = v.closing.flatten) :
    ∃ k k', run bare g (Gen2.rest build why u) = some k ∧
      run bare g' (Gen2.rest build why v) = some k' ∧ Alike k k' := by
  refine h.cons (fun _ => Gen2Event.noConfusion) fun k k' hkk => ?_
  obtain ⟨m, m', hm, hm', hmm⟩ := hkk.chunks hstreamed
  obtain ⟨n, n', hn, hn', hnn⟩ := hmm.cons (e := .stopInfo why) (fun _ => Gen2Event.noConfusion)
    fun _ _ h => h.chunks hclosing
  exact ⟨n, n', by rw [run_append, hm, Option.bind_some, hn],
    by rw [run_append, hm', Option.bind_some, hn'], hnn⟩

/-! ## What is written -/

/-- The calls of the frame layer that took `p` to `q`. -/
def Calls (p q : Packet UInt8) : Prop := ∃ calls, q = p.run calls

theorem Calls.trans {p q r : Packet UInt8} (h : Calls p q) (h' : Calls q r) : Calls p r := by
  obtain ⟨cs, rfl⟩ := h
  obtain ⟨cs', rfl⟩ := h'
  exact ⟨cs ++ cs', List.foldl_append.symm⟩

theorem calls_callbacks (calls : List Callback) (g : Gen2 UInt8) :
    Calls g.packet (calls.foldl (callback bare) g).packet := by
  induction calls generalizing g with
  | nil => exact ⟨[], rfl⟩
  | cons c calls ih =>
      refine Calls.trans ?_ (ih (callback bare g c))
      cases c with
      | ack => exact ⟨[], rfl⟩
      | rsync => exact ⟨[.rsync], rfl⟩
      | data payload =>
          rw [callback, dataCb]
          split
          · exact ⟨[], rfl⟩
          · exact ⟨[.feed (payload.map (bare g.losses))], rfl⟩

theorem calls_run {es : List Gen2Event} {g g' : Gen2 UInt8} (h : run bare g es = some g') :
    Calls g.packet g'.packet := by
  induction es generalizing g with
  | nil =>
      cases h
      exact ⟨[], rfl⟩
  | cons e es ih =>
      obtain ⟨k, he, hk⟩ := Option.bind_eq_some_iff.mp h
      refine Calls.trans ?_ (ih hk)
      cases e with
      | chunk data =>
          obtain ⟨⟨s, calls⟩, -, rfl⟩ := Option.map_eq_some_iff.mp he
          exact calls_callbacks calls { g with stream := s }
      | suppress on =>
          cases he
          exact ⟨[], rfl⟩
      | announce =>
          cases he
          exact ⟨[.announce], rfl⟩
      | info msg =>
          cases he
          exact ⟨[.info msg], rfl⟩
      | stopInfo reason =>
          cases he
          exact ⟨[.stopInfo reason], rfl⟩

/-- Nothing that was written is taken back. -/
theorem Calls.grows {p q : Packet UInt8} (h : Calls p q) : p.out <+: q.out := by
  obtain ⟨calls, rfl⟩ := h
  induction calls generalizing p with
  | nil => exact List.prefix_refl _
  | cons c cs ih =>
      refine List.IsPrefix.trans ?_ (ih (p := p.call c))
      cases c with
      | announce => exact (Packet.writes_announce p).wrote.grows
      | feed data =>
          exact Packet.feed_induction (I := fun q => p.out <+: q.out)
            (fun q b _ _ hq => hq.trans (Packet.wrote_captureSm q b).grows) (List.prefix_refl _)
      | rsync => exact (Packet.writes_captureInfo (m := .linkLoss) trivial _ _).wrote.grows
      | info msg => exact (Packet.writes_captureInfo (m := .plain msg) trivial _ _).wrote.grows
      | stopInfo reason =>
          exact (Packet.writes_captureInfo (m := .stopped reason) trivial _ _).wrote.grows

theorem text_length (m : Msg) : (Pcapng.chars m.text).length ≤ 511 := by
  rw [Pcapng.chars, List.length_map, Msg.text, String.toList_ofList, List.length_take]
  exact Nat.min_le_left _ _

/-- Every record fits its block. -/
theorem Calls.inRange {opts : PacketOpts} {p : Packet UInt8} (h : Calls (Packet.new opts) p) :
    ∀ r ∈ p.out, r.write.InRange := by
  obtain ⟨calls, rfl⟩ := h
  intro r hr
  cases r with
  | epb ts data =>
      have hbounds : Packet.InBounds ((Packet.new opts : Packet UInt8).run calls) :=
        (Packet.run_steps_induction (Q := fun _ => True) (C := fun _ => True)
          (fun _ b _ _ h => h.captureSm b) (fun _ c _ hne h => h.call c hne)
          (Packet.inBounds_new opts) (fun _ _ => trivial) fun _ _ => trivial).2
      exact Int.ofNat_le.mp (hbounds.written ts data hr).2
  | info ts m => exact text_length m

theorem writesSince_inRange {opts : PacketOpts} {g g' : Gen2 UInt8}
    (h : Calls (Packet.new opts) g'.packet) : ∀ w ∈ writesSince g g', w.InRange := by
  intro w hw
  obtain ⟨r, hr, rfl⟩ := List.mem_map.mp hw
  exact h.inRange r (List.mem_of_mem_drop hr)

/-- A packet of a write, with its time. -/
def packetOf : Pcapng.Write → Option (Nat × List UInt8)
  | .epb ts data => some (ts.toNat, data)
  | _ => none

theorem packetOf_records (rs : List (Record UInt8)) :
    (rs.map Record.write).filterMap packetOf = rs.filterMap Record.packet := by
  rw [List.filterMap_map]
  congr 1
  funext r
  cases r <;> rfl

theorem packetOf_link (link : List (List UInt8)) :
    (link.flatMap fun line => [.info 0 line, .flush]).filterMap packetOf = [] := by
  induction link with
  | nil => rfl
  | cons line lines ih =>
      rw [List.flatMap_cons, List.filterMap_append, ih]
      rfl

/-- The records of a state are those of an earlier one and the ones
since. -/
theorem out_split {g g' : Gen2 UInt8} (h : Calls g.packet g'.packet) :
    g'.packet.out = g.packet.out ++ g'.packet.out.drop g.packet.out.length := by
  obtain ⟨more, hmore⟩ := h.grows
  rw [← hmore, List.drop_left]

theorem packetOf_writesSince {g g' : Gen2 UInt8} (h : Calls g.packet g'.packet) :
    g.packet.out.filterMap Record.packet ++ (writesSince g g').filterMap packetOf =
      g'.packet.out.filterMap Record.packet := by
  rw [writesSince, packetOf_records, ← List.filterMap_append, ← out_split h]

/-- What the phases of a session write, taken apart. -/
theorem liveWrites_spec (opts : PacketOpts) (link : List (List UInt8)) (build why : String)
    {u v : Uplink} (hstartup : u.startup.flatten = v.startup.flatten)
    (hstreamed : u.streamed.flatten = v.streamed.flatten)
    (hclosing : u.closing.flatten = v.closing.flatten) :
    ∃ pre post g, liveWrites opts link build why u = some (pre, post) ∧
      liveWrites opts link build why v = some (pre, post) ∧
        atEnd opts build why v = some g ∧ Calls (Packet.new opts) g.packet ∧
          (pre ++ post).filterMap packetOf = g.packet.out.filterMap Record.packet ∧
            ∀ w ∈ pre ++ post, (∃ line ∈ link, w = .info 0 line) ∨ w.InRange := by
  obtain ⟨g, g', hg, hg', hgg⟩ := alike_atBegin opts hstartup
  obtain ⟨k, k', hk, hk', hkk⟩ := hgg.event (e := .announce) fun _ => Gen2Event.noConfusion
  obtain ⟨m, m', hm, hm', hmm⟩ := hkk.rest build why hstreamed hclosing
  have hgk : Calls g.packet k.packet := by
    cases hk
    exact ⟨[.announce], rfl⟩
  have hkm := calls_run hm
  have hnew : Calls (Packet.new opts) g.packet := calls_run hg
  have hannounced : ∀ x y : Gen2 UInt8, x.event bare .announce = some y →
      run bare x [.announce] = some y := fun x y h => by rw [run, h]; rfl
  refine ⟨g.packet.out.map Record.write,
    link.flatMap (fun line => [.info 0 line, .flush]) ++ writesSince g k ++ .flush :: writesSince k m,
    m', ?_, ?_, ?_, hmm.packet ▸ (hnew.trans hgk).trans hkm, ?_, ?_⟩
  · simp only [liveWrites, hg, Option.bind_eq_bind, Option.bind_some, hannounced _ _ hk, hm]
  · simp only [liveWrites, hg', Option.bind_eq_bind, Option.bind_some, hannounced _ _ hk', hm',
      writesSince, hgg.packet, hkk.packet, hmm.packet]
  · rw [atEnd, hg', Option.bind_some, run, hk', Option.bind_some, hm']
  · rw [List.filterMap_append, List.filterMap_append, List.filterMap_append, packetOf_link,
      packetOf_records, List.nil_append, List.filterMap_cons_none rfl, ← List.append_assoc,
      packetOf_writesSince hgk, packetOf_writesSince hkm, hmm.packet]
  · intro w hw
    rcases List.mem_append.mp hw with hpre | hpost
    · obtain ⟨r, hr, rfl⟩ := List.mem_map.mp hpre
      exact Or.inr (hnew.inRange r hr)
    · rcases List.mem_append.mp hpost with hlink | hrest
      · rcases List.mem_append.mp hlink with hlink | hsince
        · obtain ⟨line, hline, hw⟩ := List.mem_flatMap.mp hlink
          rcases List.mem_cons.mp hw with rfl | hw
          · exact Or.inl ⟨line, hline, rfl⟩
          · rw [List.mem_singleton.mp hw]
            exact Or.inr trivial
        · exact Or.inr (writesSince_inRange (hnew.trans hgk) w hsince)
      · rcases List.mem_cons.mp hrest with rfl | hsince
        · exact Or.inr trivial
        · exact Or.inr (writesSince_inRange ((hnew.trans hgk).trans hkm) w hsince)

/-- What the worker has fed when `rawq_stop` returns. -/
theorem fed_of_returned {pushes : List (List UInt8)} {q : Rawq.State}
    (hrun : Relation.ReflTransGen Rawq.OrderlyStep (Rawq.init pushes) q)
    (hret : q.returned = true) : q.fed.flatten = pushes.flatten := by
  obtain ⟨hi, h⟩ := Rawq.flow_run hrun
  have hw := h.joined hret
  obtain ⟨hstop, hq⟩ := h.drained hw
  obtain ⟨hp, hps⟩ := h.stopped hstop
  have ht := h.traffic_eq
  rw [Rawq.traffic, Rawq.queued, RingBuf.items_eq_nil hq, hw, hp, hps] at ht
  simpa [Rawq.Worker.pending, Rawq.Pusher.rest] using ht

/-- What a reader finds in a finished file. -/
theorem read_of_closed {pre post : List Pcapng.Write} {linkType : UInt32}
    (hrange : ∀ w ∈ pre ++ post, w.InRange) {s : Pcapng.State}
    (hrun : Relation.ReflTransGen Pcapng.WritingStep
      (Pcapng.pcapngOpen (Pcapng.session pre linkType post)) s) (hclosed : s.closed = true) :
    s.file = Pcapng.headers linkType ++ Pcapng.blocks pre ++ Pcapng.blocks post ∧
      Pcapng.readFile s.file =
        some (Pcapng.headerBlocks linkType ++ (pre ++ post).flatMap Pcapng.Write.packets) := by
  obtain ⟨hv, h⟩ := Pcapng.flow_run pre post linkType hrun
  have hfile := h.file_of_closed hv.course hclosed
  have hblocks : Pcapng.blocks pre ++ Pcapng.blocks post = Pcapng.blocks (pre ++ post) := by
    rw [Pcapng.blocks, Pcapng.blocks, Pcapng.blocks, List.map_append, List.flatten_append]
  refine ⟨hfile, ?_⟩
  rw [hfile, List.append_assoc, hblocks]
  exact Pcapng.readFile_session linkType hrange

/-- Two uplinks with the same bytes in each phase: what the one writes
through any run of the queue and of the writer is the file of the
other. -/
theorem file_of_bytes (opts : PacketOpts) (link : List (List UInt8)) (build why : String)
    (hlink : ∀ line ∈ link, line.length ≤ 191) {u v : Uplink}
    (hstartup : u.startup.flatten = v.startup.flatten)
    (hstreamed : u.streamed.flatten = v.streamed.flatten)
    (hclosing : u.closing.flatten = v.closing.flatten) :
    ∃ pre post g, atEnd opts build why v = some g ∧
      liveWrites opts link build why v = some (pre, post) ∧
      (pre ++ post).filterMap packetOf = g.packet.out.filterMap Record.packet ∧
      ∀ q, Relation.ReflTransGen Rawq.OrderlyStep (Rawq.init u.streamed) q → q.returned = true →
        liveWrites opts link build why ⟨u.startup, q.fed, u.closing⟩ = some (pre, post) ∧
        ∀ s, Relation.ReflTransGen Pcapng.WritingStep
            (Pcapng.pcapngOpen (Pcapng.session pre (dltForSpeed opts.captureSpeed) post)) s →
          s.closed = true →
          s.file = Pcapng.headers (dltForSpeed opts.captureSpeed) ++ Pcapng.blocks pre ++
              Pcapng.blocks post ∧
            Pcapng.readFile s.file = some (Pcapng.headerBlocks (dltForSpeed opts.captureSpeed) ++
              (pre ++ post).flatMap Pcapng.Write.packets) := by
  obtain ⟨pre, post, g, -, hwhole, hend, -, hpackets, hwrites⟩ :=
    liveWrites_spec opts link build why (rfl : v.startup.flatten = v.startup.flatten)
      (rfl : v.streamed.flatten = v.streamed.flatten) (rfl : v.closing.flatten = v.closing.flatten)
  have hrange : ∀ w ∈ pre ++ post, w.InRange := by
    intro w hw
    rcases hwrites w hw with ⟨line, hline, rfl⟩ | h
    · exact Nat.le_trans (hlink line hline) (by omega)
    · exact h
  refine ⟨pre, post, g, hend, hwhole, hpackets, fun q hq hret => ⟨?_, fun s hs hclosed => ?_⟩⟩
  · have hfed : q.fed.flatten = v.streamed.flatten := (fed_of_returned hq hret).trans hstreamed
    obtain ⟨pre', post', -, hcut, hwhole', -⟩ :=
      @liveWrites_spec opts link build why ⟨u.startup, q.fed, u.closing⟩ v hstartup hfed hclosing
    rw [hwhole] at hwhole'
    rw [hcut, hwhole']
  · exact read_of_closed hrange hs hclosed

/-- **The file depends on the uplink through its bytes only.** Take any cut
of the three phases into transfers, any run of the raw queue that was
stopped after the last push, and any run of the writer in which `fwrite`
does not fail, with whatever turns of the threads and however short the
writes. The writer then writes what a session does that is fed each phase
in one piece: the same blocks in the same order. A reader of the format
takes the file back, and its packets are those the frame layer decoded,
each one once. -/
theorem live_file (opts : PacketOpts) (link : List (List UInt8)) (build why : String)
    (startup pushes closing : List (List UInt8)) (hlink : ∀ line ∈ link, line.length ≤ 191) :
    ∃ pre post g, atEnd opts build why (Uplink.whole ⟨startup, pushes, closing⟩) = some g ∧
      liveWrites opts link build why (Uplink.whole ⟨startup, pushes, closing⟩) = some (pre, post) ∧
      (pre ++ post).filterMap packetOf = g.packet.out.filterMap Record.packet ∧
      ∀ q, Relation.ReflTransGen Rawq.OrderlyStep (Rawq.init pushes) q → q.returned = true →
        liveWrites opts link build why ⟨startup, q.fed, closing⟩ = some (pre, post) ∧
        ∀ s, Relation.ReflTransGen Pcapng.WritingStep
            (Pcapng.pcapngOpen (Pcapng.session pre (dltForSpeed opts.captureSpeed) post)) s →
          s.closed = true →
          s.file = Pcapng.headers (dltForSpeed opts.captureSpeed) ++ Pcapng.blocks pre ++
              Pcapng.blocks post ∧
            Pcapng.readFile s.file = some (Pcapng.headerBlocks (dltForSpeed opts.captureSpeed) ++
              (pre ++ post).flatMap Pcapng.Write.packets) := by
  have hflat : ∀ chunks : List (List UInt8), chunks.flatten = [chunks.flatten].flatten :=
    fun chunks => (List.append_nil _).symm
  exact @file_of_bytes opts link build why hlink ⟨startup, pushes, closing⟩
    (Uplink.whole ⟨startup, pushes, closing⟩) (hflat startup) (hflat pushes) (hflat closing)

/-- The ACK of an init command, in two reads. -/
def cutStartup : List (List UInt8) :=
  [(Stream.ackBlock 0).encode.take 5, (Stream.ackBlock 0).encode.drop 5]

/-- Two frames, each in a block of its own. -/
def framesBytes : List UInt8 :=
  Stream.encodeAll
    [Stream.wordsBlock 1 0x80 0 0 0 8 0 0 0x2d, Stream.wordsBlock 2 0xc0 0 60 0 8 0 0 0xe1]

/-- Three transfers, of which one ends within a block and one within the
header of a block. -/
def cutPushes : List (List UInt8) :=
  [framesBytes.take 5, (framesBytes.drop 5).take 25, framesBytes.drop 30]

/-- What the session writes. -/
def packetWrites : List Pcapng.Write :=
  [.info 0 [76], .flush, .info 0 (Pcapng.chars "Starting capture"), .flush,
    .info 0 (Pcapng.chars "Plugin build: b"), .epb 0 [0x2d], .epb 1000 [0xe1],
    .info 1000 (Pcapng.chars "Capture stopped: w")]

theorem liveWrites_cutPushes :
    liveWrites foldOpts [[76]] "b" "w" (Uplink.whole ⟨cutStartup, cutPushes, []⟩) =
      some ([], packetWrites) := by decide +kernel

/-- The worker sleeps before the first transfer and works behind it; the
others queue up. -/
def pushSchedule : List Rawq.Action :=
  .work :: List.replicate 6 .push ++ List.replicate 3 .work ++ List.replicate 12 .push ++
    .stop :: List.replicate 7 .work ++ [.join]

/-- The producer goes as far as it gets; the writer then takes a chunk,
the first one in two writes. -/
def shortWrites : List Pcapng.Action :=
  let produce (n : Nat) := List.replicate n (Pcapng.Action.produce false)
  let chunk (n : Nat) := [Pcapng.Action.write 1, .write n, .write 1, .write 1]
  produce 24 ++ [.write 1, .write 100, .write 136, .write 1, .write 1] ++ produce 11 ++ chunk 64 ++
    produce 28 ++ chunk 64 ++ produce 1 ++ chunk 144 ++ produce 2 ++ [.write 1] ++ produce 1

theorem shortWrites_closes :
    ∃ s, Pcapng.exec (Pcapng.pcapngOpen (Pcapng.session [] 288 packetWrites)) shortWrites = some s ∧
      s.closed = true := by
  have hs : ((Pcapng.exec (Pcapng.pcapngOpen (Pcapng.session [] 288 packetWrites))
      shortWrites).map (·.closed)) = some true := by decide +kernel
  exact Option.map_eq_some_iff.mp hs

theorem pushSchedule_returns :
    ∃ q, Rawq.exec (Rawq.init cutPushes) pushSchedule = some q ∧ q.returned = true := by
  have hq : ((Rawq.exec (Rawq.init cutPushes) pushSchedule).map (·.returned)) = some true := by
    decide +kernel
  exact Option.map_eq_some_iff.mp hq

theorem live_file_cutPushes :
    ∃ q s, Rawq.exec (Rawq.init cutPushes) pushSchedule = some q ∧
      liveWrites foldOpts [[76]] "b" "w" ⟨cutStartup, q.fed, []⟩ = some ([], packetWrites) ∧
      Pcapng.exec (Pcapng.pcapngOpen (Pcapng.session [] 288 packetWrites)) shortWrites = some s ∧
      Pcapng.readFile s.file =
        some (Pcapng.headerBlocks 288 ++ packetWrites.flatMap Pcapng.Write.packets) := by
  obtain ⟨pre, post, g, -, hwhole, -, hfile⟩ :=
    live_file foldOpts [[76]] "b" "w" cutStartup cutPushes [] (by simp)
  cases hwhole.symm.trans liveWrites_cutPushes
  obtain ⟨q, hq, hret⟩ := pushSchedule_returns
  obtain ⟨s, hs, hclosed⟩ := shortWrites_closes
  obtain ⟨hwrites, hread⟩ := hfile q (Rawq.exec_run hq) hret
  exact ⟨q, s, hq, hwrites, hs, (hread s (Pcapng.exec_run hs) hclosed).2⟩

end Gen2

end UsbSniffer
