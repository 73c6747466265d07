import UsbSniffer.Command
import UsbSniffer.Tools.FakeStream

/-!
# Replaying a generated stream

The offline suite's round trip: `make_fake_stream.py` builds a stream from
the packets of a sample, `transport_replay.c` delivers it, and the plugin
decodes it again. `replay_round_trip` says that every sample comes back:
no error record, the same payloads in the same order, and times that
`check_pcapng.py` accepts.

The session is that of `run_capture_gen2` with `--replay`: two ACKs are
discarded, four answer the init commands, the rest of the file is read in
4096-byte chunks. The raw queue between the transport and `stream_feed`
keeps the chunks in order and is drained at the end, so the chunks are fed
as they are read. A file is read in full chunks up to its end.
-/

namespace UsbSniffer

open Uhsif Lib FakeStream

/-- What the stream layer's callbacks reach of `context`. -/
structure Reached where
  cmd : Command.Cmd
  packet : Packet UInt8

/-- `data_cb`, `ack_cb` and `rsync_cb`. -/
def Reached.callback (x : Reached) : Callback → Reached
  | .data payload => if x.cmd.suppress then x else { x with packet := x.packet.feed payload }
  | .ack => { x with cmd := Command.cmdAckEvent x.cmd }
  | .rsync => { x with packet := x.packet.rsync }

/-- A session over the replay transport: what `read` has not returned
yet, the flags of `replay_priv`, and the layers. -/
structure Replay where
  file : List UInt8
  alive : Bool
  streamMode : Bool
  stream : Stream
  reached : Reached

namespace Replay

/-- `DATA_CHUNK`. -/
def dataChunk : Nat := 4096

/-- Everything created, the transport open. -/
def start (opts : PacketOpts) (file : List UInt8) : Replay where
  file := file
  alive := true
  streamMode := false
  stream := Stream.new
  reached := { cmd := Command.cmdInit, packet := Packet.new opts }

/-- The loop of `tr_discard`. -/
def discardFrom : Nat → Replay → Replay
  | 0, s => s
  | n + 1, s =>
      if (s.file.take 16).length < 16 then { s with file := s.file.drop 16, alive := false }
      else discardFrom n { s with file := s.file.drop 16 }

/-- `tr_discard`. -/
def trDiscard (s : Replay) : Replay := discardFrom 2 s

/-- `feed_cb`. -/
def feedCb (s : Replay) (data : List UInt8) : Option Replay :=
  (s.stream.feed data).map fun r =>
    { s with stream := r.1, reached := r.2.foldl Reached.callback s.reached }

/-- `want` of `tr_events`. -/
def want (s : Replay) : Nat := if s.streamMode then dataChunk else 16

/-- `tr_events`: its result and the session after it. -/
def trEvents (s : Replay) : Option (Bool × Replay) :=
  if !s.alive then some (false, s)
  else if (s.file.take s.want).length = 0 then some (false, { s with alive := false })
  else
    (feedCb { s with file := s.file.drop s.want } (s.file.take s.want)).map fun s' =>
      (true, if (s.file.take s.want).length < s.want then { s' with alive := false } else s')

/-- The wait of `cmd_exec`, for as many turns as the clock allows. -/
def waitAck : Nat → Replay → Option Replay
  | 0, s => some s
  | turns + 1, s =>
      s.trEvents.bind fun r =>
        if r.2.reached.cmd.ackSeen || !r.2.alive then some r.2 else waitAck turns r.2

/-- A change of the `cmd` struct. -/
def setCmd (s : Replay) (f : Command.Cmd → Command.Cmd) : Replay :=
  { s with reached := { s.reached with cmd := f s.reached.cmd } }

/-- `cmd_exec`, for the attempts left. `tr_write` takes no notice of the
command; the clock is a number of turns, and the turn right behind the
setting of the deadline is always made. -/
def cmdExec (turns : Nat) : Nat → Replay → Option (Bool × Replay)
  | 0, s => some (false, s.setCmd fun c => { c with fatal := true })
  | attempts + 1, s =>
      (waitAck (turns + 1)
        (s.setCmd fun c => { c with suppress := false, waiting := true, ackSeen := false })).bind
        fun s' =>
          let s₁ := s'.setCmd fun c => { c with waiting := false }
          if s₁.reached.cmd.ackSeen then some (true, s₁.setCmd fun c => { c with seq := c.seq + 1 })
          else if !s₁.alive then some (false, s₁.setCmd fun c => { c with fatal := true })
          else cmdExec turns attempts s₁

/-- `capture_init_cmds`, for the commands left. -/
def captureInitCmds (turns : Nat) : Nat → Replay → Option (Bool × Replay)
  | 0, s => some (true, s)
  | n + 1, s =>
      (cmdExec turns Command.cmdRetries s).bind fun r =>
        if r.1 then captureInitCmds turns n r.2 else some (false, r.2)

/-- A change of the packet. -/
def setPacket (s : Replay) (f : Packet UInt8 → Packet UInt8) : Replay :=
  { s with reached := { s.reached with packet := f s.reached.packet } }

theorem trEvents_shrinks {s s' : Replay} (h : s.trEvents = some (true, s')) :
    s'.file.length < s.file.length := by
  rw [trEvents] at h
  split at h
  · cases h
  · split at h
    · cases h
    · rename_i hne
      rw [Option.map_eq_some_iff] at h
      obtain ⟨s₁, hfeed, he⟩ := h
      rw [feedCb, Option.map_eq_some_iff] at hfeed
      obtain ⟨r, -, rfl⟩ := hfeed
      have hfile : s'.file = s.file.drop s.want := by
        rw [Prod.mk.injEq] at he
        rw [← he.2]
        split <;> rfl
      rw [List.length_take] at hne
      rw [hfile, List.length_drop]
      omega

/-- The main event loop. `g_stop` is raised by `data_cb` when the packet
is finished. -/
def mainLoop (s : Replay) : Option Replay :=
  if !s.alive || s.reached.packet.done then some s
  else
    match _h : s.trEvents with
    | none => none
    | some (false, s') => some s'
    | some (true, s') => mainLoop s'
termination_by s.file.length
decreasing_by exact trEvents_shrinks _h

/-- `why` the capture ended. -/
def why (s : Replay) : String :=
  if s.reached.packet.done then "capture limit reached"
  else if !s.alive then "uplink/device lost"
  else "stream ended"

/-- `run_capture_gen2` with `--replay`; `none` where `os_error` ends the
program. `build` is the date and time of the build. Each chunk is fed
before the next is read; the code reads on while the worker is behind, so
that at a capture limit its session has read more of the file by the time
it sees `packet_done`, and may end for another reason. -/
def runCaptureGen2 (turns : Nat) (build : String) (opts : PacketOpts) (file : List UInt8) :
    Option Replay :=
  (captureInitCmds turns 4 (start opts file).trDiscard).bind fun r =>
    if !r.1 then none
    else
      let s := r.2.setPacket fun p => p.announce.info ("Plugin build: " ++ build)
      (mainLoop { s with streamMode := true }).map fun s' =>
        s'.setPacket fun p => p.stopInfo s'.why

/-! ## The command phase -/

/-- The session before ACK number `i`: the command phase, with the packet
`p` untouched and no gap in the sequence numbers. -/
structure Idle (s : Replay) (i : Nat) (p : Packet UInt8) : Prop where
  alive : s.alive = true
  command : s.streamMode = false
  packet : s.reached.packet = p
  stream : ∃ sent, s.stream.Consumed sent ∧
    ∀ q ∈ Stream.lastNumber (Stream.afterBlocks Stream.new.toCtl sent), UInt8.ofNat i = q + 1

theorem ackAt_encode_length (i : Nat) : (ackAt i).encode.length = 16 := by
  rw [Block.encode_length]
  rfl

theorem discardFrom_ack {s : Replay} {i : Nat} {rest : List UInt8}
    (h : s.file = (ackAt i).encode ++ rest) (n : Nat) :
    discardFrom (n + 1) s = discardFrom n { s with file := rest } := by
  have htake : (s.file.take 16).length = 16 := by
    rw [h, List.take_left' (ackAt_encode_length i), ackAt_encode_length]
  have hdrop : s.file.drop 16 = rest := by rw [h, List.drop_left' (ackAt_encode_length i)]
  rw [discardFrom, htake, if_neg (Nat.lt_irrefl 16), hdrop]

/-- One turn of the wait takes the ACK in front. -/
theorem Idle.trEvents {s : Replay} {i : Nat} {p : Packet UInt8} (h : s.Idle i p)
    {rest : List UInt8} (hfile : s.file = (ackAt i).encode ++ rest) :
    ∃ s', s.trEvents = some (true, s') ∧ s'.Idle (i + 1) p ∧ s'.file = rest ∧
      s'.reached.cmd = Command.cmdAckEvent s.reached.cmd := by
  obtain ⟨sent, hsent, hlast⟩ := h.stream
  have hwant : s.want = 16 := by rw [want, h.command]; rfl
  have htake : s.file.take s.want = (ackAt i).encode := by
    rw [hwant, hfile, List.take_left' (ackAt_encode_length i)]
  have hdrop : s.file.drop s.want = rest := by
    rw [hwant, hfile, List.drop_left' (ackAt_encode_length i)]
  obtain ⟨st, hfeed, hst⟩ := hsent.feedAll [ackAt i]
    (show [(ackAt i).encode].flatten = Stream.encodeAll [ackAt i] by simp)
  have hquiet : Stream.owedCalls (Stream.lastNumber (Stream.afterBlocks Stream.new.toCtl sent))
      [ackAt i] = [.ack] := by
    refine Stream.owedCalls_chain _ ?_ (List.isChain_singleton _)
    intro b hb q hq
    cases hb
    exact (congrArg UInt8.ofNat (Nat.zero_add i)).trans (hlast q hq)
  rw [feedAll_singleton, hquiet] at hfeed
  refine ⟨{ s with file := rest, stream := st, reached := s.reached.callback .ack }, ?_, ?_, rfl, rfl⟩
  · rw [Replay.trEvents, if_neg (by simp [h.alive]), htake, hdrop, feedCb, hfeed,
      ackAt_encode_length, hwant]
    rfl
  · refine ⟨h.alive, h.command, h.packet, sent ++ [ackAt i], hst, ?_⟩
    intro q hq
    rw [Stream.lastNumber_concat] at hq
    cases hq
    show UInt8.ofNat (i + 1) = UInt8.ofNat (0 + i) + 1
    rw [Nat.zero_add, UInt8.ofNat_add]
    rfl

theorem Idle.setCmd {s : Replay} {i : Nat} {p : Packet UInt8} (h : s.Idle i p)
    (f : Command.Cmd → Command.Cmd) : (s.setCmd f).Idle i p :=
  ⟨h.alive, h.command, h.packet, h.stream⟩

/-- `cmd_exec` returns with the ACK in front, on its first turn. -/
theorem Idle.cmdExec {s : Replay} {i : Nat} {p : Packet UInt8} (h : s.Idle i p)
    {rest : List UInt8} (hfile : s.file = (ackAt i).encode ++ rest) (turns : Nat) :
    ∃ s', Replay.cmdExec turns Command.cmdRetries s = some (true, s') ∧ s'.Idle (i + 1) p ∧
      s'.file = rest ∧ s'.reached.cmd.suppress = false := by
  obtain ⟨s₁, hev, h₁, hrest, hcmd⟩ := (h.setCmd fun c =>
    { c with suppress := false, waiting := true, ackSeen := false }).trEvents hfile
  have hack : s₁.reached.cmd.ackSeen = true := by rw [hcmd]; rfl
  have hsup : s₁.reached.cmd.suppress = false := by rw [hcmd]; rfl
  have hwait : waitAck (turns + 1) (s.setCmd fun c =>
      { c with suppress := false, waiting := true, ackSeen := false }) = some s₁ := by
    rw [waitAck, hev, Option.bind_some, hack]
    rfl
  refine ⟨(s₁.setCmd fun c => { c with waiting := false }).setCmd fun c =>
    { c with seq := c.seq + 1 }, ?_, (h₁.setCmd _).setCmd _, hrest, hsup⟩
  rw [show Command.cmdRetries = 2 + 1 from rfl, Replay.cmdExec, hwait, Option.bind_some]
  exact if_pos hack

/-- The init commands take the ACKs in front, one each. -/
theorem Idle.captureInitCmds {n : Nat} {s : Replay} {i : Nat} {p : Packet UInt8} (h : s.Idle i p)
    {rest : List UInt8}
    (hfile : s.file = Stream.encodeAll ((List.range' i n).map ackAt) ++ rest) (turns : Nat)
    (hsup : n = 0 → s.reached.cmd.suppress = false) :
    ∃ s', Replay.captureInitCmds turns n s = some (true, s') ∧ s'.Idle (i + n) p ∧
      s'.file = rest ∧ s'.reached.cmd.suppress = false := by
  induction n generalizing s i with
  | zero => exact ⟨s, rfl, h, hfile, hsup rfl⟩
  | succ n ih =>
      rw [List.range'_succ, List.map_cons, Stream.encodeAll_cons, List.append_assoc] at hfile
      obtain ⟨s₁, hexec, h₁, hfile₁, hsup₁⟩ := h.cmdExec hfile turns
      obtain ⟨s', hinit, h', hfile', hsup'⟩ := ih h₁ hfile₁ (fun _ => hsup₁)
      refine ⟨s', ?_, ?_, hfile', hsup'⟩
      · rw [Replay.captureInitCmds, hexec, Option.bind_some, if_pos rfl]
        exact hinit
      · rw [show i + (n + 1) = i + 1 + n by omega]
        exact h'

/-! ## The data phase -/

/-- The chunks the main loop reads. -/
def chunksOf (file : List UInt8) : List (List UInt8) :=
  if _h : file.length = 0 then []
  else file.take dataChunk :: chunksOf (file.drop dataChunk)
termination_by file.length
decreasing_by
  simp only [List.length_drop, dataChunk]
  omega

theorem chunksOf_nil : chunksOf [] = [] := by
  rw [chunksOf]
  rfl

theorem chunksOf_flatten (file : List UInt8) : (chunksOf file).flatten = file := by
  fun_induction chunksOf file with
  | case1 file h => exact (List.length_eq_zero_iff.mp h).symm
  | case2 file h ih => rw [List.flatten_cons, ih, List.take_append_drop]

/-- A finished packet stays finished. -/
theorem done_callbacks (calls : List Callback) {x : Reached} (h : x.packet.done = true) :
    (calls.foldl Reached.callback x).packet.done = true := by
  induction calls generalizing x with
  | nil => exact h
  | cons c cs ih =>
      apply ih
      cases c with
      | ack => exact h
      | rsync =>
          show x.packet.rsync.done = true
          rw [Packet.rsync, Packet.captureInfo_eq]
          exact h
      | data payload =>
          show (if x.cmd.suppress then x else _).packet.done = true
          split
          · exact h
          · show (x.packet.feed payload).done = true
            rw [Packet.feed, if_pos h]
            exact h

theorem trEvents_end {s : Replay} (halive : s.alive = true) (hfile : s.file = []) :
    s.trEvents = some (false, { s with alive := false }) := by
  rw [trEvents, if_neg (by simp [halive]), if_pos (by rw [hfile, List.take_nil]; rfl)]

/-- A turn of the main loop with a chunk to read. -/
theorem trEvents_chunk {s : Replay} (halive : s.alive = true) (hmode : s.streamMode = true)
    (hfile : s.file ≠ []) {st : Stream} {calls : List Callback}
    (hfeed : s.stream.feed (s.file.take dataChunk) = some (st, calls)) :
    ∃ s', s.trEvents = some (true, s') ∧ s'.streamMode = true ∧
      (s'.alive = true ∨ s'.file = []) ∧ s'.file = s.file.drop dataChunk ∧ s'.stream = st ∧
      s'.reached = calls.foldl Reached.callback s.reached := by
  have hwant : s.want = dataChunk := by rw [want, hmode]; rfl
  have hpos : 0 < s.file.length := List.length_pos_iff.mpr hfile
  have hlen : (s.file.take dataChunk).length = min dataChunk s.file.length := List.length_take
  have hchunk : dataChunk = 4096 := rfl
  rw [trEvents, if_neg (by simp [halive]), hwant, if_neg (by omega), feedCb]
  simp only [hfeed, Option.map_some]
  by_cases hshort : (s.file.take dataChunk).length < dataChunk
  · -- a short read: the end of the file
    have hend : s.file.drop dataChunk = [] := List.drop_of_length_le (by omega)
    rw [if_pos hshort]
    exact ⟨_, rfl, hmode, .inr hend, rfl, rfl, rfl⟩
  · rw [if_neg hshort]
    exact ⟨_, rfl, hmode, .inl halive, rfl, rfl, rfl⟩

/-- One turn of the main loop: it goes on where the transport did. -/
theorem mainLoop_turn {s s' : Replay} {more : Bool} (halive : s.alive = true)
    (hdone : s.reached.packet.done = false) (hev : s.trEvents = some (more, s')) :
    s.mainLoop = if more then s'.mainLoop else some s' := by
  rw [mainLoop, if_neg (by simp [halive, hdone])]
  split
  · rename_i h
    rw [hev] at h
    cases h
  · rename_i h
    rw [hev] at h
    cases h
    rfl
  · rename_i h
    rw [hev] at h
    cases h
    rfl

/-- **The main loop feeds the rest of the file**, chunk by chunk, as long
as the packet is not finished behind it. The induction is on the bytes
left to read. -/
theorem mainLoop_eq {s : Replay} (hmode : s.streamMode = true)
    (halive : s.alive = true ∨ s.file = []) {st : Stream} {calls : List Callback}
    (hfeed : feedAll Stream.feed s.stream (chunksOf s.file) = some (st, calls))
    (hdone : (calls.foldl Reached.callback s.reached).packet.done = false) :
    ∃ s', s.mainLoop = some s' ∧ s'.reached = calls.foldl Reached.callback s.reached := by
  induction hn : s.file.length using Nat.strong_induction_on generalizing s st calls with
  | _ n ih =>
      have hrun : s.reached.packet.done = false := by
        by_contra hd
        rw [Bool.not_eq_false] at hd
        rw [done_callbacks calls hd] at hdone
        cases hdone
      by_cases hfile : s.file = []
      · rw [hfile, chunksOf_nil] at hfeed
        cases hfeed
        cases ha : s.alive with
        | false => exact ⟨s, by rw [mainLoop, ha]; rfl, rfl⟩
        | true =>
            refine ⟨{ s with alive := false }, ?_, rfl⟩
            exact mainLoop_turn ha hrun (trEvents_end ha hfile)
      · have ha : s.alive = true := halive.resolve_right hfile
        have hpos : s.file.length ≠ 0 := fun h => hfile (List.length_eq_zero_iff.mp h)
        rw [chunksOf, dif_neg hpos] at hfeed
        obtain ⟨st₁, c₁, c₂, hfirst, hrest, rfl⟩ := feedAll_cons_some hfeed
        obtain ⟨s₁, hev, hmode₁, halive₁, hfile₁, hst₁, hre₁⟩ := trEvents_chunk ha hmode hfile hfirst
        rw [List.foldl_append, ← hre₁] at hdone ⊢
        rw [← hfile₁, ← hst₁] at hrest
        rw [mainLoop_turn ha hrun hev, if_pos rfl]
        refine ih s₁.file.length ?_ hmode₁ halive₁ hrest hdone rfl
        rw [← hn]
        exact trEvents_shrinks hev

/-- Data blocks go to the frame layer, once the input is not suppressed. -/
theorem callback_blocks {bs : List Block} (hwords : ∀ b ∈ bs, b.words ≠ 0) {x : Reached}
    (hsup : x.cmd.suppress = false) :
    (bs.map Stream.blockCall).foldl Reached.callback x =
      { x with packet := x.packet.feed (bs.map Block.payload).flatten } := by
  induction bs generalizing x with
  | nil =>
      show x = { x with packet := x.packet.feed [] }
      rw [Packet.feed_nil]
  | cons b bs ih =>
      have hcall : Stream.blockCall b = .data b.payload := if_neg (hwords b (by simp))
      have hone : x.callback (.data b.payload) = { x with packet := x.packet.feed b.payload } :=
        if_neg (by simp [hsup])
      rw [List.map_cons, List.foldl_cons, hcall, hone, ih (fun b' hb' => hwords b' (by simp [hb'])),
        List.map_cons, List.flatten_cons, Packet.feed_append]
      exact hsup

end Replay

/-! ## The packets of a session -/

namespace Packet

/-- A text that is no error: `capture_info` leaves the packets as they are
and adds no error record. -/
theorem captureInfo_quiet {p : Packet UInt8} {m : Msg} (ts : UInt64)
    (hm : ¬ "Error:".toList <+: m.text.toList) (hq : ∀ r ∈ p.out, ¬ r.IsError) :
    (captureInfo p ts m).out.filterMap Record.packet = p.out.filterMap Record.packet ∧
      ∀ r ∈ (captureInfo p ts m).out, ¬ r.IsError := by
  have hline := chatter_lineStateEvent p
  have hout : (captureInfo p ts m).out = p.lineStateEvent.out ++ [.info ts m] := rfl
  rw [hout]
  constructor
  · rw [List.filterMap_append, hline.packets]
    exact List.append_nil _
  · intro r hr
    rcases List.mem_append.mp hr with hr | hr
    · exact hline.quiet hq r hr
    · rw [List.mem_singleton] at hr
      subst hr
      exact hm

theorem InStep.captureInfo {trigger : CaptureTrigger} {toggle : Bool} {seen : List Frame}
    {p : Packet UInt8} (h : InStep trigger toggle seen p) (ts : UInt64) {m : Msg}
    (hm : ¬ "Error:".toList <+: m.text.toList) :
    InStep trigger toggle seen (Packet.captureInfo p ts m) := by
  obtain ⟨hpackets, hquiet⟩ := captureInfo_quiet ts hm h.quiet
  have hgate := (emitted_captureInfo p ts m).gateState
  refine ⟨?_, ?_, ?_, ?_, ?_, ?_, hgate.trans h.gate_eq, hpackets.trans h.packets, hquiet⟩
  all_goals rw [captureInfo_eq]
  · exact ⟨h.plain.1, h.plain.2, h.plain.3, h.plain.4, h.plain.5⟩
  · exact h.header
  · exact h.dataPtr
  · exact h.toggle_eq
  · exact h.tsInt
  · exact h.trigger_eq

/-- The padding behind the last frame starts a header and completes
nothing. -/
theorem InStep.padding {trigger : CaptureTrigger} {toggle : Bool} {seen : List Frame}
    {p : Packet UInt8} (h : InStep trigger toggle seen p) (n : Nat) :
    (p.feed (FakeStream.padding n)).out = p.out ∧ (p.feed (FakeStream.padding n)).done = false := by
  rw [FakeStream.padding]
  have hlt : (4 - n % 4) % 4 < 4 := Nat.mod_lt _ (by norm_num)
  generalize (4 - n % 4) % 4 = k at hlt
  cases k with
  | zero =>
      rw [List.take_zero, feed_nil]
      exact ⟨rfl, h.plain.running⟩
  | succ k =>
      rw [List.take_succ_cons]
      apply feed_header_begin h.plain.running h.header h.dataPtr
      have hseven : headerLength (0x81 : UInt8) = 7 := by decide
      rw [hseven, List.length_take]
      omega

end Packet

theorem build_text (build : String) :
    ¬ "Error:".toList <+: (Msg.plain ("Plugin build: " ++ build)).text.toList := by
  have hl : "Plugin build: ".toList = 'P' :: "lugin build: ".toList := by decide
  exact not_error_of_head (toList_append_cons hl) (by decide)

theorem stopped_text (reason : String) :
    ¬ "Error:".toList <+: (Msg.stopped reason).text.toList := by
  have hl : "Capture stopped: ".toList = 'C' :: "apture stopped: ".toList := by decide
  exact not_error_of_head (toList_append_cons hl) (by decide)

namespace Replay

/-- A stream of the generator: the six ACKs, then legal blocks that carry
the frames and the padding. -/
theorem idle_start (opts : PacketOpts) (data : List UInt8) :
    ∃ s, (start opts (ackBlocks ++ data)).trDiscard = s ∧ s.Idle 2 (Packet.new opts) ∧
      s.file = Stream.encodeAll ((List.range' 2 4).map ackAt) ++ data := by
  have hsix : (List.range ackCount).map ackAt =
      ackAt 0 :: ackAt 1 :: (List.range' 2 4).map ackAt := rfl
  have hfile : ackBlocks ++ data = (ackAt 0).encode ++ ((ackAt 1).encode ++
      (Stream.encodeAll ((List.range' 2 4).map ackAt) ++ data)) := by
    rw [ackBlocks_encode, hsix, Stream.encodeAll_cons, Stream.encodeAll_cons, List.append_assoc,
      List.append_assoc]
  refine ⟨_, rfl, ?_⟩
  rw [trDiscard, discardFrom_ack (i := 0) hfile, discardFrom_ack (i := 1) rfl, discardFrom]
  refine ⟨⟨rfl, rfl, rfl, [], Stream.consumed_new, ?_⟩, rfl⟩
  intro q hq
  cases hq

/-- A generated stream, delivered: the frame layer gets the capture and
its padding, and nothing else happens. -/
theorem run_fakeStream (turns : Nat) (build : String) (opts : PacketOpts) (capture : List UInt8)
    {p : Packet UInt8}
    (hp : p = ((Packet.new opts).announce.info ("Plugin build: " ++ build)).feed
      (capture ++ FakeStream.padding capture.length)) (hdone : p.done = false) :
    ∃ s, runCaptureGen2 turns build opts (ackBlocks ++ dataBlocks capture dataSeqStart) = some s ∧
      ∃ reason, s.reached.packet = p.stopInfo reason := by
  obtain ⟨s₀, hs₀, hidle₀, hfile₀⟩ := idle_start opts (dataBlocks capture dataSeqStart)
  obtain ⟨s₁, hinit, h₁, hfile₁, hsup₁⟩ := hidle₀.captureInitCmds hfile₀ turns
    (fun h => absurd h (by decide))
  obtain ⟨bs, hw⟩ := dataBlocks_wraps capture dataSeqStart
  obtain ⟨sent, hsent, hlast⟩ := h₁.stream
  obtain ⟨st, hfeed, -⟩ := hsent.feedAll bs
    (show (chunksOf s₁.file).flatten = _ by rw [chunksOf_flatten, hfile₁, hw.encode_eq])
  -- the blocks go on counting where the ACKs stopped
  have hnext : ∀ b ∈ bs.head?, ∀ q ∈ Stream.lastNumber
      (Stream.afterBlocks Stream.new.toCtl sent), b.seq = q + 1 := by
    intro b hb q hq
    rw [hw.first b hb]
    exact hlast q hq
  rw [Stream.owedCalls_chain _ hnext hw.chain] at hfeed
  generalize hs₂ : s₁.setPacket (fun p => p.announce.info ("Plugin build: " ++ build)) = s₂
  have hstart : s₂.reached.packet = (Packet.new opts).announce.info ("Plugin build: " ++ build) := by
    rw [← hs₂, ← h₁.packet]
    rfl
  have hsup₂ : s₂.reached.cmd.suppress = false := by rw [← hs₂]; exact hsup₁
  have hcalls := callback_blocks hw.words hsup₂
  rw [hw.payload_eq, hstart, ← hp] at hcalls
  have halive₂ : s₂.alive = true := by rw [← hs₂]; exact h₁.alive
  have hfeed₂ : feedAll Stream.feed s₂.stream (chunksOf s₂.file) = some (st, bs.map Stream.blockCall) := by
    rw [← hs₂]
    exact hfeed
  obtain ⟨s₃, hloop, hreached⟩ := mainLoop_eq (s := { s₂ with streamMode := true }) rfl
    (.inl halive₂) hfeed₂ (by rw [hcalls]; exact hdone)
  refine ⟨s₃.setPacket fun p => p.stopInfo s₃.why, ?_, s₃.why, ?_⟩
  · rw [runCaptureGen2, hs₀, hinit, Option.bind_some, hs₂]
    show (mainLoop { s₂ with streamMode := true }).map _ = _
    rw [hloop]
    rfl
  · show s₃.reached.packet.stopInfo _ = _
    rw [hreached, hcalls]

end Replay

/-- **The offline round trip.** Any packets in order of time, below
`2 ^ 60` ns and with 1 to 1273 bytes each, turned into a stream at any
speed and replayed without folding, trigger or limit, give a capture
without an error record whose packets are the given ones, in order, each
with a time `ts_close` to its own. -/
theorem replay_round_trip (turns : Nat) (build : String) (speed : SpeedArg) (opts : PacketOpts)
    (hfold : opts.foldEmpty = false) (htrigger : opts.captureTrigger = .disabled)
    (hlimit : opts.captureLimit ≤ 0) (epbs : List (Nat × List UInt8))
    (hts : ∀ e ∈ epbs, e.1 < 2 ^ 60) (hlen : ∀ e ∈ epbs, 1 ≤ e.2.length ∧ e.2.length ≤ 1273)
    (hsorted : epbs.Pairwise fun a b => a.1 ≤ b.1) :
    ∃ stream s, makeFakeStream speed epbs = some stream ∧
      Replay.runCaptureGen2 turns build opts stream = some s ∧
      (∀ r ∈ s.reached.packet.out, ¬ r.IsError) ∧
      List.Forall₂ (fun epb packet => packet.2 = epb.2 ∧ tsClose epb.1 packet.1) epbs
        (s.reached.packet.out.filterMap Record.packet) := by
  obtain ⟨b, fs, hbuilt, hcap, hturns, hpackets⟩ := capture_frames speed hts hlen hsorted
  have hstart : Packet.InStep .disabled false []
      ((Packet.new opts).announce.info ("Plugin build: " ++ build)) := by
    rw [← htrigger]
    exact (Packet.inStep_announce hfold hlimit).captureInfo _ (build_text build)
  obtain ⟨toggle, hframes⟩ := hstart.frames fs hturns
  obtain ⟨hout, hdone⟩ := hframes.padding b.capture.length
  rw [← Packet.feed_append, ← hcap] at hout hdone
  obtain ⟨s, hrun, reason, hpacket⟩ := Replay.run_fakeStream turns build opts b.capture rfl hdone
  refine ⟨_, s, by rw [makeFakeStream, hbuilt]; rfl, hrun, ?_⟩
  have hquiet := hframes.quiet
  have hshown := hframes.packets
  rw [← hcap, ← hout] at hquiet hshown
  obtain ⟨hsame, hstop⟩ := Packet.captureInfo_quiet
    (p := Packet.feed _ (b.capture ++ FakeStream.padding b.capture.length)) (Packet.captureTs _)
    (stopped_text reason) hquiet
  rw [hpacket, Packet.stopInfo]
  refine ⟨hstop, ?_⟩
  rw [hsame, hshown]
  exact hpackets.imp fun _ _ hm => ⟨hm.payload, hm.ts⟩

/-- A packet in the first turn of the timestamp, one early in the second
turn and one behind its `0xF0000` point. -/
def twoTurns : List (Nat × List UInt8) :=
  [(1000, [0x2d, 0x00, 0x10]), (20000000, [0xd2]), (34000000, [0x69, 0x00])]

def replayOpts : PacketOpts := { foldOpts with foldEmpty := false }

theorem replay_round_trip_twoTurns :
    ∃ stream s, makeFakeStream .fs twoTurns = some stream ∧
      Replay.runCaptureGen2 9 "Jan  1 2025 00:00:00" replayOpts stream = some s ∧
      (∀ r ∈ s.reached.packet.out, ¬ r.IsError) ∧
      List.Forall₂ (fun epb packet => packet.2 = epb.2 ∧ tsClose epb.1 packet.1) twoTurns
        (s.reached.packet.out.filterMap Record.packet) :=
  replay_round_trip 9 "Jan  1 2025 00:00:00" .fs replayOpts rfl rfl (by decide) twoTurns
    (by decide) (by decide) (by decide)

end UsbSniffer
