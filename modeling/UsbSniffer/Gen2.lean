import UsbSniffer.Stream.Delivery
import UsbSniffer.Packet.Provenance

/-!
# A gen2 session: the stream layer feeding the frame layer

`main.c` connects the two layers by callbacks: `data_cb` feeds a block's
payload to the frame assembler, `rsync_cb` reports a loss. Block
boundaries fall anywhere inside frames, so a loss finds the assembler
anywhere. `packet_rsync` writes its record and leaves the assembler as it
is: a payload begun before the loss is completed with bytes from behind
it (`spliced_payload`). A session in which every loss falls outside of a
payload splices nothing (`run_unspliced`).

Where a byte came from is told by a mark: the session runs on bytes
marked with the number of losses reported before them, and forgetting
the marks gives the session of the code (`map_run`).
-/

namespace UsbSniffer

/-- What happens to a session: a chunk from the transport, or a call of
`main.c`. `suppress` is the flag `cmd_input_suppressed` reads. -/
inductive Gen2Event where
  | chunk (data : List UInt8)
  | suppress (on : Bool)
  | announce
  | info (msg : String)
  | stopInfo (reason : String)

/-- `context`, as far as the two layers go. `losses` counts the
`rsync_cb` calls; the code does not keep it and nothing it does depends
on it. -/
structure Gen2 (β : Type) where
  stream : Stream
  packet : Packet β
  suppressed : Bool
  losses : Nat

namespace Gen2

variable {β γ : Type} [ByteLike β] [ByteLike γ]

/-- The session before its first byte. -/
def start (opts : PacketOpts) : Gen2 β where
  stream := Stream.new
  packet := Packet.new opts
  suppressed := true
  losses := 0

/-- `data_cb`, with the bytes marked. -/
def dataCb (mark : Nat → UInt8 → β) (g : Gen2 β) (data : List UInt8) : Gen2 β :=
  if g.suppressed then g else { g with packet := g.packet.feed (data.map (mark g.losses)) }

/-- `rsync_cb`. -/
def rsyncCb (g : Gen2 β) : Gen2 β :=
  { g with packet := g.packet.rsync, losses := g.losses + 1 }

/-- One callback; `ack_cb` goes to the command layer. -/
def callback (mark : Nat → UInt8 → β) (g : Gen2 β) : Callback → Gen2 β
  | .data payload => g.dataCb mark payload
  | .ack => g
  | .rsync => g.rsyncCb

/-- One event. A chunk goes through `stream_feed`, whose callbacks see
the packet only. -/
def event (mark : Nat → UInt8 → β) (g : Gen2 β) : Gen2Event → Option (Gen2 β)
  | .chunk data =>
      (g.stream.feed data).map fun r => r.2.foldl (callback mark) { g with stream := r.1 }
  | .suppress on => some { g with suppressed := on }
  | .announce => some { g with packet := g.packet.announce }
  | .info msg => some { g with packet := g.packet.info msg }
  | .stopInfo reason => some { g with packet := g.packet.stopInfo reason }

/-- A session. -/
def run (mark : Nat → UInt8 → β) : Gen2 β → List Gen2Event → Option (Gen2 β)
  | g, [] => some g
  | g, e :: es => (g.event mark e).bind fun g' => run mark g' es

/-- The bytes as the code has them. -/
def bare (_ : Nat) (b : UInt8) : UInt8 := b

/-- The bytes with the number of losses reported before them. -/
def marked (k : Nat) (b : UInt8) : UInt8 × Nat := (b, k)

instance : ByteLike (UInt8 × Nat) := ⟨Prod.fst, (0, 0)⟩

/-! ## Forgetting the marks -/

/-- The session with every captured byte replaced. -/
def map (f : β → γ) (g : Gen2 β) : Gen2 γ := { g with packet := g.packet.map f }

section Marks

variable {mark : Nat → UInt8 → β} {mark' : Nat → UInt8 → γ} {f : β → γ}
  (hf : ∀ b, ByteLike.val (f b) = ByteLike.val b) (hm : ∀ k b, f (mark k b) = mark' k b)

include hf hm

theorem map_callback (g : Gen2 β) (c : Callback) :
    (g.callback mark c).map f = (g.map f).callback mark' c := by
  cases c with
  | ack => rfl
  | rsync =>
      show ({ g with packet := g.packet.rsync, losses := g.losses + 1 } : Gen2 β).map f = _
      rw [map, Packet.rsync, Packet.map_captureInfo]
      rfl
  | data payload =>
      have hdata : (payload.map (mark g.losses)).map f = payload.map (mark' g.losses) := by
        rw [List.map_map]
        exact List.map_congr_left fun b _ => hm g.losses b
      show (g.dataCb mark payload).map f = (g.map f).dataCb mark' payload
      rw [dataCb, dataCb]
      by_cases hs : g.suppressed = true
      · rw [if_pos hs, if_pos (show (g.map f).suppressed = true from hs)]
      · rw [if_neg hs, if_neg (show ¬ (g.map f).suppressed = true from hs), map,
          Packet.map_feed f _ hf, hdata]
        rfl

theorem map_callbacks (calls : List Callback) (g : Gen2 β) :
    (calls.foldl (callback mark) g).map f = calls.foldl (callback mark') (g.map f) := by
  induction calls generalizing g with
  | nil => rfl
  | cons c cs ih => rw [List.foldl_cons, List.foldl_cons, ih, map_callback hf hm]

theorem map_event (g : Gen2 β) (e : Gen2Event) :
    (g.event mark e).map (map f) = (g.map f).event mark' e := by
  cases e with
  | chunk data =>
      simp only [event, Option.map_map]
      show Option.map _ (g.stream.feed data) = Option.map _ (g.stream.feed data)
      congr 1
      funext r
      exact map_callbacks hf hm r.2 { g with stream := r.1 }
  | suppress on => rfl
  | announce =>
      simp only [event, Option.map_some, map, Packet.map_announce]
  | info msg =>
      simp only [event, Option.map_some, map, Packet.info, Packet.map_captureInfo]
      rfl
  | stopInfo reason =>
      simp only [event, Option.map_some, map, Packet.stopInfo, Packet.map_captureInfo]
      rfl

/-- **The marked session is the session of the code**, with the marks
left on. -/
theorem map_run (es : List Gen2Event) (g : Gen2 β) :
    (g.run mark es).map (map f) = (g.map f).run mark' es := by
  induction es generalizing g with
  | nil => rfl
  | cons e es ih =>
      rw [run, run, ← map_event hf hm]
      cases g.event mark e with
      | none => rfl
      | some g' => exact ih g'

end Marks

/-! ## Losses outside of payloads -/

/-- Every `rsync_cb` among the callbacks finds no unfinished payload in
the assembler. -/
def CleanCallbacks (mark : Nat → UInt8 → β) : Gen2 β → List Callback → Prop
  | _, [] => True
  | g, c :: cs => (c = .rsync → g.packet.Between) ∧ CleanCallbacks mark (g.callback mark c) cs

/-- **Every reported loss of the session falls outside of a payload.** -/
def CleanRun (mark : Nat → UInt8 → β) : Gen2 β → List Gen2Event → Prop
  | _, [] => True
  | g, .chunk data :: es =>
      ∀ s calls, g.stream.feed data = some (s, calls) →
        CleanCallbacks mark { g with stream := s } calls ∧
          CleanRun mark (calls.foldl (callback mark) { g with stream := s }) es
  | g, e :: es => ∀ g', g.event mark e = some g' → CleanRun mark g' es

/-- A marked session whose packets have one origin each. -/
structure Whole (g : Gen2 (UInt8 × Nat)) : Prop where
  ready : g.stream.Ready
  unspliced : g.packet.Unspliced Prod.snd g.losses

theorem whole_start (opts : PacketOpts) : Whole (start opts) :=
  ⟨Stream.ready_new, Packet.unspliced_new opts⟩

theorem bare_of_marked (k : Nat) (b : UInt8) : (marked k b).1 = bare k b := rfl

theorem map_marked_callback (g : Gen2 (UInt8 × Nat)) (c : Callback) :
    (g.callback marked c).map Prod.fst = (g.map Prod.fst).callback bare c :=
  map_callback (f := Prod.fst) (fun _ => rfl) bare_of_marked g c

theorem Whole.callback {g : Gen2 (UInt8 × Nat)} (h : Whole g) {c : Callback}
    (hc : c = .rsync → g.packet.Between) : Whole (g.callback marked c) := by
  cases c with
  | ack => exact h
  | rsync => exact ⟨h.ready, h.unspliced.rsync (hc rfl)⟩
  | data payload =>
      show Whole (g.dataCb marked payload)
      rw [dataCb]
      split
      · exact h
      · refine ⟨h.ready, h.unspliced.feed ?_⟩
        intro b hb
        obtain ⟨x, -, rfl⟩ := List.mem_map.mp hb
        rfl

theorem Whole.callbacks {calls : List Callback} {g : Gen2 (UInt8 × Nat)} (h : Whole g)
    (hc : CleanCallbacks bare (g.map Prod.fst) calls) :
    Whole (calls.foldl (Gen2.callback marked) g) := by
  induction calls generalizing g with
  | nil => exact h
  | cons c cs ih =>
      obtain ⟨hfirst, hrest⟩ := hc
      rw [← map_marked_callback] at hrest
      exact ih (h.callback hfirst) hrest

theorem Whole.setPacket {g : Gen2 (UInt8 × Nat)} (h : Whole g) {p : Packet (UInt8 × Nat)}
    (hp : p.Unspliced Prod.snd g.losses) : Whole { g with packet := p } :=
  ⟨h.ready, hp⟩

/-- A clean session keeps its packets whole, and runs to its end. -/
theorem Whole.run {es : List Gen2Event} {g : Gen2 (UInt8 × Nat)} (h : Whole g)
    (hc : CleanRun bare (g.map Prod.fst) es) : ∃ g', g.run marked es = some g' ∧ Whole g' := by
  induction es generalizing g with
  | nil => exact ⟨g, rfl, h⟩
  | cons e es ih =>
      have hmap := map_event (f := Prod.fst) (fun _ => rfl) bare_of_marked g e
      cases e with
      | chunk data =>
          obtain ⟨s, calls, hfeed, hready⟩ := h.ready.feed data
          obtain ⟨hcalls, hrest⟩ := hc s calls hfeed
          have hw : Whole { g with stream := s } := ⟨hready, h.unspliced⟩
          have hm := map_callbacks (f := Prod.fst) (fun _ => rfl) bare_of_marked calls
            { g with stream := s }
          have hnext : CleanRun bare
              ((calls.foldl (Gen2.callback marked) { g with stream := s }).map Prod.fst) es := by
            rw [hm]
            exact hrest
          obtain ⟨g', hg', hwhole⟩ := ih (hw.callbacks hcalls) hnext
          refine ⟨g', ?_, hwhole⟩
          rw [Gen2.run, event, hfeed]
          exact hg'
      | suppress on => exact ih ⟨h.ready, h.unspliced⟩ (hc _ rfl)
      | announce =>
          exact ih (h.setPacket h.unspliced.announce) (hc _ hmap.symm)
      | info msg => exact ih (h.setPacket (h.unspliced.captureInfo _ _)) (hc _ hmap.symm)
      | stopInfo reason => exact ih (h.setPacket (h.unspliced.captureInfo _ _)) (hc _ hmap.symm)

theorem map_start (opts : PacketOpts) :
    (start opts : Gen2 (UInt8 × Nat)).map Prod.fst = start opts := by
  rw [map, start, Packet.map_new Prod.fst rfl]
  rfl

/-- **A session in which every reported loss falls outside of a payload
splices nothing**: run with its bytes marked by the losses before them,
it is the session of the code, and no packet of its output has bytes from
both sides of a loss. -/
theorem run_unspliced (opts : PacketOpts) (es : List Gen2Event)
    (hclean : CleanRun bare (start opts) es) :
    ∃ (g : Gen2 UInt8) (g' : Gen2 (UInt8 × Nat)), (start opts).run bare es = some g ∧
      (start opts).run marked es = some g' ∧ g'.map Prod.fst = g ∧
      ∀ ts data, .epb ts data ∈ g'.packet.out → Packet.OneOrigin Prod.snd data := by
  have hclean' : CleanRun bare ((start opts : Gen2 (UInt8 × Nat)).map Prod.fst) es := by
    rw [map_start]
    exact hclean
  obtain ⟨g', hrun, hwhole⟩ := (whole_start opts).run hclean'
  have hmap := map_run (f := Prod.fst) (fun _ => rfl) bare_of_marked es (start opts)
  rw [hrun, map_start] at hmap
  exact ⟨g'.map Prod.fst, g', hmap.symm, hrun, rfl, hwhole.unspliced.stored.written⟩

/-- Two frames in two blocks, with a block missing in between. -/
def cleanSession : List Gen2Event :=
  [.suppress false, .announce,
    .chunk (Stream.encodeAll [Stream.wordsBlock 0 0x80 0 0 0 8 0 0 0x2d,
      Stream.wordsBlock 2 0xc0 0 60 0 8 0 0 0xe1])]

theorem cleanRun_cleanSession : CleanRun bare (start foldOpts) cleanSession := by
  intro g₁ h₁
  cases h₁
  intro g₂ h₂
  cases h₂
  intro s calls hfeed
  obtain ⟨s', hs'⟩ := Stream.feed_encodeAll [Stream.wordsBlock 0 0x80 0 0 0 8 0 0 0x2d,
    Stream.wordsBlock 2 0xc0 0 60 0 8 0 0 0xe1]
  have hcalls : (s, calls) = (s', _) := Option.some.inj (hfeed.symm.trans hs')
  cases hcalls
  refine ⟨⟨nofun, fun _ => ?_, nofun, trivial⟩, trivial⟩
  show Packet.Between (Packet.feed (Packet.announce (Packet.new foldOpts))
    [0x80, 0, 0, 0, 8, 0, 0, 0x2d])
  decide

theorem run_unspliced_cleanSession :
    CleanRun bare (start foldOpts) cleanSession ∧
    ∃ (g : Gen2 UInt8) (g' : Gen2 (UInt8 × Nat)), (start foldOpts).run bare cleanSession = some g ∧
      (start foldOpts).run marked cleanSession = some g' ∧ g'.map Prod.fst = g ∧
      ∀ ts data, .epb ts data ∈ g'.packet.out → Packet.OneOrigin Prod.snd data :=
  ⟨cleanRun_cleanSession, run_unspliced foldOpts cleanSession cleanRun_cleanSession⟩

/-! ## A loss inside a payload -/

/-- A frame with four payload bytes, one in the first block and the rest
missing; the block behind the gap goes on with other bytes. -/
def spliceSession : List Gen2Event :=
  [.suppress false, .announce,
    .chunk (Stream.encodeAll [Stream.wordsBlock 0 0x80 0 0 0 11 0 0 0x2d,
      Stream.wordBlock 2 0x11 0x22 0x33 0x44])]

theorem run_spliceSession (mark : Nat → UInt8 → β) :
    ∃ s, (start foldOpts).run mark spliceSession = some
      { stream := s
        packet := (((Packet.new foldOpts).announce.feed
            ([0x80, 0, 0, 0, 11, 0, 0, 0x2d].map (mark 0))).rsync.feed
          ([0x11, 0x22, 0x33, 0x44].map (mark 1)))
        suppressed := false
        losses := 1 } := by
  obtain ⟨s, hs⟩ := Stream.feed_encodeAll [Stream.wordsBlock 0 0x80 0 0 0 11 0 0 0x2d,
    Stream.wordBlock 2 0x11 0x22 0x33 0x44]
  refine ⟨s, ?_⟩
  simp only [spliceSession, run, event, start, Option.bind_some, hs, Option.map_some]
  rfl

/-- The packet of `spliceSession` has its first byte from before the
reported loss and the others from behind it. -/
theorem spliceSession_spliced :
    ∃ (g : Gen2 UInt8) (g' : Gen2 (UInt8 × Nat)),
      (start foldOpts).run bare spliceSession = some g ∧
      (start foldOpts).run marked spliceSession = some g' ∧ g'.map Prod.fst = g ∧
      .epb 0 [0x2d, 0x11, 0x22, 0x33] ∈ g.packet.out ∧
      .epb 0 [(0x2d, 0), (0x11, 1), (0x22, 1), (0x33, 1)] ∈ g'.packet.out ∧
      ¬ ∀ ts data, .epb ts data ∈ g'.packet.out → Packet.OneOrigin Prod.snd data := by
  obtain ⟨s, hbare⟩ := run_spliceSession bare
  obtain ⟨s', hmarked⟩ := run_spliceSession marked
  have hmap := map_run (f := Prod.fst) (fun _ => rfl) bare_of_marked spliceSession (start foldOpts)
  rw [hmarked, map_start, hbare] at hmap
  have hmem : Record.epb 0 [((0x2d : UInt8), 0), (0x11, 1), (0x22, 1), (0x33, 1)] ∈
      (((Packet.new foldOpts).announce.feed
          ([0x80, 0, 0, 0, 11, 0, 0, 0x2d].map (marked 0))).rsync.feed
        ([0x11, 0x22, 0x33, 0x44].map (marked 1))).out := by decide
  have hplain : Record.epb 0 [(0x2d : UInt8), 0x11, 0x22, 0x33] ∈
      (((Packet.new foldOpts).announce.feed
          ([0x80, 0, 0, 0, 11, 0, 0, 0x2d].map (bare 0))).rsync.feed
        ([0x11, 0x22, 0x33, 0x44].map (bare 1))).out := by decide
  refine ⟨_, _, hbare, hmarked, Option.some.inj hmap, hplain, hmem, ?_⟩
  intro hall
  obtain ⟨k, hk⟩ := hall 0 _ hmem
  have h0 : 0 = k := hk (0x2d, 0) (by simp)
  have h1 : 1 = k := hk (0x11, 1) (by simp)
  omega

end Gen2

end UsbSniffer
