import UsbSniffer.Packet.Bounds
import UsbSniffer.Gen1.Port

/-!
# What stays inside its buffer, in gen1

`gen1/capture.c` guards less than its port: `capture_info` hands the
length `vsnprintf` returns to `write_str` without clamping it to
`str[512]`, and `write_packet` and `write_str` fill `capture_buf[4096]`.
What keeps them inside is that every text is short and every packet was a
payload, also the ones that wait in the fold buffer. `capture_within`
says so of every run, with the exits in the middle of a frame.

The one text whose length the frames do not bound is the summary of a
fold: `capture_fold_count` grows by at most one for each byte.
-/

namespace UsbSniffer.Gen1

open Packet (Assembler Framed)

/-! ## Texts -/

/-- The text fits `str` of `capture_info`, with its zero. -/
def Short (m : Msg) : Prop := (text m).length ≤ 511

instance (m : Msg) : Decidable (Short m) := inferInstanceAs (Decidable (_ ≤ 511))

theorem SameText.short {m : Msg} (h : SameText m) : Short m := by
  rw [Short, h, Msg.text, String.length_ofList, List.length_take]
  exact Nat.min_le_left _ _

theorem short_lineStateMsg (c : Capture) : Short (lineStateMsg c) := by
  refine SameText.short (sameText_lineState ?_ fun d hd => ?_)
  · split
    · decide
    · split
      · split <;> decide
      · split
        · split <;> decide
        · exact lineName_length (Nat.mod_lt _ (by norm_num)) (Nat.mod_lt _ (by norm_num))
  · split at hd
    · rw [← Option.some.inj hd]
      exact castInt_natAbs _
    · cases hd

theorem short_folded {count : Nat} (h : count < 2 ^ 31) : Short (.folded count) := by
  have hdigits := repr_length_le (k := 10) (by norm_num) (show count < 10 ^ 10 by omega)
  have htext : text (.folded count) = if count = 1 then "Folded empty frame"
      else "Folded " ++ toString count ++ " empty frames" := rfl
  have hhead : "Folded ".length = 7 := by decide
  have htail : " empty frames".length = 13 := by decide
  rw [Short, htext]
  split
  · decide
  · rw [String.length_append, String.length_append]
    omega

theorem short_toggleError {received expected : Nat} (hr : received ≤ 1) (he : expected ≤ 1) :
    Short (.toggleError received expected) := by
  obtain rfl | rfl : received = 0 ∨ received = 1 := by omega
  · obtain rfl | rfl : expected = 0 ∨ expected = 1 := by omega
    · decide
    · decide
  · obtain rfl | rfl : expected = 0 ∨ expected = 1 := by omega
    · decide
    · decide

theorem short_dataSizeError {size : Nat} (h : size < 10 ^ 4) : Short (.dataSizeError size) := by
  have hdigits := repr_length_le (k := 4) (by norm_num) h
  have htext : text (.dataSizeError size) =
      "Error: invalid data size (" ++ toString size ++ ")" := rfl
  have hhead : "Error: invalid data size (".length = 26 := by decide
  have htail : ")".length = 1 := by decide
  rw [Short, htext, String.length_append, String.length_append]
  omega

theorem hexBytes_length (bytes : List UInt8) :
    (String.join (bytes.map hexByte)).length = 3 * bytes.length := by
  induction bytes with
  | nil => rfl
  | cons b bytes ih =>
      have hone : (hexByte b).length = 3 := String.length_ofList
      rw [List.map_cons, String.join_cons, String.length_append, ih, hone, List.length_cons]
      omega

theorem short_packetHeader {bytes : List UInt8} (h : bytes.length ≤ 7) :
    Short (.packetHeader bytes) := by
  have htext : text (.packetHeader bytes) =
      "Packet header: " ++ String.join (bytes.map hexByte) := rfl
  have hhead : "Packet header: ".length = 15 := by decide
  rw [Short, htext, String.length_append, hexBytes_length]
  omega

/-! ## Records

The invariant is kept by every function that writes, for any assembler
`a`, which none of them changes. `n` bounds the groups counted, `k` the
entries of the fold buffer. -/

/-- What is written fits its block. -/
structure Written (c : Capture) : Prop where
  packets : ∀ ts data, .epb ts data ∈ c.out → PayloadSize data.length
  texts : ∀ ts m, .info ts m ∈ c.out → Short m

/-- What is written, and what waits to be. -/
structure Held (a : Assembler UInt8) (n k : Nat) (c : Capture) : Prop extends Written c where
  assembler : c.assembler = a
  count : c.captureFoldCount ≤ n
  foldPtr : c.captureFoldBuf.length ≤ k
  entries : ∀ f ∈ c.captureFoldBuf, f.Legal

/-- A property of the state a run goes on from, or exits in. -/
def Run.All (P : Capture → Prop) : Run → Prop
  | .ok c => P c
  | .error c => P c

namespace Held

variable {a : Assembler UInt8} {n k : Nat} {c : Capture}

theorem mono {n' k' : Nat} (h : Held a n k c) (hn : n ≤ n') (hk : k ≤ k') : Held a n' k' c :=
  ⟨h.toWritten, h.assembler, h.count.trans hn, h.foldPtr.trans hk, h.entries⟩

/-- The assembler may have changed. -/
theorem rebase (h : Held a n k c) {c' : Capture} (ho : c'.out = c.out)
    (hc : c'.captureFoldCount = c.captureFoldCount) (hb : c'.captureFoldBuf = c.captureFoldBuf) :
    Held c'.assembler n k c' := by
  refine ⟨⟨?_, ?_⟩, rfl, hc ▸ h.count, hb ▸ h.foldPtr, hb ▸ h.entries⟩
  · rw [ho]
    exact h.packets
  · rw [ho]
    exact h.texts

/-- Nothing the invariant is about changed. -/
theorem of_same (h : Held a n k c) {c' : Capture} (ha : c'.assembler = c.assembler)
    (ho : c'.out = c.out) (hc : c'.captureFoldCount = c.captureFoldCount)
    (hb : c'.captureFoldBuf = c.captureFoldBuf) : Held a n k c' := by
  rw [← h.assembler, ← ha]
  exact h.rebase ho hc hb

theorem writeStr (h : Held a n k c) (ts : UInt64) {m : Msg} (hm : Short m) :
    Held a n k (writeStr c ts m) := by
  refine ⟨⟨fun t data hr => ?_, fun t x hr => ?_⟩, h.assembler, h.count, h.foldPtr, h.entries⟩
  · rcases List.mem_append.mp hr with hr | hr
    · exact h.packets t data hr
    · cases List.mem_singleton.mp hr
  · rcases List.mem_append.mp hr with hr | hr
    · exact h.texts t x hr
    · cases List.mem_singleton.mp hr
      exact hm

theorem writePacket (h : Held a n k c) (ts : UInt64) {data : List UInt8}
    (hd : PayloadSize data.length) : Held a n k (writePacket c ts data) := by
  refine ⟨⟨fun t x hr => ?_, fun t m hr => ?_⟩, h.assembler, h.count, h.foldPtr, h.entries⟩
  · rcases List.mem_append.mp hr with hr | hr
    · exact h.packets t x hr
    · cases List.mem_singleton.mp hr
      exact hd
  · rcases List.mem_append.mp hr with hr | hr
    · exact h.texts t m hr
    · cases List.mem_singleton.mp hr

/-- One call of `capture_info`, if the two functions it calls are fine. -/
theorem infoVia {line stop : Capture → Capture}
    (hline : ∀ c, Held a n k c → Held a n k (line c))
    (hstop : ∀ c, Held a n k c → Held a n k (stop c)) (h : Held a n k c) (ts : UInt64) {m : Msg}
    (hm : Short m) : Held a n k (Gen1.infoVia line stop c ts m) :=
  (hstop _ (hline _ h)).writeStr ts hm

/-- What a flush writes was legal when it was stored. -/
theorem flushed {info : Capture → UInt64 → Msg → Capture}
    (hinfo : ∀ c ts m, Short m → Held a n 0 c → Held a n 0 (info c ts m)) (h : Held a n 0 c)
    {frames : List (CaptureFrame UInt8)} (hframes : ∀ f ∈ frames, f.Legal) :
    Held a n 0 (frames.foldl
      (fun c f => if f.size < 0 then info c f.ts .keepAlive else Gen1.writePacket c f.ts f.data)
      c) := by
  induction frames generalizing c with
  | nil => exact h
  | cons f frames ih =>
      obtain ⟨hf, hrest⟩ := List.forall_mem_cons.mp hframes
      refine ih ?_ hrest
      dsimp only
      split
      · exact hinfo c f.ts .keepAlive (by decide) h
      · rename_i hsize
        exact h.writePacket f.ts (hf.resolve_left hsize).2

/-- The two functions, to any depth of calls. A `stop_folding` that does
something leaves an empty buffer. -/
theorem depth (hn : n < 2 ^ 31) (depth : Nat) :
    (∀ {k c}, Held a n k c → Held a n k (lineStateEventDepth depth c)) ∧
      ∀ {k c}, Held a n k c → Held a n k (stopFoldingDepth depth c) ∧
        (0 < depth → Held a n 0 (stopFoldingDepth depth c)) := by
  induction depth with
  | zero => exact ⟨fun h => h, fun h => ⟨h, fun hpos => absurd hpos (Nat.lt_irrefl 0)⟩⟩
  | succ depth ih =>
      obtain ⟨ihline, ihstop⟩ := ih
      have hinfo : ∀ {k} c ts m, Short m → Held a n k c → Held a n k
          (Gen1.infoVia (lineStateEventDepth depth) (stopFoldingDepth depth) c ts m) :=
        fun c ts m hm h => infoVia (fun _ h => ihline h) (fun _ h => (ihstop h).1) h ts hm
      refine ⟨fun {k c} h => ?_, fun {k c} h => ?_⟩
      · rw [lineStateEventDepth]
        split
        · exact h
        · have hset : Held a n k { c with captureSavedLs := lsInvalid } :=
            h.of_same rfl rfl rfl rfl
          split
          · exact hset
          · exact hinfo _ _ _ (short_lineStateMsg c) hset
      · have hzero : Held a n 0 (stopFoldingDepth (depth + 1) c) := by
          rw [stopFoldingDepth]
          split
          · rename_i hempty
            exact ⟨h.toWritten, h.assembler, h.count, hempty.2.le, h.entries⟩
          · have hreset : Held a n 0 { c with captureFoldCount := 0, captureFoldBuf := [] } :=
              ⟨⟨h.packets, h.texts⟩, h.assembler, Nat.zero_le n, Nat.le_refl 0,
                fun _ hf => (List.not_mem_nil hf).elim⟩
            refine flushed hinfo ?_ h.entries
            split
            · exact hreset
            · exact hinfo _ _ _ (short_folded (Nat.lt_of_le_of_lt h.count hn)) hreset
        exact ⟨hzero.mono (Nat.le_refl n) (Nat.zero_le k), fun _ => hzero⟩

section

variable (hn : n < 2 ^ 31)

include hn

theorem lineStateEvent (h : Held a n k c) : Held a n k (lineStateEvent c) := (depth hn 2).1 h

/-- Behind a flush the buffer is empty. -/
theorem stopFolding (h : Held a n k c) : Held a n 0 (stopFolding c) :=
  ((depth hn 2).2 h).2 (Nat.succ_pos 1)

theorem captureInfo (h : Held a n k c) (ts : UInt64) {m : Msg} (hm : Short m) :
    Held a n k (captureInfo c ts m) :=
  infoVia (fun _ h => h.lineStateEvent hn)
    (fun _ h => (h.stopFolding hn).mono (Nat.le_refl n) (Nat.zero_le k)) h ts hm

theorem timeoutEvent (h : Held a n k c) : Held a n k (timeoutEvent c) := by
  rw [Gen1.timeoutEvent]
  split
  · exact h.captureInfo hn _ (by decide)
  · exact h

theorem checkCaptureLimit (h : Held a n k c) :
    Run.All (Held a n k) (checkCaptureLimit c) := by
  have hdown : Held a n k c.limitDown := h.of_same rfl rfl rfl rfl
  rw [Gen1.checkCaptureLimit]
  split
  · exact hdown.captureInfo hn _ (by decide)
  · exact hdown

end

/-- The held group is given up, and counted. -/
theorem countGroup (hcount : n + 1 < 2 ^ 31) (h : Held a n k c) (limit : Nat) :
    Held a (n + 1) 0 (countGroup c limit) := by
  have hdrop : Held a (n + 1) 0 c.dropGroup :=
    ⟨⟨h.packets, h.texts⟩, h.assembler, Nat.succ_le_succ h.count, Nat.le_refl 0,
      fun _ hf => (List.not_mem_nil hf).elim⟩
  rw [Gen1.countGroup]
  split
  · exact hdrop.stopFolding hcount
  · exact hdrop

/-- One entry more in the buffer. -/
theorem fold (h : Held a n k c) {f : CaptureFrame UInt8} (hf : f.Legal) :
    Held a n (k + 1) { c with captureFoldBuf := c.captureFoldBuf ++ [f] } := by
  refine ⟨⟨h.packets, h.texts⟩, h.assembler, h.count, ?_, fun g hg => ?_⟩
  · rw [List.length_append, List.length_singleton]
    exact Nat.succ_le_succ h.foldPtr
  · rcases List.mem_append.mp hg with hg | hg
    · exact h.entries g hg
    · rw [List.mem_singleton.mp hg]
      exact hf

/-- An empty buffer. -/
theorem of_empty (h : Held a n k c) (hempty : ¬ c.captureFoldBuf.length ≠ 0) : Held a n 0 c :=
  ⟨h.toWritten, h.assembler, h.count, (not_not.mp hempty).le, h.entries⟩

end Held

theorem Run.All.imp {P Q : Capture → Prop} (h : ∀ c, P c → Q c) {r : Run} (hr : r.All P) :
    r.All Q := by
  cases r with
  | ok c => exact h c hr
  | error c => exact h c hr

/-! ## Events

One event counts one group at most. -/

section Events

variable {a : Assembler UInt8} {n : Nat} {c : Capture} (hn : n + 1 < 2 ^ 31)

include hn

theorem held_keepaliveEvent (h : Held a n foldBufSize c) (ts : UInt64) {delta : Int}
    (hd : 0 < delta) : (keepaliveEvent c ts delta).All (Held a (n + 1) foldBufSize) := by
  have hle := Nat.le_succ n
  have hlegal : (⟨ts, -delta, []⟩ : CaptureFrame UInt8).Legal := Or.inl (Int.neg_neg_of_pos hd)
  rw [keepaliveEvent]
  split
  · exact h.mono hle (Nat.le_refl _)
  · refine Held.checkCaptureLimit hn ?_
    split
    · exact (h.captureInfo (by omega) ts (by decide)).mono hle (Nat.le_refl _)
    · split
      · exact ((h.countGroup hn foldLimitLsFs).fold hlegal).mono (Nat.le_refl _) (by decide)
      · rename_i hempty
        exact ((h.of_empty hempty).fold hlegal).mono hle (by decide)

theorem held_lineChange (h : Held a n foldBufSize c) (ls : Int) :
    (lineChange c ls).All (Held a (n + 1) foldBufSize) := by
  rw [lineChange]
  split
  · rename_i hkeep
    simp only [isKeepalive, Bool.and_eq_true, decide_eq_true_eq] at hkeep
    have hlong : minKeepaliveDuration = 1000 := rfl
    have hshort : maxKeepaliveDuration = 2000 := rfl
    have hpos : 0 < c.savedDelta := by
      rw [Packet.savedDelta, castInt]
      split <;> omega
    have hset : Held a n foldBufSize { c with captureSavedLs := lsInvalid } :=
      h.of_same rfl rfl rfl rfl
    exact held_keepaliveEvent hn hset _ hpos
  · have hline := (h.lineStateEvent (by omega)).mono (Nat.le_succ n) (Nat.le_refl foldBufSize)
    exact hline.of_same rfl rfl rfl rfl

omit hn in
theorem held_noteGate {k : Nat} (hn : n < 2 ^ 31) (h : Held a n k c) (wasEnabled : Bool) :
    Held a n k (noteGate c wasEnabled) := by
  rw [noteGate]
  split
  · exact h.captureInfo hn _ (by decide)
  · split
    · exact h.captureInfo hn _ (by decide)
    · exact h

/-- **A status frame.** The trigger is a bit. -/
theorem held_statusEvent (h : Held a n foldBufSize c) (ls vbus : Int) {bit : Nat} (hbit : bit ≤ 1)
    (speed : CaptureSpeed) :
    (statusEvent c ls vbus bit speed).All (Held a (n + 1) foldBufSize) := by
  have hn' : n < 2 ^ 31 := by omega
  have htrigger : Held a n foldBufSize (statusTrigger c bit) := by
    rw [statusTrigger]
    split
    · exact h
    · have hset : Held a n foldBufSize (c.setTrigger bit) := h.of_same rfl rfl rfl rfl
      exact held_noteGate hn' (hset.captureInfo hn' _ (sameText_triggerInput bit hbit).short) _
  have hvbus : Held a n foldBufSize (statusVbus (statusTrigger c bit) vbus) := by
    rw [statusVbus]
    split
    · exact htrigger
    · have hset : Held a n foldBufSize { statusTrigger c bit with captureVbus := vbus } :=
        htrigger.of_same rfl rfl rfl rfl
      exact hset.captureInfo hn' _ (sameText_vbus _).short
  have hspeed : Held a n foldBufSize (statusSpeed (statusVbus (statusTrigger c bit) vbus) speed) := by
    have hset : Held a n foldBufSize
        { statusVbus (statusTrigger c bit) vbus with captureSpeedIn := some speed } :=
      hvbus.of_same rfl rfl rfl rfl
    rw [statusSpeed]
    split
    · exact hvbus
    · split
      · exact hset.captureInfo hn' _ (sameText_speedMsg speed).short
      · exact hset
  rw [statusEvent, statusLs]
  split
  · exact hspeed.mono (Nat.le_succ n) (Nat.le_refl _)
  · have hset : Held a n foldBufSize
        { statusSpeed (statusVbus (statusTrigger c bit) vbus) speed with captureLs := ls } :=
      hspeed.of_same rfl rfl rfl rfl
    exact held_lineChange hn hset ls

/-- In front of a packet a full buffer is flushed. -/
theorem held_dataFlush (h : Held a n foldBufSize c) : Held a n 255 (dataFlush c) := by
  rw [dataFlush]
  split
  · exact (h.stopFolding (by omega)).mono (Nat.le_refl n) (Nat.zero_le _)
  · rename_i hroom
    simp only [Bool.or_eq_true, beq_iff_eq, not_or] at hroom
    have hlt := Nat.lt_of_le_of_ne h.foldPtr hroom.2
    exact ⟨h.toWritten, h.assembler, h.count, Nat.le_of_lt_succ hlt, h.entries⟩

theorem held_dataWrite (h : Held a n 255 c) (hsize : PayloadSize a.size) :
    Held a (n + 1) foldBufSize (dataWrite c) := by
  have hle := Nat.le_succ n
  have hroom : 255 ≤ foldBufSize := by decide
  have hpay : PayloadSize c.payload.length := by
    have hlen : c.captureSize = a.size := congrArg Assembler.size h.assembler
    rw [Packet.payload_length (by rw [hlen]; exact hsize), hlen]
    exact hsize
  have hlegal : (⟨c.captureTs, c.payload.length, c.payload⟩ : CaptureFrame UInt8).Legal :=
    Or.inr ⟨rfl, hpay⟩
  rw [dataWrite]
  split
  · exact (h.writePacket _ hpay).mono hle hroom
  · split
    · split
      · exact (h.fold hlegal).mono hle (by decide)
      · split
        · exact ((h.countGroup hn _).fold hlegal).mono (Nat.le_refl _) (by decide)
        · exact ((h.stopFolding (by omega)).writePacket _ hpay).mono hle (Nat.zero_le _)
    · split
      · exact (h.fold hlegal).mono hle (by decide)
      · exact (h.writePacket _ hpay).mono hle hroom

/-- **A packet** of a legal size. -/
theorem held_dataEvent (h : Held a n foldBufSize c) (hsize : PayloadSize a.size) :
    (dataEvent c).All (Held a (n + 1) foldBufSize) := by
  have hn' : n < 2 ^ 31 := by omega
  rw [dataEvent]
  split
  · exact h.mono (Nat.le_succ n) (Nat.le_refl _)
  · have hflush := held_dataFlush hn (h.lineStateEvent hn')
    have hover : Held a n 255 (noteOverflow (dataFlush (lineStateEvent c))) := by
      rw [noteOverflow]
      split
      · exact hflush.captureInfo hn' _ (by decide)
      · exact hflush
    have hphy : Held a n 255 (notePhyError (noteOverflow (dataFlush (lineStateEvent c)))) := by
      rw [notePhyError]
      split
      · exact hover.captureInfo hn' _ (by decide)
      · exact hover
    exact (held_dataWrite hn hphy hsize).checkCaptureLimit hn

end Events

/-! ## The frame assembler -/

/-- A state between two bytes. -/
structure InBounds (n : Nat) (c : Capture) : Prop extends Framed c where
  toggle : c.captureToggle ≤ 1
  held : Held c.assembler n foldBufSize c

/-- The state to go on from, or the records at the exit. -/
def Run.Within (n : Nat) : Run → Prop
  | .ok c => InBounds n c
  | .error c => Written c

/-- The program ends, and its records are fine. -/
def Run.Refused (r : Run) : Prop := ∃ e, r = .error e ∧ Written e

theorem headerSize_lt (c : Capture) : c.headerSize < 10 ^ 4 := by
  have hhigh : (c.byteAt 3 &&& 0x7).toNat ≤ 7 := by
    rw [UInt8.toNat_and]
    exact Nat.and_le_right
  have hlow := (c.byteAt 4).toNat_lt
  rw [Packet.headerSize]
  omega

section Headers

variable {a : Assembler UInt8} {n k : Nat} {c : Capture} (hn : n < 2 ^ 31)

include hn

/-- The dump of a header is at most seven bytes. -/
theorem refused_desyncError (h : Held a n k c) (hsize : a.size ≤ 7) : (desyncError c).Refused := by
  have hfirst := h.captureInfo hn c.captureTs (m := .desynchronization) (by decide)
  have hlen : (captureInfo c c.captureTs .desynchronization).captureSize = a.size :=
    congrArg Assembler.size hfirst.assembler
  refine ⟨_, rfl, (hfirst.captureInfo hn _ (short_packetHeader ?_)).toWritten⟩
  rw [Packet.dataBytes, List.length_map, List.length_range, hlen]
  omega

theorem checkHeader_cases (h : Held a n k c) (hsize : a.size ≤ 7) (htoggle : a.toggle ≤ 1)
    {toggle : Nat} (ht : toggle ≤ 1) (zeroBit : Nat) :
    checkHeader c toggle zeroBit = .ok c ∨ (checkHeader c toggle zeroBit).Refused := by
  have hold : c.captureToggle = a.toggle := congrArg Assembler.toggle h.assembler
  rw [checkHeader]
  split
  · exact Or.inl rfl
  · have hfirst : Held a n k (noteToggle c toggle) := by
      rw [noteToggle]
      split
      · exact h.captureInfo hn _ (short_toggleError ht (hold ▸ htoggle))
      · exact h
    have hsecond : Held a n k (noteZeroBit (noteToggle c toggle) zeroBit) := by
      rw [noteZeroBit]
      split
      · exact hfirst.captureInfo hn _ (by decide)
      · exact hfirst
    exact Or.inr (refused_desyncError hn hsecond hsize)

theorem checkDataSize_cases (h : Held a n k c) (hsize : a.size ≤ 7) :
    (dataHeaderSize ≤ c.headerSize ∧ c.headerSize ≤ maxDataSize ∧
        checkDataSize c c.headerSize = .ok c) ∨ (checkDataSize c c.headerSize).Refused := by
  rw [checkDataSize]
  split
  · rename_i hok
    exact Or.inl ⟨hok.1, hok.2, rfl⟩
  · have hinfo := h.captureInfo hn c.captureTs (short_dataSizeError (headerSize_lt c))
    exact Or.inr (refused_desyncError hn hinfo hsize)

theorem Held.headerTimeout (h : Held a n k c) : Held a n k (headerTimeout c) := by
  rw [Gen1.headerTimeout]
  split
  · exact h.timeoutEvent hn
  · exact h

end Headers

/-- A run that was refused, or goes on. -/
theorem Run.Refused.bind {n : Nat} {r : Run} (h : r.Refused) (f : Capture → Run) :
    Run.Within n (r >>= f) := by
  obtain ⟨e, rfl, he⟩ := h
  exact he

theorem Run.All.bind {P : Capture → Prop} {n : Nat} {r : Run} (h : r.All P) {f : Capture → Run}
    (hwritten : ∀ c, P c → Written c) (hf : ∀ c, P c → Run.Within n (f c)) :
    Run.Within n (r >>= f) := by
  cases r with
  | ok c => exact hf c h
  | error c => exact hwritten c h

/-- **A complete header.** -/
theorem within_headerDone {n : Nat} (hn : n + 1 < 2 ^ 31) {c : Capture}
    (h : Held c.assembler n foldBufSize c) (hheader : c.captureHeader = true)
    (hsize : c.captureSize ≤ 7) (htoggle : c.captureToggle ≤ 1) :
    Run.Within (n + 1) (headerDone c) := by
  have hn' : n < 2 ^ 31 := by omega
  rw [headerDone]
  rcases checkHeader_cases hn' h hsize htoggle (flag_le_one _ _) _ with hok | hrefused
  · have hclock : Held c.headerClock.assembler n foldBufSize c.headerClock :=
      h.rebase rfl rfl rfl
    have htime := hclock.headerTimeout hn'
    have hflag : c.headerClock.assembler.toggle ≤ 1 := Nat.sub_le 1 _
    rw [hok]
    show Run.Within (n + 1) (if (headerTimeout c.headerClock).captureStatus then _ else _)
    split
    · refine Run.All.bind (held_statusEvent hn htime _ _ (flag_le_one _ _) _)
        (fun _ h => h.toWritten) fun d hd => ?_
      have hphase : d.captureHeader = true :=
        (congrArg Assembler.header hd.assembler).trans hheader
      refine ⟨⟨fun _ => Or.inl rfl, fun hfalse => ?_⟩, ?_, hd.rebase rfl rfl rfl⟩
      · exact absurd (hphase.symm.trans hfalse) (by decide)
      · exact (congrArg Assembler.toggle hd.assembler).le.trans hflag
    · rcases checkDataSize_cases hn' htime hsize with ⟨hlo, hhi, hok⟩ | hrefused
      · have hstart : Held (headerTimeout c.headerClock).startPayload.assembler n foldBufSize
            (headerTimeout c.headerClock).startPayload := htime.rebase rfl rfl rfl
        rw [hok]
        refine ⟨⟨fun _ => Or.inl rfl, fun hfalse => ?_⟩, ?_,
          hstart.mono (Nat.le_succ n) (Nat.le_refl _)⟩
        · have hne := of_decide_eq_false hfalse
          have hseven : dataHeaderSize = 7 := rfl
          have hmax : maxDataSize = 1280 := rfl
          show PayloadSize (((headerTimeout c.headerClock).headerSize : Int) - dataHeaderSize) ∧
            ((0 : Nat) : Int) < ((headerTimeout c.headerClock).headerSize : Int) - dataHeaderSize
          rw [PayloadSize]
          omega
        · exact (congrArg Assembler.toggle htime.assembler).le.trans hflag
      · exact hrefused.bind _
  · exact hrefused.bind _

/-- **One byte keeps the bounds**, and counts one group at most. -/
theorem InBounds.captureSm {n : Nat} (hn : n + 1 < 2 ^ 31) {c : Capture} (h : InBounds n c)
    (b : UInt8) : Run.Within (n + 1) (captureSm c b) := by
  have hpush : Held (c.pushed b).assembler n foldBufSize (c.pushed b) := by
    have hsame : (c.pushed b).out = c.out ∧ (c.pushed b).captureFoldCount = c.captureFoldCount ∧
        (c.pushed b).captureFoldBuf = c.captureFoldBuf := by
      rw [Packet.pushed, Packet.startFrame]
      split <;> exact ⟨rfl, rfl, rfl⟩
    exact h.held.rebase hsame.1 hsame.2.1 hsame.2.2
  have htoggle : (c.pushed b).captureToggle ≤ 1 := by
    have hsame : (c.pushed b).captureToggle = c.captureToggle := by
      rw [Packet.pushed, Packet.startFrame]
      split <;> rfl
    exact hsame ▸ h.toggle
  have hframed := h.toFramed.captureSm b
  show Run.Within (n + 1) (frameStep (c.pushed b))
  rw [Packet.captureSm, ← Packet.pushed, Packet.frameStep] at hframed
  rw [frameStep]
  split
  · rename_i hpart
    rw [if_pos hpart] at hframed
    exact ⟨hframed, htoggle, hpush.mono (Nat.le_succ n) (Nat.le_refl _)⟩
  · rename_i hfull
    split
    · rename_i hheader
      refine within_headerDone hn hpush hheader ?_ htoggle
      by_cases hfirst : c.captureHeader = true ∧ c.captureDataPtr = 0
      · -- the first byte of a header is never the last
        have hone := Packet.one_lt_headerLength b
        have hsize : (c.pushed b).captureSize = Packet.headerLength b := by
          rw [Packet.pushed, Packet.startFrame, if_pos (by simp [hfirst]), Packet.headerLength_cast]
          rfl
        have hptr : (c.pushed b).captureDataPtr = 1 := by
          rw [Packet.pushed, Packet.startFrame, if_pos (by simp [hfirst])]
          exact congrArg Nat.succ hfirst.2
        rw [hsize, hptr] at hfull
        exact absurd (Int.ofNat_lt.mpr hone) hfull
      · have hphase : c.captureHeader = true → c.captureDataPtr ≠ 0 :=
          fun hh h0 => hfirst ⟨hh, h0⟩
        rw [Packet.pushed_inside hphase] at hheader ⊢
        have hlen := ((h.toFramed.header hheader).resolve_left (hphase hheader)).2
        have hfour : statusHeaderSize = 4 := rfl
        have hseven : dataHeaderSize = 7 := rfl
        show c.captureSize ≤ 7
        omega
    · rename_i hheader
      have hsize := h.toFramed.pushed_size (Bool.eq_false_iff.mpr hheader)
      have hset : Held (Packet.assembler { c.pushed b with captureHeader := true }) n foldBufSize
          { c.pushed b with captureHeader := true } := hpush.rebase rfl rfl rfl
      refine Run.All.bind (held_dataEvent hn hset hsize) (fun _ h => h.toWritten) fun d hd => ?_
      refine ⟨⟨fun _ => Or.inl rfl, fun hfalse => ?_⟩, ?_, hd.rebase rfl rfl rfl⟩
      · have hphase : d.captureHeader = true := congrArg Assembler.header hd.assembler
        exact absurd (hphase.symm.trans hfalse) (by decide)
      · exact (congrArg Assembler.toggle hd.assembler).le.trans htoggle

theorem within_captureCallback {n : Nat} {c : Capture} (h : InBounds n c) {bs : List UInt8}
    (hn : n + bs.length < 2 ^ 31) : Run.Within (n + bs.length) (captureCallback c bs) := by
  induction bs generalizing n c with
  | nil => exact h
  | cons b bs ih =>
      rw [List.length_cons] at hn ⊢
      have hone := h.captureSm (by omega) b
      rw [captureCallback]
      cases hr : captureSm c b with
      | error e =>
          rw [hr] at hone
          exact hone
      | ok d =>
          rw [hr] at hone
          have hrest := ih hone (by omega)
          rw [Nat.add_right_comm] at hrest
          exact hrest

/-- The state `capture_start` hands to the callbacks. -/
theorem inBounds_announce (opts : PacketOpts) : InBounds 0 (announce opts) := by
  have hnew : Held (Packet.new opts : Capture).assembler 0 foldBufSize (Packet.new opts) :=
    ⟨⟨fun _ _ hr => (List.not_mem_nil hr).elim, fun _ _ hr => (List.not_mem_nil hr).elim⟩, rfl,
      Nat.le_refl 0, Nat.zero_le _, fun _ hf => (List.not_mem_nil hf).elim⟩
  have hinfo : ∀ ts m, Short m → ∀ enabled, InBounds 0
      { captureInfo (Packet.new opts) ts m with captureEnabled := enabled } := by
    intro ts m hm enabled
    have hheld := hnew.captureInfo (by norm_num) ts hm
    have hphase := congrArg Assembler.header hheld.assembler
    have hptr := congrArg Assembler.dataPtr hheld.assembler
    have htoggle := congrArg Assembler.toggle hheld.assembler
    refine ⟨⟨fun _ => Or.inl hptr, fun hfalse => ?_⟩, ?_, hheld.rebase rfl rfl rfl⟩
    · have hclash : true = false := hphase.symm.trans hfalse
      cases hclash
    · exact htoggle.le.trans (Nat.zero_le 1)
  rw [announce]
  split
  · exact hinfo _ _ (by decide) true
  · exact hinfo _ _ (by decide) _

/-- **Every run of `capture.c`.** Between two bytes the assembler is
inside `capture_data`, the fold buffer has no more than its entries, each
a keep-alive or a payload; and whether the program goes on or exits,
every packet it wrote was a payload and every text fits `str`. -/
theorem capture_within (opts : PacketOpts) {bs : List UInt8} (hbs : bs.length < 2 ^ 31) :
    Run.Within bs.length (captureCallback (announce opts) bs) := by
  have hn : 0 + bs.length < 2 ^ 31 := by rwa [Nat.zero_add]
  have h := within_captureCallback (inBounds_announce opts) hn
  rwa [Nat.zero_add] at h

end UsbSniffer.Gen1
