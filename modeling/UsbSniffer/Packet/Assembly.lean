import UsbSniffer.Packet.Records

/-!
# Collecting a header or a payload

`capture_sm` takes one byte at a time and shares one buffer, one size and
one pointer between the header phase and the payload phase. From the
outside only two things happen: a whole header is collected and handled
(`feed_header`), or a whole payload is (`feed_payload`).
-/

namespace UsbSniffer.Packet

variable {β : Type}

/-- The buffer after `bytes` are stored from position `k` on. -/
def storeBytes (data : Nat → β) : Nat → List β → (Nat → β)
  | _, [] => data
  | k, b :: bs => storeBytes (Function.update data k b) (k + 1) bs

theorem storeBytes_below (bs : List β) {k i : Nat} (hi : i < k) (data : Nat → β) :
    storeBytes data k bs i = data i := by
  induction bs generalizing k data with
  | nil => rfl
  | cons b bs ih =>
      rw [storeBytes, ih (by omega), Function.update_of_ne (by omega)]

/-- What was stored is read back. -/
theorem map_storeBytes (bs : List β) (k : Nat) (data : Nat → β) :
    (List.range bs.length).map (fun i => storeBytes data k bs (k + i)) = bs := by
  induction bs generalizing k data with
  | nil => rfl
  | cons b bs ih =>
      have hhead : storeBytes data k (b :: bs) (k + 0) = b := by
        show storeBytes (Function.update data k b) (k + 1) bs k = b
        rw [storeBytes_below bs (Nat.lt_add_one k), Function.update_self]
      have htail : (List.range bs.length).map
          ((fun i => storeBytes data k (b :: bs) (k + i)) ∘ Nat.succ) = bs := by
        refine (List.map_congr_left fun i _ => ?_).trans (ih (k + 1) (Function.update data k b))
        rw [Function.comp_apply, storeBytes, show k + Nat.succ i = k + 1 + i by omega]
      rw [List.length_cons, List.range_succ_eq_map, List.map_cons, List.map_map, hhead, htail]

/-- The payload in the buffer is what was fed. -/
theorem dataBytes_storeBytes {p : Packet β} {data : Nat → β} {bs : List β}
    (h : p.captureData = storeBytes data 0 bs) : p.dataBytes bs.length = bs := by
  have hm := map_storeBytes bs 0 data
  simp only [Nat.zero_add] at hm
  rw [dataBytes, h]
  exact hm

theorem storeBytes_get (data : Nat → β) (bs : List β) (i : Fin bs.length) :
    storeBytes data 0 bs i = bs.get i := by
  have h := congrArg (fun l => l[i.1]?) (map_storeBytes bs 0 data)
  simpa using h

variable [ByteLike β]

theorem startFrame_inside {p : Packet β} (h : p.captureHeader = true → p.captureDataPtr ≠ 0)
    (b : β) : p.startFrame b = p := by
  rw [startFrame, if_neg]
  intro hs
  rw [Bool.and_eq_true, beq_iff_eq] at hs
  exact h hs.1 hs.2

theorem frameStep_header {p : Packet β} (hfull : p.captureSize ≤ p.captureDataPtr)
    (hh : p.captureHeader = true) : p.frameStep = p.headerDone := by
  rw [frameStep, if_neg (not_lt.mpr hfull), if_pos hh]

theorem frameStep_payload {p : Packet β} (hfull : p.captureSize ≤ p.captureDataPtr)
    (hh : p.captureHeader = false) : p.frameStep = p.payloadDone := by
  rw [frameStep, if_neg (not_lt.mpr hfull), if_neg (by simp [hh])]

/-- A byte of a header or payload that does not complete it is stored. -/
theorem captureSm_part {p : Packet β} (hphase : p.captureHeader = true → p.captureDataPtr ≠ 0)
    (hlt : (p.captureDataPtr : Int) + 1 < p.captureSize) (b : β) :
    p.captureSm b = p.storeByte b := by
  have hstored : ((p.storeByte b).captureDataPtr : Int) < (p.storeByte b).captureSize := hlt
  rw [captureSm, startFrame_inside hphase, frameStep, if_pos hstored]

/-- The rest of a header, or a payload: the bytes are stored, and the
last one completes it. -/
theorem feed_rest {bs : List β} {p : Packet β} (hd : p.done = false)
    (hphase : p.captureHeader = true → p.captureDataPtr ≠ 0) (hne : bs ≠ [])
    (hlen : (p.captureDataPtr : Int) + bs.length = p.captureSize) :
    p.feed bs = frameStep
      { p with
        captureData := storeBytes p.captureData p.captureDataPtr bs
        captureDataPtr := p.captureDataPtr + bs.length } := by
  induction bs generalizing p with
  | nil => exact absurd rfl hne
  | cons b bs ih =>
      rw [List.length_cons, Nat.cast_succ] at hlen
      by_cases hbs : bs = []
      · subst hbs
        rw [feed_cons hd, captureSm, startFrame_inside hphase, feed_nil, storeByte, storeBytes,
          storeBytes, List.length_singleton]
      · -- not the last byte: the step stores it and nothing else
        have hpos : 0 < bs.length := List.length_pos_iff.mpr hbs
        rw [feed_cons hd, captureSm_part hphase (by omega)]
        refine (ih (p := p.storeByte b) hd ?_ hbs ?_).trans ?_
        · exact fun _ => Nat.succ_ne_zero _
        · show ((p.captureDataPtr + 1 : Nat) : Int) + bs.length = p.captureSize
          omega
        · simp only [storeByte, storeBytes, List.length_cons, Nat.add_assoc, Nat.add_comm 1]

/-- A part of a header or payload that does not complete it: the bytes
are stored. -/
theorem feed_part {bs : List β} {p : Packet β} (hd : p.done = false)
    (hphase : p.captureHeader = true → p.captureDataPtr ≠ 0)
    (hlen : (p.captureDataPtr : Int) + bs.length < p.captureSize) :
    p.feed bs =
      { p with
        captureData := storeBytes p.captureData p.captureDataPtr bs
        captureDataPtr := p.captureDataPtr + bs.length } := by
  induction bs generalizing p with
  | nil => rw [feed_nil, storeBytes, List.length_nil, Nat.add_zero]
  | cons b bs ih =>
      rw [List.length_cons, Nat.cast_succ] at hlen
      rw [feed_cons hd, captureSm_part hphase (by omega)]
      refine (ih (p := p.storeByte b) hd ?_ ?_).trans ?_
      · exact fun _ => Nat.succ_ne_zero _
      · show ((p.captureDataPtr + 1 : Nat) : Int) + bs.length < p.captureSize
        omega
      · simp only [storeByte, storeBytes, List.length_cons, Nat.add_assoc, Nat.add_comm 1]

/-- The length of the header a byte starts. -/
def headerLength (b : β) : Nat := if startsStatus b then statusHeaderSize else dataHeaderSize

theorem one_lt_headerLength (b : β) : 1 < headerLength b := by
  rw [headerLength]
  split <;> decide

theorem headerLength_cast (b : β) : (headerLength b : Int) =
    if startsStatus b then (statusHeaderSize : Int) else (dataHeaderSize : Int) := by
  rw [headerLength]
  split <;> rfl

/-- A complete header in the buffer. -/
def withHeader (p : Packet β) (b : β) (bs : List β) : Packet β :=
  { p with
    captureStatus := startsStatus b
    captureSize := headerLength b
    captureData := storeBytes p.captureData 0 (b :: bs)
    captureDataPtr := headerLength b }

/-- The first byte of a header, from the boundary between two frames. -/
theorem captureSm_first {p : Packet β} (hh : p.captureHeader = true) (h0 : p.captureDataPtr = 0)
    (b : β) :
    p.captureSm b =
      { p with
        captureStatus := startsStatus b
        captureSize := headerLength b
        captureData := Function.update p.captureData 0 b
        captureDataPtr := 1 } := by
  have h1 := one_lt_headerLength b
  have hstart : p.startFrame b =
      { p with captureStatus := startsStatus b, captureSize := headerLength b } := by
    rw [startFrame, if_pos (by simp [hh, h0]), headerLength_cast]
  have hstep : frameStep ((p.startFrame b).storeByte b) = (p.startFrame b).storeByte b := by
    rw [frameStep, if_pos]
    rw [hstart]
    show ((p.captureDataPtr + 1 : Nat) : Int) < headerLength b
    omega
  rw [captureSm, hstep, hstart]
  simp only [storeByte, h0]

/-- The beginning of a header, from the boundary between two frames:
nothing is handled. -/
theorem feed_header_begin {p : Packet β} (hd : p.done = false) (hh : p.captureHeader = true)
    (h0 : p.captureDataPtr = 0) (b : β) (bs : List β) (hlen : bs.length + 1 < headerLength b) :
    (p.feed (b :: bs)).out = p.out ∧ (p.feed (b :: bs)).done = false := by
  rw [feed_cons hd, captureSm_first hh h0, feed_part]
  · exact ⟨rfl, hd⟩
  · exact hd
  · exact fun _ => Nat.one_ne_zero
  · show ((1 : Nat) : Int) + bs.length < headerLength b
    omega

/-- **A whole header**, from the boundary between two frames. -/
theorem feed_header {p : Packet β} (hd : p.done = false) (hh : p.captureHeader = true)
    (h0 : p.captureDataPtr = 0) (b : β) (bs : List β) (hlen : bs.length + 1 = headerLength b) :
    p.feed (b :: bs) = headerDone (p.withHeader b bs) := by
  have h1 := one_lt_headerLength b
  have hne : bs ≠ [] := by
    intro hnil
    rw [hnil] at hlen
    simp only [List.length_nil] at hlen
    omega
  rw [feed_cons hd, captureSm_first hh h0]
  refine (feed_rest ?_ ?_ hne ?_).trans ?_
  · exact hd
  · exact fun _ => Nat.one_ne_zero
  · show ((1 : Nat) : Int) + bs.length = headerLength b
    omega
  · have hfull : 1 + bs.length = headerLength b := by omega
    simp only [hfull]
    exact frameStep_header (le_refl _) hh

/-- **A whole payload**, behind its header. -/
theorem feed_payload {p : Packet β} (hd : p.done = false) (hh : p.captureHeader = false)
    (h0 : p.captureDataPtr = 0) {bs : List β} (hne : bs ≠ []) (hlen : bs.length = p.captureSize) :
    p.feed bs = payloadDone
      { p with
        captureData := storeBytes p.captureData 0 bs
        captureDataPtr := bs.length } := by
  have hrest := feed_rest hd (fun h => absurd h (by simp [hh])) hne (by simp [h0, hlen])
  rw [h0, Nat.zero_add] at hrest
  exact hrest.trans (frameStep_payload (le_of_eq hlen.symm) hh)

end UsbSniffer.Packet
