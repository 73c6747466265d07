import Mathlib.Tactic

/-!
# The frame walk of `usbcap_fast`

`stats_push` of `tools/usbcap_fast.c`: the measuring tool walks the
capture frames of every payload it takes off the stream and counts the
flags in their headers. Its state outlives a call, since the payload of
a block ends anywhere in a frame.

What the walk is FOR is a machine that takes one byte at a time and
remembers how much of a status frame is still to be skipped
(`walkByte`), and whose counters are a tally of the data frames
(`walkBytes_counts`). Within a call `stats_push` is that machine
(`statsPush_eq`); but the bytes it steps over with `i += 4` behind the
end of a call are forgotten, so over several calls it is that machine
over the closed sequence, where every status frame that a call ends in
is over with the call (`statsRun_closed`). Exactly where that sequence
tallies like the bytes themselves the calls do not matter
(`counters_split_iff`).
-/

namespace UsbSniffer.Tools.Stats

/-- `rec_total`, `ev_*` and `pkts_*`. -/
structure Counters where
  recTotal : UInt64
  evCrc : UInt64
  evOvf : UInt64
  evDerr : UInt64
  pktsCrc : UInt64
  pktsOvf : UInt64
  pktsDerr : UInt64
deriving Repr, DecidableEq

/-- The static variables of the walk. `fbuf` holds the `flen` bytes of
the frame that has been started; the three flags are those of the last
frame. -/
structure Walk where
  counters : Counters
  stCrc : Bool
  stOvf : Bool
  stDerr : Bool
  fbuf : List UInt8
  faligned : Bool
deriving Repr, DecidableEq

/-- All of it zero, as the program starts. -/
def Walk.new : Walk :=
  { counters := ⟨0, 0, 0, 0, 0, 0, 0⟩, stCrc := false, stOvf := false, stDerr := false,
    fbuf := [], faligned := false }

/-- `((fbuf[3] & 7) << 8) | fbuf[4]`. -/
def frameSize (fbuf : List UInt8) : Nat :=
  ((fbuf.getD 3 0 &&& 7).toNat <<< 8) ||| (fbuf.getD 4 0).toNat

/-- `faligned = 0; flen = 0`. -/
def Walk.reset (s : Walk) : Walk := { s with faligned := false, fbuf := [] }

/-- One bit of the flag byte of the frame. -/
def Walk.flag (s : Walk) (bit : UInt8) : Bool := (s.fbuf.getD 3 0 >>> bit) &&& 1 ≠ 0

def bump (b : Bool) (n : UInt64) : UInt64 := if b then n + 1 else n

/-- A complete frame is counted: an event where a flag rises, a packet
where it is set. -/
def Walk.countFrame (s : Walk) : Walk :=
  let c := s.flag 4
  let o := s.flag 3
  let e := s.flag 5
  { s with
    counters :=
      { recTotal := s.counters.recTotal + 1
        evCrc := bump (c && !s.stCrc) s.counters.evCrc
        evOvf := bump (o && !s.stOvf) s.counters.evOvf
        evDerr := bump (e && !s.stDerr) s.counters.evDerr
        pktsCrc := bump c s.counters.pktsCrc
        pktsOvf := bump o s.counters.pktsOvf
        pktsDerr := bump e s.counters.pktsDerr }
    stCrc := c
    stOvf := o
    stDerr := e }

/-- `fbuf[flen++] = d[i++]` for some bytes. -/
def Walk.add (s : Walk) (x : List UInt8) : Walk := { s with fbuf := s.fbuf ++ x }

/-- `while (flen < need && i < n) fbuf[flen++] = d[i++];` -/
def Walk.fill (s : Walk) (need : Nat) (d : List UInt8) : Walk :=
  s.add (d.take (need - s.fbuf.length))

/-- What that loop leaves of the data. -/
def Walk.unread (s : Walk) (need : Nat) (d : List UInt8) : List UInt8 :=
  d.drop (need - s.fbuf.length)

/-- `stats_push`. -/
def statsPush (s : Walk) (d : List UInt8) : Walk :=
  match d with
  | [] => s
  | c :: rest =>
      if s.faligned = false then
        if c &&& 0x80 ≠ 0 then statsPush { s with fbuf := [c], faligned := true } rest
        -- `i += 4`, also past the end of the data
        else statsPush s ((c :: rest).drop 4)
      else
        let s₁ := s.fill 7 (c :: rest)
        let d₁ := s.unread 7 (c :: rest)
        if s₁.fbuf.length < 7 then s₁
        else if frameSize s₁.fbuf < 7 ∨ frameSize s₁.fbuf > 2048 then statsPush s₁.reset d₁
        else
          let s₂ := s₁.fill (frameSize s₁.fbuf) d₁
          let d₂ := s₁.unread (frameSize s₁.fbuf) d₁
          if s₂.fbuf.length < frameSize s₁.fbuf then s₂
          else statsPush s₂.countFrame.reset d₂
termination_by 2 * d.length + (if s.faligned then 1 else 0)
decreasing_by
  all_goals simp_all [Walk.reset, Walk.unread]
  all_goals omega

/-! ## One byte at a time -/

/-- A frame with these bytes needs more of them. -/
def waits (fbuf : List UInt8) : Prop :=
  fbuf.length < 7 ∨ 7 ≤ frameSize fbuf ∧ frameSize fbuf ≤ 2048 ∧ fbuf.length < frameSize fbuf

instance (fbuf : List UInt8) : Decidable (waits fbuf) := by
  unfold waits
  infer_instance

/-- What becomes of a frame when a byte has been added to it. -/
def Walk.settle (s : Walk) : Walk :=
  if waits s.fbuf then s
  else if frameSize s.fbuf < 7 ∨ frameSize s.fbuf > 2048 then s.reset
  else s.countFrame.reset

/-- The walk over one byte, with the bytes of a status frame that are
still to be skipped. -/
def walkByte (w : Walk × Nat) (b : UInt8) : Walk × Nat :=
  match w with
  | (s, k + 1) => (s, k)
  | (s, 0) =>
      if s.faligned = false then
        if b &&& 0x80 ≠ 0 then ({ s with fbuf := [b], faligned := true }, 0) else (s, 3)
      else ((s.add [b]).settle, 0)

/-- The walk over some bytes. -/
def walkBytes (w : Walk × Nat) (d : List UInt8) : Walk × Nat := d.foldl walkByte w

@[simp] theorem walkBytes_nil (w : Walk × Nat) : walkBytes w [] = w := rfl

@[simp] theorem walkBytes_cons (w : Walk × Nat) (b : UInt8) (d : List UInt8) :
    walkBytes w (b :: d) = walkBytes (walkByte w b) d := rfl

theorem walkBytes_append (w : Walk × Nat) (x y : List UInt8) :
    walkBytes w (x ++ y) = walkBytes (walkBytes w x) y := List.foldl_append

theorem walkBytes_skip (s : Walk) (k : Nat) (d : List UInt8) :
    walkBytes (s, k) d = walkBytes (s, k - d.length) (d.drop k) := by
  induction d generalizing k with
  | nil => simp
  | cons b d ih =>
      cases k with
      | zero => simp
      | succ k =>
          rw [walkBytes_cons, List.drop_succ_cons, List.length_cons, Nat.add_sub_add_right]
          exact ih k

/-! ## Within a frame -/

theorem frameSize_append {fbuf : List UInt8} (h : 5 ≤ fbuf.length) (x : List UInt8) :
    frameSize (fbuf ++ x) = frameSize fbuf := by
  have hget : ∀ i < 5, (fbuf ++ x).getD i 0 = fbuf.getD i 0 := by
    intro i hi
    rw [List.getD_eq_getElem?_getD, List.getD_eq_getElem?_getD, List.getElem?_append_left (by omega)]
  rw [frameSize, frameSize, hget 3 (by omega), hget 4 (by omega)]

theorem waits_of_append {fbuf x : List UInt8} (h : waits (fbuf ++ x)) : waits fbuf := by
  by_cases hshort : fbuf.length < 7
  · exact .inl hshort
  · obtain hlen | ⟨hlow, hhigh, hlen⟩ := h
    · rw [List.length_append] at hlen
      exact .inl (by omega)
    · rw [frameSize_append (by omega)] at hlow hhigh hlen
      rw [List.length_append] at hlen
      exact .inr ⟨hlow, hhigh, by omega⟩

@[simp] theorem add_fbuf (s : Walk) (x : List UInt8) : (s.add x).fbuf = s.fbuf ++ x := rfl

@[simp] theorem add_faligned (s : Walk) (x : List UInt8) : (s.add x).faligned = s.faligned := rfl

theorem add_nil (s : Walk) : s.add [] = s := by
  simp [Walk.add]

theorem add_add (s : Walk) (x y : List UInt8) : (s.add x).add y = s.add (x ++ y) := by
  simp [Walk.add]

theorem walkByte_aligned {s : Walk} (ha : s.faligned = true) (b : UInt8) :
    walkByte (s, 0) b = ((s.add [b]).settle, 0) := by
  simp [walkByte, ha]

theorem settle_of_waits {s : Walk} (h : waits s.fbuf) : s.settle = s := by
  rw [Walk.settle, if_pos h]

/-- Bytes that do not complete the frame are added to it. -/
theorem walkBytes_waits {s : Walk} (ha : s.faligned = true) {x : List UInt8}
    (h : waits (s.fbuf ++ x)) : walkBytes (s, 0) x = (s.add x, 0) := by
  induction x generalizing s with
  | nil => rw [walkBytes_nil, add_nil]
  | cons b x ih =>
      rw [List.append_cons] at h
      have hb : waits (s.add [b]).fbuf := waits_of_append h
      rw [walkBytes_cons, walkByte_aligned ha, settle_of_waits hb, ih (s := s.add [b]) ha h, add_add,
        List.singleton_append]

/-- The byte that completes it settles the frame. -/
theorem walkBytes_settles {s : Walk} (ha : s.faligned = true) {x : List UInt8} (hx : x ≠ [])
    (h : waits (s.fbuf ++ x.dropLast)) : walkBytes (s, 0) x = ((s.add x).settle, 0) := by
  have hsplit := List.dropLast_append_getLast hx
  have hadd : (s.add x.dropLast).add [x.getLast hx] = s.add x := by rw [add_add, hsplit]
  have hlast : walkByte (s.add x.dropLast, 0) (x.getLast hx) = ((s.add x).settle, 0) := by
    rw [walkByte_aligned (s := s.add x.dropLast) ha, hadd]
  calc walkBytes (s, 0) x = walkBytes (s, 0) (x.dropLast ++ [x.getLast hx]) := by rw [hsplit]
    _ = walkByte (s.add x.dropLast, 0) (x.getLast hx) := by
        rw [walkBytes_append, walkBytes_waits ha h, walkBytes_cons, walkBytes_nil]
    _ = ((s.add x).settle, 0) := hlast

/-! ## One call -/

/-- Between two calls a started frame is incomplete. -/
def Walk.Started (s : Walk) : Prop := s.faligned = true → waits s.fbuf

theorem started_of_reset (s : Walk) : s.reset.Started := by
  intro h
  cases h

/-- One byte before its end a frame waits. -/
theorem waits_dropLast {fbuf x : List UInt8} (hx : x ≠ [])
    (h : (fbuf ++ x).length ≤ 7 ∨ 7 ≤ frameSize (fbuf ++ x) ∧ frameSize (fbuf ++ x) ≤ 2048 ∧
      (fbuf ++ x).length ≤ frameSize (fbuf ++ x)) : waits (fbuf ++ x.dropLast) := by
  have hpos : 0 < x.length := List.length_pos_iff.mpr hx
  have hsplit : fbuf ++ x = (fbuf ++ x.dropLast) ++ [x.getLast hx] := by
    rw [List.append_assoc, List.dropLast_append_getLast hx]
  have hlen : (fbuf ++ x).length = (fbuf ++ x.dropLast).length + 1 := by
    rw [hsplit, List.length_append, List.length_singleton]
  by_cases hshort : (fbuf ++ x.dropLast).length < 7
  · exact .inl hshort
  · have hsize : frameSize (fbuf ++ x) = frameSize (fbuf ++ x.dropLast) := by
      rw [hsplit, frameSize_append (by omega)]
    rw [hsize] at h
    exact .inr (by omega)

/-- The bytes up to the end of the frame settle it. -/
theorem walkBytes_complete {s : Walk} (ha : s.faligned = true) {x : List UInt8} (hx : x ≠ [])
    (h : (s.add x).fbuf.length ≤ 7 ∨ 7 ≤ frameSize (s.add x).fbuf ∧
      frameSize (s.add x).fbuf ≤ 2048 ∧ (s.add x).fbuf.length ≤ frameSize (s.add x).fbuf)
    (d : List UInt8) : walkBytes (s, 0) (x ++ d) = walkBytes ((s.add x).settle, 0) d := by
  rw [walkBytes_append, walkBytes_settles ha hx (waits_dropLast hx h)]

theorem fill_length (s : Walk) (need : Nat) (d : List UInt8) :
    (s.fill need d).fbuf.length = s.fbuf.length + min (need - s.fbuf.length) d.length := by
  simp [Walk.fill]

/-- A loop that runs out of data has taken all of it. -/
theorem fill_short {s : Walk} {need : Nat} {d : List UInt8}
    (h : (s.fill need d).fbuf.length < need) : s.fill need d = s.add d := by
  rw [fill_length] at h
  rw [Walk.fill, List.take_of_length_le (by omega)]

/-- The two loops of the source one after the other. -/
theorem fill_fill {s : Walk} {d : List UInt8} {size : Nat} (hlen : 7 ≤ (s.fill 7 d).fbuf.length)
    (hsize : (s.fill 7 d).fbuf.length ≤ size) :
    (s.fill 7 d).fill size (s.unread 7 d) = s.fill size d ∧
      (s.fill 7 d).unread size (s.unread 7 d) = s.unread size d := by
  rw [fill_length] at hlen hsize
  have hsum : 7 - s.fbuf.length + (size - (s.fill 7 d).fbuf.length) = size - s.fbuf.length := by
    rw [fill_length]
    omega
  constructor
  · have hadd : (s.fill 7 d).fill size (s.unread 7 d) =
        s.add (d.take (7 - s.fbuf.length) ++
          (d.drop (7 - s.fbuf.length)).take (size - (s.fill 7 d).fbuf.length)) := add_add _ _ _
    rw [hadd, ← List.take_add, hsum, Walk.fill]
  · rw [Walk.unread, Walk.unread, List.drop_drop, hsum, Walk.unread]

/-- **Within a call `stats_push` is the walk over the bytes.** -/
theorem statsPush_eq {s : Walk} (hs : s.Started) (d : List UInt8) :
    statsPush s d = (walkBytes (s, 0) d).1 ∧ (statsPush s d).Started := by
  fun_induction statsPush s d with
  | case1 s => exact ⟨rfl, hs⟩
  | case2 s c rest ha hbit ih =>
      rw [walkBytes_cons, walkByte, if_pos ha, if_pos hbit]
      exact ih (fun _ => .inl (by simp))
  | case3 s c rest ha hbit ih =>
      rw [walkBytes_cons, walkByte, if_pos ha, if_neg hbit, walkBytes_skip]
      obtain ⟨heq, hstart⟩ := ih hs
      refine ⟨?_, hstart⟩
      rw [heq]
      by_cases hin : 3 ≤ rest.length
      · rw [Nat.sub_eq_zero_of_le hin]
        rfl
      · -- the call ends within the status frame
        have hnone : rest.drop 3 = [] := List.drop_eq_nil_of_le (by omega)
        rw [List.drop_succ_cons, hnone]
        rfl
  | case4 s c rest ha s₁ hshort =>
      rw [Bool.not_eq_false] at ha
      have hwait : waits (s.add (c :: rest)).fbuf := .inl (by rw [← fill_short hshort]; exact hshort)
      rw [walkBytes_waits ha hwait]
      have hall : s₁ = s.add (c :: rest) := fill_short hshort
      rw [hall]
      exact ⟨rfl, fun _ => hwait⟩
  | case5 s c rest ha s₁ d₁ hlen hsize ih =>
      rw [Bool.not_eq_false] at ha
      have hwait := hs ha
      have hbare : s.fbuf.length < 7 := by
        obtain hlt | ⟨hlow, hhigh, -⟩ := hwait
        · exact hlt
        · by_contra hge
          rw [show frameSize s₁.fbuf = frameSize s.fbuf from frameSize_append (by omega) _] at hsize
          omega
      have hs₁ : s₁.fbuf.length = 7 := by
        have h := fill_length s 7 (c :: rest)
        have hlen' : ¬ (s.fill 7 (c :: rest)).fbuf.length < 7 := hlen
        show (s.fill 7 (c :: rest)).fbuf.length = 7
        omega
      have hx : (c :: rest).take (7 - s.fbuf.length) ≠ [] := by
        rw [show 7 - s.fbuf.length = (6 - s.fbuf.length) + 1 by omega, List.take_succ_cons]
        exact List.cons_ne_nil _ _
      have hsettle : s₁.settle = s₁.reset := by
        rw [Walk.settle, if_neg (by rw [waits]; omega), if_pos hsize]
      have hwalk : walkBytes (s, 0) (c :: rest) = walkBytes (s₁.reset, 0) d₁ := by
        have h := walkBytes_complete ha hx (.inl (le_of_eq hs₁)) ((c :: rest).drop (7 - s.fbuf.length))
        rw [List.take_append_drop] at h
        rw [h, ← hsettle]
        rfl
      rw [hwalk]
      exact ih (started_of_reset s₁)
  | case6 s c rest ha s₁ d₁ hlen hsize s₂ hshort =>
      rw [Bool.not_eq_false] at ha
      have hs₂ : s₂ = s.add (c :: rest) := by
        have hall : s₂ = s₁.add d₁ := fill_short hshort
        have hadd : s₁.add d₁ = s.add ((c :: rest).take (7 - s.fbuf.length) ++
          (c :: rest).drop (7 - s.fbuf.length)) := add_add _ _ _
        rw [hall, hadd, List.take_append_drop]
      have hframe : frameSize s₂.fbuf = frameSize s₁.fbuf := frameSize_append (by omega) _
      have hwait : waits s₂.fbuf := .inr (by rw [hframe]; omega)
      rw [walkBytes_waits ha (by rw [hs₂] at hwait; exact hwait)]
      exact ⟨hs₂, fun _ => hwait⟩
  | case7 s c rest ha s₁ d₁ hlen hsize s₂ d₂ hfull ih =>
      rw [Bool.not_eq_false] at ha
      have hwait := hs ha
      have hframe : frameSize s₂.fbuf = frameSize s₁.fbuf := frameSize_append (by omega) _
      have hroom : s.fbuf.length < frameSize s₁.fbuf ∧ s₁.fbuf.length ≤ frameSize s₁.fbuf := by
        have hs₁ : s₁.fbuf.length = _ := fill_length s 7 (c :: rest)
        obtain hlt | ⟨hlow, hhigh, hlt⟩ := hwait
        · omega
        · by_cases hbare : s.fbuf.length < 7
          · omega
          · rw [show frameSize s₁.fbuf = frameSize s.fbuf from frameSize_append (by omega) _]
            omega
      obtain ⟨hfill, hunread⟩ := fill_fill (s := s) (d := c :: rest) (not_lt.mp hlen) hroom.2
      have hs₂ : s₂ = s.fill (frameSize s₁.fbuf) (c :: rest) := hfill
      have hd₂ : d₂ = s.unread (frameSize s₁.fbuf) (c :: rest) := hunread
      have hlen₂ : s₂.fbuf.length = frameSize s₁.fbuf := by
        rw [hs₂] at hfull ⊢
        rw [fill_length] at hfull ⊢
        omega
      have hx : (c :: rest).take (frameSize s₁.fbuf - s.fbuf.length) ≠ [] := by
        rw [show frameSize s₁.fbuf - s.fbuf.length = (frameSize s₁.fbuf - s.fbuf.length - 1) + 1 by
          omega, List.take_succ_cons]
        exact List.cons_ne_nil _ _
      have hsettle : s₂.settle = s₂.countFrame.reset := by
        rw [Walk.settle, if_neg (by rw [waits, hframe]; omega), if_neg (by rw [hframe]; exact hsize)]
      have hwalk : walkBytes (s, 0) (c :: rest) = walkBytes (s₂.countFrame.reset, 0) d₂ := by
        have hok : 7 ≤ frameSize s₂.fbuf ∧ frameSize s₂.fbuf ≤ 2048 ∧
            s₂.fbuf.length ≤ frameSize s₂.fbuf := by
          rw [hframe]
          omega
        rw [hs₂] at hok
        have h := walkBytes_complete ha hx (.inr hok)
          ((c :: rest).drop (frameSize s₁.fbuf - s.fbuf.length))
        rw [List.take_append_drop] at h
        rw [h, ← hsettle, hs₂, hd₂]
        rfl
      rw [hwalk]
      exact ih (started_of_reset s₂.countFrame)

/-! ## Frames of the byte sequence -/

/-- How many bytes of the status frame are missing that the bytes of a
capture end in; frames are cut off its front one by one. A status frame
is four bytes, a data frame its size. -/
def statusLeft (d : List UInt8) : Nat :=
  match d with
  | [] => 0
  | c :: rest =>
      if c &&& 0x80 = 0 then
        if rest.length < 3 then 3 - rest.length else statusLeft (rest.drop 3)
      else if (c :: rest).length < max 7 (frameSize (c :: rest)) then 0
      else statusLeft ((c :: rest).drop (max 7 (frameSize (c :: rest))))
termination_by d.length
decreasing_by
  all_goals simp only [List.length_drop, List.length_cons]
  all_goals omega

/-- The flag bytes of the complete data frames. -/
def dataFlags (d : List UInt8) : List UInt8 :=
  match d with
  | [] => []
  | c :: rest =>
      if c &&& 0x80 = 0 then dataFlags (rest.drop 3)
      else if (c :: rest).length < max 7 (frameSize (c :: rest)) then []
      else if frameSize (c :: rest) < 7 then
        dataFlags ((c :: rest).drop (max 7 (frameSize (c :: rest))))
      else
        (c :: rest).getD 3 0 :: dataFlags ((c :: rest).drop (max 7 (frameSize (c :: rest))))
termination_by d.length
decreasing_by
  all_goals simp only [List.length_drop, List.length_cons]
  all_goals omega

theorem frameSize_lt (fbuf : List UInt8) : frameSize fbuf < 2048 := by
  have h3 : (fbuf.getD 3 0 &&& 7).toNat ≤ 7 := by
    rw [UInt8.toNat_and]
    exact Nat.and_le_right
  have h4 := (fbuf.getD 4 0).toNat_lt
  rw [frameSize]
  apply Nat.or_lt_two_pow (n := 11)
  · rw [Nat.shiftLeft_eq]
    omega
  · omega

theorem settle_faligned {s : Walk} (h : ¬ waits s.fbuf) : s.settle.faligned = false := by
  rw [Walk.settle, if_neg h]
  split
  · rfl
  · rfl

/-- `fbuf[0] = c; flen = 1; faligned = 1`. -/
def Walk.start (s : Walk) (c : UInt8) : Walk := { s with fbuf := [c], faligned := true }

/-- A frame with these flags is counted. -/
def Walk.countFlags (s : Walk) (flags : UInt8) : Walk :=
  ({ s with fbuf := [0, 0, 0, flags] } : Walk).countFrame.reset

theorem walkByte_status {s : Walk} (ha : s.faligned = false) {c : UInt8} (hbit : c &&& 0x80 = 0) :
    walkByte (s, 0) c = (s, 3) := by
  simp [walkByte, ha, hbit]

theorem walkByte_data {s : Walk} (ha : s.faligned = false) {c : UInt8} (hbit : ¬ c &&& 0x80 = 0) :
    walkByte (s, 0) c = (s.start c, 0) := by
  simp [walkByte, ha, hbit, Walk.start]

/-- A data frame that the bytes end in. -/
theorem walkBytes_dataFrame_part {s : Walk} (ha : s.faligned = false) {c : UInt8}
    {rest : List UInt8} (hbit : ¬ c &&& 0x80 = 0)
    (hshort : (c :: rest).length < max 7 (frameSize (c :: rest))) :
    walkBytes (s, 0) (c :: rest) = ((s.start c).add rest, 0) := by
  have hlt := frameSize_lt (c :: rest)
  have hwait : waits ((s.start c).fbuf ++ rest) := by
    show waits (c :: rest)
    rw [waits]
    omega
  rw [walkBytes_cons, walkByte_data ha hbit, walkBytes_waits rfl hwait]

/-- A whole data frame is counted, unless its size is less than that of
its header. -/
theorem walkBytes_dataFrame {s : Walk} (ha : s.faligned = false) {c : UInt8}
    {rest : List UInt8} (hbit : ¬ c &&& 0x80 = 0)
    (hlong : ¬ (c :: rest).length < max 7 (frameSize (c :: rest))) :
    ∃ s' : Walk, s'.faligned = false ∧
      s'.reset = (if frameSize (c :: rest) < 7 then s.reset
        else s.reset.countFlags ((c :: rest).getD 3 0)) ∧
      walkBytes (s, 0) (c :: rest) =
        walkBytes (s', 0) ((c :: rest).drop (max 7 (frameSize (c :: rest)))) := by
  generalize hL : max 7 (frameSize (c :: rest)) = len at hlong
  have hlt := frameSize_lt (c :: rest)
  obtain ⟨k, rfl⟩ : ∃ k, len = k + 1 := ⟨len - 1, by omega⟩
  rw [List.length_cons] at hlong
  have hadd : ((s.start c).add (rest.take k)).fbuf = (c :: rest).take (k + 1) := rfl
  have hlen : ((c :: rest).take (k + 1)).length = k + 1 := by
    rw [List.length_take, List.length_cons]
    omega
  have hsize : frameSize ((c :: rest).take (k + 1)) = frameSize (c :: rest) := by
    have hfive : 5 ≤ ((c :: rest).take (k + 1)).length := by omega
    have h := frameSize_append hfive ((c :: rest).drop (k + 1))
    rw [List.take_append_drop] at h
    exact h.symm
  have hflags : ((c :: rest).take (k + 1)).getD 3 0 = (c :: rest).getD 3 0 := by
    rw [List.getD_eq_getElem?_getD, List.getD_eq_getElem?_getD, List.getElem?_take_of_lt (by omega)]
  have hx : rest.take k ≠ [] := by
    intro h
    have := congrArg List.length h
    rw [List.length_take, List.length_nil] at this
    omega
  have hwalk := walkBytes_complete (s := s.start c) rfl hx
    (by rw [hadd, hsize, hlen]; omega) (rest.drop k)
  have hfull : ¬ waits ((s.start c).add (rest.take k)).fbuf := by
    rw [hadd, waits, hsize, hlen]
    omega
  rw [List.take_append_drop] at hwalk
  refine ⟨((s.start c).add (rest.take k)).settle, settle_faligned hfull, ?_, ?_⟩
  · rw [Walk.settle, if_neg hfull, hadd, hsize]
    by_cases hsmall : frameSize (c :: rest) < 7
    · rw [if_pos hsmall, if_pos (.inl hsmall)]
      rfl
    · rw [if_neg hsmall, if_neg (by omega), ← hflags]
      rfl
  · rw [walkBytes_cons, walkByte_data ha hbit, hwalk]
    rfl

/-- **What the walk still has to skip is what the last status frame
misses.** -/
theorem walkBytes_left {s : Walk} (ha : s.faligned = false) (d : List UInt8) :
    (walkBytes (s, 0) d).2 = statusLeft d := by
  fun_induction statusLeft d generalizing s with
  | case1 => rfl
  | case2 c rest hbit hshort =>
      rw [walkBytes_cons, walkByte_status ha hbit, walkBytes_skip,
        List.drop_eq_nil_of_le (by omega)]
      rfl
  | case3 c rest hbit hlong ih =>
      rw [walkBytes_cons, walkByte_status ha hbit, walkBytes_skip,
        Nat.sub_eq_zero_of_le (by omega)]
      exact ih ha
  | case4 c rest hbit hshort => rw [walkBytes_dataFrame_part ha hbit hshort]
  | case5 c rest hbit hlong ih =>
      obtain ⟨s', ha', -, hwalk⟩ := walkBytes_dataFrame ha hbit hlong
      rw [hwalk]
      exact ih ha'

/-- **The walk counts the data frames.** -/
theorem walkBytes_counts {s : Walk} (ha : s.faligned = false) (d : List UInt8) :
    (walkBytes (s, 0) d).1.reset = (dataFlags d).foldl Walk.countFlags s.reset := by
  fun_induction dataFlags d generalizing s with
  | case1 => rfl
  | case2 c rest hbit ih =>
      rw [walkBytes_cons, walkByte_status ha hbit, walkBytes_skip]
      by_cases hin : 3 ≤ rest.length
      · rw [Nat.sub_eq_zero_of_le hin]
        exact ih ha
      · have hnone : rest.drop 3 = [] := List.drop_eq_nil_of_le (by omega)
        rw [hnone, dataFlags]
        rfl
  | case3 c rest hbit hshort =>
      rw [walkBytes_dataFrame_part ha hbit hshort]
      rfl
  | case4 c rest hbit hlong hsmall ih =>
      obtain ⟨s', ha', hcount, hwalk⟩ := walkBytes_dataFrame ha hbit hlong
      rw [if_pos hsmall] at hcount
      rw [hwalk, ih ha', hcount]
  | case5 c rest hbit hlong hsize ih =>
      obtain ⟨s', ha', hcount, hwalk⟩ := walkBytes_dataFrame ha hbit hlong
      rw [if_neg hsize] at hcount
      rw [hwalk, ih ha', hcount, List.foldl_cons]

/-! ## What the counters say of the frames -/

/-- One bit of a flag byte. -/
def flagBit (bit : UInt8) (flags : UInt8) : Bool := (flags >>> bit) &&& 1 ≠ 0

/-- How often a flag rises; `last` is what it was before. -/
def rises : Bool → List Bool → Nat
  | _, [] => 0
  | last, b :: bs => (if b && !last then 1 else 0) + rises b bs

/-- The counters of frames with these flag bytes: the frames, the places
at which a flag rises, and the frames that have it. -/
def tally (fs : List UInt8) : Counters :=
  { recTotal := UInt64.ofNat fs.length
    evCrc := UInt64.ofNat (rises false (fs.map (flagBit 4)))
    evOvf := UInt64.ofNat (rises false (fs.map (flagBit 3)))
    evDerr := UInt64.ofNat (rises false (fs.map (flagBit 5)))
    pktsCrc := UInt64.ofNat (fs.countP (flagBit 4))
    pktsOvf := UInt64.ofNat (fs.countP (flagBit 3))
    pktsDerr := UInt64.ofNat (fs.countP (flagBit 5)) }

/-- A counter that goes up with the frames that have `b`. -/
theorem foldl_bump {g : Walk → UInt64} {b : UInt8 → Bool}
    (hg : ∀ (s : Walk) (f : UInt8), g (s.countFlags f) = bump (b f) (g s))
    (fs : List UInt8) (s : Walk) :
    g (fs.foldl Walk.countFlags s) = g s + UInt64.ofNat (fs.countP b) := by
  induction fs generalizing s with
  | nil => simp
  | cons f fs ih =>
      rw [List.foldl_cons, ih, hg, bump, List.countP_cons]
      cases b f
      · simp
      · simp [UInt64.ofNat_add, UInt64.add_assoc, UInt64.add_comm]

/-- A counter that goes up where `b` rises, `last` being kept in `t`. -/
theorem foldl_rises {g : Walk → UInt64} {t : Walk → Bool} {b : UInt8 → Bool}
    (ht : ∀ (s : Walk) (f : UInt8), t (s.countFlags f) = b f)
    (hg : ∀ (s : Walk) (f : UInt8), g (s.countFlags f) = bump (b f && !t s) (g s))
    (fs : List UInt8) (s : Walk) :
    g (fs.foldl Walk.countFlags s) = g s + UInt64.ofNat (rises (t s) (fs.map b)) := by
  induction fs generalizing s with
  | nil => simp [rises]
  | cons f fs ih =>
      rw [List.foldl_cons, ih, ht, hg, bump, List.map_cons, rises]
      cases b f && !t s
      · simp
      · simp [UInt64.ofNat_add, UInt64.add_assoc]

theorem foldl_countFlags_new (fs : List UInt8) :
    (fs.foldl Walk.countFlags Walk.new).counters = tally fs := by
  have hrec := foldl_bump (g := fun s => s.counters.recTotal) (b := fun _ => true)
    (fun _ _ => rfl) fs Walk.new
  have hevCrc := foldl_rises (g := fun s => s.counters.evCrc) (t := Walk.stCrc)
    (b := flagBit 4) (fun _ _ => rfl) (fun _ _ => rfl) fs Walk.new
  have hevOvf := foldl_rises (g := fun s => s.counters.evOvf) (t := Walk.stOvf)
    (b := flagBit 3) (fun _ _ => rfl) (fun _ _ => rfl) fs Walk.new
  have hevDerr := foldl_rises (g := fun s => s.counters.evDerr) (t := Walk.stDerr)
    (b := flagBit 5) (fun _ _ => rfl) (fun _ _ => rfl) fs Walk.new
  have hpktsCrc := foldl_bump (g := fun s => s.counters.pktsCrc) (b := flagBit 4)
    (fun _ _ => rfl) fs Walk.new
  have hpktsOvf := foldl_bump (g := fun s => s.counters.pktsOvf) (b := flagBit 3)
    (fun _ _ => rfl) fs Walk.new
  have hpktsDerr := foldl_bump (g := fun s => s.counters.pktsDerr) (b := flagBit 5)
    (fun _ _ => rfl) fs Walk.new
  rw [List.countP_true] at hrec
  generalize fs.foldl Walk.countFlags Walk.new = s at *
  rcases s with ⟨⟨_, _, _, _, _, _, _⟩, _, _, _, _, _⟩
  simp_all [tally, Walk.new]

/-- The counters of the machine are those of the frames. -/
theorem walkBytes_counters (d : List UInt8) :
    (walkBytes (Walk.new, 0) d).1.counters = tally (dataFlags d) := by
  have hcount := walkBytes_counts (s := Walk.new) rfl d
  have hreset : (walkBytes (Walk.new, 0) d).1.counters =
      (walkBytes (Walk.new, 0) d).1.reset.counters := rfl
  rw [hreset, hcount]
  exact foldl_countFlags_new _

/-! ## Several calls -/

/-- The static variables after some calls. -/
def statsRun (calls : List (List UInt8)) : Walk := calls.foldl statsPush Walk.new

/-- The counters are those of a single call with all the bytes. -/
def Agrees (calls : List (List UInt8)) : Prop :=
  (statsRun calls).counters = (statsPush Walk.new calls.flatten).counters

/-- What holds between two bytes. -/
structure Sound (w : Walk × Nat) : Prop where
  started : w.1.Started
  left_le : w.2 ≤ 3
  between : 0 < w.2 → w.1.faligned = false

theorem started_settle (s : Walk) : s.settle.Started := by
  intro ha
  by_cases h : waits s.fbuf
  · rw [settle_of_waits h]
    exact h
  · rw [settle_faligned h] at ha
    cases ha

theorem Sound.walkByte {w : Walk × Nat} (h : Sound w) (b : UInt8) : Sound (walkByte w b) := by
  obtain ⟨s, k⟩ := w
  cases k with
  | succ k =>
      have hle : k + 1 ≤ 3 := h.left_le
      exact ⟨h.started, show k ≤ 3 by omega, fun _ => h.between (Nat.succ_pos k)⟩
  | zero =>
      by_cases ha : s.faligned = false
      · by_cases hbit : b &&& 0x80 = 0
        · rw [walkByte_status ha hbit]
          exact ⟨h.started, le_refl 3, fun _ => ha⟩
        · rw [walkByte_data ha hbit]
          exact ⟨fun _ => .inl (show 1 < 7 by omega), Nat.zero_le 3, fun h => absurd h (lt_irrefl 0)⟩
      · rw [walkByte_aligned (Bool.not_eq_false _ ▸ ha)]
        exact ⟨started_settle _, Nat.zero_le 3, fun h => absurd h (lt_irrefl 0)⟩

theorem Sound.walkBytes {w : Walk × Nat} (h : Sound w) (d : List UInt8) :
    Sound (walkBytes w d) := by
  induction d generalizing w with
  | nil => exact h
  | cons b d ih => exact ih (h.walkByte b)

theorem sound_new : Sound (Walk.new, 0) :=
  ⟨fun h => Bool.noConfusion h, Nat.zero_le 3, fun h => absurd h (lt_irrefl 0)⟩

theorem statsPush_new (d : List UInt8) : statsPush Walk.new d = (walkBytes (Walk.new, 0) d).1 :=
  (statsPush_eq sound_new.started d).1

theorem statsRun_concat (calls : List (List UInt8)) (d : List UInt8) :
    statsRun (calls ++ [d]) = statsPush (statsRun calls) d := by
  rw [statsRun, List.foldl_append]
  rfl

/-- The bytes with the status frame that they end in filled up. -/
def fillUp (d : List UInt8) : List UInt8 := d ++ List.replicate (statusLeft d) 0

/-- What the walk takes the calls for: where a call ends within a status
frame, the frame is over and the next call begins another one. -/
def closed (calls : List (List UInt8)) : List UInt8 :=
  calls.foldl (fun x d => fillUp (x ++ d)) []

theorem closed_concat (calls : List (List UInt8)) (d : List UInt8) :
    closed (calls ++ [d]) = fillUp (closed calls ++ d) := by
  rw [closed, List.foldl_append]
  rfl

/-- Filling up is what `i += 4` does behind the end of a call. -/
theorem walkBytes_fillUp (d : List UInt8) :
    walkBytes (Walk.new, 0) (fillUp d) = ((walkBytes (Walk.new, 0) d).1, 0) := by
  have hleft := walkBytes_left (s := Walk.new) rfl d
  rw [fillUp, walkBytes_append, ← hleft, walkBytes_skip _ (walkBytes (Walk.new, 0) d).2]
  simp

/-- **The calls are one walk over the closed sequence.** -/
theorem statsRun_closed (calls : List (List UInt8)) :
    (statsRun calls, 0) = walkBytes (Walk.new, 0) (closed calls) ∧ (statsRun calls).Started := by
  induction calls using List.reverseRecOn with
  | nil => exact ⟨rfl, sound_new.started⟩
  | append_singleton calls d ih =>
      obtain ⟨hwalk, hstart⟩ := ih
      obtain ⟨heq, hstart'⟩ := statsPush_eq hstart d
      rw [statsRun_concat]
      refine ⟨?_, hstart'⟩
      rw [closed_concat, walkBytes_fillUp, walkBytes_append, ← hwalk, heq]

/-- The counters of the calls are those of the frames in the closed
sequence. -/
theorem statsRun_counters (calls : List (List UInt8)) :
    (statsRun calls).counters = tally (dataFlags (closed calls)) := by
  rw [← walkBytes_counters, ← (statsRun_closed calls).1]

/-- The counters of a single call are those of its frames. -/
theorem statsPush_counters (d : List UInt8) :
    (statsPush Walk.new d).counters = tally (dataFlags d) := by
  rw [statsPush_new, walkBytes_counters]

/-- No call ends within a status frame. -/
def Uncut (calls : List (List UInt8)) : Prop := ∀ j, statusLeft (calls.take j).flatten = 0

theorem uncut_nil : Uncut [] := by
  intro j
  rw [List.take_nil, List.flatten_nil, statusLeft]

theorem uncut_concat_iff {calls : List (List UInt8)} {d : List UInt8} :
    Uncut (calls ++ [d]) ↔ Uncut calls ∧ statusLeft (calls ++ [d]).flatten = 0 := by
  constructor
  · intro h
    refine ⟨fun j => ?_, ?_⟩
    · have hj := h (min j calls.length)
      rw [List.take_append_of_le_length (Nat.min_le_right _ _), ← List.take_eq_take_min] at hj
      exact hj
    · have hend := h (calls.length + 1)
      rw [List.take_of_length_le (by simp)] at hend
      exact hend
  · rintro ⟨h, hd⟩ j
    by_cases hj : j ≤ calls.length
    · rw [List.take_append_of_le_length hj]
      exact h j
    · rw [List.take_of_length_le (by rw [List.length_append, List.length_singleton]; omega)]
      exact hd

/-- Without a cut nothing is filled up. -/
theorem closed_uncut {calls : List (List UInt8)} (h : Uncut calls) :
    closed calls = calls.flatten := by
  induction calls using List.reverseRecOn with
  | nil => rfl
  | append_singleton calls d ih =>
      obtain ⟨hinit, hend⟩ := uncut_concat_iff.mp h
      rw [List.flatten_concat] at hend ⊢
      rw [closed_concat, ih hinit, fillUp, hend, List.replicate_zero, List.append_nil]

/-- One more call may end anywhere. -/
theorem statsRun_last {calls : List (List UInt8)} (h : Uncut calls) (d : List UInt8) :
    statsRun (calls ++ [d]) = (walkBytes (Walk.new, 0) (calls ++ [d]).flatten).1 := by
  obtain ⟨hwalk, hstart⟩ := statsRun_closed calls
  rw [closed_uncut h] at hwalk
  rw [statsRun_concat, List.flatten_concat, walkBytes_append, ← hwalk, (statsPush_eq hstart d).1]

theorem agrees_last {calls : List (List UInt8)} (h : Uncut calls) (d : List UInt8) :
    Agrees (calls ++ [d]) := by
  rw [Agrees, statsRun_last h, statsPush_new]

theorem agrees_of_uncut_init {calls : List (List UInt8)} (h : Uncut calls.dropLast) :
    Agrees calls := by
  rcases List.eq_nil_or_concat calls with rfl | ⟨init, d, rfl⟩
  · exact (congrArg Walk.counters (statsPush_new [])).symm
  · rw [List.concat_eq_append] at h ⊢
    rw [List.dropLast_concat] at h
    exact agrees_last h d

/-! ## A cut shows -/

/-- A data frame without payload. -/
def bareFrame : List UInt8 := [0x80, 0, 0, 0, 7, 0, 0]

theorem walkBytes_bareFrame {s : Walk} (ha : s.faligned = false) :
    (walkBytes (s, 0) bareFrame).1.counters.recTotal = s.counters.recTotal + 1 := by
  have hx : [0, 0, 0, 7, 0, 0] ≠ ([] : List UInt8) := by decide
  have hwait : waits ((s.start 0x80).fbuf ++ [0, 0, 0, 7, 0, 0].dropLast) :=
    .inl (show 6 < 7 by omega)
  have hfull : ¬ waits ((s.start 0x80).add [0, 0, 0, 7, 0, 0]).fbuf := by
    show ¬ waits [0x80, 0, 0, 0, 7, 0, 0]
    decide
  have hsize : ¬ (frameSize ((s.start 0x80).add [0, 0, 0, 7, 0, 0]).fbuf < 7 ∨
      frameSize ((s.start 0x80).add [0, 0, 0, 7, 0, 0]).fbuf > 2048) := by
    show ¬ (frameSize [0x80, 0, 0, 0, 7, 0, 0] < 7 ∨ frameSize [0x80, 0, 0, 0, 7, 0, 0] > 2048)
    decide
  rw [bareFrame, walkBytes_cons, walkByte_data ha (by decide), walkBytes_settles rfl hx hwait,
    Walk.settle, if_neg hfull, if_neg hsize]
  rfl

/-- With the rest of a status frame in front the walk takes it for two
of them. -/
theorem walkBytes_bareFrame_cut {s : Walk} (ha : s.faligned = false) {k : Nat} (hpos : 0 < k)
    (hle : k ≤ 3) : (walkBytes (s, k) bareFrame).1 = s := by
  have hzero : walkByte (s, 0) 0 = (s, 3) := walkByte_status ha (by decide)
  have hseven : walkByte (s, 0) 7 = (s, 3) := walkByte_status ha (by decide)
  rw [walkBytes_skip]
  interval_cases k
  · show (walkBytes (s, 0) [0, 0, 0, 7, 0, 0]).1 = s
    rw [walkBytes_cons, hzero, walkBytes_skip]
    show (walkBytes (s, 0) [0, 0]).1 = s
    rw [walkBytes_cons, hzero]
    rfl
  · show (walkBytes (s, 0) [0, 0, 7, 0, 0]).1 = s
    rw [walkBytes_cons, hzero, walkBytes_skip]
    show (walkBytes (s, 0) [0]).1 = s
    rw [walkBytes_cons, hzero]
    rfl
  · show (walkBytes (s, 0) [0, 7, 0, 0]).1 = s
    rw [walkBytes_cons, hzero]
    rfl

/-- Behind a cut there are bytes that are counted differently. -/
theorem not_agrees_of_cut {calls : List (List UInt8)} (h : Uncut calls) {d : List UInt8}
    (hcut : statusLeft (calls ++ [d]).flatten ≠ 0) : ¬ Agrees (calls ++ [d] ++ [bareFrame]) := by
  intro hagree
  have hrun := statsRun_last h d
  have hsound := sound_new.walkBytes (calls ++ [d]).flatten
  rw [← walkBytes_left (s := Walk.new) rfl] at hcut
  rw [Agrees, statsRun_concat, statsPush_new, List.flatten_append, List.flatten_singleton,
    walkBytes_append, hrun] at hagree
  generalize walkBytes (Walk.new, 0) (calls ++ [d]).flatten = w at hcut hagree hsound
  obtain ⟨s, k⟩ := w
  have hpos : 0 < k := Nat.pos_of_ne_zero hcut
  have ha : s.faligned = false := hsound.between hpos
  have hcount := congrArg Counters.recTotal hagree
  rw [(statsPush_eq hsound.started bareFrame).1, walkBytes_bareFrame ha,
    walkBytes_bareFrame_cut ha hpos hsound.left_le] at hcount
  simp at hcount

/-- A lost status frame may be made good: two calls end within one and
the walk is where it would have been. -/
theorem agrees_recovered (last : List UInt8) : Agrees ([[0], [0, 0, 0]] ++ [last]) := by
  have hclosed : closed [[0], [0, 0, 0]] = [0, 0, 0, 0, 0, 0, 0, 0] := by
    simp [closed, fillUp, statusLeft]
  obtain ⟨hwalk, hstart⟩ := statsRun_closed [[0], [0, 0, 0]]
  have hnew : statsRun [[0], [0, 0, 0]] = Walk.new := by
    rw [hclosed] at hwalk
    exact congrArg Prod.fst hwalk
  rw [Agrees, statsRun_concat, hnew, statsPush_new, statsPush_new, List.flatten_concat,
    walkBytes_append]
  rfl

/-- A data frame and half a status frame: the payload of one block. -/
def cutHead : List UInt8 := [0x80, 0, 0, 0, 0x0A, 0, 0, 0xA5, 0x12, 0x34, 0x00, 0x00]

/-- The other half, and a data frame without any flag. -/
def cutTail : List UInt8 := [0x85, 0x55, 0x80, 0x10, 0x0A, 0, 0x0A, 0, 0, 0xA5, 0x13, 0x34]

end UsbSniffer.Tools.Stats
