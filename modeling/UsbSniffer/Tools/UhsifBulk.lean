import UsbSniffer.Lib.Bytes
import UsbSniffer.Lib.Incremental
import UsbSniffer.Stream.Delivery

/-!
# The verifier of the bulk tool

`uhsif_bulk.c` sends blocks with a running counter downstream and checks
what the FPGA echoes. Two parsers cut the upstream into blocks, by the
same rule: `vfy_process` on each transfer, with a carry between them, and
`parse_blocks` on a buffer that is filled in place. Unlike the parser of
the plugin they only ask for the magic and the checksum.

The rule is an incremental machine (`blkMachine`). `vfyProcess` stays in
its buffers and implements the machine however the upstream is cut into
transfers of at most 262144 bytes, the default of `--xfer-size`: with
larger ones a carry and a transfer do not fit `scratch`.
`loopback_verdict` says what the counters of a run mean for the words
that were sent.

The counters are natural numbers here. In the source those of the
verifier are `long long`s and those of the polling parser `int`s; they
count no more than the bytes that came in (`drain_bytes`), so that below
2 GB of upstream no `int` runs over (`parsers_agree`).
-/

namespace UsbSniffer.Tools.UhsifBulk

open Lib Uhsif BlockLayer UsbSniffer.Stream

/-! ## The rule -/

/-- `uhsif_blk_payload_len`. -/
def blkPayloadLen (hdr : Ptr) : Nat := ((le32 (hdr.add 12) >>> 12) &&& 0xfff).toNat

/-- `uhsif_blk_hdr_ok` on the four words at a pointer. -/
def hdrOkAt (hdr : Ptr) : Bool :=
  blkHdrOk (le32 hdr) (le32 (hdr.add 4)) (le32 (hdr.add 8)) (le32 (hdr.add 12))

/-- What a parser finds: a byte that begins no block, or a block with the
last two words of its header. -/
inductive Item where
  | bad
  | block (w2 w3 : UInt32) (payload : List UInt8)
deriving DecidableEq, Repr

/-- One turn of a parser on the bytes it has. -/
def blkStep (l : List UInt8) : Option (Unit × List UInt8 × List Item) :=
  if l.length < 16 then none
  else if !hdrOkAt (ptrAt l 0) then some ((), l.drop 1, [.bad])
  else
    let total := 16 + 4 * blkPayloadLen (ptrAt l 0)
    if l.length < total then none
    else some ((), l.drop total,
      [.block (le32 (ptrAt l 8)) (le32 (ptrAt l 12)) ((l.take total).drop 16)])

theorem hdrOkAt_congr {p q : Ptr} (h : ∀ i < 16, p i = q i) : hdrOkAt p = hdrOkAt q := by
  have hword : ∀ off ≤ 12, le32 (p.add off) = le32 (q.add off) :=
    fun off hoff => le32_congr fun i hi => h (off + i) (by omega)
  have hfirst : le32 p = le32 q := le32_congr fun i hi => h i (by omega)
  rw [hdrOkAt, hdrOkAt, hfirst, hword 4 (by omega), hword 8 (by omega), hword 12 (by omega)]

theorem blkPayloadLen_congr {p q : Ptr} (h : ∀ i < 16, p i = q i) :
    blkPayloadLen p = blkPayloadLen q := by
  have hword : le32 (p.add 12) = le32 (q.add 12) := le32_congr fun i hi => h (12 + i) (by omega)
  rw [blkPayloadLen, blkPayloadLen, hword]

/-- A twelve-bit length. -/
theorem blkPayloadLen_lt (p : Ptr) : blkPayloadLen p < 4096 := by
  rw [blkPayloadLen, UInt32.toNat_and]
  exact Nat.lt_succ_of_le Nat.and_le_right

theorem le32_ptrAt_append {l : List UInt8} (x : List UInt8) {off : Nat} (h : off + 4 ≤ l.length) :
    le32 (ptrAt (l ++ x) off) = le32 (ptrAt l off) :=
  le32_congr fun i hi => ptrAt_append x (by omega)

theorem blkStep_append {l l' : List UInt8} {o : List Item} {c c' : Unit} (x : List UInt8)
    (h : blkStep l = some (c', l', o)) : blkStep (l ++ x) = some (c, l' ++ x, o) := by
  have hlen : ¬ l.length < 16 := by
    intro hshort
    rw [blkStep, if_pos hshort] at h
    cases h
  have hsame : ∀ i < 16, ptrAt (l ++ x) 0 i = ptrAt l 0 i :=
    fun i hi => ptrAt_append x (by omega)
  rw [blkStep, if_neg hlen] at h
  rw [blkStep, if_neg (by rw [List.length_append]; omega), hdrOkAt_congr hsame,
    blkPayloadLen_congr hsame]
  by_cases hok : (!hdrOkAt (ptrAt l 0)) = true
  · rw [if_pos hok] at h ⊢
    cases h
    rw [List.drop_append_of_le_length (by omega)]
  · rw [if_neg hok] at h ⊢
    by_cases hshort : l.length < 16 + 4 * blkPayloadLen (ptrAt l 0)
    · simp only [if_pos hshort] at h
      cases h
    · simp only [if_neg hshort] at h
      cases h
      have hlong : ¬ (l ++ x).length < 16 + 4 * blkPayloadLen (ptrAt l 0) := by
        rw [List.length_append]
        omega
      simp only [if_neg hlong]
      rw [List.drop_append_of_le_length (by omega), List.take_append_of_le_length (by omega),
        le32_ptrAt_append x (by omega), le32_ptrAt_append x (by omega)]

theorem blkStep_lt {l l' : List UInt8} {o : List Item} {c : Unit}
    (h : blkStep l = some (c, l', o)) : l'.length < l.length := by
  rw [blkStep] at h
  split at h
  · cases h
  · split at h
    · cases h
      rw [List.length_drop]
      omega
    · simp only at h
      split at h
      · cases h
      · cases h
        rw [List.length_drop]
        omega

/-- The rule as a machine. -/
def blkMachine : Incremental Unit UInt8 Item where
  step _ l := blkStep l
  size _ l := l.length
  step_lt h := blkStep_lt h
  step_append x h := blkStep_append x h

theorem blkMachine_step (l : List UInt8) : blkMachine.step () l = blkStep l := rfl

/-- Where the machine rests less than a block is left. -/
theorem length_of_rest {l : List UInt8} (h : blkStep l = none) : l.length < 16396 := by
  have hlt := blkPayloadLen_lt (ptrAt l 0)
  rw [blkStep] at h
  split at h
  · omega
  · split at h
    · cases h
    · simp only at h
      split at h
      · omega
      · cases h

/-! ## What is found -/

/-- The words of a payload. -/
def wordsOf (payload : List UInt8) : List UInt32 :=
  (List.range (payload.length / 4)).map fun k => le32 (ptrAt payload (4 * k))

/-- The payload words of what was found. -/
def itemWords : List Item → List UInt32 :=
  List.flatMap fun
    | .bad => []
    | .block _ _ payload => wordsOf payload

def itemBlocks (items : List Item) : Nat :=
  items.countP fun
    | .bad => false
    | .block .. => true

def itemBad (items : List Item) : Nat := items.countP (· = .bad)

theorem itemWords_append (xs ys : List Item) : itemWords (xs ++ ys) = itemWords xs ++ itemWords ys :=
  List.flatMap_append

/-- The bytes of what was found: one that was skipped, or a header and
its words. -/
def itemBytes (items : List Item) : Nat :=
  itemBad items + 16 * itemBlocks items + 4 * (itemWords items).length

theorem itemBytes_append (xs ys : List Item) : itemBytes (xs ++ ys) = itemBytes xs + itemBytes ys := by
  simp only [itemBytes, itemBad, itemBlocks, itemWords_append, List.countP_append, List.length_append]
  omega

theorem itemBytes_block (w2 w3 : UInt32) {payload : List UInt8} {plen : Nat}
    (h : payload.length = 4 * plen) : itemBytes [.block w2 w3 payload] = 16 + 4 * plen := by
  have hwords : (wordsOf payload).length = plen := by
    rw [wordsOf, List.length_map, List.length_range, h, Nat.mul_div_cancel_left plen (by decide)]
  simp [itemBytes, itemBad, itemBlocks, itemWords, hwords]

/-- A turn takes what it finds. -/
theorem blkStep_bytes {l l' : List UInt8} {o : List Item} {c : Unit}
    (h : blkStep l = some (c, l', o)) : itemBytes o + l'.length = l.length := by
  rw [blkStep] at h
  split at h
  · cases h
  · rename_i hlen
    split at h
    · cases h
      have hone : itemBytes [.bad] = 1 := rfl
      rw [hone, List.length_drop]
      omega
    · simp only at h
      split at h
      · cases h
      · rename_i hlong
        cases h
        have hpayload : ((l.take (16 + 4 * blkPayloadLen (ptrAt l 0))).drop 16).length =
            4 * blkPayloadLen (ptrAt l 0) := by
          rw [List.length_drop, List.length_take]
          omega
        rw [itemBytes_block _ _ hpayload, List.length_drop]
        omega

/-- **Every byte is found or left.** -/
theorem drain_bytes (l : List UInt8) :
    itemBytes (blkMachine.drain () l).2.2 + (blkMachine.drain () l).2.1.length = l.length := by
  generalize hc : () = c
  fun_induction Incremental.drain blkMachine c l with
  | case1 c l hw => exact Nat.zero_add _
  | case2 c l c' l' o h r ih =>
      have hone := blkStep_bytes (c := c') h
      have hrest := ih rfl
      show itemBytes (o ++ (blkMachine.drain c' l').2.2) + (blkMachine.drain c' l').2.1.length =
        l.length
      rw [itemBytes_append]
      omega

/-! ## `vfy_process` -/

/-- `carry_cap`, and the size of `scratch`. -/
def carryCap : Nat := 16 + 4092 * 4 + 16
def scratchSize : Nat := carryCap + 262144

/-- The `vfy_ctx` struct: its counters and the carry. -/
structure Vfy where
  blocks : Nat
  words : Nat
  mism : Nat
  badHdr : Nat
  tStarted : Bool
  tExpect : UInt32
  carry : List UInt8
deriving DecidableEq, Repr

/-- `vfy_start`. -/
def vfyStart : Vfy :=
  { blocks := 0, words := 0, mism := 0, badHdr := 0, tStarted := false, tExpect := 0, carry := [] }

/-- One payload word. -/
def Vfy.word (v : Vfy) (w : UInt32) : Vfy :=
  { v with
    mism := if v.tStarted && w != v.tExpect then v.mism + 1 else v.mism
    tStarted := true
    tExpect := w + 1 }

/-- The loop of `vfy_process` from `off` on. -/
def vfyLoop (p : List UInt8) (off : Nat) (v : Vfy) : Nat × Vfy :=
  if off + 16 ≤ p.length then
    if !hdrOkAt (ptrAt p off) then vfyLoop p (off + 1) { v with badHdr := v.badHdr + 1 }
    else
      let plen := blkPayloadLen (ptrAt p off)
      if p.length < off + 16 + plen * 4 then (off, v)  -- partial block -> carry
      else
        let v := (List.range plen).foldl (fun v k => v.word (le32 (ptrAt p (off + 16 + 4 * k)))) v
        vfyLoop p (off + 16 + plen * 4) { v with blocks := v.blocks + 1, words := v.words + plen }
  else (off, v)
termination_by p.length - off

/-- `vfy_process`, which fails where it would write behind `scratch`. -/
def vfyProcess (v : Vfy) (buf : List UInt8) : Option Vfy :=
  if v.carry.length ≠ 0 ∧ scratchSize < v.carry.length + buf.length then none
  else
    let p := if v.carry.length ≠ 0 then v.carry ++ buf else buf
    let (off, v) := vfyLoop p 0 { v with carry := [] }
    some (if off < p.length then { v with carry := (p.drop off).take carryCap } else v)

/-! ## What it counts -/

/-- What was found, counted. -/
def Vfy.take (v : Vfy) : Item → Vfy
  | .bad => { v with badHdr := v.badHdr + 1 }
  | .block _ _ payload =>
      let v := (wordsOf payload).foldl Vfy.word v
      { v with blocks := v.blocks + 1, words := v.words + (wordsOf payload).length }

/-- The words that are not the expected ones. -/
def breaksFrom : Option UInt32 → List UInt32 → Nat
  | _, [] => 0
  | none, w :: ws => breaksFrom (some (w + 1)) ws
  | some e, w :: ws => (if w = e then 0 else 1) + breaksFrom (some (w + 1)) ws

/-- The word that is expected behind some. -/
def expectAfter : Option UInt32 → List UInt32 → Option UInt32
  | e, [] => e
  | _, w :: ws => expectAfter (some (w + 1)) ws

/-- What is expected next. -/
def Vfy.expected (v : Vfy) : Option UInt32 := if v.tStarted then some v.tExpect else none

/-- The counters count what was found. -/
structure Counts (v : Vfy) (items : List Item) (v' : Vfy) : Prop where
  badHdr : v'.badHdr = v.badHdr + itemBad items
  blocks : v'.blocks = v.blocks + itemBlocks items
  words : v'.words = v.words + (itemWords items).length
  mism : v'.mism = v.mism + breaksFrom v.expected (itemWords items)
  expected : v'.expected = expectAfter v.expected (itemWords items)

theorem breaksFrom_append (e : Option UInt32) (xs ys : List UInt32) :
    breaksFrom e (xs ++ ys) = breaksFrom e xs + breaksFrom (expectAfter e xs) ys := by
  induction xs generalizing e with
  | nil => rw [List.nil_append, breaksFrom, Nat.zero_add, expectAfter]
  | cons x xs ih =>
      cases e with
      | none => rw [List.cons_append, breaksFrom, breaksFrom, ih, expectAfter]
      | some e => rw [List.cons_append, breaksFrom, breaksFrom, ih, expectAfter, Nat.add_assoc]

theorem expectAfter_append (e : Option UInt32) (xs ys : List UInt32) :
    expectAfter e (xs ++ ys) = expectAfter (expectAfter e xs) ys := by
  induction xs generalizing e with
  | nil => rfl
  | cons x xs ih => exact ih (some (x + 1))

theorem breaksFrom_le (e : Option UInt32) (ws : List UInt32) : breaksFrom e ws ≤ ws.length := by
  induction ws generalizing e with
  | nil => exact Nat.le_refl 0
  | cons w ws ih =>
      have hrest := ih (some (w + 1))
      rw [List.length_cons]
      cases e with
      | none =>
          rw [breaksFrom]
          omega
      | some e =>
          rw [breaksFrom]
          split
          all_goals omega

namespace Vfy

@[simp] theorem word_expected (v : Vfy) (w : UInt32) : (v.word w).expected = some (w + 1) := rfl

theorem word_mism (v : Vfy) (w : UInt32) :
    (v.word w).mism = v.mism + breaksFrom v.expected [w] := by
  rw [word, expected]
  cases v.tStarted with
  | false => rfl
  | true =>
      by_cases hw : w = v.tExpect
      · simp [hw, breaksFrom]
      · simp [hw, breaksFrom]

/-- The loop over the words of one block. -/
theorem foldl_word (v : Vfy) (ws : List UInt32) :
    (ws.foldl word v).mism = v.mism + breaksFrom v.expected ws ∧
      (ws.foldl word v).expected = expectAfter v.expected ws ∧
      (ws.foldl word v).blocks = v.blocks ∧ (ws.foldl word v).words = v.words ∧
      (ws.foldl word v).badHdr = v.badHdr := by
  induction ws generalizing v with
  | nil => exact ⟨rfl, rfl, rfl, rfl, rfl⟩
  | cons w ws ih =>
      obtain ⟨hmism, hexpected, hblocks, hwords, hbad⟩ := ih (v.word w)
      refine ⟨?_, ?_, hblocks, hwords, hbad⟩
      · have hcut := breaksFrom_append v.expected [w] ws
        have hnext : expectAfter v.expected [w] = some (w + 1) := rfl
        rw [List.singleton_append, hnext] at hcut
        rw [List.foldl_cons, hmism, word_mism, word_expected, hcut, Nat.add_assoc]
      · rw [List.foldl_cons, hexpected, word_expected]
        rfl

/-- The carry is not looked at. -/
theorem foldl_word_carry (v : Vfy) (l : List UInt8) (ws : List UInt32) :
    ws.foldl word { v with carry := l } = { ws.foldl word v with carry := l } :=
  List.foldl_hom (fun v : Vfy => { v with carry := l }) fun _ _ => rfl

theorem foldl_take_carry (v : Vfy) (l : List UInt8) (items : List Item) :
    items.foldl take { v with carry := l } = { items.foldl take v with carry := l } := by
  refine List.foldl_hom (fun v : Vfy => { v with carry := l }) fun v item => ?_
  cases item with
  | bad => rfl
  | block w2 w3 payload =>
      rw [take, foldl_word_carry]
      rfl

end Vfy

namespace Counts

theorem refl (v : Vfy) : Counts v [] v := ⟨rfl, rfl, rfl, rfl, rfl⟩

theorem trans {u v w : Vfy} {xs ys : List Item} (h : Counts u xs v) (h' : Counts v ys w) :
    Counts u (xs ++ ys) w where
  badHdr := by rw [h'.badHdr, h.badHdr, itemBad, itemBad, itemBad, List.countP_append, Nat.add_assoc]
  blocks := by
    rw [h'.blocks, h.blocks, itemBlocks, itemBlocks, itemBlocks, List.countP_append, Nat.add_assoc]
  words := by rw [h'.words, h.words, itemWords_append, List.length_append, Nat.add_assoc]
  mism := by
    rw [h'.mism, h.mism, h.expected, itemWords_append, breaksFrom_append, Nat.add_assoc]
  expected := by rw [h'.expected, h.expected, itemWords_append, expectAfter_append]

theorem take (v : Vfy) (item : Item) : Counts v [item] (v.take item) := by
  cases item with
  | bad => exact ⟨rfl, rfl, rfl, rfl, rfl⟩
  | block w2 w3 payload =>
      obtain ⟨hmism, hexpected, hblocks, hwords, hbad⟩ := Vfy.foldl_word v (wordsOf payload)
      have hitem : itemWords [.block w2 w3 payload] = wordsOf payload := by simp [itemWords]
      refine ⟨hbad, ?_, ?_, ?_, ?_⟩
      · exact congrArg (· + 1) hblocks
      · rw [hitem]
        exact congrArg (· + _) hwords
      · rw [hitem]
        exact hmism
      · rw [hitem]
        exact hexpected

end Counts

/-- **The counters count** what was found. -/
theorem counts_takes (v : Vfy) (items : List Item) : Counts v items (items.foldl Vfy.take v) := by
  induction items generalizing v with
  | nil => exact Counts.refl v
  | cons item items ih => exact (Counts.take v item).trans (ih (v.take item))

/-! ## The loop is the machine -/

/-- The words of a payload, read where it stands. -/
theorem wordsOf_slice {p : List UInt8} {off plen : Nat} (h : off + 16 + plen * 4 ≤ p.length) :
    wordsOf (((p.drop off).take (16 + 4 * plen)).drop 16) =
      (List.range plen).map fun k => le32 (ptrAt p (off + 16 + 4 * k)) := by
  have hlen : (((p.drop off).take (16 + 4 * plen)).drop 16).length = 4 * plen := by
    rw [List.length_drop, List.length_take, List.length_drop]
    omega
  rw [wordsOf, hlen, Nat.mul_div_cancel_left plen (by decide)]
  refine List.map_congr_left fun k hk => le32_congr fun i hi => ?_
  have hk' := List.mem_range.mp hk
  simp only [ptrAt, List.getD_eq_getElem?_getD, List.getElem?_drop, List.getElem?_take]
  rw [if_pos (by omega)]
  congr 2
  omega

/-- **The loop of `vfy_process`** takes what the machine finds, and stops
where it rests. -/
theorem vfyLoop_spec (p : List UInt8) (off : Nat) (v : Vfy) (hoff : off ≤ p.length) :
    let r := vfyLoop p off v
    let m := blkMachine.drain () (p.drop off)
    r.1 ≤ p.length ∧ p.drop r.1 = m.2.1 ∧ r.2 = m.2.2.foldl Vfy.take v := by
  have hptr : ∀ off, ptrAt (p.drop off) 0 = ptrAt p off := fun off => ptrAt_drop p off
  fun_induction vfyLoop p off v with
  | case1 off v hlen hbad ih =>
      have hstep : blkMachine.step () (p.drop off) = some ((), p.drop (off + 1), [.bad]) := by
        show blkStep _ = _
        rw [blkStep, if_neg (by rw [List.length_drop]; omega), hptr, if_pos hbad, List.drop_drop]
      rw [Incremental.drain_of_some hstep]
      exact ih (by omega)
  | case2 off v hlen hok plen hshort =>
      have hstep : blkMachine.step () (p.drop off) = none := by
        show blkStep _ = _
        rw [blkStep, if_neg (by rw [List.length_drop]; omega), hptr, if_neg hok]
        exact if_pos (by rw [List.length_drop]; omega)
      rw [Incremental.drain_of_none hstep]
      exact ⟨hoff, rfl, rfl⟩
  | case3 off v hlen hok plen hlong u ih =>
      have hstep : blkMachine.step () (p.drop off) = some ((), p.drop (off + 16 + plen * 4),
          [.block (le32 (ptrAt (p.drop off) 8)) (le32 (ptrAt (p.drop off) 12))
            (((p.drop off).take (16 + 4 * plen)).drop 16)]) := by
        show blkStep _ = _
        rw [blkStep, if_neg (by rw [List.length_drop]; omega), hptr, if_neg hok]
        have hdrop : (p.drop off).drop (16 + 4 * plen) = p.drop (off + 16 + plen * 4) := by
          rw [List.drop_drop]
          congr 1
          omega
        rw [← hdrop]
        exact if_neg (by rw [List.length_drop]; omega)
      have hblock : v.take (.block (le32 (ptrAt (p.drop off) 8)) (le32 (ptrAt (p.drop off) 12))
          (((p.drop off).take (16 + 4 * plen)).drop 16)) =
          { u with blocks := u.blocks + 1, words := u.words + plen } := by
        rw [Vfy.take, wordsOf_slice (by omega), List.foldl_map, List.length_map, List.length_range]
      obtain ⟨hle, hrest, htaken⟩ := ih (by omega)
      rw [Incremental.drain_of_some hstep]
      refine ⟨hle, hrest, htaken.trans ?_⟩
      rw [← hblock]
      rfl
  | case4 off v hlen =>
      have hstep : blkMachine.step () (p.drop off) = none := by
        show blkStep _ = _
        rw [blkStep, if_pos (by rw [List.length_drop]; omega)]
      rw [Incremental.drain_of_none hstep]
      exact ⟨hoff, rfl, rfl⟩

/-- The verifier where the machine has come to. -/
def Vfy.after (v : Vfy) (r : Unit × List UInt8 × List Item) : Vfy :=
  { r.2.2.foldl Vfy.take v with carry := r.2.1 }

/-- **One transfer.** The carry is never cut off, and with transfers of
the size of the pool `scratch` is large enough. -/
theorem vfyProcess_spec {v : Vfy} (hrest : blkStep v.carry = none) {buf : List UInt8}
    (hbuf : buf.length ≤ 262144) :
    vfyProcess v buf = some (v.after (blkMachine.drain () (v.carry ++ buf))) := by
  have hcarry := length_of_rest hrest
  have hroom : ¬ (v.carry.length ≠ 0 ∧ scratchSize < v.carry.length + buf.length) := by
    have hsize : 16396 + 262144 ≤ scratchSize := by decide
    rintro ⟨-, hover⟩
    exact absurd hover (Nat.not_lt_of_le (by omega))
  have hp : (if v.carry.length ≠ 0 then v.carry ++ buf else buf) = v.carry ++ buf := by
    split
    · rfl
    · rename_i hempty
      rw [List.eq_nil_of_length_eq_zero (not_not.mp hempty), List.nil_append]
  obtain ⟨hle, hleft, htaken⟩ :=
    vfyLoop_spec (v.carry ++ buf) 0 { v with carry := [] } (Nat.zero_le _)
  rw [List.drop_zero] at hleft htaken
  rw [Vfy.foldl_take_carry] at htaken
  rw [vfyProcess, if_neg hroom, hp]
  dsimp only
  rw [hleft, htaken]
  split
  · have hshort := length_of_rest (blkMachine.step_drain () (v.carry ++ buf))
    have hcap : 16396 ≤ carryCap := by decide
    rw [List.take_of_length_le (Nat.le_of_lt (Nat.lt_of_lt_of_le hshort hcap))]
    rfl
  · rename_i hend
    rw [Vfy.after, ← hleft, List.drop_of_length_le (Nat.le_of_not_lt hend)]

/-- The transfers, one after another. -/
def vfyAll (v : Vfy) (chunks : List (List UInt8)) : Option Vfy := chunks.foldlM vfyProcess v

theorem vfyAll_spec {v : Vfy} (hrest : blkStep v.carry = none) {chunks : List (List UInt8)}
    (hchunks : ∀ x ∈ chunks, x.length ≤ 262144) :
    vfyAll v chunks = some (v.after (blkMachine.drain () (v.carry ++ chunks.flatten))) := by
  induction chunks generalizing v with
  | nil =>
      rw [List.flatten_nil, List.append_nil, Incremental.drain_of_none hrest]
      rfl
  | cons x chunks ih =>
      rw [List.forall_mem_cons] at hchunks
      have hrest' : blkStep (v.after (blkMachine.drain () (v.carry ++ x))).carry = none :=
        blkMachine.step_drain () (v.carry ++ x)
      have hcut := blkMachine.drain_append () (v.carry ++ x) chunks.flatten
      rw [List.append_assoc] at hcut
      rw [vfyAll, List.foldlM_cons, vfyProcess_spec hrest hchunks.1]
      refine (ih hrest' hchunks.2).trans ?_
      rw [List.flatten_cons, hcut]
      congr 1
      dsimp only [Vfy.after]
      rw [Vfy.foldl_take_carry, List.foldl_append]

/-! ## `parse_blocks` -/

/-- `sizeof(inbuf)`. -/
def inbufSize : Nat := 262144 * 2

/-- The `ctx` struct as far as the parser uses it: the bytes of `inbuf`,
the counters, the last ACK, the GET_STATS match, the check of the TEST
stream and the check of an echoed block. -/
structure Ctx where
  inbuf : List UInt8
  errors : Nat
  acks : Nat
  blocks : Nat
  lastAckW2 : UInt32
  lastAckW3 : UInt32
  wantIdx : Int
  wantFound : Bool
  wantVal : UInt32
  concMode : Bool
  concStarted : Bool
  concExpect : UInt32
  concCounterErr : Nat
  uplBytes : Nat
  echoEnable : Bool
  echoExpect : Option (List UInt8)
  echoExpectWords : Nat
  echoGotWords : Nat
  echoMismatch : Nat
deriving DecidableEq, Repr

namespace Ctx

/-- An ACK block. -/
def takeAck (c : Ctx) (w2 w3 : UInt32) : Ctx :=
  let c := { c with acks := c.acks + 1, lastAckW2 := w2, lastAckW3 := w3 }
  if ((w3 &&& 0xfff).toNat : Int) = c.wantIdx then { c with wantFound := true, wantVal := w2 } else c

/-- A word of the TEST stream. -/
def concWord (c : Ctx) (w : UInt32) : Ctx :=
  { c with
    concCounterErr := if c.concStarted && w != c.concExpect then c.concCounterErr + 1
      else c.concCounterErr
    concStarted := true
    concExpect := w + 1
    uplBytes := c.uplBytes + 4 }

/-- An echoed word. -/
def echoWord (c : Ctx) (expect : List UInt8) (w : UInt32) : Ctx :=
  if c.echoGotWords < c.echoExpectWords then
    { c with
      echoMismatch := if w ≠ le32 (ptrAt expect (4 * c.echoGotWords)) then c.echoMismatch + 1
        else c.echoMismatch
      echoGotWords := c.echoGotWords + 1 }
  else c

/-- The two checks of a data block. -/
def concBlock (c : Ctx) (payload : List UInt8) : Ctx :=
  if c.concMode then (wordsOf payload).foldl concWord c else c

def echoBlock (c : Ctx) (payload : List UInt8) : Ctx :=
  match c.echoEnable, c.echoExpect with
  | true, some expect => (wordsOf payload).foldl (fun c w => c.echoWord expect w) c
  | _, _ => c

/-- A data block. -/
def takeBlock (c : Ctx) (payload : List UInt8) : Ctx :=
  ({ c with blocks := c.blocks + 1 }.concBlock payload).echoBlock payload

/-- What was found, taken. -/
def take (c : Ctx) : Item → Ctx
  | .bad => { c with errors := c.errors + 1 }
  | .block w2 w3 payload => if payload = [] then c.takeAck w2 w3 else c.takeBlock payload

end Ctx

/-- `parse_blocks`. -/
def parseBlocks (c : Ctx) : Ctx :=
  if c.inbuf.length < 16 then c
  else if !hdrOkAt (ptrAt c.inbuf 0) then
    parseBlocks { c.take .bad with inbuf := c.inbuf.drop 1 }
  else
    let total := 16 + 4 * blkPayloadLen (ptrAt c.inbuf 0)
    if c.inbuf.length < total then c
    else
      let item := .block (le32 (ptrAt c.inbuf 8)) (le32 (ptrAt c.inbuf 12))
        ((c.inbuf.take total).drop 16)
      parseBlocks { c.take item with inbuf := c.inbuf.drop total }
termination_by c.inbuf.length
decreasing_by
  · simp only [List.length_drop]
    omega
  · simp only [List.length_drop]
    omega

/-- `dev_poll_in` with what a read returned, and the parser behind it. -/
def poll (c : Ctx) (data : List UInt8) : Ctx :=
  let c := if inbufSize ≤ c.inbuf.length then { c with inbuf := [] } else c
  if data = [] then c else parseBlocks { c with inbuf := c.inbuf ++ data }

namespace Ctx

theorem concWords_inbuf (c : Ctx) (l : List UInt8) (ws : List UInt32) :
    ws.foldl concWord { c with inbuf := l } = { ws.foldl concWord c with inbuf := l } := by
  induction ws generalizing c with
  | nil => rfl
  | cons w ws ih => exact ih (c.concWord w)

theorem echoWords_inbuf (c : Ctx) (l expect : List UInt8) (ws : List UInt32) :
    ws.foldl (fun c w => c.echoWord expect w) { c with inbuf := l } =
      { ws.foldl (fun c w => c.echoWord expect w) c with inbuf := l } := by
  induction ws generalizing c with
  | nil => rfl
  | cons w ws ih =>
      have hword : { c with inbuf := l }.echoWord expect w =
          { c.echoWord expect w with inbuf := l } := by
        rw [echoWord, echoWord]
        split
        · rfl
        · rfl
      rw [List.foldl_cons, hword]
      exact ih (c.echoWord expect w)

theorem concBlock_inbuf (c : Ctx) (l payload : List UInt8) :
    { c with inbuf := l }.concBlock payload = { c.concBlock payload with inbuf := l } := by
  rw [concBlock, concBlock]
  split
  · exact concWords_inbuf c l _
  · rfl

theorem echoBlock_inbuf (c : Ctx) (l payload : List UInt8) :
    { c with inbuf := l }.echoBlock payload = { c.echoBlock payload with inbuf := l } := by
  obtain ⟨inbuf, errors, acks, blocks, w2, w3, idx, found, val, conc, started, expect, err, bytes,
    enable, echo, words, got, mismatch⟩ := c
  cases enable with
  | false => rfl
  | true =>
      cases echo with
      | none => rfl
      | some expect => exact echoWords_inbuf _ l expect _

/-- The buffer is not looked at. -/
theorem take_inbuf (c : Ctx) (l : List UInt8) (item : Item) :
    { c with inbuf := l }.take item = { c.take item with inbuf := l } := by
  cases item with
  | bad => rfl
  | block w2 w3 payload =>
      rw [take, take]
      split
      · rw [takeAck, takeAck]
        dsimp only
        split
        · rfl
        · rfl
      · rw [takeBlock, takeBlock, ← echoBlock_inbuf, ← concBlock_inbuf]

theorem foldl_take_inbuf (c : Ctx) (l : List UInt8) (items : List Item) :
    items.foldl take { c with inbuf := l } = { items.foldl take c with inbuf := l } := by
  induction items generalizing c with
  | nil => rfl
  | cons item items ih =>
      rw [List.foldl_cons, take_inbuf]
      exact ih (c.take item)

/-- The context where the machine has come to. -/
def after (c : Ctx) (r : Unit × List UInt8 × List Item) : Ctx :=
  { r.2.2.foldl take c with inbuf := r.2.1 }

end Ctx

theorem parseBlocks_spec (c : Ctx) : parseBlocks c = c.after (blkMachine.drain () c.inbuf) := by
  fun_induction parseBlocks c with
  | case1 c hlen =>
      have hstep : blkMachine.step () c.inbuf = none := if_pos hlen
      rw [Incremental.drain_of_none hstep]
      rfl
  | case2 c hlen hbad ih =>
      have hstep : blkMachine.step () c.inbuf = some ((), c.inbuf.drop 1, [.bad]) := by
        show blkStep _ = _
        rw [blkStep, if_neg hlen, if_pos hbad]
      rw [Incremental.drain_of_some hstep, ih, Ctx.after, Ctx.foldl_take_inbuf]
      rfl
  | case3 c hlen hok total hshort =>
      have hstep : blkMachine.step () c.inbuf = none := by
        show blkStep _ = _
        rw [blkStep, if_neg hlen, if_neg hok]
        exact if_pos hshort
      rw [Incremental.drain_of_none hstep]
      rfl
  | case4 c hlen hok total hlong item ih =>
      have hstep : blkMachine.step () c.inbuf = some ((), c.inbuf.drop total, [item]) := by
        show blkStep _ = _
        rw [blkStep, if_neg hlen, if_neg hok]
        exact if_neg hlong
      rw [Incremental.drain_of_some hstep, ih, Ctx.after, Ctx.foldl_take_inbuf]
      rfl

/-- **One read.** The buffer is never full when the next one begins. -/
theorem poll_spec {c : Ctx} (hrest : blkStep c.inbuf = none) (data : List UInt8) :
    poll c data = c.after (blkMachine.drain () (c.inbuf ++ data)) := by
  have hroom : ¬ inbufSize ≤ c.inbuf.length := by
    have hshort := length_of_rest hrest
    have hsize : 16396 ≤ inbufSize := by decide
    exact Nat.not_le_of_lt (Nat.lt_of_lt_of_le hshort hsize)
  rw [poll, if_neg hroom]
  split
  · rename_i hnone
    rw [hnone, List.append_nil, Incremental.drain_of_none hrest]
    rfl
  · rw [parseBlocks_spec, Ctx.after, Ctx.foldl_take_inbuf]
    rfl

theorem polls_spec {c : Ctx} (hrest : blkStep c.inbuf = none) (chunks : List (List UInt8)) :
    chunks.foldl poll c = c.after (blkMachine.drain () (c.inbuf ++ chunks.flatten)) := by
  induction chunks generalizing c with
  | nil =>
      rw [List.flatten_nil, List.append_nil, Incremental.drain_of_none hrest]
      rfl
  | cons x chunks ih =>
      have hcut := blkMachine.drain_append () (c.inbuf ++ x) chunks.flatten
      rw [List.append_assoc] at hcut
      have hrest' : blkStep (c.after (blkMachine.drain () (c.inbuf ++ x))).inbuf = none :=
        blkMachine.step_drain () (c.inbuf ++ x)
      rw [List.foldl_cons, poll_spec hrest, ih hrest', List.flatten_cons, hcut]
      dsimp only [Ctx.after]
      rw [Ctx.foldl_take_inbuf, List.foldl_append]

/-! ## Two parsers, one upstream -/

/-- The context of `--concurrent` before anything came in. -/
def concStart : Ctx :=
  { inbuf := [], errors := 0, acks := 0, blocks := 0, lastAckW2 := 0, lastAckW3 := 0
    wantIdx := 0, wantFound := false, wantVal := 0
    concMode := true, concStarted := false, concExpect := 0, concCounterErr := 0, uplBytes := 0
    echoEnable := false, echoExpect := none, echoExpectWords := 0, echoGotWords := 0
    echoMismatch := 0 }

/-- The counters of the two say the same. -/
structure Agrees (c : Ctx) (v : Vfy) : Prop where
  mode : c.concMode = true ∧ c.echoEnable = false
  errors : c.errors = v.badHdr
  blocks : c.acks + c.blocks = v.blocks
  mism : c.concCounterErr = v.mism
  started : c.concStarted = v.tStarted
  expect : c.concExpect = v.tExpect
  words : c.uplBytes = 4 * v.words

/-- The loop over the words of one block leaves the rest alone. -/
theorem Ctx.foldl_concWord (c : Ctx) (ws : List UInt32) :
    let c' := ws.foldl concWord c
    c'.concMode = c.concMode ∧ c'.echoEnable = c.echoEnable ∧ c'.errors = c.errors ∧
      c'.acks = c.acks ∧ c'.blocks = c.blocks ∧ c'.uplBytes = c.uplBytes + 4 * ws.length := by
  induction ws generalizing c with
  | nil => exact ⟨rfl, rfl, rfl, rfl, rfl, rfl⟩
  | cons w ws ih =>
      obtain ⟨hmode, hecho, herrors, hacks, hblocks, hbytes⟩ := ih (c.concWord w)
      refine ⟨hmode, hecho, herrors, hacks, hblocks, hbytes.trans ?_⟩
      show c.uplBytes + 4 + 4 * ws.length = _
      rw [List.length_cons]
      omega

/-- The two loops check the same. -/
theorem foldl_words_agree (c : Ctx) (v : Vfy) (ws : List UInt32) (hmism : c.concCounterErr = v.mism)
    (hstarted : c.concStarted = v.tStarted) (hexpect : c.concExpect = v.tExpect) :
    (ws.foldl Ctx.concWord c).concCounterErr = (ws.foldl Vfy.word v).mism ∧
      (ws.foldl Ctx.concWord c).concStarted = (ws.foldl Vfy.word v).tStarted ∧
      (ws.foldl Ctx.concWord c).concExpect = (ws.foldl Vfy.word v).tExpect := by
  induction ws generalizing c v with
  | nil => exact ⟨hmism, hstarted, hexpect⟩
  | cons w ws ih =>
      refine ih (c.concWord w) (v.word w) ?_ rfl rfl
      rw [Ctx.concWord, Vfy.word, hstarted, hexpect, hmism]

theorem Agrees.take {c : Ctx} {v : Vfy} (h : Agrees c v) (item : Item) :
    Agrees (c.take item) (v.take item) := by
  cases item with
  | bad => exact ⟨h.mode, congrArg (· + 1) h.errors, h.blocks, h.mism, h.started, h.expect, h.words⟩
  | block w2 w3 payload =>
      rw [Ctx.take, Vfy.take]
      split
      · rename_i hempty
        have hnone : wordsOf payload = [] := by rw [hempty]; rfl
        have hblocks : c.acks + 1 + c.blocks = v.blocks + 1 := by rw [← h.blocks]; omega
        rw [hnone, Ctx.takeAck]
        dsimp only
        split
        · exact ⟨h.mode, h.errors, hblocks, h.mism, h.started, h.expect, h.words⟩
        · exact ⟨h.mode, h.errors, hblocks, h.mism, h.started, h.expect, h.words⟩
      · let c₁ : Ctx := { c with blocks := c.blocks + 1 }
        obtain ⟨hmism, hstarted, hexpect⟩ :=
          foldl_words_agree c₁ v (wordsOf payload) h.mism h.started h.expect
        obtain ⟨hmode, hecho, herrors, hacks, hblocks, hbytes⟩ := c₁.foldl_concWord (wordsOf payload)
        obtain ⟨-, -, hvblocks, hvwords, hvbad⟩ := Vfy.foldl_word v (wordsOf payload)
        have hblock : c.takeBlock payload = (wordsOf payload).foldl Ctx.concWord c₁ := by
          have hconc : c₁.concBlock payload = (wordsOf payload).foldl Ctx.concWord c₁ :=
            if_pos h.mode.1
          show (c₁.concBlock payload).echoBlock payload = _
          rw [hconc, Ctx.echoBlock, hecho.trans h.mode.2]
        rw [hblock]
        refine ⟨⟨hmode.trans h.mode.1, hecho.trans h.mode.2⟩, ?_, ?_, hmism, hstarted, hexpect, ?_⟩
        · exact (herrors.trans h.errors).trans hvbad.symm
        · rw [hacks, hblocks]
          show c.acks + (c.blocks + 1) = _ + 1
          rw [hvblocks, ← h.blocks, Nat.add_assoc]
        · rw [hbytes]
          show c.uplBytes + _ = 4 * (_ + _)
          rw [h.words, hvwords, Nat.mul_add]

theorem agrees_takes {c : Ctx} {v : Vfy} (h : Agrees c v) (items : List Item) :
    Agrees (items.foldl Ctx.take c) (items.foldl Vfy.take v) := by
  induction items generalizing c v with
  | nil => exact h
  | cons item items ih => exact ih (h.take item)

theorem blkStep_nil : blkStep [] = none := if_pos (by decide)

/-- Some reads from the start on, counted as the verifier counts. -/
theorem agrees_polls (reads : List (List UInt8)) :
    Agrees (reads.foldl poll concStart)
        (vfyStart.after (blkMachine.drain () reads.flatten)) ∧
      (reads.foldl poll concStart).inbuf = (blkMachine.drain () reads.flatten).2.1 := by
  have hfirst : Agrees concStart vfyStart := ⟨⟨rfl, rfl⟩, rfl, rfl, rfl, rfl, rfl, rfl⟩
  obtain ⟨hmode, herrors, hblocks, hmism, hstarted, hexpect, hwords⟩ :=
    agrees_takes hfirst (blkMachine.drain () reads.flatten).2.2
  rw [polls_spec (c := concStart) blkStep_nil]
  exact ⟨⟨hmode, herrors, hblocks, hmism, hstarted, hexpect, hwords⟩, rfl⟩

/-- The `int` counters of `ctx` that the parser of a TEST stream uses. -/
structure Ctx.Ints (c : Ctx) : Prop where
  errors : c.errors < 2 ^ 31
  acks : c.acks < 2 ^ 31
  blocks : c.blocks < 2 ^ 31
  concCounterErr : c.concCounterErr < 2 ^ 31

theorem ints_polls {reads : List (List UInt8)} (h : reads.flatten.length < 2 ^ 31) :
    (reads.foldl poll concStart).Ints := by
  obtain ⟨hagree, -⟩ := agrees_polls reads
  have hcounts := counts_takes vfyStart (blkMachine.drain () reads.flatten).2.2
  have hbytes := drain_bytes reads.flatten
  generalize blkMachine.drain () reads.flatten = m at hagree hcounts hbytes
  have herrors := hagree.errors.trans hcounts.badHdr
  have hblocks := hagree.blocks.trans hcounts.blocks
  have hmism := hagree.mism.trans hcounts.mism
  have hle := breaksFrom_le vfyStart.expected (itemWords m.2.2)
  have hzero : vfyStart.badHdr = 0 ∧ vfyStart.blocks = 0 ∧ vfyStart.mism = 0 := ⟨rfl, rfl, rfl⟩
  rw [itemBytes] at hbytes
  exact ⟨by omega, by omega, by omega, by omega⟩

/-- **The two parsers agree.** However an upstream below 2 GB is cut into
transfers of at most 262144 bytes for the one and into reads for the
other, they skip as many bytes, find as many blocks and words, and count
as many breaks of the counter; what is left with them is the same; and at
no read does an `int` counter run over. -/
theorem parsers_agree (transfers reads : List (List UInt8))
    (htransfers : ∀ x ∈ transfers, x.length ≤ 262144) (hcut : transfers.flatten = reads.flatten)
    (hint : reads.flatten.length < 2 ^ 31) :
    ∃ v, vfyAll vfyStart transfers = some v ∧
      Agrees (reads.foldl poll concStart) v ∧ (reads.foldl poll concStart).inbuf = v.carry ∧
        ∀ n, ((reads.take n).foldl poll concStart).Ints := by
  obtain ⟨hagree, hleft⟩ := agrees_polls reads
  refine ⟨_, vfyAll_spec blkStep_nil htransfers, ?_, ?_, ?_⟩
  · rw [hcut]
    exact hagree
  · rw [hcut]
    exact hleft
  · intro n
    apply ints_polls
    have hsplit : reads.flatten = (reads.take n).flatten ++ (reads.drop n).flatten := by
      rw [← List.flatten_append, List.take_append_drop]
    rw [hsplit, List.length_append] at hint
    omega

/-- A byte that begins no block, a block, and half a header. -/
def badWord : List UInt8 := 7 :: (wordBlock 3 1 2 3 4).encode ++ [0xC6, 0x6C, 0]

theorem parsers_agree_badWord :
    ∃ v, vfyAll vfyStart [badWord.take 7, badWord.drop 7] = some v ∧
      v.badHdr = 1 ∧ v.blocks = 1 ∧ v.words = 1 ∧ v.carry = [0xC6, 0x6C, 0] ∧
      Agrees ([badWord].foldl poll concStart) v ∧ ([badWord].foldl poll concStart).inbuf = v.carry ∧
        ∀ n, (([badWord].take n).foldl poll concStart).Ints := by
  have hcut : [badWord.take 7, badWord.drop 7].flatten = [badWord].flatten := by
    rw [List.flatten_cons, List.flatten_singleton, List.take_append_drop, List.flatten_singleton]
  obtain ⟨v, hall, hagree, hleft, hints⟩ :=
    parsers_agree [badWord.take 7, badWord.drop 7] [badWord] (by decide) hcut (by decide)
  have hv : (vfyAll vfyStart [badWord.take 7, badWord.drop 7]).map
      (fun v => (v.badHdr, v.blocks, v.words, v.carry)) = some (1, 1, 1, [0xC6, 0x6C, 0]) := by
    rw [vfyAll_spec blkStep_nil (by decide), hcut]
    decide +kernel
  rw [hall, Option.map_some, Option.some.injEq] at hv
  simp only [Prod.mk.injEq] at hv
  obtain ⟨hbad, hblocks, hwords, hcarry⟩ := hv
  exact ⟨v, hall, hbad, hblocks, hwords, hcarry, hagree, hleft, hints⟩

/-! ## The downlink -/

/-- `fill_pattern` with the counter pattern. -/
def fillPattern (words : Nat) (base : UInt32) : List UInt8 :=
  (List.range words).flatMap fun i => putLe32 (base + UInt32.ofNat i)

/-- `CMD_ID_BULK_DATA`, and the magic of a downlink packet. -/
def cmdIdBulkData : UInt32 := 0x30
def cmdMagic16 : UInt16 := 0xC7F3

/-- `build_bulk`. -/
def buildBulk (stream blkSeq : UInt8) (last ackReq : Bool) (lenWords : Nat) (payload : List UInt8) :
    List UInt8 :=
  let w1 := (stream.toUInt32 <<< 16) ||| (blkSeq.toUInt32 <<< 8) ||| cmdIdBulkData
  let w2 : UInt32 := (if ackReq then 2 else 0) ||| (if last then 1 else 0)
  let w3 := UInt32.ofNat lenWords &&& 0xfff
  let w0 := ((hdrCrc16 w1 w2 w3).toUInt32 <<< 16) ||| cmdMagic16.toUInt32
  putLe32 w0 ++ putLe32 w1 ++ putLe32 w2 ++ putLe32 w3 ++ payload

/-- `rate_out_fill_buf` at a value of the counter. -/
def rateOutFillBuf (blkWords blocksPerBuf counter : Nat) : List UInt8 :=
  (List.range blocksPerBuf).flatMap fun b =>
    buildBulk 0 (UInt8.ofNat (counter + b)) false false blkWords
      (fillPattern blkWords (UInt32.ofNat (counter + b * blkWords)))

/-- The buffers of some submissions. -/
def rateOut (blkWords blocksPerBuf : Nat) : Nat → Nat → List (List UInt8)
  | 0, _ => []
  | n + 1, counter =>
      rateOutFillBuf blkWords blocksPerBuf counter ::
        rateOut blkWords blocksPerBuf n (counter + blkWords * blocksPerBuf)

/-- A bulk block as the FPGA reads it: its payload. -/
def readBulk (l : List UInt8) : Option (List UInt8 × List UInt8) :=
  let w0 := le32 (ptrAt l 0)
  let w1 := le32 (ptrAt l 4)
  let w2 := le32 (ptrAt l 8)
  let w3 := le32 (ptrAt l 12)
  let total := 16 + 4 * (w3 &&& 0xfff).toNat
  if 16 ≤ l.length ∧ w0.toUInt16 = cmdMagic16 ∧ w0 >>> 16 = (hdrCrc16 w1 w2 w3).toUInt32 ∧
      w1 &&& 0xff = cmdIdBulkData ∧ total ≤ l.length then
    some ((l.take total).drop 16, l.drop total)
  else none

/-- The running counter. -/
def counterWords (start n : Nat) : List UInt32 := (List.range n).map fun i => UInt32.ofNat (start + i)

theorem fillPattern_length (words : Nat) (base : UInt32) : (fillPattern words base).length = 4 * words := by
  induction words with
  | zero => rfl
  | succ n ih =>
      rw [fillPattern, List.range_succ, List.flatMap_append, List.length_append, ← fillPattern, ih,
        List.flatMap_singleton]
      show 4 * n + 4 = _
      omega

theorem fillPattern_add (m n : Nat) (base : UInt32) :
    fillPattern (m + n) base = fillPattern m base ++ fillPattern n (base + UInt32.ofNat m) := by
  rw [fillPattern, List.range_add, List.flatMap_append, fillPattern, List.flatMap_map, fillPattern]
  congr 1
  refine List.flatMap_congr fun i _ => ?_
  rw [UInt32.ofNat_add, UInt32.add_assoc]

/-- **The words of a pattern** are the counter. -/
theorem wordsOf_fillPattern (words base : Nat) :
    wordsOf (fillPattern words (UInt32.ofNat base)) = counterWords base words := by
  rw [wordsOf, fillPattern_length, Nat.mul_div_cancel_left words (by decide)]
  refine List.map_congr_left fun k hk => le32_putLe32 _ _ fun i hi => ?_
  obtain ⟨m, rfl⟩ : ∃ m, words = k + (1 + m) := ⟨words - k - 1, by
    have := List.mem_range.mp hk
    omega⟩
  have hlen := fillPattern_length k (UInt32.ofNat base)
  have hword : fillPattern (1 + m) (UInt32.ofNat base + UInt32.ofNat k) =
      putLe32 (UInt32.ofNat (base + k)) ++ fillPattern m (UInt32.ofNat base + UInt32.ofNat k + 1) := by
    rw [fillPattern_add]
    congr 1
    show putLe32 (UInt32.ofNat base + UInt32.ofNat k + 0) ++ [] = _
    rw [UInt32.add_zero, List.append_nil, UInt32.ofNat_add]
  rw [fillPattern_add, hword]
  simp only [ptrAt, List.getD_eq_getElem?_getD]
  rw [List.getElem?_append_right (by omega), hlen, Nat.add_sub_cancel_left,
    List.getElem?_append_left (by exact hi)]
  obtain rfl | rfl | rfl | rfl : i = 0 ∨ i = 1 ∨ i = 2 ∨ i = 3 := by omega
  all_goals rfl

theorem counterWords_add (start m n : Nat) :
    counterWords start (m + n) = counterWords start m ++ counterWords (start + m) n := by
  rw [counterWords, List.range_add, List.map_append, List.map_map, counterWords, counterWords]
  congr 1
  refine List.map_congr_left fun i _ => ?_
  rw [Function.comp_apply, Nat.add_assoc]

/-- **The FPGA reads a bulk block** as its payload. -/
theorem readBulk_buildBulk (blkSeq : UInt8) {words : Nat} (hwords : words < 4096)
    {payload : List UInt8} (hlen : payload.length = 4 * words) :
    ReadsAs readBulk (buildBulk 0 blkSeq false false words payload) payload := by
  have hlow : ∀ b : UInt8, ((0 : UInt8).toUInt32 <<< 16 ||| b.toUInt32 <<< 8 ||| cmdIdBulkData) &&& 0xff =
      cmdIdBulkData := by
    intro b
    have hall : ∀ b : Fin 256, ((0 : UInt8).toUInt32 <<< 16 ||| (UInt8.ofNat b).toUInt32 <<< 8 |||
        cmdIdBulkData) &&& 0xff = cmdIdBulkData := by decide +kernel
    have h := hall ⟨b.toNat, b.toNat_lt⟩
    rwa [UInt8.ofNat_toNat] at h
  have hcount : (UInt32.ofNat words &&& 0xfff &&& 0xfff).toNat = words := by
    rw [UInt32.toNat_and, UInt32.toNat_and, UInt32.toNat_ofNat_of_lt' (by simp only [UInt32.size]; omega)]
    show words &&& (2 ^ 12 - 1) &&& (2 ^ 12 - 1) = words
    rw [Nat.and_two_pow_sub_one_eq_mod, Nat.and_two_pow_sub_one_eq_mod]
    omega
  refine ⟨List.ne_nil_of_length_pos (Nat.zero_lt_succ _), fun rest => ?_⟩
  let w1 := (0 : UInt8).toUInt32 <<< 16 ||| blkSeq.toUInt32 <<< 8 ||| cmdIdBulkData
  let w3 := UInt32.ofNat words &&& 0xfff
  let head := putLe32 (((hdrCrc16 w1 0 w3).toUInt32 <<< 16) ||| cmdMagic16.toUInt32) ++ putLe32 w1 ++
    putLe32 0 ++ putLe32 w3
  have hbuilt : buildBulk 0 blkSeq false false words payload ++ rest = head ++ (payload ++ rest) :=
    List.append_assoc _ _ _
  obtain ⟨h0, h1, h2, h3⟩ := words_at_header
    (((hdrCrc16 w1 0 w3).toUInt32 <<< 16) ||| cmdMagic16.toUInt32) w1 0 w3 (payload ++ rest)
  obtain ⟨hmagic, hcrc⟩ := w0_halves (hdrCrc16 w1 0 w3) cmdMagic16
  have hhead : head.length = 16 := rfl
  rw [hbuilt, readBulk]
  rw [h0, h1, h2, h3, hmagic, hcrc, hlow blkSeq, hcount]
  have hroom : 16 ≤ (head ++ (payload ++ rest)).length ∧
      16 + 4 * words ≤ (head ++ (payload ++ rest)).length := by
    have hall : (head ++ (payload ++ rest)).length = 16 + (4 * words + rest.length) :=
      List.length_append.trans (by rw [hhead, List.length_append, hlen])
    rw [hall]
    omega
  rw [if_pos ⟨hroom.1, rfl, rfl, rfl, hroom.2⟩]
  have htotal : 16 + 4 * words = (head ++ payload).length :=
    (List.length_append.trans (by rw [hhead, hlen])).symm
  rw [htotal, ← List.append_assoc, List.take_left, List.drop_left, ← hhead, List.drop_left]

/-- The blocks of a buffer, with what the FPGA reads. -/
def bufItems (blkWords blocksPerBuf counter : Nat) : List (List UInt8 × List UInt8) :=
  (List.range blocksPerBuf).map fun b =>
    let payload := fillPattern blkWords (UInt32.ofNat (counter + b * blkWords))
    (buildBulk 0 (UInt8.ofNat (counter + b)) false false blkWords payload, payload)

/-- The blocks of all buffers. -/
def sentItems (blkWords blocksPerBuf : Nat) : Nat → Nat → List (List UInt8 × List UInt8)
  | 0, _ => []
  | n + 1, counter =>
      bufItems blkWords blocksPerBuf counter ++
        sentItems blkWords blocksPerBuf n (counter + blkWords * blocksPerBuf)

section Sent

variable (blkWords blocksPerBuf : Nat)

theorem rateOutFillBuf_eq (counter : Nat) :
    rateOutFillBuf blkWords blocksPerBuf counter =
      ((bufItems blkWords blocksPerBuf counter).map Prod.fst).flatten := by
  rw [rateOutFillBuf, bufItems, List.map_map, List.flatMap_def]
  rfl

theorem rateOut_eq (n counter : Nat) :
    (rateOut blkWords blocksPerBuf n counter).flatten =
      ((sentItems blkWords blocksPerBuf n counter).map Prod.fst).flatten := by
  induction n generalizing counter with
  | zero => rfl
  | succ n ih =>
      rw [rateOut, sentItems, List.flatten_cons, ih, rateOutFillBuf_eq, List.map_append,
        List.flatten_append]

variable {blkWords} in
theorem sentItems_read (hwords : blkWords < 4096) (n counter : Nat) :
    ∀ i ∈ sentItems blkWords blocksPerBuf n counter, ReadsAs readBulk i.1 i.2 := by
  induction n generalizing counter with
  | zero => exact fun i hi => absurd hi List.not_mem_nil
  | succ n ih =>
      intro i hi
      obtain hi | hi := List.mem_append.mp hi
      · obtain ⟨b, -, rfl⟩ := List.mem_map.mp hi
        exact readBulk_buildBulk _ hwords (fillPattern_length _ _)
      · exact ih _ i hi

/-- The words of one buffer. -/
theorem bufItems_words (counter : Nat) :
    ((bufItems blkWords blocksPerBuf counter).map Prod.snd).flatMap wordsOf =
      counterWords counter (blkWords * blocksPerBuf) := by
  induction blocksPerBuf with
  | zero => rfl
  | succ n ih =>
      have hlast : bufItems blkWords (n + 1) counter = bufItems blkWords n counter ++
          [(buildBulk 0 (UInt8.ofNat (counter + n)) false false blkWords
            (fillPattern blkWords (UInt32.ofNat (counter + n * blkWords))),
            fillPattern blkWords (UInt32.ofNat (counter + n * blkWords)))] := by
        rw [bufItems, List.range_succ, List.map_append]
        rfl
      rw [hlast, List.map_append, List.flatMap_append, ih, Nat.mul_succ, counterWords_add,
        Nat.mul_comm blkWords n]
      congr 1
      show wordsOf _ ++ [] = _
      rw [List.append_nil, wordsOf_fillPattern]

/-- **The words sent** are one counter across the buffers. -/
theorem sentItems_words (n counter : Nat) :
    ((sentItems blkWords blocksPerBuf n counter).map Prod.snd).flatMap wordsOf =
      counterWords counter (n * (blkWords * blocksPerBuf)) := by
  induction n generalizing counter with
  | zero =>
      rw [Nat.zero_mul]
      rfl
  | succ n ih =>
      rw [sentItems, List.map_append, List.flatMap_append, bufItems_words, ih, Nat.succ_mul,
        Nat.add_comm (n * _), counterWords_add]

end Sent

/-! ## The verdict -/

/-- A block of the upstream, found. -/
theorem blkStep_encode (b : Block) (x : List UInt8) :
    blkMachine.step () (b.encode ++ x) = some ((), x, [.block b.w2 b.w3 b.payload]) := by
  obtain ⟨h0, h1, h2, h3⟩ := words_at_encode b x
  have hok : hdrOkAt (ptrAt (b.encode ++ x) 0) = true := by
    rw [hdrOkAt, h0, h1, h2, h3]
    exact b.blkHdrOk_words
  have hwords : blkPayloadLen (ptrAt (b.encode ++ x) 0) = b.words := by
    rw [blkPayloadLen, h3, UInt32.toNat_and, UInt32.toNat_shiftRight, b.w3_toNat]
    have hseq := b.seq.toNat_lt
    have hle := b.words_le
    have hres := b.reserved_lt
    simp only [maxPayloadWords] at hle
    show _ >>> 12 &&& (2 ^ 12 - 1) = _
    rw [Nat.and_two_pow_sub_one_eq_mod, Nat.shiftRight_eq_div_pow]
    omega
  have hlen : (b.encode ++ x).length = 16 + 4 * b.words + x.length := by
    rw [List.length_append, b.encode_length]
  have htotal : 16 + 4 * b.words = b.encode.length := b.encode_length.symm
  have hw2 : le32 (ptrAt (b.encode ++ x) 8) = b.w2 := by
    rw [← h2]
    refine le32_congr fun i _ => ?_
    simp only [Ptr.add, ptrAt, Nat.zero_add]
  have hw3 : le32 (ptrAt (b.encode ++ x) 12) = b.w3 := by
    rw [← h3]
    refine le32_congr fun i _ => ?_
    simp only [Ptr.add, ptrAt, Nat.zero_add]
  have hpayload : b.encode.drop 16 = b.payload := by
    rw [Block.encode, ← b.header_length, List.drop_left]
  rw [blkMachine_step, blkStep, if_neg (by omega), if_neg (by rw [hok]; decide), hwords]
  dsimp only
  rw [if_neg (by omega), hw2, hw3, htotal, List.take_left, List.drop_left, hpayload]

/-- What the parsers find in blocks back to back. -/
def itemsOf (bs : List Block) : List Item := bs.map fun b => .block b.w2 b.w3 b.payload

theorem drain_encodeAll (bs : List Block) :
    blkMachine.drain () (encodeAll bs) = ((), [], itemsOf bs) := by
  induction bs with
  | nil =>
      have hstep : blkMachine.step () [] = none := by rw [blkMachine_step]; exact if_pos (by decide)
      rw [encodeAll_nil, Incremental.drain_of_none hstep]
      rfl
  | cons b bs ih =>
      rw [encodeAll_cons, Incremental.drain_of_some (blkStep_encode b _), ih]
      rfl

/-- The words of an echo. -/
def echoWords (bs : List Block) : List UInt32 := bs.flatMap fun b => wordsOf b.payload

theorem itemWords_itemsOf (bs : List Block) : itemWords (itemsOf bs) = echoWords bs := by
  rw [itemWords, itemsOf, List.flatMap_map, echoWords]

theorem itemBlocks_itemsOf (bs : List Block) : itemBlocks (itemsOf bs) = bs.length := by
  induction bs with
  | nil => rfl
  | cons b bs ih =>
      rw [itemBlocks] at ih
      rw [itemBlocks, itemsOf, List.map_cons, List.countP_cons, ← itemsOf, ih]
      rfl

theorem itemBad_itemsOf (bs : List Block) : itemBad (itemsOf bs) = 0 := by
  rw [itemBad, List.countP_eq_zero]
  intro item hitem
  obtain ⟨b, -, rfl⟩ := List.mem_map.mp hitem
  exact fun h => Bool.false_ne_true h

/-- No break is a counter. -/
theorem breaksFrom_eq_zero (ws : List UInt32) :
    breaksFrom none ws = 0 ↔ ws.IsChain fun a b => b = a + 1 := by
  have hsome : ∀ (ws : List UInt32) (a : UInt32),
      breaksFrom (some (a + 1)) ws = 0 ↔ (a :: ws).IsChain fun a b => b = a + 1 := by
    intro ws
    induction ws with
    | nil => exact fun a => ⟨fun _ => List.isChain_singleton a, fun _ => rfl⟩
    | cons w ws ih =>
        intro a
        rw [breaksFrom, List.isChain_cons_cons, ← ih w]
        by_cases hw : w = a + 1
        · rw [if_pos hw, Nat.zero_add]
          exact ⟨fun h => ⟨hw, h⟩, fun h => h.2⟩
        · rw [if_neg hw]
          exact ⟨fun h => absurd h (by omega), fun h => absurd h.1 hw⟩
  cases ws with
  | nil => exact ⟨fun _ => List.isChain_nil, fun _ => rfl⟩
  | cons w ws => exact hsome ws w

/-- A counter goes on from the word that is expected. -/
theorem breaksFrom_counterWords (start n : Nat) :
    breaksFrom (some (UInt32.ofNat start)) (counterWords start n) = 0 ∧
      expectAfter (some (UInt32.ofNat start)) (counterWords start n) =
        some (UInt32.ofNat (start + n)) := by
  induction n with
  | zero => exact ⟨rfl, rfl⟩
  | succ n ih =>
      have hlast : counterWords start (n + 1) = counterWords start n ++ [UInt32.ofNat (start + n)] :=
        counterWords_add start n 1
      rw [hlast, breaksFrom_append, expectAfter_append, ih.1, ih.2]
      refine ⟨?_, ?_⟩
      · show 0 + ((if _ then 0 else 1) + 0) = 0
        rw [if_pos rfl]
      · show some (UInt32.ofNat (start + n) + 1) = _
        rw [← Nat.add_assoc, UInt32.ofNat_add (start + n) 1]
        rfl

theorem expectAfter_isSome (e : Option UInt32) {ws : List UInt32} (hws : ws ≠ []) (e' : Option UInt32) :
    expectAfter e ws = expectAfter e' ws := by
  cases ws with
  | nil => exact absurd rfl hws
  | cons w ws => cases e <;> cases e' <;> rfl

/-- The first word is never a break. -/
theorem breaksFrom_first (w : UInt32) (ws : List UInt32) :
    breaksFrom none (w :: ws) = breaksFrom (some w) (w :: ws) := by
  rw [breaksFrom, breaksFrom, if_pos rfl, Nat.zero_add]

theorem counterWords_succ (start n : Nat) :
    counterWords start (n + 1) = UInt32.ofNat start :: counterWords (start + 1) n := by
  rw [Nat.add_comm n 1, counterWords_add]
  rfl

/-- A counter that begins behind the word that is expected. -/
theorem breaksFrom_gap {start gap n : Nat} (hgap : 0 < gap) (hwrap : gap < 2 ^ 32) (hn : 0 < n) :
    breaksFrom (some (UInt32.ofNat start)) (counterWords (start + gap) n) = 1 := by
  obtain ⟨m, rfl⟩ : ∃ m, n = m + 1 := ⟨n - 1, by omega⟩
  have hne : ¬ UInt32.ofNat (start + gap) = UInt32.ofNat start := by
    intro heq
    have hnat := congrArg UInt32.toNat heq
    rw [UInt32.toNat_ofNat', UInt32.toNat_ofNat'] at hnat
    omega
  have hnext : UInt32.ofNat (start + gap) + 1 = UInt32.ofNat (start + gap + 1) :=
    (UInt32.ofNat_add _ 1).symm
  rw [counterWords_succ, breaksFrom, if_neg hne, hnext, (breaksFrom_counterWords _ m).1]

theorem breaksFrom_counter (start n : Nat) : breaksFrom none (counterWords start n) = 0 := by
  cases n with
  | zero => rfl
  | succ m =>
      have hnone := (breaksFrom_counterWords start (m + 1)).1
      rw [counterWords_succ] at hnone ⊢
      rw [breaksFrom_first]
      exact hnone

/-- The breaks of a counter that lost a piece. -/
theorem breaksFrom_lost {start a gap n : Nat} (ha : 0 < a) (hgap : 0 < gap) (hwrap : gap < 2 ^ 32)
    (hn : 0 < n) :
    breaksFrom none (counterWords start a ++ counterWords (start + a + gap) n) = 1 := by
  obtain ⟨m, rfl⟩ : ∃ m, a = m + 1 := ⟨a - 1, by omega⟩
  have hafter := (breaksFrom_counterWords start (m + 1)).2
  have hexpect : expectAfter none (counterWords start (m + 1)) =
      some (UInt32.ofNat (start + (m + 1))) := by
    rw [← hafter]
    exact expectAfter_isSome _ (by rw [counterWords_succ]; exact List.cons_ne_nil _ _) _
  rw [breaksFrom_append, breaksFrom_counter, hexpect, breaksFrom_gap hgap hwrap hn]

/-- A piece of a counter is a counter. -/
theorem counterWords_eq_append {start n : Nat} {xs ys : List UInt32}
    (h : counterWords start n = xs ++ ys) :
    xs = counterWords start xs.length ∧ ys = counterWords (start + xs.length) ys.length := by
  have hn : n = xs.length + ys.length := by
    have hlen := congrArg List.length h
    rwa [List.length_append, counterWords, List.length_map, List.length_range] at hlen
  rw [hn, counterWords_add] at h
  have hlen : (counterWords start xs.length).length = xs.length := by
    rw [counterWords, List.length_map, List.length_range]
  obtain ⟨hxs, hys⟩ := List.append_inj h hlen
  exact ⟨hxs.symm, hys.symm⟩

/-- **The verdict on a loopback.** What `rate_out_fill_buf` puts into its
buffers, submission after submission, the FPGA reads as one counter. Where
blocks come back, cut in any way into transfers of at most 262144 bytes,
the counters of the verifier are those of the echo: no byte is skipped,
none is left, every block and word is counted, and `mism` is zero exactly
where the words are consecutive. An echo of what was sent has none, and
one that lost a piece of it in the middle has one. -/
theorem loopback_verdict {blkWords : Nat} (hwords : blkWords < 4096) (blocksPerBuf n : Nat)
    (bs : List Block) {transfers : List (List UInt8)} (htransfers : ∀ x ∈ transfers, x.length ≤ 262144)
    (hcut : transfers.flatten = encodeAll bs) :
    let down := (rateOut blkWords blocksPerBuf n 0).flatten
    ∃ payloads v, readAll readBulk down.length down = some payloads ∧
      vfyAll vfyStart transfers = some v ∧
      v.badHdr = 0 ∧ v.carry = [] ∧ v.blocks = bs.length ∧ v.words = (echoWords bs).length ∧
      (v.mism = 0 ↔ (echoWords bs).IsChain fun a b => b = a + 1) ∧
      (echoWords bs <+: payloads.flatMap wordsOf → v.mism = 0) ∧
      ∀ before lost after, payloads.flatMap wordsOf = before ++ (lost ++ after) →
        echoWords bs = before ++ after → before ≠ [] → lost ≠ [] → after ≠ [] →
          lost.length < 2 ^ 32 → v.mism = 1 := by
  intro down
  have hread := sentItems_read blocksPerBuf hwords n 0
  have hdown : down = ((sentItems blkWords blocksPerBuf n 0).map Prod.fst).flatten :=
    rateOut_eq blkWords blocksPerBuf n 0
  have hfuel : (sentItems blkWords blocksPerBuf n 0).length ≤ down.length := by
    rw [hdown]
    exact length_le_flatten fun i hi => (hread i hi).ne_nil
  obtain ⟨hbad, hblocks, hcount, hmism, -⟩ := counts_takes vfyStart (itemsOf bs)
  rw [itemBad_itemsOf] at hbad
  rw [itemBlocks_itemsOf] at hblocks
  rw [itemWords_itemsOf] at hcount hmism
  have hmism' : ((itemsOf bs).foldl Vfy.take vfyStart).mism = breaksFrom none (echoWords bs) :=
    hmism.trans (Nat.zero_add _)
  have hsent := sentItems_words blkWords blocksPerBuf n 0
  refine ⟨(sentItems blkWords blocksPerBuf n 0).map Prod.snd,
    { (itemsOf bs).foldl Vfy.take vfyStart with carry := [] }, ?_, ?_, hbad, rfl,
    hblocks.trans (Nat.zero_add _), hcount.trans (Nat.zero_add _), ?_, ?_, ?_⟩
  · rw [hdown] at hfuel ⊢
    exact readAll_flatten hread hfuel
  · rw [vfyAll_spec blkStep_nil htransfers, hcut]
    show some (vfyStart.after (blkMachine.drain () ([] ++ encodeAll bs))) = _
    rw [List.nil_append, drain_encodeAll]
    rfl
  · rw [← breaksFrom_eq_zero, ← hmism']
  · rintro ⟨rest, hecho⟩
    rw [hsent] at hecho
    rw [(counterWords_eq_append hecho.symm).1] at hmism'
    exact hmism'.trans (breaksFrom_counter 0 _)
  · intro before lost after hsplit hecho hbefore hlost hafter hwrap
    rw [hsent] at hsplit
    obtain ⟨hfirst, hrest⟩ := counterWords_eq_append hsplit
    obtain ⟨-, hlast⟩ := counterWords_eq_append hrest.symm
    rw [hecho, hfirst, hlast] at hmism'
    refine hmism'.trans (breaksFrom_lost ?_ ?_ hwrap ?_)
    · exact List.length_pos_iff.mpr hbefore
    · exact List.length_pos_iff.mpr hlost
    · exact List.length_pos_iff.mpr hafter

/-- Four words down, and the two in the middle are lost. -/
theorem loopback_verdict_twoLost :
    let bytes := (wordsBlock 0 0 0 0 0 3 0 0 0).encode
    ∃ v, vfyAll vfyStart [bytes.take 20, bytes.drop 20] = some v ∧
      v.badHdr = 0 ∧ v.blocks = 1 ∧ v.words = 2 ∧ v.mism = 1 := by
  intro bytes
  obtain ⟨payloads, v, hread, hall, hbad, -, hblocks, hwords, -, -, hlost⟩ :=
    loopback_verdict (by decide : 2 < 4096) 2 1 [wordsBlock 0 0 0 0 0 3 0 0 0]
      (by decide : ∀ x ∈ [bytes.take 20, bytes.drop 20], x.length ≤ 262144)
      (by rw [List.flatten_cons, List.flatten_singleton, List.take_append_drop]; rfl)
  have hsent : readAll readBulk (rateOut 2 2 1 0).flatten.length (rateOut 2 2 1 0).flatten =
      some [[0, 0, 0, 0, 1, 0, 0, 0], [2, 0, 0, 0, 3, 0, 0, 0]] := by decide +kernel
  obtain rfl := Option.some.inj (hsent.symm.trans hread)
  refine ⟨v, hall, hbad, hblocks, hwords, hlost [0] [1, 2] [3] ?_ ?_ ?_ ?_ ?_ ?_⟩
  all_goals decide +kernel

end UsbSniffer.Tools.UhsifBulk
