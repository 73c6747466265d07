import UsbSniffer.Stream.Refine

/-!
# What the stream layer delivers

The laws of the block layer that its users rely on, over the code's own
`stream_feed` and for every cut of the input into calls: the calls made
do not depend on the cut, a stream of legal blocks is delivered whole
with exactly one report per sequence jump, and garbage between blocks
costs one report and no block.

Each is a fact on the block machine (`drain_blocks`, `drain_garbage`)
carried to the code by `feed_implements`.
-/

namespace UsbSniffer.Stream

open Uhsif Lib BlockLayer

/-- **Chunking independence.** However a byte sequence is cut into
`stream_feed` calls on a fresh stream, every call returns and the calls
made are those of a single `stream_feed` with the whole sequence. (An
`int` sum `len + size` that overflows is outside the model.) -/
theorem feed_chunking (chunks : List (List UInt8)) :
    ∃ s₁ s₂ calls, feedAll feed new chunks = some (s₁, calls) ∧
      feed new chunks.flatten = some (s₂, calls) := by
  have hstart : blockMachine.step new.toCtl [] = none := rfl
  have habs : blockMachine.drain (abs new).1 (abs new).2 = (new.toCtl, [], []) :=
    Incremental.drain_of_none hstart
  obtain ⟨s₁, o₁, h₁, -, ho₁, -⟩ := feed_implements.feedAll chunks ready_new habs hstart
  obtain ⟨s₂, o₂, h₂, -, ho₂, -⟩ := feed_implements.feed_spec chunks.flatten ready_new habs
  exact ⟨s₁, s₂, o₁, h₁, by rw [h₂, ← ho₂, ho₁]⟩

/-! ## Legal blocks -/

/-- The call a block is for. -/
def blockCall (b : Block) : Callback := deliver b.payload b.words

/-- The blocks on the wire, back to back. -/
def encodeAll (bs : List Block) : List UInt8 := (bs.map Block.encode).flatten

@[simp] theorem encodeAll_nil : encodeAll [] = [] := rfl

@[simp] theorem encodeAll_cons (b : Block) (bs : List Block) :
    encodeAll (b :: bs) = b.encode ++ encodeAll bs := rfl

/-- The calls owed for a list of blocks after a block with number `prev`
(`none`: after none, or after a resynchronization). -/
def owedCalls : Option UInt8 → List Block → List Callback
  | _, [] => []
  | prev, b :: bs =>
      (if prev.any (fun q => b.seq != q + 1) then [.rsync] else []) ++
        blockCall b :: owedCalls (some b.seq) bs

theorem le32_at_header (b : Block) (x : List UInt8) (off : Nat) (v : UInt32)
    (hv : ∀ i (hi : i < 4), (b.header)[off + i]? = some ((putLe32 v).get ⟨i, hi⟩)) :
    le32 ((ptrAt (b.encode ++ x) 0).add off) = v := by
  apply le32_putLe32
  intro i hi
  have h := hv i hi
  obtain ⟨hlt, -⟩ := List.getElem?_eq_some_iff.mp h
  have hget : (b.encode ++ x)[off + i]? = (b.header)[off + i]? := by
    rw [Block.encode, List.append_assoc, List.getElem?_append_left hlt]
  simp only [Ptr.add, ptrAt, Nat.zero_add, List.getD_eq_getElem?_getD]
  rw [hget, h]
  rfl

/-- The header words of an encoded block, read through its bytes. -/
theorem words_at_encode (b : Block) (x : List UInt8) :
    le32 (ptrAt (b.encode ++ x) 0) = b.w0 ∧ le32 ((ptrAt (b.encode ++ x) 0).add 4) = b.w1 ∧
      le32 ((ptrAt (b.encode ++ x) 0).add 8) = b.w2 ∧
      le32 ((ptrAt (b.encode ++ x) 0).add 12) = b.w3 := by
  have hread : ∀ off v, (∀ i (hi : i < 4), (b.header)[off + i]? =
      some ((putLe32 v).get ⟨i, hi⟩)) → le32 ((ptrAt (b.encode ++ x) 0).add off) = v :=
    fun off v h => le32_at_header b x off v h
  have h0 : (ptrAt (b.encode ++ x) 0).add 0 = ptrAt (b.encode ++ x) 0 := by
    funext i
    simp [Ptr.add]
  refine ⟨h0 ▸ hread 0 b.w0 ?_, hread 4 b.w1 ?_, hread 8 b.w2 ?_, hread 12 b.w3 ?_⟩ <;>
  · intro i hi
    interval_cases i <;> rfl

theorem headerValid_encode (b : Block) (x : List UInt8) :
    headerValid (ptrAt (b.encode ++ x) 0) = some b.words := by
  obtain ⟨h0, h1, h2, h3⟩ := words_at_encode b x
  have hlen : ((b.w3 >>> 12) &&& 0xfff).toNat = b.words := by
    have hw := b.words_le
    have hr := b.reserved_lt
    simp only [maxPayloadWords] at hw
    rw [UInt32.toNat_and, UInt32.toNat_shiftRight, b.w3_toNat, Nat.shiftRight_eq_div_pow]
    show (_ / 2 ^ 12) &&& (2 ^ 12 - 1) = _
    rw [Nat.and_two_pow_sub_one_eq_mod]
    omega
  have hmask : b.w1 &&& 0xfffff000 = 0 := by
    apply UInt32.toNat_inj.mp
    rw [UInt32.toNat_and]
    have hlt : b.w1.toNat < 2 ^ 12 := b.w1_lt
    apply Nat.eq_of_testBit_eq
    intro i
    rw [Nat.testBit_and]
    show (_ && (0xfffff000 : Nat).testBit i) = (0 : Nat).testBit i
    rw [Nat.zero_testBit, Bool.and_eq_false_iff]
    by_cases hi : i < 12
    · right
      interval_cases i <;> decide
    · left
      exact Nat.testBit_lt_two_pow (Nat.lt_of_lt_of_le hlt (Nat.pow_le_pow_right (by omega)
        (by omega)))
  have hrange : ¬ (b.words ≠ 0 ∧ ¬ (minPayloadWords ≤ b.words ∧ b.words ≤ maxPayloadWords)) := by
    rintro ⟨hne, hout⟩
    exact hout ⟨Nat.one_le_iff_ne_zero.mpr hne, b.words_le⟩
  simp only [headerValid, h0, h1, h2, h3, hlen, hmask, b.blkHdrOk_words]
  simp only [Bool.not_true, Bool.false_eq_true, if_false, ne_eq, not_true]
  rw [if_neg hrange]

theorem blkSeq_encode (b : Block) (x : List UInt8) :
    blkSeq (ptrAt (b.encode ++ x) 0) = b.seq := by
  obtain ⟨-, -, -, h3⟩ := words_at_encode b x
  have hs := b.seq.toNat_lt
  have hw := b.words_le
  have hr := b.reserved_lt
  simp only [maxPayloadWords] at hw
  apply UInt8.toNat_inj.mp
  rw [blkSeq, h3, UInt32.toNat_toUInt8, UInt32.toNat_shiftRight, b.w3_toNat,
    Nat.shiftRight_eq_div_pow]
  show _ / 2 ^ 24 % 2 ^ 8 = _
  omega

/-- The control fields after accepting a block with number `seq`. -/
def accepted (c : Ctl) (seq : UInt8) : Ctl := { (c.trackSeq seq).1 with state := .block }

/-- A legal block in front is taken off, aligned or not. -/
theorem step_encode (c : Ctl) (b : Block) (x : List UInt8) :
    blockMachine.step c (b.encode ++ x) =
      some (accepted c b.seq, x, (c.trackSeq b.seq).2 ++ [blockCall b]) := by
  have hlen : (b.encode ++ x).length = 16 + 4 * b.words + x.length := by simp
  have hwhole : acceptWhole c (b.encode ++ x) b.words =
      some (accepted c b.seq, x, (c.trackSeq b.seq).2 ++ [blockCall b]) := by
    have hdrop : (b.encode ++ x).drop (ackSize + 4 * b.words) = x :=
      List.drop_left' (by simp [ackSize])
    have hpay : ((b.encode ++ x).drop ackSize).take (4 * b.words) = b.payload := by
      rw [Block.encode, List.append_assoc, List.drop_left' (by simp [ackSize]),
        List.take_left' b.payload_length]
    rw [acceptWhole, if_neg (by simp only [hlen, ackSize]; omega), blkSeq_encode, hdrop, hpay]
    rfl
  have hv := headerValid_encode b x
  show parseStep c (b.encode ++ x) = _
  rw [parseStep]
  cases hs : c.state with
  | block =>
      simp only [hlen, hv]
      rw [if_neg (by simp only [ackSize]; omega), hwhole]
  | scan =>
      simp only [hlen, hv, magicAt_of_headerValid hv]
      rw [if_neg (by omega), if_neg (by simp), if_neg (by simp only [ackSize]; omega), hwhole]

/-- The number the tracker compares with. -/
def lastNumber (c : Ctl) : Option UInt8 := if c.haveSeq then some c.lastSeq else none

theorem trackSeq_calls (c : Ctl) (seq : UInt8) :
    (c.trackSeq seq).2 =
      if (lastNumber c).any (fun q => seq != q + 1) then [.rsync] else [] := by
  simp only [Ctl.trackSeq, lastNumber]
  by_cases h : c.haveSeq = true <;> simp [h]

/-- The control fields after a list of blocks. -/
def afterBlocks (c : Ctl) : List Block → Ctl
  | [] => c
  | b :: bs => afterBlocks (accepted c b.seq) bs

theorem afterBlocks_state {bs : List Block} (h : bs ≠ []) (c : Ctl) :
    (afterBlocks c bs).state = .block := by
  have hkeep : ∀ (bs : List Block) (c : Ctl), c.state = .block →
      (afterBlocks c bs).state = .block := by
    intro bs
    induction bs with
    | nil => intro c hc; exact hc
    | cons b bs ih => intro c _; exact ih (accepted c b.seq) rfl
  cases bs with
  | nil => exact absurd rfl h
  | cons b bs => exact hkeep bs (accepted c b.seq) rfl

/-- **The machine on legal blocks**: every block is taken off and the
calls owed are made. -/
theorem drain_blocks (bs : List Block) (c : Ctl) (x : List UInt8) :
    blockMachine.drain c (encodeAll bs ++ x) =
      (let r := blockMachine.drain (afterBlocks c bs) x
       (r.1, r.2.1, owedCalls (lastNumber c) bs ++ r.2.2)) := by
  induction bs generalizing c with
  | nil => rfl
  | cons b bs ih =>
      have hlast : lastNumber (accepted c b.seq) = some b.seq := rfl
      rw [encodeAll_cons, List.append_assoc, Incremental.drain_of_some (step_encode c b _),
        ih (accepted c b.seq), hlast, trackSeq_calls]
      simp [owedCalls, afterBlocks]

/-- Without bytes the machine waits. -/
theorem step_nil (c : Ctl) : blockMachine.step c [] = none := by
  show parseStep c [] = none
  rw [parseStep]
  cases c.state <;> rfl

theorem drain_blocks_only (bs : List Block) (c : Ctl) :
    blockMachine.drain c (encodeAll bs) =
      (afterBlocks c bs, [], owedCalls (lastNumber c) bs) := by
  have h := drain_blocks bs c []
  rw [List.append_nil, Incremental.drain_of_none (step_nil _)] at h
  simpa using h

/-! ## Garbage -/

/-- The machine scans past what starts no legal header. -/
theorem drain_garbage {c : Ctl} (hc : c.state = .scan) (g x : List UInt8)
    (hx : ackSize ≤ x.length)
    (hg : ∀ i < g.length, headerValid (ptrAt (g ++ x) i) = none) :
    blockMachine.drain c (g ++ x) = blockMachine.drain c x := by
  induction g with
  | nil => rfl
  | cons a g ih =>
      have h16 : ackSize = 16 := rfl
      have hlen : (a :: g ++ x).length = g.length + x.length + 1 := by simp
      have hstep : blockMachine.step c (a :: g ++ x) = some (c, g ++ x, []) := by
        show parseStep c (a :: g ++ x) = _
        rw [parseStep]
        simp only [hc, hlen, hg 0 (by simp)]
        rw [if_neg (by omega)]
        split
        · rfl
        · rw [if_neg (by omega)]
          rfl
      rw [Incremental.drain_of_silent hstep]
      apply ih
      intro i hi
      have := hg (i + 1) (by simpa using hi)
      rwa [← ptrAt_drop, List.cons_append, List.drop_succ_cons, ptrAt_drop] at this

/-- The tracker remembers the last block. -/
theorem lastNumber_concat (c : Ctl) (bs : List Block) (b : Block) :
    lastNumber (afterBlocks c (bs ++ [b])) = some b.seq := by
  induction bs generalizing c with
  | nil => rfl
  | cons a bs ih => exact ih (accepted c a.seq)

/-- Consecutive numbers owe no report. -/
theorem owedCalls_chain {bs : List Block} (prev : Option UInt8)
    (hprev : ∀ b ∈ bs.head?, ∀ q ∈ prev, b.seq = q + 1)
    (hchain : bs.IsChain (fun a b => b.seq = a.seq + 1)) :
    owedCalls prev bs = bs.map blockCall := by
  induction bs generalizing prev with
  | nil => rfl
  | cons b bs ih =>
      have hquiet : prev.any (fun q => b.seq != q + 1) = false := by
        cases prev with
        | none => rfl
        | some q => simp [hprev b (by simp) q (by simp)]
      have htail := ih (some b.seq) (by
        intro b' hb' q hq
        cases bs with
        | nil => simp at hb'
        | cons b'' bs =>
            simp only [List.head?_cons, Option.mem_def, Option.some.injEq] at hb' hq
            subst hb'
            subst hq
            exact (List.isChain_cons_cons.mp hchain).1) hchain.tail
      rw [owedCalls, hquiet, htail]
      simp

/-! ## The laws, for the code -/

/-- The stream has consumed the legal blocks `sent` and nothing else. -/
structure Consumed (s : Stream) (sent : List Block) : Prop where
  ready : Ready s
  drained : blockMachine.drain (abs s).1 (abs s).2 = (afterBlocks new.toCtl sent, [], [])

theorem consumed_new : Consumed new [] :=
  ⟨ready_new, Incremental.drain_of_none (show blockMachine.step new.toCtl [] = none from rfl)⟩

theorem afterBlocks_append (c : Ctl) (bs bs' : List Block) :
    afterBlocks c (bs ++ bs') = afterBlocks (afterBlocks c bs) bs' := by
  induction bs generalizing c with
  | nil => rfl
  | cons b bs ih => exact ih (accepted c b.seq)

/-- More legal blocks, in any cut. -/
theorem Consumed.feedAll {s : Stream} {sent : List Block} (h : Consumed s sent) (bs : List Block)
    {chunks : List (List UInt8)} (hchunks : chunks.flatten = encodeAll bs) :
    ∃ s', feedAll feed s chunks =
        some (s', owedCalls (lastNumber (afterBlocks new.toCtl sent)) bs) ∧
      Consumed s' (sent ++ bs) := by
  obtain ⟨s', o, hfeed, hready, ho, hs'⟩ :=
    feed_implements.feedAll chunks h.ready h.drained (step_nil _)
  rw [List.nil_append, hchunks, drain_blocks_only] at ho hs'
  exact ⟨s', by rw [hfeed, ← ho], hready, by rw [hs', afterBlocks_append]⟩

/-- A run of `stream_feed` calls that has consumed legal blocks only
stands at the machine's state after them. -/
theorem feedAll_blocks {bs : List Block} {chunks : List (List UInt8)}
    (h : chunks.flatten = encodeAll bs) :
    ∃ s, feedAll feed new chunks = some (s, owedCalls none bs) ∧ Ready s ∧
      blockMachine.drain (abs s).1 (abs s).2 = (afterBlocks new.toCtl bs, [], []) := by
  obtain ⟨s, hfeed, hs⟩ := consumed_new.feedAll bs h
  exact ⟨s, hfeed, hs.ready, hs.drained⟩

/-- Legal blocks in a single call. -/
theorem feed_encodeAll (bs : List Block) :
    ∃ s, feed new (encodeAll bs) = some (s, owedCalls none bs) := by
  obtain ⟨s, hs, -, -⟩ := feedAll_blocks (show [encodeAll bs].flatten = encodeAll bs by simp)
  rw [feedAll_singleton] at hs
  exact ⟨s, hs⟩

/-- **Lossless delivery and loss detection.** Legal blocks with arbitrary
sequence numbers, fed in any cut to a fresh stream, give one call per
block in order, one `rsync_cb` right before each block whose number is
not its predecessor's plus one, and no other call. -/
theorem feed_blocks_delivered (bs : List Block) (chunks : List (List UInt8))
    (h : chunks.flatten = encodeAll bs) :
    ∃ s, feedAll feed new chunks = some (s, owedCalls none bs) := by
  obtain ⟨s, hs, -, -⟩ := feedAll_blocks h
  exact ⟨s, hs⟩

/-- A block without payload. -/
def ackBlock (seq : UInt8) : Block where
  w1 := 1
  w2 := 2
  seq := seq
  words := 0
  reserved := 0
  payload := []
  w1_lt := by decide
  words_le := by decide
  reserved_lt := by decide
  payload_length := rfl

/-- A block with one payload word. -/
def wordBlock (seq a b c d : UInt8) : Block where
  w1 := 1
  w2 := 2
  seq := seq
  words := 1
  reserved := 0
  payload := [a, b, c, d]
  w1_lt := by decide
  words_le := by decide
  reserved_lt := by decide
  payload_length := rfl

/-- A block with two payload words. -/
def wordsBlock (seq a b c d a' b' c' d' : UInt8) : Block where
  w1 := 1
  w2 := 2
  seq := seq
  words := 2
  reserved := 0
  payload := [a, b, c, d, a', b', c', d']
  w1_lt := by decide
  words_le := by decide
  reserved_lt := by decide
  payload_length := rfl

theorem feed_blocks_delivered_jump :
    ∃ s, feedAll feed new [encodeAll [ackBlock 255, wordBlock 0 1 2 3 4, ackBlock 7]] =
      some (s, [.ack, .data [1, 2, 3, 4], .rsync, .ack]) :=
  feed_blocks_delivered [ackBlock 255, wordBlock 0 1 2 3 4, ackBlock 7] _ (by simp)

/-- **An aligned machine on garbage.** It reports the loss once and takes
the legal blocks behind the garbage. -/
theorem drain_resync {c : Ctl} (haligned : c.state = .block) {g : List UInt8} {bs : List Block}
    (hg : g ≠ []) (hbs : bs ≠ []) (hchain : bs.IsChain (fun a b => b.seq = a.seq + 1))
    (hclean : ∀ i < g.length, headerValid (ptrAt (g ++ encodeAll bs) i) = none) :
    (blockMachine.drain c (g ++ encodeAll bs)).2.2 = .rsync :: bs.map blockCall := by
  have h16 : ackSize ≤ (encodeAll bs).length := by
    cases bs with
    | nil => exact absurd rfl hbs
    | cons b bs =>
        simp only [encodeAll_cons, List.length_append, Block.encode_length, ackSize]
        omega
  have hfirst : blockMachine.step c (g ++ encodeAll bs) =
      some (c.resync, g ++ encodeAll bs, [.rsync]) := by
    have hlen : ¬ (g ++ encodeAll bs).length < ackSize := by
      rw [List.length_append]; omega
    show parseStep _ _ = _
    rw [parseStep, haligned]
    simp only [hclean 0 (List.length_pos_iff.mpr hg), hlen, if_false]
  have hnone : lastNumber c.resync = none := rfl
  rw [Incremental.drain_of_some hfirst, drain_garbage rfl g _ h16 hclean, drain_blocks_only, hnone,
    owedCalls_chain none (by simp) hchain]
  rfl

/-- **Resynchronization without further loss.** After any legal blocks,
garbage in which no legal header starts, followed by legal blocks with
consecutive numbers, gives one `rsync_cb` and then every block once and
in order, in any cut. -/
theorem feed_resync_recovers (sent bs : List Block) (g : List UInt8)
    (before chunks : List (List UInt8)) (s : Stream) (calls : List Callback)
    (hsent : sent ≠ []) (hbefore : before.flatten = encodeAll sent)
    (hreach : feedAll feed new before = some (s, calls)) (hg : g ≠ []) (hbs : bs ≠ [])
    (hchain : bs.IsChain (fun a b => b.seq = a.seq + 1))
    (hclean : ∀ i < g.length, headerValid (ptrAt (g ++ encodeAll bs) i) = none)
    (hchunks : chunks.flatten = g ++ encodeAll bs) :
    ∃ s', feedAll feed s chunks = some (s', .rsync :: bs.map blockCall) := by
  obtain ⟨s₀, hs₀, hready, hdrain⟩ := feedAll_blocks hbefore
  rw [hreach] at hs₀
  cases hs₀
  have haligned := afterBlocks_state hsent new.toCtl
  obtain ⟨s', o, hfeed, -, ho, -⟩ := feed_implements.feedAll chunks hready hdrain (step_nil _)
  refine ⟨s', ?_⟩
  rw [hfeed, ← ho, List.nil_append, hchunks, drain_resync haligned hg hbs hchain hclean]

/-- A magic without a header, and half of one. -/
def falseMagic : List UInt8 := [0xC6, 0x6C, 0, 0, 0xC6]

theorem feed_resync_recovers_falseMagic :
    ∃ s s', feedAll feed new [encodeAll [ackBlock 0]] = some (s, [.ack]) ∧
      feedAll feed s [[0xC6, 0x6C, 0], 0 :: 0xC6 :: encodeAll [wordBlock 9 1 2 3 4, ackBlock 10]] =
        some (s', [.rsync, .data [1, 2, 3, 4], .ack]) := by
  obtain ⟨s, hs, -, -⟩ := feedAll_blocks
    (show [encodeAll [ackBlock 0]].flatten = encodeAll [ackBlock 0] by simp)
  have hclean : ∀ i < falseMagic.length, headerValid
      (ptrAt (falseMagic ++ encodeAll [wordBlock 9 1 2 3 4, ackBlock 10]) i) = none := by
    decide +kernel
  obtain ⟨s', hs'⟩ := feed_resync_recovers [ackBlock 0] [wordBlock 9 1 2 3 4, ackBlock 10]
    falseMagic [encodeAll [ackBlock 0]]
    [[0xC6, 0x6C, 0], 0 :: 0xC6 :: encodeAll [wordBlock 9 1 2 3 4, ackBlock 10]] s _ (by simp)
    (by simp) hs (by simp [falseMagic]) (by simp) (by simp [wordBlock, ackBlock]) hclean
    (by simp [falseMagic])
  exact ⟨s, s', hs, hs'⟩

end UsbSniffer.Stream
