import UsbSniffer.Stream.Machine

/-!
# The staging buffer refines the block machine

A stream denotes the control fields and the list of its unprocessed
bytes. `process_available` may stop with bytes in hand that the block
machine would already have dropped (the three-byte tail, a short rest
below sixteen bytes), so the reading is up to draining: what the code
leaves behind drains SILENTLY to where the machine stands, and the calls
it has made are the machine's (`Settles`). `stream_feed` then implements
the machine on every well-formed stream (`feed_implements`), and with it
come the facts on the buffer: offsets stay inside it, a pass leaves less
than one maximum block, and every pass of the buffer-full branch copies
input.
-/

namespace UsbSniffer.Stream

open Uhsif Lib BlockLayer

/-- The unprocessed bytes. -/
def pending (s : Stream) : List UInt8 := bytesAt (s.bufAt 0) s.len

/-- The buffer invariant: the unprocessed bytes lie inside the buffer. -/
structure Wf (s : Stream) : Prop where
  cap_eq : s.cap = streamBufSize
  inside : s.head + s.len ≤ s.cap

/-! ## The bytes under the buffer operations -/

@[simp] theorem pending_length (s : Stream) : s.pending.length = s.len := by
  simp [pending, bytesAt]

theorem pending_getElem (s : Stream) {i : Nat} (h : i < s.pending.length) :
    s.pending[i] = s.buf (s.head + i) := by
  simp [pending, bytesAt, bufAt]

/-- Reads below `len` see the pending bytes. -/
theorem ptrAt_pending (s : Stream) {i j : Nat} (h : i + j < s.len) :
    ptrAt s.pending i j = s.bufAt i j := by
  have h' : i + j < s.pending.length := by simpa using h
  simp only [ptrAt, List.getD_eq_getElem?_getD, List.getElem?_eq_getElem h', Option.getD_some]
  rw [pending_getElem, bufAt, Nat.add_assoc]

theorem pending_advance (s : Stream) (k : Nat) : (s.advance k).pending = s.pending.drop k := by
  apply List.ext_getElem
  · simp [advance]
  · intro i h₁ h₂
    simp only [pending_getElem, List.getElem_drop]
    simp [advance, Nat.add_assoc]

theorem pending_keepFrom (s : Stream) (k : Nat) : (s.keepFrom k).pending = s.pending.drop k := by
  apply List.ext_getElem
  · simp [keepFrom]
  · intro i h₁ h₂
    have hi : i < s.len - k := by simpa [keepFrom] using h₁
    simp only [pending_getElem, List.getElem_drop]
    simp [keepFrom, memmove, hi, Nat.add_assoc]

theorem keepFrom_zero_pending (s : Stream) : (s.keepFrom 0).pending = s.pending := by
  rw [pending_keepFrom, List.drop_zero]

theorem compact_eq (s : Stream) : s.compact = s.keepFrom 0 ∨ s.compact = s := by
  rw [compact]
  split
  · exact .inl rfl
  · exact .inr rfl

theorem pending_compact (s : Stream) : s.compact.pending = s.pending := by
  rcases compact_eq s with h | h
  · rw [h, keepFrom_zero_pending]
  · rw [h]

theorem pending_append (s : Stream) (data : List UInt8) :
    (s.append data).pending = s.pending ++ data := by
  apply List.ext_getElem
  · simp [append]
  · intro i h₁ h₂
    rw [pending_getElem]
    by_cases hi : i < s.len
    · -- below the old length the copy is out of reach
      rw [List.getElem_append_left (by simpa using hi), pending_getElem]
      have hlo : ¬ s.head + s.len ≤ s.head + i := by omega
      simp [append, memcpy, hlo]
    · have hlen : i < s.len + data.length := by simpa [append] using h₁
      rw [List.getElem_append_right (by simp; omega)]
      have hin : s.head + s.len ≤ s.head + i ∧ s.head + i < s.head + s.len + data.length := by
        omega
      have hsub : s.head + i - (s.head + s.len) = i - s.len := by omega
      have hlt : i - s.len < data.length := by omega
      simp [append, memcpy, hin, hsub, List.getElem?_eq_getElem hlt]

theorem headerValid_pending (s : Stream) {i : Nat} (h : i + ackSize ≤ s.len) :
    headerValid (ptrAt s.pending i) = headerValid (s.bufAt i) :=
  headerValid_congr (fun j hj => s.ptrAt_pending (by omega))

theorem magicAt_pending (s : Stream) {i : Nat} (h : i + 2 ≤ s.len) :
    magicAt (ptrAt s.pending i) = magicAt (s.bufAt i) :=
  magicAt_congr (s.ptrAt_pending (by omega)) (s.ptrAt_pending (by omega))

/-- The payload behind the header in front. -/
theorem payload_pending (s : Stream) {n : Nat} (h : ackSize + 4 * n ≤ s.len) :
    (s.pending.drop ackSize).take (4 * n) = bytesAt ((s.bufAt 0).add ackSize) (4 * n) := by
  apply List.ext_getElem
  · simp [bytesAt]; omega
  · intro i h₁ h₂
    simp only [List.getElem_take, List.getElem_drop, pending_getElem]
    simp [bytesAt, bufAt, Ptr.add]

/-- Accepting the block in front is the machine's step. -/
theorem acceptBlock_eq (s : Stream) {n : Nat} (h : ackSize + 4 * n ≤ s.len) :
    acceptWhole s.toCtl s.pending n =
      some ((s.acceptBlock n).1.toCtl, (s.acceptBlock n).1.pending, (s.acceptBlock n).2) := by
  have hseq : blkSeq (ptrAt s.pending 0) = blkSeq (s.bufAt 0) :=
    blkSeq_congr (fun j hj => s.ptrAt_pending (by omega))
  have hlen : ¬ s.pending.length < ackSize + 4 * n := by simpa using h
  rw [acceptWhole, if_neg hlen, hseq, s.payload_pending h, ← pending_advance]
  rfl

/-! ## Scanning -/

theorem ptrAt_drop (l : List UInt8) (k : Nat) : ptrAt (l.drop k) 0 = ptrAt l k := by
  funext i
  simp [ptrAt, List.getD_eq_getElem?_getD, List.getElem?_drop]

theorem step_skip {c : Ctl} {l : List UInt8} (hc : c.state = .scan) (hl : 2 ≤ l.length)
    (hm : magicAt (ptrAt l 0) = false) :
    blockMachine.step c l = some (c, l.drop 1, []) := by
  show parseStep c l = _
  rw [parseStep]
  simp only [hc]
  rw [if_neg (by omega), if_pos hm]

/-- The machine drops silently what starts no magic. -/
theorem drain_skip {c : Ctl} (hc : c.state = .scan) (k : Nat) {l : List UInt8}
    (hk : k = 0 ∨ k + 1 ≤ l.length)
    (hm : ∀ i < k, magicAt (ptrAt l i) = false) :
    blockMachine.drain c l = blockMachine.drain c (l.drop k) := by
  induction k generalizing l with
  | zero => rw [List.drop_zero]
  | succ k ih =>
      have hl : k + 2 ≤ l.length := by omega
      rw [Incremental.drain_of_silent (step_skip hc (by omega) (hm 0 (by omega))),
        ih (l := l.drop 1) (by simp only [List.length_drop]; omega), List.drop_drop,
        Nat.add_comm]
      intro i hi
      have := hm (i + 1) (by omega)
      rwa [← ptrAt_drop, List.drop_drop, ptrAt_drop, Nat.add_comm]

/-- Below sixteen bytes a scanning machine only skips. -/
theorem step_short {c c' : Ctl} {l l' : List UInt8} {o : List Callback} (hc : c.state = .scan)
    (hl : l.length < ackSize) (h : parseStep c l = some (c', l', o)) :
    o = [] ∧ c' = c ∧ l' = l.drop 1 := by
  rw [parseStep] at h
  simp only [hc] at h
  split at h
  · cases h
  · split at h
    · cases h
      exact ⟨rfl, rfl, rfl⟩
    · cases h

theorem drain_short {c : Ctl} (hc : c.state = .scan) {l : List UInt8}
    (hl : l.length < ackSize) : (blockMachine.drain c l).2.2 = [] := by
  apply Incremental.drain_quiet (fun c l => c.state = .scan ∧ l.length < ackSize) _ ⟨hc, hl⟩
  rintro c l c' l' o ⟨hs, hshort⟩ hstep
  obtain ⟨rfl, rfl, rfl⟩ := step_short hs hshort hstep
  exact ⟨rfl, hs, by rw [List.length_drop]; omega⟩

/-! ## `process_available` -/

/-- The machine state a stream denotes: control fields and bytes. -/
def abs (s : Stream) : Ctl × List UInt8 := (s.toCtl, s.pending)

/-- The machine at `c₀`, `l₀` comes to rest with the calls `o`, and the
stream `s'` silently at the same place. -/
def Settles (c₀ : Ctl) (l₀ : List UInt8) (s' : Stream) (o : List Callback) : Prop :=
  ∃ c l, blockMachine.drain c₀ l₀ = (c, l, o) ∧
    blockMachine.drain s'.toCtl s'.pending = (c, l, [])

theorem Settles.of_waiting {s : Stream} (h : blockMachine.step s.toCtl s.pending = none) :
    Settles s.toCtl s.pending s [] :=
  ⟨_, _, Incremental.drain_of_none h, Incremental.drain_of_none h⟩

/-- A machine step in front of a run that settles. -/
theorem Settles.step {c₀ c₁ : Ctl} {l₀ l₁ : List UInt8} {s' : Stream} {o o' : List Callback}
    (h : blockMachine.step c₀ l₀ = some (c₁, l₁, o)) (hs : Settles c₁ l₁ s' o') :
    Settles c₀ l₀ s' (o ++ o') := by
  obtain ⟨c, l, h₁, h₂⟩ := hs
  exact ⟨c, l, by rw [Incremental.drain_of_some h, h₁], h₂⟩

/-- A run that comes to rest silently where `s'` does. -/
theorem Settles.of_quiet {c₀ : Ctl} {l₀ : List UInt8} {s' : Stream}
    (h : blockMachine.drain c₀ l₀ = blockMachine.drain s'.toCtl s'.pending)
    (hq : (blockMachine.drain s'.toCtl s'.pending).2.2 = []) : Settles c₀ l₀ s' [] :=
  ⟨_, _, by rw [h, ← hq], by rw [← hq]⟩

/-- More input behind a run that has settled. -/
theorem Settles.append {c₀ : Ctl} {l₀ x : List UInt8} {s₁ s' : Stream} {o o' : List Callback}
    (h : Settles c₀ l₀ s₁ o) (h' : Settles s₁.toCtl (s₁.pending ++ x) s' o') :
    Settles c₀ (l₀ ++ x) s' (o ++ o') := by
  obtain ⟨c, l, h₁, h₂⟩ := h
  obtain ⟨c', l', h₃, h₄⟩ := h'
  rw [Incremental.drain_append, h₂] at h₃
  simp only [List.nil_append] at h₃
  refine ⟨c', l', ?_, h₄⟩
  rw [Incremental.drain_append, h₁]
  cases h₃
  rfl

/-- What `process_available` guarantees. -/
structure Processed (s : Stream) (r : Stream × List Callback) : Prop where
  wf : r.1.Wf
  settles : Settles s.toCtl s.pending r.1 r.2
  len_lt : r.1.len < blkMaxSize

theorem Wf.keepFrom {s : Stream} (h : s.Wf) (k : Nat) : (s.keepFrom k).Wf := by
  have hin := h.inside
  exact ⟨h.cap_eq, by simp only [Stream.keepFrom]; omega⟩

theorem Wf.advance {s : Stream} (h : s.Wf) {k : Nat} (hk : k ≤ s.len) : (s.advance k).Wf := by
  have hin := h.inside
  exact ⟨h.cap_eq, by simp only [Stream.advance]; omega⟩

theorem Wf.acceptBlock {s : Stream} (h : s.Wf) {n : Nat} (hn : ackSize + 4 * n ≤ s.len) :
    (s.acceptBlock n).1.Wf :=
  ⟨h.cap_eq, (h.advance hn).inside⟩

theorem Processed.andThen {s s₁ : Stream} {o : List Callback} {r : Stream × List Callback}
    (h : blockMachine.step s.toCtl s.pending = some (s₁.toCtl, s₁.pending, o))
    (hr : Processed s₁ r) : Processed s (andThen o r) :=
  ⟨hr.wf, hr.settles.step h, hr.len_lt⟩

theorem Processed.congr {s : Stream} (s₁ : Stream) {r : Stream × List Callback}
    (h : blockMachine.drain s.toCtl s.pending = blockMachine.drain s₁.toCtl s₁.pending)
    (hr : Processed s₁ r) : Processed s r := by
  obtain ⟨c, l, h₁, h₂⟩ := hr.settles
  exact ⟨hr.wf, ⟨c, l, h.trans h₁, h₂⟩, hr.len_lt⟩

theorem step_block {s : Stream} (hs : s.state = .block) (hl : ackSize ≤ s.len) :
    blockMachine.step s.toCtl s.pending =
      match headerValid (s.bufAt 0) with
      | none => some (s.toCtl.resync, s.pending, [.rsync])
      | some n => acceptWhole s.toCtl s.pending n := by
  show parseStep s.toCtl s.pending = _
  rw [parseStep]
  simp only [hs, pending_length]
  rewrite [if_neg (by omega), headerValid_pending s (by omega)]
  cases headerValid (s.bufAt 0) <;> rfl

theorem step_scan {s : Stream} (hs : s.state = .scan) (hl : ackSize ≤ s.len)
    (hm : magicAt (s.bufAt 0) = true) :
    blockMachine.step s.toCtl s.pending =
      match headerValid (s.bufAt 0) with
      | none => some (s.toCtl, s.pending.drop 1, [])
      | some n => acceptWhole s.toCtl s.pending n := by
  have h2 : 2 ≤ s.len := Nat.le_trans (by decide) hl
  show parseStep s.toCtl s.pending = _
  rw [parseStep]
  simp only [hs, pending_length]
  rewrite [if_neg (by omega), magicAt_pending s (by omega), hm, if_neg (by simp),
    if_neg (by omega), headerValid_pending s (by omega)]
  cases headerValid (s.bufAt 0) <;> rfl

/-- The scan loop's answer: no magic before it, and a magic at it. -/
theorem findMagic_some {s : Stream} {found : Nat} (h : s.findMagic = some found) :
    found + 4 ≤ s.len ∧ magicAt (s.bufAt found) = true ∧
      ∀ i < found, magicAt (s.bufAt i) = false := by
  rw [findMagic, List.find?_range_eq_some] at h
  obtain ⟨hm, hr, hb⟩ := h
  rw [List.mem_range] at hr
  exact ⟨by omega, hm, fun i hi => by simpa using hb i hi⟩

theorem findMagic_none {s : Stream} (h : s.findMagic = none) :
    ∀ i, i + 4 ≤ s.len → magicAt (s.bufAt i) = false := by
  intro i hi
  rw [findMagic, List.find?_eq_none] at h
  simpa using h i (by rw [List.mem_range]; omega)

/-- Moving to the first magic is a silent run of the machine. -/
theorem drain_to_magic {s : Stream} (hs : s.state = .scan) {k : Nat}
    (hk : k = 0 ∨ k + 1 ≤ s.len) (hm : ∀ i < k, i + 2 ≤ s.len → magicAt (s.bufAt i) = false) :
    blockMachine.drain s.toCtl s.pending = blockMachine.drain s.toCtl (s.pending.drop k) := by
  apply drain_skip hs k
  · simpa using hk
  · intro i hi
    rw [magicAt_pending s (by omega)]
    exact hm i hi (by omega)

theorem bufAt_advance (s : Stream) (k : Nat) : (s.advance k).bufAt 0 = s.bufAt k := by
  funext i
  simp [bufAt, advance]

/-- **`process_available` settles every well-formed stream**: by the
loop's own recursion, one machine step (or a silent run of them) per
pass. -/
theorem processAvailable_spec (s : Stream) (hwf : s.Wf) : Processed s s.processAvailable := by
  have hcap : ∀ {n}, n ≤ maxPayloadWords → ackSize + 4 * n ≤ blkMaxSize := by
    intro n hn
    simp only [maxPayloadWords] at hn
    simp only [ackSize, blkMaxSize, maxPayloadWords]
    omega
  fun_induction processAvailable s with
  | case1 s hlen =>
      -- fewer than sixteen bytes: nothing is looked at
      refine ⟨hwf, ?_, Nat.lt_trans hlen (by decide)⟩
      cases hs : s.state with
      | scan => exact Settles.of_quiet rfl (drain_short hs (by simpa using hlen))
      | block =>
          apply Settles.of_waiting
          show parseStep s.toCtl s.pending = none
          simp [parseStep, hs, hlen]
  | case2 s hlen hs n hv hfull hfit =>
      refine ⟨hwf, Settles.of_waiting ?_, ?_⟩
      · rw [step_block hs (by omega), hv]
        simp [acceptWhole, hfull]
      · exact Nat.lt_of_lt_of_le hfull (hcap (headerValid_le hv))
  | case3 s hlen hs n hv hfull hfit ih =>
      -- no legal block is larger than the buffer
      exfalso
      have := hcap (headerValid_le hv)
      have hc := hwf.cap_eq
      simp only [streamBufSize] at hc
      have hmax : blkMaxSize ≤ 1048576 := by decide
      omega
  | case4 s hlen hs n hv hfull r ih =>
      have hn : ackSize + 4 * n ≤ s.len := by omega
      refine (ih (hwf.acceptBlock hn)).andThen ?_
      rw [step_block hs (by omega), hv]
      exact acceptBlock_eq s hn
  | case5 s hlen hs hv ih =>
      refine (ih ⟨hwf.cap_eq, hwf.inside⟩).andThen ?_
      rw [step_block hs (by omega), hv]
      rfl
  | case6 s hlen hs hnone keep hfit =>
      -- no magic: all but the three-byte tail is dropped
      have h16 : ackSize = 16 := rfl
      have hkeep : keep = 3 := by simp only [keep, scanKeepTail]; omega
      refine ⟨hwf.keepFrom _, ?_, ?_⟩
      · apply Settles.of_quiet
        · rw [pending_keepFrom]
          apply drain_to_magic hs
          · omega
          · intro i hi _
            exact findMagic_none hnone i (by omega)
        · apply drain_short hs
          simp only [pending_length, keepFrom]
          omega
      · simp only [keepFrom, blkMaxSize]
        omega
  | case7 s hlen hs hnone keep hfit =>
      exfalso
      have h16 : ackSize = 16 := rfl
      have hc := hwf.cap_eq
      simp only [streamBufSize] at hc
      simp only [keep, scanKeepTail] at hfit
      omega
  | case8 s hlen hs found hfound hshort =>
      obtain ⟨h4, hm, hb⟩ := findMagic_some hfound
      refine ⟨hwf.keepFrom _, ?_, ?_⟩
      · apply Settles.of_quiet
        · rw [pending_keepFrom]
          exact drain_to_magic hs (by omega) (fun i hi _ => hb i hi)
        · apply drain_short hs
          simpa [keepFrom] using hshort
      · exact Nat.lt_trans hshort (by decide)
  | case9 s hlen hs found hfound hshort hv ih =>
      -- a bogus magic: one byte further
      obtain ⟨h4, hm, hb⟩ := findMagic_some hfound
      refine Processed.congr _ ?_ (ih (hwf.advance (by omega)))
      rw [drain_to_magic hs (k := found) (by omega) (fun i hi _ => hb i hi)]
      have hstep := step_scan (s := s.advance found) hs (by simp only [advance]; omega)
        (by rw [bufAt_advance]; exact hm)
      rw [bufAt_advance, hv, pending_advance] at hstep
      show blockMachine.drain (s.advance found).toCtl _ = _
      rw [Incremental.drain_of_silent hstep, pending_advance, List.drop_drop]
      rfl
  | case10 s hlen hs found hfound hshort n hv hfull =>
      obtain ⟨h4, hm, hb⟩ := findMagic_some hfound
      have hstep := step_scan (s := s.advance found) hs (by simp only [advance]; omega)
        (by rw [bufAt_advance]; exact hm)
      rw [bufAt_advance, hv, pending_advance] at hstep
      refine ⟨hwf.keepFrom _, ?_, ?_⟩
      · apply Settles.of_quiet
        · rw [pending_keepFrom]
          exact drain_to_magic hs (by omega) (fun i hi _ => hb i hi)
        · rw [pending_keepFrom]
          have hwait : acceptWhole s.toCtl (s.pending.drop found) n = none := by
            rw [acceptWhole, if_pos (by simpa using hfull)]
          show (blockMachine.drain (s.advance found).toCtl _).2.2 = []
          rw [Incremental.drain_of_none (hstep.trans hwait)]
      · exact Nat.lt_of_lt_of_le hfull (hcap (headerValid_le hv))
  | case11 s hlen hs found hfound hshort n hv hfull r ih =>
      obtain ⟨h4, hm, hb⟩ := findMagic_some hfound
      have hn : ackSize + 4 * n ≤ (s.advance found).len := by simp only [advance]; omega
      have hstep := step_scan (s := s.advance found) hs (by simp only [advance]; omega)
        (by rw [bufAt_advance]; exact hm)
      rw [bufAt_advance, hv] at hstep
      have hadv : s.Wf → (s.advance found).Wf := fun h => h.advance (by omega)
      refine Processed.congr (s.advance found) ?_
        ((ih ((hadv hwf).acceptBlock hn)).andThen (hstep.trans (acceptBlock_eq _ hn)))
      rw [pending_advance]
      exact drain_to_magic hs (by omega) (fun i hi _ => hb i hi)

/-! ## `stream_feed` -/

/-- A stream between two calls of `stream_feed`. -/
structure Ready (s : Stream) : Prop where
  wf : s.Wf
  len_lt : s.len < blkMaxSize

theorem ready_new : Ready new :=
  ⟨⟨rfl, by decide⟩, by decide⟩

theorem Processed.ready {s : Stream} {r : Stream × List Callback} (h : Processed s r) :
    Ready r.1 := ⟨h.wf, h.len_lt⟩

theorem Ready.compact {s : Stream} (h : Ready s) : Ready s.compact := by
  rcases compact_eq s with he | he
  · rw [he]
    exact ⟨h.wf.keepFrom 0, h.len_lt⟩
  · rwa [he]

theorem compact_head (s : Stream) : s.compact.head = 0 := by
  rw [Stream.compact]
  split
  · rfl
  · omega

theorem compact_toCtl (s : Stream) : s.compact.toCtl = s.toCtl := by
  rcases compact_eq s with he | he <;> rw [he]
  rfl

theorem Wf.append {s : Stream} (h : s.Wf) {data : List UInt8}
    (hfit : s.head + (s.len + data.length) ≤ s.cap) : (s.append data).Wf :=
  ⟨h.cap_eq, hfit⟩

/-- Appending what fits and processing it is the machine on the longer
input. -/
theorem Ready.process_append {s : Stream} (h : Ready s) (data : List UInt8)
    (hfit : s.head + (s.len + data.length) ≤ s.cap) :
    Ready (s.append data).processAvailable.1 ∧
      Settles s.toCtl (s.pending ++ data) (s.append data).processAvailable.1
        (s.append data).processAvailable.2 := by
  have hp := processAvailable_spec _ (h.wf.append hfit)
  have hs := hp.settles
  rw [pending_append] at hs
  exact ⟨hp.ready, hs⟩

/-- The lazy compaction changes neither the bytes nor the control
fields, and leaves room whenever the compacted buffer has it. -/
theorem Ready.lazy {s : Stream} {size : Nat} (h : Ready s) (s₁ : Stream)
    (hs₁ : s₁ = if s.head ≠ 0 ∧ s.len + size > s.cap - s.head then
      { s with buf := memmove s.buf 0 s.head s.len, head := 0 } else s) :
    Ready s₁ ∧ s₁.toCtl = s.toCtl ∧ s₁.pending = s.pending := by
  split at hs₁
  · subst hs₁
    exact ⟨⟨h.wf.keepFrom 0, h.len_lt⟩, rfl, keepFrom_zero_pending s⟩
  · subst hs₁
    exact ⟨h, rfl, rfl⟩

/-- **`stream_feed` ends, and settles its input.** The induction is on
the number of passes: a pass of the buffer-full branch starts with less
than one maximum block in a buffer of 1 MiB, so it copies at least one
byte and one pass per byte is enough. -/
theorem feedLoop_spec (passes : Nat) {s : Stream} (data : List UInt8) (h : Ready s)
    (hp : data.length < passes) :
    ∃ s' o, feedLoop passes s data = some (s', o) ∧ Ready s' ∧
      Settles s.toCtl (s.pending ++ data) s' o := by
  induction passes generalizing s data with
  | zero => omega
  | succ passes ih =>
      rw [feedLoop]
      split
      · rename_i hempty
        have hnil : data = [] := List.length_eq_zero_iff.mp hempty
        subst hnil
        have hspec := processAvailable_spec s h.wf
        exact ⟨_, _, rfl, hspec.ready, by simpa using hspec.settles⟩
      · rename_i hne
        extract_lets s₁ s₂ part s₃ r
        obtain ⟨h₁, hctl, hpend⟩ := h.lazy s₁ rfl
        rw [← hctl, ← hpend]
        split
        · rename_i hfits
          have hin := h₁.wf.inside
          obtain ⟨hr, hs⟩ := h₁.process_append data (by omega)
          exact ⟨_, _, rfl, hr, hs⟩
        · -- the buffer is full: `part` bytes go in front
          have h₂ : Ready s₂ := h₁.compact
          have hhead : s₂.head = 0 := compact_head s₁
          have hlen := h₂.len_lt
          have hcap := h₂.wf.cap_eq
          have hbig : blkMaxSize < streamBufSize := by decide
          have hpart : 0 < part := by simp only [part]; omega
          have htake : (data.take part).length = part := by
            simp only [List.length_take, part]; omega
          have hctl₂ : s₂.toCtl = s₁.toCtl := compact_toCtl s₁
          have hpend₂ : s₂.pending = s₁.pending := pending_compact s₁
          obtain ⟨hr, hs⟩ := h₂.process_append (data.take part)
            (by rw [htake, hhead]; simp only [part]; omega)
          rw [hctl₂, hpend₂] at hs
          split
          · rename_i hrest
            have hall : data.take part = data := by
              apply List.take_of_length_le
              simp only [List.length_drop] at hrest
              omega
            rw [hall] at hs
            refine ⟨_, _, rfl, hr, ?_⟩
            simpa only [s₃, hall] using hs
          · obtain ⟨s', o, hloop, hready, hset⟩ := ih (data.drop part)
              hr.compact (by simp only [List.length_drop]; omega)
            rw [compact_toCtl, pending_compact] at hset
            refine ⟨s', r.2 ++ o, by rw [hloop]; rfl, hready, ?_⟩
            have := hs.append hset
            rwa [List.append_assoc, List.take_append_drop] at this

/-- `stream_feed` returns, and is ready for the next call. -/
theorem Ready.feed {s : Stream} (h : Ready s) (data : List UInt8) :
    ∃ s' calls, Stream.feed s data = some (s', calls) ∧ Ready s' := by
  obtain ⟨s', calls, hfeed, hready, -⟩ := feedLoop_spec (data.length + 1) data h (by omega)
  exact ⟨s', calls, hfeed, hready⟩

/-- **The stream layer implements the block machine.** -/
theorem feed_implements : Implements blockMachine Ready abs feed where
  feed_spec := by
    intro s c l x hs hd
    obtain ⟨s', o, hfeed, hready, c', l', h₁, h₂⟩ :=
      feedLoop_spec (x.length + 1) x hs (by omega)
    rw [Incremental.drain_append] at h₁
    simp only [abs] at hd
    rw [hd] at h₁
    simp only [List.nil_append] at h₁
    cases h₁
    exact ⟨s', _, hfeed, hready, rfl, h₂⟩

end UsbSniffer.Stream
