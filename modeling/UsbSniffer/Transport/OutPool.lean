import UsbSniffer.Transport.Libusb

/-!
# The OUT pool of the libusb transport

`tl_write` and `out_callback` of `transport_libusb.c`: four slots, each
with a transfer and the bytes of one command. The caller's packet is on
its stack and is gone when `tl_write` returns, so a slot keeps a copy
until the driver is through with it.

The driver is the other party. A transfer it has taken is in flight until
its callback, and in between the driver reads the bytes of the slot
whenever it likes. `commands_exact` says that it can: no command in
flight is ever written over, and every command that `tl_write` has
accepted is in flight or was finished, once.
-/

namespace UsbSniffer.Transport

/-- `OUT_POOL_SIZE`. -/
abbrev outPoolSize : Nat := 4

/-- `OUT_PACKET_MAX`. -/
def outPacketMax : Nat := 64

/-- `out_slot`, with the length its transfer was filled with. -/
structure OutSlot where
  busy : Bool
  length : Nat
  data : List UInt8
deriving Repr, DecidableEq

/-- What the driver sends for a slot. -/
def OutSlot.bytes (slot : OutSlot) : List UInt8 := slot.data.take slot.length

/-- `out_pool`, and the transfers in flight, in the order they were
submitted. -/
structure Out where
  pool : Fin outPoolSize → OutSlot
  flying : List (Fin outPoolSize)

namespace Out

/-- As `os_alloc` leaves it. -/
def new : Out where
  pool := fun _ => { busy := false, length := 0, data := List.replicate outPacketMax 0 }
  flying := []

/-- The search for a slot that is not busy. -/
def firstFree (pool : Fin outPoolSize → OutSlot) : Option (Fin outPoolSize) :=
  (List.finRange outPoolSize).find? fun i => !(pool i).busy

/-- `memcpy` into the slot, and `libusb_fill_bulk_transfer`. -/
def fill (slot : OutSlot) (data : List UInt8) : OutSlot where
  busy := true
  length := data.length
  data := data ++ slot.data.drop data.length

/-- `tl_write`, where `libusb_submit_transfer` gives `rc`: the result and
the pool. `none` is the `os_error` of a packet that is too large. -/
def tlWrite (p : Out) (data : List UInt8) (rc : Int) : Option (Int × Out) :=
  if outPacketMax < data.length then none
  else
    match firstFree p.pool with
    | none => some (-1, p)
    | some i =>
        let slot := fill (p.pool i) data
        if rc < 0 then
          some (rc, { p with pool := Function.update p.pool i { slot with busy := false } })
        else some (0, { pool := Function.update p.pool i slot, flying := p.flying ++ [i] })

/-- `out_callback`, whatever the status of the transfer is. -/
def outCallback (p : Out) (i : Fin outPoolSize) : Out where
  pool := Function.update p.pool i { p.pool i with busy := false }
  flying := p.flying.erase i

/-- A call of `tl_write`, and what submitting gives; or the callback of a
transfer. -/
inductive Event where
  | write (data : List UInt8) (rc : Int)
  | callback (slot : Fin outPoolSize)
deriving Repr, DecidableEq

/-- The commands `tl_write` has returned 0 for, and those the driver was
through with, each in order. -/
structure Log where
  accepted : List (List UInt8)
  finished : List (List UInt8)
deriving Repr, DecidableEq

/-- One event. A callback is that of a transfer in flight, and what was
sent for it stands in its slot. -/
def event (p : Out) (log : Log) : Event → Option (Out × Log)
  | .write data rc =>
      (p.tlWrite data rc).map fun r =>
        (r.2, if r.1 = 0 then { log with accepted := log.accepted ++ [data] } else log)
  | .callback i =>
      if i ∈ p.flying then
        some (p.outCallback i, { log with finished := log.finished ++ [(p.pool i).bytes] })
      else none

/-- Some events. -/
def run (p : Out) (log : Log) : List Event → Option (Out × Log)
  | [] => some (p, log)
  | e :: events => (p.event log e).bind fun r => run r.1 r.2 events

/-- The callbacks come in the order of the submissions. -/
def InOrder (p : Out) (log : Log) : List Event → Prop
  | [] => True
  | e :: events =>
      (∀ i, e = .callback i → p.flying.head? = some i) ∧
        ∀ r, p.event log e = some r → InOrder r.1 r.2 events

/-- The commands in flight. -/
def pending (p : Out) : List (List UInt8) := p.flying.map fun i => (p.pool i).bytes

/-! ## The slots -/

/-- The busy slots are those in flight, and none is in flight twice. -/
structure Ok (p : Out) : Prop where
  nodup : p.flying.Nodup
  busy : ∀ i, (p.pool i).busy = true ↔ i ∈ p.flying

theorem ok_new : Ok new :=
  ⟨List.nodup_nil, fun _ => iff_of_false Bool.false_ne_true List.not_mem_nil⟩

theorem bytes_fill (slot : OutSlot) (data : List UInt8) : (fill slot data).bytes = data :=
  List.take_left

/-- A slot that is found is not in flight. -/
theorem Ok.firstFree_some {p : Out} (h : p.Ok) {i : Fin outPoolSize}
    (hi : firstFree p.pool = some i) : i ∉ p.flying := by
  intro hmem
  have hfree := List.find?_some hi
  rw [(h.busy i).mpr hmem] at hfree
  cases hfree

/-- Where none is found, all are. -/
theorem Ok.firstFree_none {p : Out} (h : p.Ok) (hnone : firstFree p.pool = none) (i : Fin outPoolSize) :
    i ∈ p.flying := by
  have hbusy := List.find?_eq_none.mp hnone i (List.mem_finRange i)
  exact (h.busy i).mp (by simpa using hbusy)

/-- At most four are in flight, and four when there is no free slot. -/
theorem Ok.flying_lt_iff {p : Out} (h : p.Ok) :
    p.flying.length < outPoolSize ↔ ∃ i, firstFree p.pool = some i := by
  constructor
  · intro hlt
    rw [← Option.ne_none_iff_exists']
    intro hnone
    have hall : (List.finRange outPoolSize).Subperm p.flying :=
      (List.nodup_finRange _).subperm fun i _ => h.firstFree_none hnone i
    have hle := hall.length_le
    rw [List.length_finRange] at hle
    omega
  · rintro ⟨i, hi⟩
    have hsub : (i :: p.flying).Subperm (List.finRange outPoolSize) :=
      (List.nodup_cons.mpr ⟨h.firstFree_some hi, h.nodup⟩).subperm fun j _ => List.mem_finRange j
    have hle := hsub.length_le
    rw [List.length_finRange, List.length_cons] at hle
    omega

/-- What is in flight does not look at other slots. -/
theorem pending_update {p : Out} {i : Fin outPoolSize} (hi : i ∉ p.flying) (slot : OutSlot) :
    p.flying.map (fun j => (Function.update p.pool i slot j).bytes) = p.pending := by
  refine List.map_congr_left fun j hj => ?_
  have hji : j ≠ i := fun hji => hi (by rw [← hji]; exact hj)
  rw [Function.update_of_ne hji]

/-! ## One event -/

/-- Everything a call of `tl_write` can do. -/
theorem tlWrite_cases {p : Out} {data : List UInt8} {rc : Int} {r : Int × Out}
    (h : p.tlWrite data rc = some r) :
    (firstFree p.pool = none ∧ r = (-1, p)) ∨
      ∃ i, firstFree p.pool = some i ∧
        ((rc < 0 ∧ r = (rc, { p with
            pool := Function.update p.pool i { fill (p.pool i) data with busy := false } })) ∨
          (0 ≤ rc ∧ r = (0, {
            pool := Function.update p.pool i (fill (p.pool i) data)
            flying := p.flying ++ [i] }))) := by
  rw [tlWrite] at h
  split at h
  · cases h
  · split at h
    · rename_i hfree
      cases h
      exact Or.inl ⟨hfree, rfl⟩
    · rename_i i hfree
      refine Or.inr ⟨i, hfree, ?_⟩
      dsimp only at h
      split at h
      · rename_i hrc
        cases h
        exact Or.inl ⟨hrc, rfl⟩
      · rename_i hrc
        cases h
        exact Or.inr ⟨Int.not_lt.mp hrc, rfl⟩

/-- **A write** adds its command behind those in flight if it returns 0,
and changes nothing about them in any case. -/
theorem Ok.tlWrite {p : Out} (h : p.Ok) {data : List UInt8} {rc : Int} {r : Int × Out}
    (hr : p.tlWrite data rc = some r) :
    r.2.Ok ∧ r.2.pending = p.pending ++ (if r.1 = 0 then [data] else []) := by
  obtain ⟨-, rfl⟩ | ⟨i, hfree, ⟨hrc, rfl⟩ | ⟨-, rfl⟩⟩ := tlWrite_cases hr
  · exact ⟨h, (List.append_nil _).symm⟩
  · have hi := h.firstFree_some hfree
    refine ⟨⟨h.nodup, fun j => ?_⟩, ?_⟩
    · by_cases hji : j = i
      · subst hji
        simp [hi]
      · simp only [Function.update_of_ne hji]
        exact h.busy j
    · rw [if_neg (by omega : ¬ rc = 0), List.append_nil]
      exact pending_update hi _
  · have hi := h.firstFree_some hfree
    refine ⟨⟨List.nodup_append.mpr ⟨h.nodup, List.nodup_singleton i, ?_⟩, fun j => ?_⟩, ?_⟩
    · rintro j hj k hk rfl
      rw [List.mem_singleton.mp hk] at hj
      exact hi hj
    · by_cases hji : j = i
      · subst hji
        simp [fill]
      · simp only [Function.update_of_ne hji, List.mem_append, List.mem_singleton, hji, or_false]
        exact h.busy j
    · rw [if_pos rfl, pending, List.map_append, pending_update hi, List.map_singleton]
      dsimp only
      rw [Function.update_self, bytes_fill]

/-- **A callback** takes one command out. -/
theorem Ok.outCallback {p : Out} (h : p.Ok) {i : Fin outPoolSize} (hi : i ∈ p.flying) :
    (p.outCallback i).Ok ∧ p.pending.Perm ((p.pool i).bytes :: (p.outCallback i).pending) ∧
      (p.flying.head? = some i →
        p.pending = (p.pool i).bytes :: (p.outCallback i).pending) := by
  have hother : ∀ js : List (Fin outPoolSize), i ∉ js →
      js.map (fun j => ((p.outCallback i).pool j).bytes) = js.map fun j => (p.pool j).bytes := by
    intro js hjs
    refine List.map_congr_left fun j hj => ?_
    have hji : j ≠ i := fun hji => hjs (by rw [← hji]; exact hj)
    show (Function.update p.pool i _ j).bytes = _
    rw [Function.update_of_ne hji]
  have hgone : i ∉ p.flying.erase i := fun hmem => (h.nodup.mem_erase_iff.mp hmem).1 rfl
  refine ⟨⟨h.nodup.erase i, fun j => ?_⟩, ?_, ?_⟩
  · show (Function.update p.pool i _ j).busy = true ↔ j ∈ p.flying.erase i
    by_cases hji : j = i
    · subst hji
      simp [hgone]
    · rw [Function.update_of_ne hji, h.nodup.mem_erase_iff, h.busy j]
      exact ⟨fun hj => ⟨hji, hj⟩, fun hj => hj.2⟩
  · refine ((List.perm_cons_erase hi).map fun j => (p.pool j).bytes).trans ?_
    rw [List.map_cons, pending]
    exact List.Perm.of_eq (congrArg _ (hother _ hgone).symm)
  · intro hhead
    obtain ⟨rest, hrest⟩ : ∃ rest, p.flying = i :: rest := by
      cases hf : p.flying with
      | nil => rw [hf] at hi; cases hi
      | cons j rest =>
          rw [hf] at hhead
          cases hhead
          exact ⟨rest, rfl⟩
    have herase : p.flying.erase i = rest := by rw [hrest, List.erase_cons_head]
    have hnot : i ∉ rest := by rw [← herase]; exact hgone
    show p.flying.map _ = _ :: (p.flying.erase i).map _
    rw [herase, hother rest hnot, hrest, List.map_cons]

/-! ## A run -/

/-- What every event keeps: nothing accepted is lost or done twice. -/
structure Exact (p : Out) (log : Log) : Prop where
  ok : p.Ok
  exact : log.accepted.Perm (log.finished ++ p.pending)

theorem Exact.event {p : Out} {log : Log} (h : Exact p log) {e : Event} {r : Out × Log}
    (hr : p.event log e = some r) : Exact r.1 r.2 := by
  cases e with
  | write data rc =>
      obtain ⟨w, hw, rfl⟩ := Option.map_eq_some_iff.mp hr
      obtain ⟨hok, hpending⟩ := h.ok.tlWrite hw
      refine ⟨hok, ?_⟩
      dsimp only
      rw [hpending]
      split
      · rw [← List.append_assoc]
        exact h.exact.append_right [data]
      · rw [List.append_nil]
        exact h.exact
  | callback i =>
      rw [Out.event] at hr
      split at hr
      · rename_i hi
        cases hr
        obtain ⟨hok, hperm, -⟩ := h.ok.outCallback hi
        refine ⟨hok, h.exact.trans ?_⟩
        rw [List.append_assoc]
        exact hperm.append_left log.finished
      · cases hr

/-- With the callbacks in order, the commands are finished in order. -/
theorem event_inOrder {p : Out} {log : Log} (hok : p.Ok)
    (h : log.accepted = log.finished ++ p.pending) {e : Event} {r : Out × Log}
    (hhead : ∀ i, e = .callback i → p.flying.head? = some i) (hr : p.event log e = some r) :
    r.2.accepted = r.2.finished ++ r.1.pending := by
  cases e with
  | write data rc =>
      obtain ⟨w, hw, rfl⟩ := Option.map_eq_some_iff.mp hr
      obtain ⟨-, hpending⟩ := hok.tlWrite hw
      dsimp only
      rw [hpending]
      split
      · rw [← List.append_assoc, ← h]
      · rw [List.append_nil]
        exact h
  | callback i =>
      rw [Out.event] at hr
      split at hr
      · rename_i hi
        cases hr
        obtain ⟨-, -, heq⟩ := hok.outCallback hi
        rw [List.append_assoc, List.singleton_append, ← heq (hhead i rfl)]
        exact h
      · cases hr

theorem Exact.run {events : List Event} {p : Out} {log : Log} (h : Exact p log) {r : Out × Log}
    (hr : p.run log events = some r) : Exact r.1 r.2 := by
  induction events generalizing p log with
  | nil =>
      cases hr
      exact h
  | cons e events ih =>
      obtain ⟨s, hs, hrest⟩ := Option.bind_eq_some_iff.mp hr
      exact ih (h.event hs) hrest

theorem run_inOrder {events : List Event} {p : Out} {log : Log} (hexact : Exact p log)
    (h : log.accepted = log.finished ++ p.pending) (hin : InOrder p log events) {r : Out × Log}
    (hr : p.run log events = some r) : r.2.accepted = r.2.finished ++ r.1.pending := by
  induction events generalizing p log with
  | nil =>
      cases hr
      exact h
  | cons e events ih =>
      obtain ⟨s, hs, hrest⟩ := Option.bind_eq_some_iff.mp hr
      exact ih (hexact.event hs) (event_inOrder hexact.ok h hin.1 hs) (hin.2 s hs) hrest

/-- **Every accepted command is in flight or was finished, once.** After
any calls of `tl_write` and any callbacks of transfers in flight, the
commands that were accepted are those the driver was through with and
those in flight, whose bytes still stand in their slots; in the same
order, when the driver finishes its transfers in order. A command is
refused only when four are in flight or libusb refuses it. -/
theorem commands_exact (events : List Event) (p : Out) (log : Log)
    (hrun : run new ⟨[], []⟩ events = some (p, log)) :
    log.accepted.Perm (log.finished ++ p.pending) ∧
      (InOrder new ⟨[], []⟩ events → log.accepted = log.finished ++ p.pending) ∧
      ∀ data rc, data.length ≤ outPacketMax → ∃ result q, p.tlWrite data rc = some (result, q) ∧
        (result = 0 ↔ p.flying.length < outPoolSize ∧ 0 ≤ rc) := by
  have hnew : Exact new ⟨[], []⟩ := ⟨ok_new, List.Perm.refl _⟩
  have h := hnew.run hrun
  refine ⟨h.exact, fun hin => run_inOrder hnew rfl hin hrun, fun data rc hdata => ?_⟩
  obtain ⟨r, hr⟩ : ∃ r, p.tlWrite data rc = some r := by
    rw [tlWrite, if_neg (Nat.not_lt.mpr hdata)]
    split
    · exact ⟨_, rfl⟩
    · dsimp only
      split
      · exact ⟨_, rfl⟩
      · exact ⟨_, rfl⟩
  refine ⟨r.1, r.2, hr, ?_⟩
  rw [h.ok.flying_lt_iff]
  obtain ⟨hfree, rfl⟩ | ⟨i, hfree, ⟨hrc, rfl⟩ | ⟨hrc, rfl⟩⟩ := tlWrite_cases hr
  · simp [hfree]
  · simp only [hfree]
    omega
  · simp [hfree, hrc]

/-- Five commands at once, of which the fifth finds no slot; then two are
through, and a slot is used again. -/
def busyEvents : List Event :=
  [.write [1] 0, .write [2] 0, .write [3] 0, .write [4] 0, .write [5] 0, .callback 0, .callback 1,
    .write [6, 7] 0, .write [8] (-1)]

theorem commands_exact_busyEvents :
    (run new ⟨[], []⟩ busyEvents).map (fun r => (r.2.accepted, r.2.finished, r.1.pending)) =
        some ([[1], [2], [3], [4], [6, 7]], [[1], [2]], [[3], [4], [6, 7]]) ∧
      ∃ p log, run new ⟨[], []⟩ busyEvents = some (p, log) ∧
        log.accepted.Perm (log.finished ++ p.pending) := by
  have hrun : ∃ r, run new ⟨[], []⟩ busyEvents = some r := by
    rw [← Option.isSome_iff_exists]
    decide
  obtain ⟨⟨p, log⟩, hrun⟩ := hrun
  exact ⟨by decide, p, log, hrun, (commands_exact busyEvents p log hrun).1⟩

end Out

end UsbSniffer.Transport
