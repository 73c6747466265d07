import UsbSniffer.Packet.Timestamps

/-!
# A session, one byte at a time

What a claim about "every state right after a frame header" ranges over:
the bytes a session processes, each with the packet state it meets
(`runSteps`). `packet_feed` stops at a done capture, so a byte after the
capture limit is no step. Invariants of the steps come from one
induction (`steps_induction`), the order of the records' times from
`Ordered`.
-/

namespace UsbSniffer.Packet

variable {β : Type} [ByteLike β]

/-! ## The steps -/

/-- The bytes `packet_feed` processes, each with the state it meets. -/
def feedSteps : Packet β → List β → List (Packet β × β)
  | _, [] => []
  | p, b :: bs => if p.done then [] else (p, b) :: feedSteps (p.captureSm b) bs

def callSteps (p : Packet β) : PacketCall β → List (Packet β × β)
  | .feed data => p.feedSteps data
  | _ => []

/-- The bytes a session processes, each with the state it meets. -/
def runSteps : Packet β → List (PacketCall β) → List (Packet β × β)
  | _, [] => []
  | p, c :: cs => p.callSteps c ++ runSteps (p.call c) cs

/-! ## Induction over the steps -/

/-- `I` holds of every state a byte meets, and at the end, if it holds at
first and every byte keeps it. `Q` is what is known of the steps. -/
theorem feed_steps_induction {I : Packet β → Prop} {Q : Packet β × β → Prop}
    (hbyte : ∀ p b, p.done = false → Q (p, b) → I p → I (p.captureSm b)) {data : List β}
    {p : Packet β} (h : I p) (hQ : ∀ s ∈ p.feedSteps data, Q s) :
    (∀ s ∈ p.feedSteps data, s.1.done = false ∧ I s.1) ∧ I (p.feed data) := by
  induction data generalizing p with
  | nil =>
      rw [feed_nil]
      exact ⟨fun s hs => (List.not_mem_nil hs).elim, h⟩
  | cons b bs ih =>
      rw [feedSteps] at hQ ⊢
      by_cases hd : p.done = true
      · rw [if_pos hd, feed_of_done hd]
        exact ⟨fun s hs => (List.not_mem_nil hs).elim, h⟩
      · have hd' : p.done = false := by simpa using hd
        rw [if_neg hd] at hQ ⊢
        rw [feed_cons hd']
        have hnext := hbyte p b hd' (hQ _ List.mem_cons_self) h
        obtain ⟨hsteps, hend⟩ := ih hnext fun s hs => hQ s (List.mem_cons_of_mem _ hs)
        refine ⟨fun s hs => ?_, hend⟩
        rcases List.mem_cons.mp hs with rfl | hs
        · exact ⟨hd', h⟩
        · exact hsteps s hs

/-- The same over a session: the calls that process no byte keep `I`
too. `C` says which calls there are. -/
theorem run_steps_induction {I : Packet β → Prop} {Q : Packet β × β → Prop}
    {C : PacketCall β → Prop}
    (hbyte : ∀ p b, p.done = false → Q (p, b) → I p → I (p.captureSm b))
    (hcall : ∀ p c, C c → (∀ data, c ≠ .feed data) → I p → I (p.call c))
    {calls : List (PacketCall β)} {p : Packet β} (h : I p) (hC : ∀ c ∈ calls, C c)
    (hQ : ∀ s ∈ p.runSteps calls, Q s) :
    (∀ s ∈ p.runSteps calls, s.1.done = false ∧ I s.1) ∧ I (p.run calls) := by
  induction calls generalizing p with
  | nil => exact ⟨fun s hs => (List.not_mem_nil hs).elim, h⟩
  | cons c cs ih =>
      rw [runSteps] at hQ ⊢
      have hQc := fun s hs => hQ s (List.mem_append_left _ hs)
      have hone : (∀ s ∈ p.callSteps c, s.1.done = false ∧ I s.1) ∧ I (p.call c) := by
        by_cases hf : ∃ data, c = .feed data
        · obtain ⟨data, rfl⟩ := hf
          exact feed_steps_induction hbyte h hQc
        · have hne : ∀ data, c ≠ .feed data := fun data he => hf ⟨data, he⟩
          have hnil : p.callSteps c = [] := by
            cases c with
            | feed data => exact absurd rfl (hne data)
            | _ => rfl
          rw [hnil]
          exact ⟨fun s hs => (List.not_mem_nil hs).elim, hcall p c (hC c List.mem_cons_self) hne h⟩
      obtain ⟨hsteps, hend⟩ := ih hone.2 (fun c' hc' => hC c' (List.mem_cons_of_mem c hc'))
        fun s hs => hQ s (List.mem_append_right _ hs)
      refine ⟨fun s hs => ?_, hend⟩
      rcases List.mem_append.mp hs with hs | hs
      · exact hone.1 s hs
      · exact hsteps s hs

/-! ## Steps in time order -/

/-- The clock does not go back at a step. -/
def Forward (s : Packet β × β) : Prop := s.1.captureTs ≤ (s.1.captureSm s.2).captureTs

theorem feed_forward {data : List β} {p : Packet β}
    (hts : (p.captureTs :: p.feedTs data).Pairwise (· ≤ ·)) :
    ∀ s ∈ p.feedSteps data, Forward s := by
  induction data generalizing p with
  | nil => exact fun s hs => (List.not_mem_nil hs).elim
  | cons b bs ih =>
      rw [feedTs] at hts
      rw [feedSteps]
      split
      · exact fun s hs => (List.not_mem_nil hs).elim
      · rename_i hd
        rw [if_neg hd, List.pairwise_cons] at hts
        intro s hs
        rcases List.mem_cons.mp hs with rfl | hs
        · exact hts.1 _ List.mem_cons_self
        · exact ih hts.2 s hs

/-- In a session whose clock never goes back, it goes back at no step. -/
theorem run_forward {calls : List (PacketCall β)} {p : Packet β} (hc : .announce ∉ calls)
    (hts : (p.captureTs :: p.runTs calls).Pairwise (· ≤ ·)) :
    ∀ s ∈ p.runSteps calls, Forward s := by
  induction calls generalizing p with
  | nil => exact fun s hs => (List.not_mem_nil hs).elim
  | cons c cs ih =>
      have hne : c ≠ .announce := fun he => hc (he ▸ List.mem_cons_self)
      rw [runTs, ← List.cons_append, List.pairwise_append] at hts
      obtain ⟨hfirst, hrest, hcross⟩ := hts
      intro s hs
      rw [runSteps] at hs
      rcases List.mem_append.mp hs with hs | hs
      · cases c with
        | feed data => exact feed_forward hfirst s hs
        | _ => exact (List.not_mem_nil hs).elim
      · refine ih (fun hm => hc (List.mem_cons_of_mem c hm)) ?_ s hs
        rw [List.pairwise_cons]
        exact ⟨hcross _ (call_ts_mem p hne), hrest⟩

/-- **Every byte of such a session meets an ordered state.** -/
theorem announced_steps_ordered {opts : PacketOpts} {calls : List (PacketCall β)}
    (hc : .announce ∉ calls)
    (hts : ((announce (new opts : Packet β)).runTs calls).Pairwise (· ≤ ·)) :
    ∀ s ∈ (announce (new opts : Packet β)).runSteps calls, Ordered s.1 ∧ Forward s := by
  have hfwd : ∀ s ∈ (announce (new opts : Packet β)).runSteps calls, Forward s := by
    refine run_forward hc ?_
    rw [announce_ts, List.pairwise_cons]
    exact ⟨fun t _ => UInt64.zero_le, hts⟩
  have hsteps := run_steps_induction (I := Ordered) (Q := Forward) (C := (· ≠ .announce))
    (fun p b _ hf ho => ho.captureSm hf) ?_ (ordered_announce opts)
    (fun c hm he => hc (he ▸ hm)) hfwd
  · exact fun s hs => ⟨(hsteps.1 s hs).2, hfwd s hs⟩
  · intro p c hne hfeed ho
    refine ho.call hne ?_
    cases c with
    | feed data => exact absurd rfl (hfeed data)
    | _ => exact List.pairwise_singleton _ _

end UsbSniffer.Packet
