import UsbSniffer.Pcapng.Delivery

/-!
# How much of the stream is in the file

The calls made so far have handed a certain stream to `sink_write`
(`handed`). Two things are asked of the file while the session still
runs: that it holds all of that stream when `pcapng_flush` returns, and
that it never holds anything but a beginning of it, even if `fwrite`
fails.

Neither is unconditional. `pcapng_flush` waits for an empty queue, and
the chunk the writer is busy with is in no queue any more
(`flush_drains_iff`). And a writer whose `fwrite` has failed goes on with
the next chunk, so a later `fwrite` that succeeds leaves a hole
(`file_begins_handed`).
-/

namespace UsbSniffer.Pcapng

open Lib Uhsif

/-- The calls of the session that have been made. -/
def made (all : List Call) (s : State) : List Call := all.take (all.length - s.calls.length)

/-- What they have handed to `sink_write`, in call order. -/
def handed (all : List Call) (s : State) : List UInt8 := toCome false [] (made all s)

/-- The session divides into calls made and calls to come, and its stream
with it. -/
structure Divided (all : List Call) (s : State) : Prop where
  calls_eq : made all s ++ s.calls = all
  stream_eq : ∀ more, toCome false [] (made all s ++ more) =
    handed all s ++ toCome s.begun s.pend more

theorem made_eq {all m : List Call} {s : State} (h : m ++ s.calls = all) : made all s = m := by
  rw [made, ← h, List.length_append, Nat.add_sub_cancel, List.take_left]

theorem divided_pcapngOpen (all : List Call) : Divided all (pcapngOpen all) := by
  have hnone : made all (pcapngOpen all) = [] := made_eq rfl
  refine ⟨?_, fun more => ?_⟩
  · rw [hnone]
    rfl
  · rw [handed, hnone]
    rfl

/-- A call that is made hands over its share. -/
theorem toCome_cons {s s' : State} {c : Call} {more : List Call} (h : Taken s c more s')
    (rest : List Call) : toCome s.begun s.pend (c :: rest) =
      toCome s.begun s.pend [c] ++ toCome s'.begun s'.pend rest := by
  cases h with
  | close hb => rfl
  | write hb w post =>
      rw [hb, toCome, if_pos rfl, toCome, if_pos rfl, toCome, List.append_nil]
  | begin hb linkType post => rw [toCome, toCome, toCome, List.append_nil]
  | stage hb htodo =>
      rw [hb, toCome, if_neg Bool.false_ne_true, toCome, if_neg Bool.false_ne_true, toCome]
      rfl

theorem taken_calls {s s' : State} {c : Call} {more : List Call} (h : Taken s c more s') :
    s'.calls = more := by
  cases h <;> rfl

namespace Divided

variable {all : List Call} {s s' : State}

/-- Steps that are no calls. -/
theorem same (h : Divided all s) (hc : s'.calls = s.calls) (hb : s'.begun = s.begun)
    (hp : s'.pend = s.pend) : Divided all s' := by
  have hm : made all s' = made all s := by rw [made, made, hc]
  refine ⟨by rw [hm, hc]; exact h.calls_eq, fun more => ?_⟩
  rw [handed, hm, hb, hp]
  exact h.stream_eq more

theorem call (h : Divided all s) {c : Call} {more : List Call} (hc : s.calls = c :: more)
    (ht : Taken s c more s') : Divided all s' := by
  have hall : (made all s ++ [c]) ++ s'.calls = all := by
    rw [taken_calls ht, List.append_assoc, List.singleton_append, ← hc]
    exact h.calls_eq
  have hm := made_eq hall
  refine ⟨by rw [hm]; exact hall, fun rest => ?_⟩
  rw [handed, hm, List.append_assoc, List.singleton_append, h.stream_eq, toCome_cons ht,
    h.stream_eq [c], List.append_assoc]

theorem move (h : Divided all s) (hco : Course s) {a : Action} (hm : Move a s s') :
    Divided all s' := by
  rcases hm.kept with ⟨hc, hb, hp, -⟩ | ⟨c, more, ht, hc, hs⟩
  · exact h.same hc hb hp
  · exact h.call hc (hco.taken_of_call ht hc hs)

/-- What has been handed over only grows. -/
theorem handed_mono (h : Divided all s) (hco : Course s) {a : Action} (hm : Move a s s') :
    handed all s <+: handed all s' := by
  rcases hm.kept with ⟨hc, -, -, -⟩ | ⟨c, more, ht, hc, hs⟩
  · rw [handed, handed, made, made, hc]
  · have htaken := hco.taken_of_call ht hc hs
    have hall : (made all s ++ [c]) ++ s'.calls = all := by
      rw [taken_calls htaken, List.append_assoc, List.singleton_append, ← hc]
      exact h.calls_eq
    have hgrow : handed all s' = handed all s ++ toCome s.begun s.pend [c] := by
      rw [handed, made_eq hall, h.stream_eq]
    exact ⟨_, hgrow.symm⟩

/-- While `fwrite` has not failed, what has been handed over is in the
file or on its way. -/
theorem on_the_way (h : Divided all s) (hf : Flow (toCome false [] all) s) :
    handed all s =
      s.file ++ s.writer.pending s.mem ++ queued s ++ staged s ++ toCopy s.todo := by
  have hall := h.stream_eq s.calls
  rw [h.calls_eq, ← hf.stream_eq, stream] at hall
  exact (List.append_cancel_right hall).symm

end Divided

/-- Every run in which `fwrite` does not fail. -/
theorem divided_run (pre post : List Write) (linkType : UInt32) {s : State}
    (hrun : Relation.ReflTransGen WritingStep (pcapngOpen (session pre linkType post)) s) :
    Orderly s ∧ Flow (toCome false [] (session pre linkType post)) s ∧
      Divided (session pre linkType post) s := by
  have htotal := toCome_session [] pre post linkType
  rw [List.nil_append] at htotal
  rw [htotal]
  exact run_keeps (I := fun s => Orderly s ∧ Flow _ s ∧ Divided (session pre linkType post) s)
    (fun _ _ ⟨_, hacc, hs⟩ ⟨hv, hf, hd⟩ =>
      ⟨hv.move (move_of_step hs), hf.move hv (move_of_step hs) hacc,
        hd.move hv.course (move_of_step hs)⟩)
    hrun
    ⟨orderly_pcapngOpen pre post linkType, flow_pcapngOpen pre post linkType,
      divided_pcapngOpen _⟩

/-! ## `pcapng_flush` -/

/-- The writer has taken a chunk and not written all of it. -/
def Writer.Unfinished : Writer → Prop
  | .write it off => off < it.len
  | _ => False

theorem pending_eq_nil_iff (mem : Nat → Ptr) (w : Writer) :
    w.pending mem = [] ↔ ¬ w.Unfinished := by
  cases w with
  | write it off =>
      rw [Writer.pending, List.drop_eq_nil_iff, itemBytes_length, Writer.Unfinished, Nat.not_lt]
  | acquire => exact iff_of_true rfl not_false
  | asleep => exact iff_of_true rfl not_false
  | release b => exact iff_of_true rfl not_false
  | exited => exact iff_of_true rfl not_false

theorem refillChunk_todo (s : State) : (refillChunk s).todo = s.todo := by
  rcases bufGetFree_cases s with ⟨hb, -, -⟩ | ⟨hb, -⟩ | ⟨hb, -⟩
  · simp only [refillChunk, hb]
  · simp only [refillChunk, hb]
  · simp only [refillChunk, hb]

/-- The wait of `pcapng_flush` ends with an empty queue. -/
theorem drain_returns {s s' : State} {due : Bool} {k : List Op} (ht : s.todo = .drain :: k)
    (hs : step s (.produce due) = some s') (hret : s'.todo = k) (he : s.wrErr = false) :
    s.q.count = 0 ∧ s' = { s with todo := k } := by
  have hne : Op.drain :: k ≠ k := fun h => by simpa using congrArg List.length h
  rw [step] at hs
  by_cases ha : s.asleep = none
  · rcases Bool.eq_false_or_eq_true s.refill with hr | hr
    · -- still in the second half of `chunk_flush`
      rw [producerStep, if_neg (not_not.mpr ha), if_pos hr, Option.some.injEq] at hs
      rw [← hs, refillChunk_todo, ht] at hret
      exact absurd hret hne
    · rw [Script.producerStep_op ha hr ht, opStep] at hs
      split at hs
      · cases hs
        exact absurd (ht.symm.trans hret) hne
      · rename_i hq
        cases hs
        rw [he] at hq
        exact ⟨by simpa using hq, rfl⟩
  · rw [producerStep, if_pos ha] at hs
    cases hs

/-- **`pcapng_flush` drains exactly if the writer is not in the middle of
a chunk** when the queue is found empty: every byte handed to
`sink_write` before has then been accepted by `fwrite`. -/
theorem flush_drains_iff (pre post : List Write) (linkType : UInt32) {s s' : State} {due : Bool}
    {k : List Op}
    (hrun : Relation.ReflTransGen WritingStep (pcapngOpen (session pre linkType post)) s)
    (ht : s.todo = .drain :: k) (hs : step s (.produce due) = some s') (hret : s'.todo = k) :
    handed (session pre linkType post) s' <+: s'.file ↔ ¬ s.writer.Unfinished := by
  obtain ⟨hv, hf, hd⟩ := divided_run pre post linkType hrun
  obtain ⟨hq, rfl⟩ := drain_returns ht hs hret hf.intact
  have hway := hd.on_the_way hf
  have hstaged : staged s = [] := hf.settled (by rw [ht]; rfl)
  have hcopy : toCopy s.todo = [] := by
    have hp := hv.course.plan
    rw [ht] at hp ⊢
    generalize s.calls = calls at hp
    generalize s.stop = stop at hp
    generalize s.closed = closed at hp
    cases hp with
    | data hc hops => exact absurd (hops .drain List.mem_cons_self) nofun
    | drain hc => rfl
    | closeDrain => rfl
  rw [queued, RingBuf.items_eq_nil hq, hstaged, hcopy] at hway
  simp only [List.map_nil, List.flatten_nil, List.append_nil] at hway
  -- all that is missing in the file is with the writer
  show handed (session pre linkType post) s <+: s.file ↔ _
  rw [hway, ← pending_eq_nil_iff s.mem]
  constructor
  · intro hpre
    have hlen := hpre.length_le
    rw [List.length_append] at hlen
    exact List.eq_nil_of_length_eq_zero (by omega)
  · intro hnil
    rw [hnil, List.append_nil]

/-- One packet and a `pcapng_flush`. -/
def flushSession : List Call := session [] 288 [.epb 5 [1, 2, 3], .flush]

/-- The producer goes first, as far as the wait of `pcapng_flush`, and the
writer writes the chunk. -/
def patientWriter : List Action :=
  List.replicate 22 (.produce false) ++ [.write 1, .write 228, .write 1]

/-- The same, but the writer only takes the chunk off the queue. -/
def slowWriter : List Action := List.replicate 22 (.produce false) ++ [.write 1]

theorem flush_drains_iff_patientWriter :
    ∃ s s', exec (pcapngOpen flushSession) patientWriter = some s ∧
      step s (.produce false) = some s' ∧ s'.todo = [] ∧
      (handed flushSession s' <+: s'.file ↔ ¬ s.writer.Unfinished) := by
  have hsome : ((exec (pcapngOpen flushSession) patientWriter).bind fun s =>
      (step s (.produce false)).map fun s' => (s.todo, s'.todo)) = some ([.drain], []) := by
    decide +kernel
  obtain ⟨s, hs, hstep⟩ := Option.bind_eq_some_iff.mp hsome
  obtain ⟨s', hs', htodo⟩ := Option.map_eq_some_iff.mp hstep
  obtain ⟨ht, hret⟩ := Prod.mk.inj htodo
  exact ⟨s, s', hs, hs', hret,
    flush_drains_iff [] [.epb 5 [1, 2, 3], .flush] 288 (exec_run hs) ht hs' hret⟩

/-- `pcapng_flush` returns while the writer holds the only chunk, and
nothing is in the file. -/
theorem slowWriter_not_drained :
    ∃ s s', Relation.ReflTransGen WritingStep (pcapngOpen flushSession) s ∧
      s.todo = [.drain] ∧ step s (.produce false) = some s' ∧ s'.todo = [] ∧ s'.file = [] ∧
      ¬ handed flushSession s' <+: s'.file := by
  have hsome : ((exec (pcapngOpen flushSession) slowWriter).bind fun s =>
      (step s (.produce false)).map fun s' =>
        (s.todo, s'.todo, s'.file, (handed flushSession s').length)) =
          some ([.drain], [], [], 228) := by
    decide +kernel
  obtain ⟨s, hs, hstep⟩ := Option.bind_eq_some_iff.mp hsome
  obtain ⟨s', hs', hval⟩ := Option.map_eq_some_iff.mp hstep
  simp only [Prod.mk.injEq] at hval
  obtain ⟨ht, hret, hfile, hlen⟩ := hval
  refine ⟨s, s', exec_run hs, ht, hs', hret, hfile, fun hpre => ?_⟩
  have hle := hpre.length_le
  rw [hfile, hlen] at hle
  exact absurd hle (by decide)

/-! ## `fwrite` that fails -/

/-- The pattern of `fwrite` results without a hole: once one has failed,
those that follow fail too. -/
def staysFailed (s : State) (a : Action) : Bool :=
  match a, s.writer with
  | .write n, .write it off => !s.wrErr || it.len ≤ off || n == 0
  | _, _ => true

/-- One step of either thread with such an `fwrite`. -/
def SteadyStep (s s' : State) : Prop := ∃ a, staysFailed s a = true ∧ step s a = some s'

/-- What holds whatever `fwrite` returns: the file is a beginning of the
stream, and on its way to all of it until an `fwrite` fails. -/
structure Cut (all : List Call) (s : State) : Prop where
  orderly : Orderly s
  divided : Divided all s
  flow : s.wrErr = false → Flow (toCome false [] all) s
  file_begins : s.file <+: handed all s

theorem prefix_of_flow {all : List Call} {s : State} (hd : Divided all s)
    (hf : Flow (toCome false [] all) s) : s.file <+: handed all s := by
  rw [hd.on_the_way hf]
  simp only [List.append_assoc]
  exact List.prefix_append _ _

/-- Once an `fwrite` has failed, the error stays, and only an `fwrite`
that accepts something changes the file. -/
theorem Move.failed {a : Action} {s s' : State} (hm : Move a s s') (he : s.wrErr = true) :
    s'.wrErr = true ∧
      (s'.file = s.file ∨ ∃ n it off, a = .write n ∧ n ≠ 0 ∧ s.writer = .write it off ∧
        n ≤ it.len - off) := by
  cases hm with
  | accept hw hn hpos => exact ⟨he, Or.inr ⟨_, _, _, rfl, hpos, hw, hn⟩⟩
  | copyNull ha hr ht hc he => exact ⟨rfl, Or.inl rfl⟩
  | fail hw => exact ⟨rfl, Or.inl rfl⟩
  | call ha hr ht hc hs =>
      obtain ⟨b, p, cap, todo, rfl⟩ := call_eq hs
      exact ⟨he, Or.inl rfl⟩
  | flushQueue ha hr ht hc hl =>
      rw [signalNonempty_with]
      exact ⟨he, Or.inl rfl⟩
  | stop ha hr ht =>
      rw [signalNonempty_with]
      exact ⟨he, Or.inl rfl⟩
  | take hw hq =>
      rw [signal_with]
      exact ⟨he, Or.inl rfl⟩
  | giveBack hw =>
      rw [signal_with]
      exact ⟨he, Or.inl rfl⟩
  | wakeWriter =>
      rw [signalNonempty_with]
      exact ⟨he, Or.inl rfl⟩
  | _ => exact ⟨he, Or.inl rfl⟩

/-- Every step is one that an `fwrite` without failure explains, or the
failure of one. -/
theorem Move.accepted_or_failed {a : Action} {s s' : State} (hm : Move a s s') :
    (∃ a', a'.accepts = true ∧ Move a' s s') ∨ (s'.wrErr = true ∧ s'.file = s.file) := by
  cases hm with
  | fail hw => exact Or.inr ⟨rfl, rfl⟩
  | accept hw hn hpos =>
      exact Or.inl ⟨.write _, by simpa [Action.accepts] using hpos, .accept hw hn hpos⟩
  -- the other steps of the writer call no `fwrite`
  | sleep hw hq hs => exact Or.inl ⟨.write 1, rfl, .sleep hw hq hs⟩
  | exit hw hq hs => exact Or.inl ⟨.write 1, rfl, .exit hw hq hs⟩
  | take hw hq => exact Or.inl ⟨.write 1, rfl, .take hw hq⟩
  | written hw hoff => exact Or.inl ⟨.write 1, rfl, .written hw hoff⟩
  | giveBack hw => exact Or.inl ⟨.write 1, rfl, .giveBack hw⟩
  | wakeProducer => exact Or.inl ⟨.wakeProducer, rfl, .wakeProducer⟩
  | wakeWriter => exact Or.inl ⟨.wakeWriter, rfl, .wakeWriter⟩
  | refillWait ha hr hf he => exact Or.inl ⟨.produce false, rfl, .refillWait ha hr hf he⟩
  | refillNull ha hr he => exact Or.inl ⟨.produce false, rfl, .refillNull ha hr he⟩
  | refillGot ha hr hf => exact Or.inl ⟨.produce false, rfl, .refillGot ha hr hf⟩
  | sinkSkip ha hr ht hg => exact Or.inl ⟨.produce false, rfl, .sinkSkip ha hr ht hg⟩
  | sinkEnter ha hr ht => exact Or.inl ⟨.produce false, rfl, .sinkEnter ha hr ht⟩
  | copyDone ha hr ht => exact Or.inl ⟨.produce false, rfl, .copyDone ha hr ht⟩
  | copyWait ha hr ht hc hf he => exact Or.inl ⟨.produce false, rfl, .copyWait ha hr ht hc hf he⟩
  | copyNull ha hr ht hc he => exact Or.inl ⟨.produce false, rfl, .copyNull ha hr ht hc he⟩
  | copyGot ha hr ht hc hf => exact Or.inl ⟨.produce false, rfl, .copyGot ha hr ht hc hf⟩
  | copyPart ha hr ht hd hc hn hfl =>
      exact Or.inl ⟨.produce false, rfl, .copyPart ha hr ht hd hc hn hfl⟩
  | liveFlush ha hr ht hfl => exact Or.inl ⟨.produce false, rfl, .liveFlush ha hr ht hfl⟩
  | flushEmpty ha hr ht hc => exact Or.inl ⟨.produce false, rfl, .flushEmpty ha hr ht hc⟩
  | flushWait ha hr ht hc hq => exact Or.inl ⟨.produce false, rfl, .flushWait ha hr ht hc hq⟩
  | flushDiscard ha hr ht hc he => exact Or.inl ⟨.produce false, rfl, .flushDiscard ha hr ht hc he⟩
  | flushQueue ha hr ht hc hl => exact Or.inl ⟨.produce false, rfl, .flushQueue ha hr ht hc hl⟩
  | drainWait ha hr ht hq => exact Or.inl ⟨.produce false, rfl, .drainWait ha hr ht hq⟩
  | drainDone ha hr ht => exact Or.inl ⟨.produce false, rfl, .drainDone ha hr ht⟩
  | stop ha hr ht => exact Or.inl ⟨.produce false, rfl, .stop ha hr ht⟩
  | join ha hr ht hw => exact Or.inl ⟨.produce false, rfl, .join ha hr ht hw⟩
  | call ha hr ht hc hs => exact Or.inl ⟨.produce false, rfl, .call ha hr ht hc hs⟩

theorem cut_pcapngOpen (pre post : List Write) (linkType : UInt32) :
    Cut (session pre linkType post) (pcapngOpen (session pre linkType post)) where
  orderly := orderly_pcapngOpen pre post linkType
  divided := divided_pcapngOpen _
  flow := by
    intro _
    have htotal := toCome_session [] pre post linkType
    rw [List.nil_append] at htotal
    rw [htotal]
    exact flow_pcapngOpen pre post linkType
  file_begins := List.nil_prefix

theorem Cut.step {all : List Call} {s s' : State} {a : Action} (h : Cut all s)
    (hst : staysFailed s a = true) (hs : step s a = some s') : Cut all s' := by
  have hm := move_of_step hs
  have hv' := h.orderly.move hm
  have hd' := h.divided.move h.orderly.course hm
  have hgrow := h.divided.handed_mono h.orderly.course hm
  rcases Bool.eq_false_or_eq_true s.wrErr with he | he
  · -- the error is there already: nothing reaches the file
    obtain ⟨he', hfile | ⟨n, it, off, ha, hpos, hw, hn⟩⟩ := hm.failed he
    · refine ⟨hv', hd', by simp [he'], ?_⟩
      rw [hfile]
      exact h.file_begins.trans hgrow
    · subst ha
      simp only [staysFailed, hw, he, Bool.not_true, Bool.false_or, Bool.or_eq_true,
        decide_eq_true_eq, beq_iff_eq] at hst
      omega
  · rcases hm.accepted_or_failed with ⟨a', hacc, hm'⟩ | ⟨he', hfile⟩
    · have hf' := (h.flow he).move h.orderly hm' hacc
      exact ⟨hv', hd', fun _ => hf', prefix_of_flow hd' hf'⟩
    · refine ⟨hv', hd', by simp [he'], ?_⟩
      rw [hfile]
      exact h.file_begins.trans hgrow

/-- **A write error leaves no hole as long as the next `fwrite` fails
too**: in every run of a session in which no `fwrite` accepts anything
once one has failed, the file is at every moment a beginning of the
stream the calls so far have generated. -/
theorem file_begins_handed (pre post : List Write) (linkType : UInt32) {s : State}
    (hrun : Relation.ReflTransGen SteadyStep (pcapngOpen (session pre linkType post)) s) :
    s.file <+: handed (session pre linkType post) s :=
  (run_keeps (I := Cut (session pre linkType post))
    (fun _ _ ⟨_, hst, hs⟩ h => h.step hst hs) hrun (cut_pcapngOpen pre post linkType)).file_begins

/-- Two text records, each queued as a chunk of its own. -/
def twoChunks : List Call := session [] 288 [.info 1 [65], .info 2 [66]]

/-- The writer takes both chunks; its `fwrite` fails on the first and
accepts `n` bytes of the second. -/
def failThenWrite (n : Nat) : List Action :=
  List.replicate 28 (.produce false) ++ [.write 1, .write 0, .write 1, .write 1, .write n]

/-- A schedule whose actions all pass `ok`. -/
def execIf (ok : State → Action → Bool) (s : State) : List Action → Option State
  | [] => some s
  | a :: more => if ok s a then (step s a).bind fun s' => execIf ok s' more else none

theorem execIf_run {ok : State → Action → Bool} {s s' : State} {as : List Action}
    (h : execIf ok s as = some s') :
    Relation.ReflTransGen (fun s s' => ∃ a, ok s a = true ∧ step s a = some s') s s' := by
  induction as generalizing s with
  | nil =>
      cases h
      exact Relation.ReflTransGen.refl
  | cons a more ih =>
      rw [execIf] at h
      split at h
      · rename_i hok
        obtain ⟨mid, hmid, hrest⟩ := Option.bind_eq_some_iff.mp h
        exact Relation.ReflTransGen.head ⟨a, hok, hmid⟩ (ih hrest)
      · cases h

theorem file_begins_handed_failThenWrite :
    ∃ s, Relation.ReflTransGen SteadyStep (pcapngOpen twoChunks) s ∧ s.wrErr = true ∧
      s.file <+: handed twoChunks s := by
  have hsome : (execIf staysFailed (pcapngOpen twoChunks) (failThenWrite 0)).map (·.wrErr) =
      some true := by
    decide +kernel
  obtain ⟨s, hs, he⟩ := Option.map_eq_some_iff.mp hsome
  have hrun := execIf_run hs
  exact ⟨s, hrun, he, file_begins_handed [] [.info 1 [65], .info 2 [66]] 288 hrun⟩

/-- The first `fwrite` fails and the second succeeds: the file holds the
second record and neither the headers nor the first. -/
theorem recoveredWrite_leaves_hole :
    ∃ s, Relation.ReflTransGen Step (pcapngOpen twoChunks) s ∧ s.file = infoBlock 2 [66] ∧
      ¬ s.file <+: handed twoChunks s := by
  have hsome : (execIf (fun _ _ => true) (pcapngOpen twoChunks) (failThenWrite 48)).map
      (fun s => (s.file, decide (s.file <+: handed twoChunks s))) =
        some (infoBlock 2 [66], false) := by
    decide +kernel
  obtain ⟨s, hs, hval⟩ := Option.map_eq_some_iff.mp hsome
  obtain ⟨hfile, hpre⟩ := Prod.mk.inj hval
  have hle : (fun s s' : State => ∃ a, true = true ∧ step s a = some s') ≤ Step :=
    fun _ _ ⟨a, _, hst⟩ => ⟨a, hst⟩
  exact ⟨s, Relation.ReflTransGen.mono hle _ _ (execIf_run hs), hfile, of_decide_eq_false hpre⟩

end UsbSniffer.Pcapng
