import UsbSniffer.Lib.Queue
import UsbSniffer.Uhsif

/-!
# The command layer

`cmd_tx_quiet` and `cmd_exec` of `cmd.c`, against an FPGA that executes
the commands it receives in order, drops a corrupted one without a word
and acknowledges each one it executes. Commands and ACK blocks stay in
order on their way, for as long as they like; an ACK may come in between
any two statements of `cmd_exec`.

An ACK block does not say which command it is for, and `cmd_exec` takes
the first one that comes in. `exec_acknowledged_iff` says when that is
enough.
-/

namespace UsbSniffer.Command

open Lib Uhsif

/-- `UHSIF_CMD_MAGIC16`. -/
def cmdMagic16 : UInt16 := 0xC7F3

/-- `UHSIF_CMD_RETRIES`. -/
def cmdRetries : Nat := 3

/-- The `cmd` struct, but for the transport. -/
structure Cmd where
  seq : UInt8
  waiting : Bool
  ackSeen : Bool
  fatal : Bool
  suppress : Bool
  deriving DecidableEq, Repr

/-- `cmd_init`. -/
def cmdInit : Cmd :=
  { seq := 0, waiting := false, ackSeen := false, fatal := false, suppress := true }

/-- `cmd_ack_event`. -/
def cmdAckEvent (c : Cmd) : Cmd :=
  if c.waiting then { c with ackSeen := true } else c

/-- `build_packet`. -/
def buildPacket (c : Cmd) (id param : UInt32) : List UInt8 :=
  let w1 := (c.seq.toUInt32 <<< 8) ||| id
  let w3 : UInt32 := 0
  let w0 := ((hdrCrc16 w1 param w3).toUInt32 <<< 16) ||| cmdMagic16.toUInt32
  putLe32 w0 ++ putLe32 w1 ++ putLe32 param ++ putLe32 w3

/-! ## Host, wires and FPGA -/

/-- A call into the command layer. -/
inductive Call where
  | txQuiet (id param : UInt32)
  | exec (id param : UInt32)
  deriving DecidableEq, Repr

/-- A command packet on the wire, with the number of the call that sent it. -/
structure Copy where
  call : Nat
  pkt : List UInt8
  deriving DecidableEq, Repr

/-- What a call of `cmd_exec` returned. -/
structure Return where
  call : Nat
  id : UInt32
  param : UInt32
  ok : Bool
  deriving DecidableEq, Repr

/-- The arguments of `cmd_exec` and its loop counter. -/
structure Job where
  id : UInt32
  param : UInt32
  attempt : Nat
  deriving DecidableEq, Repr

/-- The next statement of the host: outside `cmd_exec`, or at the
`transport_write`, the assignments behind it, the test of the deadline,
the tests behind `transport_events`, the end of the wait, or the tests
behind the wait. -/
inductive Phase where
  | idle
  | write (j : Job)
  | arm (j : Job)
  | clear (j : Job)
  | loop (j : Job)
  | test (j : Job)
  | expired (j : Job)
  | verdict (j : Job)
  deriving DecidableEq, Repr

/-- The arguments of the call the host is in. -/
def Phase.args : Phase → Option (UInt32 × UInt32)
  | .idle => none
  | .write j | .arm j | .clear j | .loop j | .test j | .expired j | .verdict j => some (j.id, j.param)

/-- Past `ack_seen = false`: what `ack_seen` says now counts. -/
def Phase.listens : Phase → Bool
  | .loop _ | .test _ | .expired _ | .verdict _ => true
  | _ => false

/-- The host, the two wires and what the FPGA has executed so far. The
call numbers, the returns and the command an ACK is for are kept for the
statements only. -/
structure State where
  cmd : Cmd
  calls : List Call
  made : Nat
  phase : Phase
  outgoing : List Copy
  acks : List Copy
  executed : List Copy
  returned : List Return
  deriving DecidableEq, Repr

def start (calls : List Call) : State :=
  { cmd := cmdInit, calls := calls, made := 0, phase := .idle, outgoing := [], acks := [],
    executed := [], returned := [] }

/-- `transport_write` of a command packet. -/
def transportWrite (s : State) (id param : UInt32) : State :=
  { s with outgoing := s.outgoing ++ [⟨s.made, buildPacket s.cmd id param⟩] }

/-- `return ok` in `cmd_exec`. -/
def leave (s : State) (j : Job) (ok : Bool) : State :=
  { s with phase := .idle, returned := s.returned ++ [⟨s.made, j.id, j.param, ok⟩] }

/-- One statement of the host. `ok` answers what it asks: whether
`transport_write` took the packet, the deadline is still ahead, the
transport is alive. -/
def hostStep (s : State) (ok : Bool) : Option State :=
  match s.phase with
  | .idle =>
      match s.calls with
      | [] => none
      | .txQuiet id param :: more =>
          let s := { s with calls := more, made := s.made + 1 }
          some (if ok then transportWrite s id param else s)
      | .exec id param :: more =>
          some { s with calls := more, made := s.made + 1, phase := .write ⟨id, param, 0⟩ }
  | .write j =>
      if ok then some { transportWrite s j.id j.param with phase := .arm j }
      else some (leave s j false)
  | .arm j =>
      some { s with cmd := { s.cmd with suppress := false, waiting := true }, phase := .clear j }
  | .clear j => some { s with cmd := { s.cmd with ackSeen := false }, phase := .loop j }
  | .loop j => some { s with phase := if ok then .test j else .expired j }
  | .test j =>
      if s.cmd.ackSeen then
        some (leave { s with cmd := { s.cmd with waiting := false, seq := s.cmd.seq + 1 } } j true)
      else some { s with phase := if ok then .loop j else .expired j }
  | .expired j => some { s with cmd := { s.cmd with waiting := false }, phase := .verdict j }
  | .verdict j =>
      if s.cmd.ackSeen then
        some (leave { s with cmd := { s.cmd with seq := s.cmd.seq + 1 } } j true)
      else if ok && decide (j.attempt + 1 < cmdRetries) then
        some { s with phase := .write { j with attempt := j.attempt + 1 } }
      else some (leave { s with cmd := { s.cmd with fatal := true } } j false)

/-- A statement of the host, a command reaching the FPGA, or an ACK block
reaching `cmd_ack_event`. -/
inductive Action where
  | host (ok : Bool)
  | fpga (corrupted : Bool)
  | ack
  deriving DecidableEq, Repr

def step (s : State) : Action → Option State
  | .host ok => hostStep s ok
  | .fpga corrupted =>
      match s.outgoing with
      | [] => none
      | k :: rest =>
          if corrupted then some { s with outgoing := rest }
          else some { s with
            outgoing := rest, executed := s.executed ++ [k], acks := s.acks ++ [k] }
  | .ack =>
      match s.acks with
      | [] => none
      | _ :: rest => some { s with acks := rest, cmd := cmdAckEvent s.cmd }

def Step (s s' : State) : Prop := ∃ a, step s a = some s'

/-- Nothing of the calls so far is on its way. -/
def Quiet (s : State) : Prop := s.outgoing = [] ∧ s.acks = []

/-- The step begins a call of `cmd_exec`. -/
def begins (s : State) : Action → Bool
  | .host _ =>
      match s.phase, s.calls with
      | .idle, .exec _ _ :: _ => true
      | _, _ => false
  | _ => false

/-- A step that begins a call of `cmd_exec` only when nothing of the calls
before it is on its way. -/
def QuietStep (s s' : State) : Prop :=
  ∃ a, (begins s a = true → Quiet s) ∧ step s a = some s'

/-- The packet is one of a call with these arguments. -/
def Copy.Of (k : Copy) (call : Nat) (id param : UInt32) : Prop :=
  k.call = call ∧ ∃ c : Cmd, k.pkt = buildPacket c id param

/-- If call `n` of `cmd_exec` returned true, the FPGA has executed a copy
of the command it sent. -/
def Honest (n : Nat) (s : State) : Prop :=
  ∀ r ∈ s.returned, r.call = n → r.ok = true → ∃ k ∈ s.executed, k.Of n r.id r.param

/-! ## What a step can do -/

/-- A step, by the branch it takes. -/
inductive Move (s : State) : Action → State → Prop where
  | quietSent {id param : UInt32} {more : List Call} (hp : s.phase = .idle)
      (hc : s.calls = .txQuiet id param :: more) :
      Move s (.host true)
        (transportWrite { s with calls := more, made := s.made + 1 } id param)
  | quietFailed {id param : UInt32} {more : List Call} (hp : s.phase = .idle)
      (hc : s.calls = .txQuiet id param :: more) :
      Move s (.host false) { s with calls := more, made := s.made + 1 }
  | begin {id param : UInt32} {more : List Call} {ok : Bool} (hp : s.phase = .idle)
      (hc : s.calls = .exec id param :: more) :
      Move s (.host ok)
        { s with calls := more, made := s.made + 1, phase := .write ⟨id, param, 0⟩ }
  | sent {j : Job} (hp : s.phase = .write j) :
      Move s (.host true) { transportWrite s j.id j.param with phase := .arm j }
  | unsent {j : Job} (hp : s.phase = .write j) : Move s (.host false) (leave s j false)
  | arm {j : Job} {ok : Bool} (hp : s.phase = .arm j) :
      Move s (.host ok)
        { s with cmd := { s.cmd with suppress := false, waiting := true }, phase := .clear j }
  | clear {j : Job} {ok : Bool} (hp : s.phase = .clear j) :
      Move s (.host ok) { s with cmd := { s.cmd with ackSeen := false }, phase := .loop j }
  | poll {j : Job} (hp : s.phase = .loop j) : Move s (.host true) { s with phase := .test j }
  | timeout {j : Job} (hp : s.phase = .loop j) :
      Move s (.host false) { s with phase := .expired j }
  | acked {j : Job} {ok : Bool} (hp : s.phase = .test j) (ha : s.cmd.ackSeen = true) :
      Move s (.host ok)
        (leave { s with cmd := { s.cmd with waiting := false, seq := s.cmd.seq + 1 } } j true)
  | again {j : Job} (hp : s.phase = .test j) (ha : s.cmd.ackSeen = false) :
      Move s (.host true) { s with phase := .loop j }
  | broken {j : Job} (hp : s.phase = .test j) (ha : s.cmd.ackSeen = false) :
      Move s (.host false) { s with phase := .expired j }
  | expired {j : Job} {ok : Bool} (hp : s.phase = .expired j) :
      Move s (.host ok) { s with cmd := { s.cmd with waiting := false }, phase := .verdict j }
  | ackedLate {j : Job} {ok : Bool} (hp : s.phase = .verdict j) (ha : s.cmd.ackSeen = true) :
      Move s (.host ok) (leave { s with cmd := { s.cmd with seq := s.cmd.seq + 1 } } j true)
  | retry {j : Job} (hp : s.phase = .verdict j) (ha : s.cmd.ackSeen = false)
      (hr : j.attempt + 1 < cmdRetries) :
      Move s (.host true) { s with phase := .write { j with attempt := j.attempt + 1 } }
  | giveUp {j : Job} {ok : Bool} (hp : s.phase = .verdict j) (ha : s.cmd.ackSeen = false) :
      Move s (.host ok) (leave { s with cmd := { s.cmd with fatal := true } } j false)
  | drop {k : Copy} {rest : List Copy} (ho : s.outgoing = k :: rest) :
      Move s (.fpga true) { s with outgoing := rest }
  | execute {k : Copy} {rest : List Copy} (ho : s.outgoing = k :: rest) :
      Move s (.fpga false)
        { s with outgoing := rest, executed := s.executed ++ [k], acks := s.acks ++ [k] }
  | ack {k : Copy} {rest : List Copy} (ha : s.acks = k :: rest) :
      Move s .ack { s with acks := rest, cmd := cmdAckEvent s.cmd }

theorem move_of_hostStep {s s' : State} {ok : Bool} (h : hostStep s ok = some s') :
    Move s (.host ok) s' := by
  rw [hostStep] at h
  split at h
  case h_1 hp =>
    split at h
    · cases h
    · rename_i id param more hc
      cases ok with
      | true => cases h; exact .quietSent hp hc
      | false => cases h; exact .quietFailed hp hc
    · rename_i id param more hc
      cases h
      exact .begin hp hc
  case h_2 j hp =>
    cases ok with
    | true => cases h; exact .sent hp
    | false => cases h; exact .unsent hp
  case h_3 j hp => cases h; exact .arm hp
  case h_4 j hp => cases h; exact .clear hp
  case h_5 j hp =>
    cases ok with
    | true => cases h; exact .poll hp
    | false => cases h; exact .timeout hp
  case h_6 j hp =>
    -- the ACK is looked at before the transport is
    split at h
    · rename_i ha
      cases h
      exact .acked hp ha
    · rename_i ha
      cases ok with
      | true => cases h; exact .again hp (Bool.eq_false_iff.mpr ha)
      | false => cases h; exact .broken hp (Bool.eq_false_iff.mpr ha)
  case h_7 j hp => cases h; exact .expired hp
  case h_8 j hp =>
    split at h
    · rename_i ha
      cases h
      exact .ackedLate hp ha
    · rename_i ha
      split at h
      · rename_i hr
        rw [Bool.and_eq_true, decide_eq_true_eq] at hr
        obtain ⟨rfl, hlt⟩ := hr
        cases h
        exact .retry hp (Bool.eq_false_iff.mpr ha) hlt
      · cases h
        exact .giveUp hp (Bool.eq_false_iff.mpr ha)

theorem move_of_step {s s' : State} {a : Action} (h : step s a = some s') : Move s a s' := by
  cases a with
  | host ok => exact move_of_hostStep h
  | fpga corrupted =>
      rw [step] at h
      split at h
      · cases h
      · rename_i k rest ho
        cases corrupted with
        | true => cases h; exact .drop ho
        | false => cases h; exact .execute ho
  | ack =>
      rw [step] at h
      split at h
      · cases h
      · rename_i k rest ha
        cases h
        exact .ack ha

/-! ## Numbers of calls -/

/-- What is on record was done by the calls made so far. -/
structure Numbered (s : State) : Prop where
  outgoing : ∀ k ∈ s.outgoing, k.call ≤ s.made
  acks : ∀ k ∈ s.acks, k.call ≤ s.made
  executed : ∀ k ∈ s.executed, k.call ≤ s.made
  returned : ∀ r ∈ s.returned, r.call ≤ s.made

theorem numbered_start (calls : List Call) : Numbered (start calls) where
  outgoing := by simp [start]
  acks := by simp [start]
  executed := by simp [start]
  returned := by simp [start]

namespace Numbered

variable {s s' : State}

theorem leave (h : Numbered s) (j : Job) (ok : Bool) : Numbered (leave s j ok) := by
  refine ⟨h.outgoing, h.acks, h.executed, fun r hr => ?_⟩
  rcases List.mem_append.mp hr with hr | hr
  · exact h.returned r hr
  · rw [List.mem_singleton.mp hr]
    exact Nat.le_refl _

theorem transportWrite (h : Numbered s) (id param : UInt32) :
    Numbered (transportWrite s id param) := by
  refine ⟨fun k hk => ?_, h.acks, h.executed, h.returned⟩
  rcases List.mem_append.mp hk with hk | hk
  · exact h.outgoing k hk
  · rw [List.mem_singleton.mp hk]
    exact Nat.le_refl _

/-- The next call. -/
theorem next (h : Numbered s) (calls : List Call) (phase : Phase) :
    Numbered { s with calls := calls, made := s.made + 1, phase := phase } where
  outgoing := fun k hk => Nat.le_succ_of_le (h.outgoing k hk)
  acks := fun k hk => Nat.le_succ_of_le (h.acks k hk)
  executed := fun k hk => Nat.le_succ_of_le (h.executed k hk)
  returned := fun r hr => Nat.le_succ_of_le (h.returned r hr)

theorem move (h : Numbered s) {a : Action} (hm : Move s a s') : Numbered s' := by
  -- the record is touched by a call, a packet on its way and a return only
  cases hm with
  | @quietSent id param more hp hc => exact (h.next more s.phase).transportWrite id param
  | @quietFailed id param more hp hc => exact h.next more s.phase
  | begin hp hc => exact h.next _ _
  | @sent j hp =>
      have hw := h.transportWrite j.id j.param
      exact ⟨hw.outgoing, hw.acks, hw.executed, hw.returned⟩
  | @unsent j hp => exact h.leave j false
  | @acked j _ hp ha =>
      have hl := h.leave j true
      exact ⟨hl.outgoing, hl.acks, hl.executed, hl.returned⟩
  | @ackedLate j _ hp ha =>
      have hl := h.leave j true
      exact ⟨hl.outgoing, hl.acks, hl.executed, hl.returned⟩
  | @giveUp j _ hp ha =>
      have hl := h.leave j false
      exact ⟨hl.outgoing, hl.acks, hl.executed, hl.returned⟩
  | drop ho =>
      exact ⟨fun k hk => h.outgoing k (ho ▸ List.mem_cons_of_mem _ hk), h.acks, h.executed,
        h.returned⟩
  | @execute c rest ho =>
      have hc := h.outgoing c (ho ▸ List.mem_cons_self)
      refine ⟨fun k hk => h.outgoing k (ho ▸ List.mem_cons_of_mem _ hk), fun k hk => ?_,
        fun k hk => ?_, h.returned⟩
      · rcases List.mem_append.mp hk with hk | hk
        · exact h.acks k hk
        · exact List.mem_singleton.mp hk ▸ hc
      · rcases List.mem_append.mp hk with hk | hk
        · exact h.executed k hk
        · exact List.mem_singleton.mp hk ▸ hc
  | ack ha =>
      exact ⟨h.outgoing, fun k hk => h.acks k (ha ▸ List.mem_cons_of_mem _ hk), h.executed,
        h.returned⟩
  | _ => exact ⟨h.outgoing, h.acks, h.executed, h.returned⟩

end Numbered

/-! ## Calls that begin with nothing on its way -/

/-- With nothing of other calls on its way when a call in `P` begins, what
is on its way during the call is the call's own, and an ACK that is seen
stands for a copy of its command that was executed. -/
structure Serial (P : Nat → Prop) (s : State) : Prop where
  acked : ∀ k ∈ s.acks, k ∈ s.executed
  own : ∀ c, s.phase.args = some c → P s.made →
    ∀ k ∈ s.outgoing ++ s.acks, k.Of s.made c.1 c.2
  seen : ∀ c, s.phase.args = some c → P s.made → s.phase.listens = true →
    s.cmd.ackSeen = true → ∃ k ∈ s.executed, k.Of s.made c.1 c.2
  honest : ∀ n, P n → Honest n s

namespace Serial

variable {P : Nat → Prop} {s s' : State}

/-- A statement that sends nothing and stays in the call. -/
theorem goOn (h : Serial P s) {cmd : Cmd} {phase : Phase} (hargs : phase.args = s.phase.args)
    (hseen : phase.listens = true → cmd.ackSeen = true →
      s.phase.listens = true ∧ s.cmd.ackSeen = true) :
    Serial P { s with cmd := cmd, phase := phase } where
  acked := h.acked
  own := fun c hc => h.own c (hargs ▸ hc)
  seen := fun c hc hP hl ha =>
    h.seen c (hargs ▸ hc) hP (hseen hl ha).1 (hseen hl ha).2
  honest := h.honest

/-- Outside `cmd_exec` nothing is asked of the wires. -/
theorem outside (h : Serial P s) (cmd : Cmd) (calls : List Call) (made : Nat)
    (outgoing : List Copy) : Serial P { s with
      cmd := cmd, calls := calls, made := made, phase := .idle, outgoing := outgoing } where
  acked := h.acked
  own := fun _ hc => nomatch hc
  seen := fun _ hc => nomatch hc
  honest := h.honest

theorem honest_leave {n : Nat} (h : Honest n s) (j : Job) {ok : Bool}
    (hok : s.made = n → ok = true → ∃ k ∈ s.executed, k.Of n j.id j.param) :
    Honest n (leave s j ok) := by
  intro r hr hn hr_ok
  rcases List.mem_append.mp hr with hr | hr
  · exact h r hr hn hr_ok
  · rw [List.mem_singleton] at hr
    subst hr
    exact hok hn hr_ok

/-- `return` with what the call has seen. -/
theorem leave (h : Serial P s) (cmd : Cmd) (j : Job) {ok : Bool}
    (hok : P s.made → ok = true → ∃ k ∈ s.executed, k.Of s.made j.id j.param) :
    Serial P (leave { s with cmd := cmd } j ok) where
  acked := h.acked
  own := fun _ hc => nomatch hc
  seen := fun _ hc => nomatch hc
  honest := by
    intro n hP
    refine honest_leave (s := { s with cmd := cmd }) (h.honest n hP) j fun hn htrue => ?_
    subst hn
    exact hok hP htrue

/-- `cmd_exec` puts a copy of its command on the wire. -/
theorem sent (h : Serial P s) {j : Job} (hp : s.phase = .write j) :
    Serial P { transportWrite s j.id j.param with phase := .arm j } where
  acked := h.acked
  own := by
    intro c hc hP k hk
    have hargs : s.phase.args = some c := by
      rw [hp]
      exact hc
    obtain rfl : (j.id, j.param) = c := Option.some.inj hc
    have hcases : k ∈ s.outgoing ++ s.acks ∨ k = ⟨s.made, buildPacket s.cmd j.id j.param⟩ := by
      rcases List.mem_append.mp hk with hk | hk
      · rcases List.mem_append.mp hk with hk | hk
        · exact Or.inl (List.mem_append_left _ hk)
        · exact Or.inr (List.mem_singleton.mp hk)
      · exact Or.inl (List.mem_append_right _ hk)
    rcases hcases with hk | rfl
    · exact h.own _ hargs hP k hk
    · exact ⟨rfl, s.cmd, rfl⟩
  seen := fun c hc hP hl => nomatch hl
  honest := h.honest

/-- A call begins with nothing on its way. -/
theorem begins (h : Serial P s) (calls : List Call) (j : Job)
    (hquiet : P (s.made + 1) → Quiet s) : Serial P { s with
      calls := calls, made := s.made + 1, phase := .write j } where
  acked := h.acked
  own := by
    intro c hc hP k hk
    obtain ⟨ho, ha⟩ := hquiet hP
    simp [ho, ha] at hk
  seen := fun c hc hP hl => nomatch hl
  honest := h.honest

theorem drop (h : Serial P s) {k : Copy} {rest : List Copy} (ho : s.outgoing = k :: rest) :
    Serial P { s with outgoing := rest } where
  acked := h.acked
  own := by
    intro c hc hP x hx
    refine h.own c hc hP x ?_
    rw [ho]
    exact List.mem_cons_of_mem _ hx
  seen := h.seen
  honest := h.honest

/-- The FPGA executes a command and acknowledges it. -/
theorem execute (h : Serial P s) {k : Copy} {rest : List Copy} (ho : s.outgoing = k :: rest) :
    Serial P { s with
      outgoing := rest, executed := s.executed ++ [k], acks := s.acks ++ [k] } where
  acked := by
    intro x hx
    rcases List.mem_append.mp hx with hx | hx
    · exact List.mem_append_left _ (h.acked x hx)
    · exact List.mem_append_right _ hx
  own := by
    intro c hc hP x hx
    refine h.own c hc hP x ?_
    rw [ho]
    simp only [List.mem_append, List.mem_cons, List.not_mem_nil, or_false] at hx ⊢
    rcases hx with hx | hx | hx
    · exact Or.inl (Or.inr hx)
    · exact Or.inr hx
    · exact Or.inl (Or.inl hx)
  seen := by
    intro c hc hP hl ha
    obtain ⟨x, hx, hof⟩ := h.seen c hc hP hl ha
    exact ⟨x, List.mem_append_left _ hx, hof⟩
  honest := by
    intro n hP r hr hn hok
    obtain ⟨x, hx, hof⟩ := h.honest n hP r hr hn hok
    exact ⟨x, List.mem_append_left _ hx, hof⟩

/-- An ACK comes in: it is one of the call's own. -/
theorem ack (h : Serial P s) {k : Copy} {rest : List Copy} (ha : s.acks = k :: rest) :
    Serial P { s with acks := rest, cmd := cmdAckEvent s.cmd } where
  acked := fun x hx => h.acked x (ha ▸ List.mem_cons_of_mem _ hx)
  own := by
    intro c hc hP x hx
    refine h.own c hc hP x ?_
    rw [ha]
    rcases List.mem_append.mp hx with hx | hx
    · exact List.mem_append_left _ hx
    · exact List.mem_append_right _ (List.mem_cons_of_mem _ hx)
  seen := by
    intro c hc hP _ _
    have hk : k ∈ s.acks := ha ▸ List.mem_cons_self
    exact ⟨k, h.acked k hk, h.own c hc hP k (List.mem_append_right _ hk)⟩
  honest := h.honest

theorem move (h : Serial P s) {a : Action} (hm : Move s a s')
    (hquiet : Command.begins s a = true → P (s.made + 1) → Quiet s) : Serial P s' := by
  cases hm with
  | @quietSent id param more hp hc =>
      have hout := h.outside s.cmd more (s.made + 1)
        (s.outgoing ++ [⟨s.made + 1, buildPacket s.cmd id param⟩])
      rw [← hp] at hout
      exact hout
  | @quietFailed id param more hp hc =>
      have hout := h.outside s.cmd more (s.made + 1) s.outgoing
      rw [← hp] at hout
      exact hout
  | begin hp hc => exact h.begins _ _ (hquiet (by simp [Command.begins, hp, hc]))
  | sent hp => exact h.sent hp
  | @unsent j hp => exact h.leave s.cmd j fun _ hok => nomatch hok
  | arm hp => exact h.goOn (by rw [hp]; rfl) nofun
  | clear hp => exact h.goOn (by rw [hp]; rfl) nofun
  | poll hp => exact h.goOn (by rw [hp]; rfl) fun _ ha => ⟨by rw [hp]; rfl, ha⟩
  | timeout hp => exact h.goOn (by rw [hp]; rfl) fun _ ha => ⟨by rw [hp]; rfl, ha⟩
  | @acked j _ hp ha =>
      exact h.leave _ j fun hP _ =>
        h.seen (j.id, j.param) (by rw [hp]; rfl) hP (by rw [hp]; rfl) ha
  | again hp ha => exact h.goOn (by rw [hp]; rfl) fun _ hs => ⟨by rw [hp]; rfl, hs⟩
  | broken hp ha => exact h.goOn (by rw [hp]; rfl) fun _ hs => ⟨by rw [hp]; rfl, hs⟩
  | expired hp => exact h.goOn (by rw [hp]; rfl) fun _ ha => ⟨by rw [hp]; rfl, ha⟩
  | @ackedLate j _ hp ha =>
      exact h.leave _ j fun hP _ =>
        h.seen (j.id, j.param) (by rw [hp]; rfl) hP (by rw [hp]; rfl) ha
  | retry hp ha hr => exact h.goOn (by rw [hp]; rfl) nofun
  | @giveUp j _ hp ha => exact h.leave _ j fun _ hok => nomatch hok
  | drop ho => exact h.drop ho
  | execute ho => exact h.execute ho
  | ack ha => exact h.ack ha

end Serial

theorem serial_start (P : Nat → Prop) (calls : List Call) : Serial P (start calls) where
  acked := by simp [start]
  own := fun _ hc => nomatch hc
  seen := fun _ hc => nomatch hc
  honest := by simp [Honest, start]

/-- Every call of a run whose calls of `cmd_exec` begin with nothing on
its way. -/
theorem honest_run {calls : List Call} {s : State}
    (hrun : Relation.ReflTransGen QuietStep (start calls) s) (n : Nat) : Honest n s := by
  have h : Serial (fun _ => True) s :=
    run_keeps (fun t t' ⟨a, hquiet, hs⟩ h => h.move (move_of_step hs) fun hb _ => hquiet hb) hrun
      (serial_start _ calls)
  exact h.honest n trivial

theorem numbered_run {calls : List Call} {s : State}
    (hrun : Relation.ReflTransGen Step (start calls) s) : Numbered s :=
  run_keeps (fun _ _ ⟨_, hs⟩ h => h.move (move_of_step hs)) hrun (numbered_start calls)

/-! ## One call -/

/-- The host is about to call `cmd_exec`. -/
def Calling (s : State) (id param : UInt32) : Prop :=
  s.phase = .idle ∧ ∃ more, s.calls = .exec id param :: more

/-- From a state with nothing on its way, the host goes first, and counts
the call. -/
theorem Move.begins_quiet {s s' : State} {a : Action} (hm : Move s a s') {id param : UInt32}
    (hcall : Calling s id param) (hquiet : Quiet s) : s'.made = s.made + 1 := by
  obtain ⟨hidle, more, hcalls⟩ := hcall
  obtain ⟨ho, hacks⟩ := hquiet
  cases hm <;> simp_all

theorem Move.made_le {s s' : State} {a : Action} (hm : Move s a s') : s.made ≤ s'.made := by
  cases hm <;> simp [transportWrite, leave]

/-- A call that begins with nothing on its way is honest for good. -/
theorem honest_of_quiet {s s' : State} {id param : UInt32} (hnum : Numbered s)
    (hacked : ∀ k ∈ s.acks, k ∈ s.executed) (hcall : Calling s id param) (hquiet : Quiet s)
    (hrun : Relation.ReflTransGen Step s s') : Honest (s.made + 1) s' := by
  -- until the call is counted nothing else can happen
  have hkeeps : Serial (· = s.made + 1) s' ∧ s.made ≤ s'.made ∧ (s'.made = s.made → s' = s) := by
    refine run_keeps (I := fun t => Serial (· = s.made + 1) t ∧ s.made ≤ t.made ∧
      (t.made = s.made → t = s)) ?_ hrun ⟨⟨hacked, ?_, ?_, ?_⟩, Nat.le_refl _, fun _ => rfl⟩
    · rintro t t' ⟨a, hs⟩ ⟨h, hle, hsame⟩
      have hm := move_of_step hs
      have hle' := hm.made_le
      refine ⟨h.move hm fun _ heq => ?_, by omega, fun heq => ?_⟩
      · rw [hsame (by omega)]
        exact hquiet
      · have ht : t = s := hsame (by omega)
        subst ht
        have := hm.begins_quiet hcall hquiet
        omega
    · intro c hc hP
      omega
    · intro c hc hP
      omega
    · rintro n rfl r hr hn
      have := hnum.returned r hr
      omega
  exact hkeeps.1.honest _ rfl

/-- The statements of `cmd_exec` up to its wait. -/
theorem exec_waits {s : State} {id param : UInt32} (hcall : Calling s id param) :
    ∃ t j, Relation.ReflTransGen Step s t ∧ t.phase = .loop j ∧ j.id = id ∧ j.param = param ∧
      t.cmd.waiting = true ∧ t.made = s.made + 1 ∧ t.executed = s.executed ∧ t.acks = s.acks ∧
      ∃ own, t.outgoing = s.outgoing ++ [own] := by
  obtain ⟨hidle, more, hcalls⟩ := hcall
  let j : Job := ⟨id, param, 0⟩
  let s1 : State := { s with calls := more, made := s.made + 1, phase := .write j }
  let s2 : State := { transportWrite s1 id param with phase := .arm j }
  let s3 : State := { s2 with cmd := { s2.cmd with suppress := false, waiting := true },
                              phase := .clear j }
  let s4 : State := { s3 with cmd := { s3.cmd with ackSeen := false }, phase := .loop j }
  have h1 : Step s s1 := ⟨.host true, by simp only [step, hostStep, hidle, hcalls]; rfl⟩
  have h2 : Step s1 s2 := ⟨.host true, rfl⟩
  have h3 : Step s2 s3 := ⟨.host true, rfl⟩
  have h4 : Step s3 s4 := ⟨.host true, rfl⟩
  exact ⟨s4, j, (((Relation.ReflTransGen.single h1).tail h2).tail h3).tail h4, rfl, rfl, rfl, rfl,
    rfl, rfl, rfl, _, rfl⟩

/-- An ACK on its way, whatever for, ends the wait. -/
theorem exec_takes_ack {t : State} {j : Job} (hp : t.phase = .loop j)
    (hw : t.cmd.waiting = true) {k : Copy} {rest : List Copy} (ha : t.acks = k :: rest) :
    ∃ t', Relation.ReflTransGen Step t t' ∧ t'.executed = t.executed ∧
      ⟨t.made, j.id, j.param, true⟩ ∈ t'.returned := by
  have hevent : cmdAckEvent t.cmd = { t.cmd with ackSeen := true } := if_pos hw
  let t1 : State := { t with acks := rest, cmd := { t.cmd with ackSeen := true } }
  let t2 : State := { t1 with phase := .test j }
  have h1 : Step t t1 := ⟨.ack, by simp only [step, ha, hevent]; rfl⟩
  have h2 : Step t1 t2 := ⟨.host true, by simp only [step, hostStep, t1, hp]; rfl⟩
  have h3 : Step t2 _ := ⟨.host true, rfl⟩
  refine ⟨_, ((Relation.ReflTransGen.single h1).tail h2).tail h3, rfl, ?_⟩
  exact List.mem_append_right _ (List.mem_singleton.mpr rfl)

/-- With something of earlier calls on its way, a call can return true
before the FPGA executes its command. -/
theorem dishonest_of_not_quiet {s : State} {id param : UInt32} (hnum : Numbered s)
    (hcall : Calling s id param) (hbusy : ¬ Quiet s) :
    ∃ s', Relation.ReflTransGen Step s s' ∧ ¬ Honest (s.made + 1) s' := by
  obtain ⟨t, j, hrun, hp, hid, hparam, hw, hmade, hexec, hacks, own, hout⟩ := exec_waits hcall
  -- an ACK of an earlier call to end the wait with, at once or when its command is executed
  obtain ⟨u, hu, hup, huw, humade, hold, k, rest, hua⟩ : ∃ u, Relation.ReflTransGen Step t u ∧
      u.phase = .loop j ∧ u.cmd.waiting = true ∧ u.made = s.made + 1 ∧
      (∀ k ∈ u.executed, k.call ≤ s.made) ∧ ∃ k rest, u.acks = k :: rest := by
    cases hs : s.acks with
    | cons k rest =>
        exact ⟨t, .refl, hp, hw, hmade, hexec ▸ hnum.executed, k, rest, hacks.trans hs⟩
    | nil =>
        cases ho : s.outgoing with
        | nil => exact absurd ⟨ho, hs⟩ hbusy
        | cons k rest =>
            rw [ho] at hout
            rw [hs] at hacks
            refine ⟨{ t with outgoing := rest ++ [own], executed := t.executed ++ [k],
                             acks := t.acks ++ [k] }, .single ⟨.fpga false, ?_⟩, hp, hw, hmade, ?_,
              k, [], by rw [hacks]; rfl⟩
            · simp only [step, hout, List.cons_append]
              rfl
            · intro x hx
              rcases List.mem_append.mp hx with hx | hx
              · exact hnum.executed x (hexec ▸ hx)
              · rw [List.mem_singleton.mp hx]
                exact hnum.outgoing k (ho ▸ List.mem_cons_self)
  obtain ⟨u', hu', hsame, hret⟩ := exec_takes_ack hup huw hua
  refine ⟨u', (hrun.trans hu).trans hu', fun hhonest => ?_⟩
  obtain ⟨x, hx, hcallx, -⟩ := hhonest _ hret humade rfl
  have := hold x (hsame ▸ hx)
  omega

/-- **An acknowledged command was executed, if nothing was on its way.**
In a run whose calls of `cmd_exec` all begin with no earlier command and
no earlier ACK on its way, a call that returned true had its command
executed. The condition is exact: from any state in which the host is
about to call `cmd_exec`, the call is honest however the run goes on if
and only if nothing is on its way. -/
theorem exec_acknowledged_iff (calls : List Call) :
    (∀ s, Relation.ReflTransGen QuietStep (start calls) s → ∀ n, Honest n s) ∧
    (∀ s id param, Relation.ReflTransGen Step (start calls) s → Calling s id param →
      ((∀ s', Relation.ReflTransGen Step s s' → Honest (s.made + 1) s') ↔ Quiet s)) := by
  refine ⟨fun s hrun n => honest_run hrun n, fun s id param hrun hcall => ⟨fun hall => ?_, ?_⟩⟩
  · by_contra hbusy
    obtain ⟨s', hrun', hbad⟩ := dishonest_of_not_quiet (numbered_run hrun) hcall hbusy
    exact hbad (hall s' hrun')
  · intro hquiet s' hrun'
    refine honest_of_quiet (numbered_run hrun) ?_ hcall hquiet hrun'
    rw [hquiet.2]
    exact nofun

/-- Some steps, one after the other. -/
def exec (s : State) : List Action → Option State
  | [] => some s
  | a :: more => (step s a).bind fun s' => exec s' more

theorem exec_run {s s' : State} {as : List Action} (h : exec s as = some s') :
    Relation.ReflTransGen Step s s' := by
  induction as generalizing s with
  | nil =>
      cases h
      exact .refl
  | cons a more ih =>
      obtain ⟨mid, hmid, hrest⟩ := Option.bind_eq_some_iff.mp h
      exact .head ⟨a, hmid⟩ (ih hrest)

/-- `UHSIF_CMD_UPLOAD_PARAMS` runs into its deadline and is sent again;
the FPGA executes both copies. The second ACK is still on its way when
`UHSIF_CMD_SPEED` is sent. -/
def lateAck : List Action :=
  [.host true, .host true, .host true, .host true, .host false, .host true, .host true,
    .host true, .host true, .host true, .fpga false, .fpga false, .ack, .host true, .host true,
    .host true, .host true, .host true, .host true, .ack, .host true, .host true]

/-- The second call returns true with its command not executed. -/
theorem lateAck_resolves_next : ∃ s,
    Relation.ReflTransGen Step (start [.exec 0x20 4092, .exec 0x03 3]) s ∧
      s.returned = [⟨1, 0x20, 4092, true⟩, ⟨2, 0x03, 3, true⟩] ∧
      s.executed.map Copy.call = [1, 1] ∧ ¬ Honest 2 s := by
  have hsome : (exec (start [.exec 0x20 4092, .exec 0x03 3]) lateAck).map
      (fun s => (s.returned, s.executed.map Copy.call)) =
        some ([⟨1, 0x20, 4092, true⟩, ⟨2, 0x03, 3, true⟩], [1, 1]) := by decide +kernel
  obtain ⟨s, hs, heq⟩ := Option.map_eq_some_iff.mp hsome
  obtain ⟨hret, hexec⟩ := Prod.mk.inj heq
  refine ⟨s, exec_run hs, hret, hexec, fun hhonest => ?_⟩
  obtain ⟨k, hk, hcall, -⟩ := hhonest ⟨2, 0x03, 3, true⟩ (by rw [hret]; simp) rfl rfl
  have hmem : k.call ∈ s.executed.map Copy.call := List.mem_map_of_mem hk
  rw [hexec, hcall] at hmem
  simp at hmem

end UsbSniffer.Command
