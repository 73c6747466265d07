import UsbSniffer.Packet.Model

/-!
# Folding, as an account of capture events

What folding is for, apart from buffers and records: every capture event
(a packet or a keep-alive seen while the gate is open) is either written,
or deleted together with the group it belongs to, or held in the one
group that is still open. `Account` says which, and `Account.step` what one
more event changes; `account` is the account of a whole session.

The account never loses an event (`account_events`), deletes nothing but
groups (`account_wf`), and its open group can be read off the end of the
session alone (`account_held_iff`).
-/

namespace UsbSniffer

variable {β : Type}

/-- What a written event looks like in the output. -/
inductive Captured (β : Type) where
  | packet (data : List β)
  | keepalive
  deriving DecidableEq, Repr

/-- A capture event: a packet with its flags and whether a SOF may be
folded at the current speed, or a keep-alive. `dataError` is the CRC or
PHY error flag. -/
inductive CaptureEvent (β : Type) where
  | packet (data : List β) (overflow dataError allowSof : Bool)
  | keepalive
  deriving DecidableEq, Repr

def CaptureEvent.captured : CaptureEvent β → Captured β
  | .packet data _ _ _ => .packet data
  | .keepalive => .keepalive

/-- A capture event as the session ends up with it. -/
inductive Part (β : Type) where
  | written (e : CaptureEvent β)
  | deleted (group : List (CaptureEvent β))

namespace Part

def events : Part β → List (CaptureEvent β)
  | .written e => [e]
  | .deleted group => group

/-- What the part leaves in the output. -/
def captured : Part β → Option (Captured β)
  | .written e => some e.captured
  | .deleted _ => none

def isDeleted : Part β → Bool
  | .written _ => false
  | .deleted _ => true

end Part

/-- The event flushes an open group of `n` events before it is looked
at: an error or overflow flag, or a full buffer. -/
def CaptureEvent.breaks : CaptureEvent β → Nat → Bool
  | .packet _ overflow dataError _, n => overflow || dataError || n == foldBufSize
  | .keepalive, _ => false

theorem CaptureEvent.breaks_of_short {e : CaptureEvent β} (h : e.breaks 0 = false) {n : Nat}
    (hn : n < foldBufSize) : e.breaks n = false := by
  cases e with
  | keepalive => rfl
  | packet data overflow dataError allowSof =>
      have hne : n ≠ foldBufSize := Nat.ne_of_lt hn
      simp only [CaptureEvent.breaks, Bool.or_eq_false_iff] at h ⊢
      exact ⟨h.1, by simpa using hne⟩

section Groups

variable [ByteLike β]

/-- The PID of a packet. -/
def pidOf (data : List β) : Option UInt8 := data.head?.map ByteLike.val

namespace CaptureEvent

/-- The event opens a group: a keep-alive, or a foldable SOF. -/
def starts : CaptureEvent β → Bool
  | .packet data _ dataError allowSof => !dataError && allowSof && pidOf data == some pidSof
  | .keepalive => true

/-- The event can belong to an open group: an IN or NAK without error. -/
def continues : CaptureEvent β → Bool
  | .packet data _ dataError _ =>
      !dataError && (pidOf data == some pidIn || pidOf data == some pidNak)
  | .keepalive => false

end CaptureEvent

/-- A group: one event that opens it, then IN and NAK without error. -/
def IsGroup (g : List (CaptureEvent β)) : Prop :=
  ∃ e rest, g = e :: rest ∧ e.starts = true ∧ ∀ x ∈ rest, x.continues = true

end Groups

/-! ## The account -/

/-- What became of the events so far, and the group still open. -/
structure Account (β : Type) where
  parts : List (Part β)
  held : List (CaptureEvent β)

namespace Account

/-- The events accounted for, in arrival order. -/
def events (a : Account β) : List (CaptureEvent β) := a.parts.flatMap Part.events ++ a.held

/-- What of them was written. -/
def written (a : Account β) : List (Captured β) := a.parts.filterMap Part.captured

/-- How many groups were deleted. -/
def deleted (a : Account β) : Nat := a.parts.countP Part.isDeleted

/-- Everything held is written. -/
def flush (a : Account β) : Account β where
  parts := a.parts ++ a.held.map .written
  held := []

/-- The open group is deleted. -/
def drop (a : Account β) : Account β where
  parts := if a.held = [] then a.parts else a.parts ++ [.deleted a.held]
  held := []

def hold (a : Account β) (e : CaptureEvent β) : Account β := { a with held := a.held ++ [e] }

def write (a : Account β) (e : CaptureEvent β) : Account β :=
  { a with parts := a.parts ++ [.written e] }

/-- The flush in front of an event. -/
def prepare (a : Account β) (e : CaptureEvent β) : Account β :=
  if e.breaks a.held.length then a.flush else a

theorem events_flush (a : Account β) : a.flush.events = a.events := by
  have hmap : (a.held.map Part.written).flatMap Part.events = a.held := by
    induction a.held with
    | nil => rfl
    | cons e es ih => rw [List.map_cons, List.flatMap_cons, ih]; rfl
  rw [events, events, flush, List.flatMap_append, hmap, List.append_nil]

theorem deleted_flush (a : Account β) : a.flush.deleted = a.deleted := by
  have hmap : (a.held.map Part.written).countP Part.isDeleted = 0 := by
    rw [List.countP_eq_zero]
    intro part hpart
    obtain ⟨e, -, rfl⟩ := List.mem_map.mp hpart
    simp [Part.isDeleted]
  rw [deleted, flush, List.countP_append, hmap]
  rfl

theorem events_drop (a : Account β) : a.drop.events = a.events := by
  rw [events, events, drop]
  by_cases hh : a.held = []
  · rw [if_pos hh, hh]
  · rw [if_neg hh, List.flatMap_append, List.flatMap_singleton, List.append_nil]
    rfl

theorem events_hold (a : Account β) (e : CaptureEvent β) :
    (a.hold e).events = a.events ++ [e] := by
  rw [events, events, hold, List.append_assoc]

theorem events_write (a : Account β) (e : CaptureEvent β) :
    (a.flush.write e).events = a.events ++ [e] := by
  rw [← events_flush a, events, events, write, List.flatMap_append, List.flatMap_singleton]
  simp [flush, Part.events]

/-- Once an event is prepared for, an open group is one it does not
break. -/
theorem prepare_unbroken {a : Account β} {e : CaptureEvent β} (hne : (a.prepare e).held ≠ []) :
    a.prepare e = a ∧ e.breaks a.held.length = false := by
  rw [prepare] at hne ⊢
  by_cases hb : e.breaks a.held.length = true
  · rw [if_pos hb] at hne
    exact absurd rfl hne
  · rw [if_neg hb]
    exact ⟨rfl, by simpa using hb⟩

variable [ByteLike β]

/-- The event itself: it opens the next group, continues the open one, or
is written behind everything held. -/
def place (a : Account β) (e : CaptureEvent β) : Account β :=
  if e.starts then a.drop.hold e
  else if e.continues && a.held ≠ [] then a.hold e
  else a.flush.write e

/-- One more event. -/
def step (a : Account β) (e : CaptureEvent β) : Account β := (a.prepare e).place e

end Account

variable [ByteLike β]

/-- The account of a session. -/
def account (evs : List (CaptureEvent β)) : Account β := evs.foldl Account.step ⟨[], []⟩

theorem account_concat (evs : List (CaptureEvent β)) (e : CaptureEvent β) :
    account (evs ++ [e]) = (account evs).step e := by
  rw [account, account, List.foldl_append]
  rfl

/-! ## No event is lost -/

namespace Account

theorem events_step (a : Account β) (e : CaptureEvent β) :
    (a.step e).events = a.events ++ [e] := by
  have hp : (a.prepare e).events = a.events := by
    rw [prepare]
    split
    · exact events_flush a
    · rfl
  rw [step, place]
  split
  · rw [events_hold, events_drop, hp]
  · split
    · rw [events_hold, hp]
    · rw [events_write, hp]

end Account

/-- **Every event of the session is in its account**, in arrival order. -/
theorem account_events (evs : List (CaptureEvent β)) : (account evs).events = evs := by
  induction evs using List.reverseRecOn with
  | nil => rfl
  | append_singleton evs e ih => rw [account_concat, Account.events_step, ih]

/-! ## Only groups are deleted -/

/-- Deleted parts are groups; so is what is held, and it is one that no
event has broken. -/
structure Account.Wf (a : Account β) : Prop where
  groups : ∀ g, Part.deleted g ∈ a.parts → IsGroup g
  open_group : a.held = [] ∨ IsGroup a.held
  open_short : a.held.length ≤ foldBufSize
  open_unbroken : ∀ x ∈ a.held.tail, ∀ n, n < foldBufSize → x.breaks n = false

namespace Account.Wf

theorem flush {a : Account β} (h : a.Wf) : a.flush.Wf where
  groups := by
    intro g hg
    rcases List.mem_append.mp hg with hg | hg
    · exact h.groups g hg
    · obtain ⟨e, -, he⟩ := List.mem_map.mp hg
      cases he
  open_group := Or.inl rfl
  open_short := Nat.zero_le _
  open_unbroken := fun x hx => absurd hx List.not_mem_nil

theorem drop {a : Account β} (h : a.Wf) : a.drop.Wf where
  groups := by
    intro g hg
    rw [Account.drop] at hg
    by_cases hh : a.held = []
    · rw [if_pos hh] at hg
      exact h.groups g hg
    · rw [if_neg hh] at hg
      rcases List.mem_append.mp hg with hg | hg
      · exact h.groups g hg
      · rw [List.mem_singleton] at hg
        cases hg
        exact h.open_group.resolve_left hh
  open_group := Or.inl rfl
  open_short := Nat.zero_le _
  open_unbroken := fun x hx => absurd hx List.not_mem_nil

theorem write {a : Account β} (h : a.Wf) (e : CaptureEvent β) : (a.write e).Wf where
  groups := by
    intro g hg
    rcases List.mem_append.mp hg with hg | hg
    · exact h.groups g hg
    · rw [List.mem_singleton] at hg
      cases hg
  open_group := h.open_group
  open_short := h.open_short
  open_unbroken := h.open_unbroken

/-- A group opens. -/
theorem hold_first {a : Account β} (h : a.Wf) (hnil : a.held = []) {e : CaptureEvent β}
    (he : e.starts = true) : (a.hold e).Wf where
  groups := h.groups
  open_group := by
    refine Or.inr ⟨e, [], ?_, he, fun x hx => absurd hx List.not_mem_nil⟩
    rw [Account.hold, hnil, List.nil_append]
  open_short := by
    rw [Account.hold, hnil, List.nil_append, List.length_singleton]
    decide
  open_unbroken := by
    rw [Account.hold, hnil]
    exact fun x hx => absurd hx List.not_mem_nil

/-- The open group goes on. -/
theorem hold_next {a : Account β} (h : a.Wf) (hne : a.held ≠ []) {e : CaptureEvent β}
    (he : e.continues = true) (hb : e.breaks a.held.length = false) : (a.hold e).Wf := by
  obtain ⟨s, rest, hg, hs, hrest⟩ := h.open_group.resolve_left hne
  cases e with
  | keepalive => cases he
  | packet data overflow dataError allowSof =>
      have hflags : overflow = false ∧ dataError = false ∧ a.held.length ≠ foldBufSize := by
        simpa [CaptureEvent.breaks, and_assoc] using hb
      obtain ⟨hov, herr, hlen⟩ := hflags
      have hheld : (a.hold (.packet data overflow dataError allowSof)).held =
          s :: (rest ++ [.packet data overflow dataError allowSof]) := by
        rw [Account.hold, hg, List.cons_append]
      refine ⟨h.groups, Or.inr ⟨s, _, hheld, hs, ?_⟩, ?_, ?_⟩
      · intro x hx
        rcases List.mem_append.mp hx with hx | hx
        · exact hrest x hx
        · rw [List.mem_singleton] at hx
          subst hx
          exact he
      · have hshort := h.open_short
        rw [Account.hold, List.length_append, List.length_singleton]
        omega
      · intro x hx n hn
        rw [hheld, List.tail_cons] at hx
        rcases List.mem_append.mp hx with hx | hx
        · exact h.open_unbroken x (by rw [hg]; exact hx) n hn
        · rw [List.mem_singleton] at hx
          subst hx
          have hne' : n ≠ foldBufSize := Nat.ne_of_lt hn
          simp [CaptureEvent.breaks, hov, herr, hne']

theorem prepare {a : Account β} (h : a.Wf) (e : CaptureEvent β) : (a.prepare e).Wf := by
  rw [Account.prepare]
  split
  · exact h.flush
  · exact h

theorem step {a : Account β} (h : a.Wf) (e : CaptureEvent β) : (a.step e).Wf := by
  rw [Account.step, Account.place]
  split
  · rename_i hs
    exact (h.prepare e).drop.hold_first rfl hs
  · split
    · rename_i hc
      rw [Bool.and_eq_true, decide_eq_true_eq] at hc
      obtain ⟨heq, hb⟩ := Account.prepare_unbroken hc.2
      rw [heq] at hc ⊢
      exact h.hold_next hc.2 hc.1 hb
    · exact (h.prepare e).flush.write e

end Account.Wf

/-- **Only groups are deleted**, and only a group is held. -/
theorem account_wf (evs : List (CaptureEvent β)) : (account evs).Wf := by
  induction evs using List.reverseRecOn with
  | nil =>
      exact ⟨fun g hg => absurd hg List.not_mem_nil, Or.inl rfl, Nat.zero_le _,
        fun x hx => absurd hx List.not_mem_nil⟩
  | append_singleton evs e ih =>
      rw [account_concat]
      exact ih.step e

/-! ## When a group is still open -/

/-- The session ends in an open group: an event that opens a group, then
only IN and NAK without error or overflow, too few to fill the buffer. -/
def EndsOpen (evs : List (CaptureEvent β)) : Prop :=
  ∃ pre e rest, evs = pre ++ e :: rest ∧ e.starts = true ∧ rest.length < foldBufSize ∧
    ∀ x ∈ rest, x.continues = true ∧ x.breaks 0 = false

theorem CaptureEvent.starts_not_continues {e : CaptureEvent β} (h : e.continues = true) :
    e.starts = false := by
  cases e with
  | keepalive => cases h
  | packet data overflow dataError allowSof =>
      rw [CaptureEvent.continues, Bool.and_eq_true, Bool.or_eq_true, beq_iff_eq, beq_iff_eq] at h
      rw [CaptureEvent.starts]
      rcases h.2 with hp | hp
      · rw [hp, show (some pidIn == some pidSof) = false from rfl, Bool.and_false]
      · rw [hp, show (some pidNak == some pidSof) = false from rfl, Bool.and_false]

namespace Account

theorem step_starts_held (a : Account β) {e : CaptureEvent β} (he : e.starts = true) :
    (a.step e).held = [e] := by
  rw [step, place, if_pos he]
  rfl

theorem step_continues_held {a : Account β} {e : CaptureEvent β} (hc : e.continues = true)
    (hb : e.breaks 0 = false) (hne : a.held ≠ []) (hlen : a.held.length < foldBufSize) :
    (a.step e).held = a.held ++ [e] := by
  have hb' := CaptureEvent.breaks_of_short hb hlen
  rw [step, prepare, if_neg (by simp [hb']), place,
    if_neg (by simp [CaptureEvent.starts_not_continues hc]), if_pos (by simp [hc, hne])]
  rfl

theorem steps_continue_held {rest : List (CaptureEvent β)} {a : Account β} (hne : a.held ≠ [])
    (hlen : a.held.length + rest.length ≤ foldBufSize)
    (hrest : ∀ x ∈ rest, x.continues = true ∧ x.breaks 0 = false) :
    (rest.foldl step a).held = a.held ++ rest := by
  induction rest generalizing a with
  | nil => rw [List.foldl_nil, List.append_nil]
  | cons x xs ih =>
      rw [List.length_cons] at hlen
      obtain ⟨hc, hb⟩ := hrest x List.mem_cons_self
      have hx := step_continues_held hc hb hne (by omega)
      rw [List.foldl_cons, ih, hx, List.append_assoc, List.singleton_append]
      · rw [hx]
        exact List.append_ne_nil_of_left_ne_nil hne _
      · rw [hx, List.length_append, List.length_singleton]
        omega
      · exact fun y hy => hrest y (List.mem_cons_of_mem x hy)

end Account

/-- **A group is open exactly when the events end in one.** -/
theorem account_held_iff (evs : List (CaptureEvent β)) :
    (account evs).held ≠ [] ↔ EndsOpen evs := by
  constructor
  · intro hne
    have hw := account_wf evs
    obtain ⟨e, rest, hg, he, hrest⟩ := hw.open_group.resolve_left hne
    refine ⟨(account evs).parts.flatMap Part.events, e, rest, ?_, he, ?_, ?_⟩
    · rw [← hg]
      exact (account_events evs).symm
    · have hshort := hw.open_short
      rw [hg, List.length_cons] at hshort
      omega
    · intro x hx
      refine ⟨hrest x hx, hw.open_unbroken x ?_ 0 (by decide)⟩
      rw [hg]
      exact hx
  · rintro ⟨pre, e, rest, rfl, he, hlen, hrest⟩
    have hstart := (account pre).step_starts_held he
    have hheld : (account (pre ++ e :: rest)).held = [e] ++ rest := by
      rw [account, List.foldl_append, List.foldl_cons, ← hstart]
      refine Account.steps_continue_held ?_ ?_ hrest
      · exact hstart ▸ List.cons_ne_nil _ _
      · rw [show (List.foldl Account.step ⟨[], []⟩ pre) = account pre from rfl, hstart,
          List.length_singleton]
        omega
    rw [hheld]
    exact List.cons_ne_nil _ _

/-! ## Counting groups

The deleted groups can be counted from outside: each has one event that
would show up in the output as a SOF or a keep-alive. -/

/-- A SOF or a keep-alive, as it shows in the output. -/
def Captured.marks : Captured β → Bool
  | .packet data => pidOf data == some pidSof
  | .keepalive => true

theorem CaptureEvent.marks_of_starts {e : CaptureEvent β} (h : e.starts = true) :
    e.captured.marks = true := by
  cases e with
  | keepalive => rfl
  | packet data overflow dataError allowSof =>
      rw [CaptureEvent.starts, Bool.and_eq_true] at h
      exact h.2

theorem CaptureEvent.marks_of_continues {e : CaptureEvent β} (h : e.continues = true) :
    e.captured.marks = false := by
  cases e with
  | keepalive => cases h
  | packet data overflow dataError allowSof =>
      rw [CaptureEvent.continues, Bool.and_eq_true, Bool.or_eq_true, beq_iff_eq, beq_iff_eq] at h
      rw [CaptureEvent.captured, Captured.marks]
      rcases h.2 with hp | hp <;> rw [hp] <;> rfl

/-- The marks of a list of events. -/
def marks (evs : List (CaptureEvent β)) : Nat := evs.countP fun e => e.captured.marks

theorem marks_append (xs ys : List (CaptureEvent β)) : marks (xs ++ ys) = marks xs + marks ys :=
  List.countP_append

theorem IsGroup.marks_eq {g : List (CaptureEvent β)} (h : IsGroup g) : marks g = 1 := by
  obtain ⟨e, rest, rfl, he, hrest⟩ := h
  have h0 : marks rest = 0 := by
    rw [marks, List.countP_eq_zero]
    intro x hx
    simp [CaptureEvent.marks_of_continues (hrest x hx)]
  rw [marks, List.countP_cons, if_pos (CaptureEvent.marks_of_starts he)]
  exact congrArg (· + 1) h0

/-- However a session is divided into written events and deleted groups,
the marks count them. -/
theorem marks_parts {parts : List (Part β)} (hg : ∀ g, Part.deleted g ∈ parts → IsGroup g) :
    parts.countP Part.isDeleted + (parts.filterMap Part.captured).countP Captured.marks =
      marks (parts.flatMap Part.events) := by
  induction parts with
  | nil => rfl
  | cons part parts ih =>
      have ih := ih fun g hmem => hg g (List.mem_cons_of_mem part hmem)
      cases part with
      | written e =>
          have h1 : marks [e] = if e.captured.marks then 1 else 0 := by
            rw [marks, List.countP_singleton]
          have hw : (Part.written e :: parts).filterMap Part.captured =
              e.captured :: parts.filterMap Part.captured := rfl
          have hn : (Part.written e :: parts).countP Part.isDeleted =
              parts.countP Part.isDeleted := rfl
          rw [List.flatMap_cons, marks_append, Part.events, h1, ← ih, hw, hn, List.countP_cons]
          omega
      | deleted g =>
          have hd : (Part.deleted g :: parts).filterMap Part.captured =
              parts.filterMap Part.captured := rfl
          rw [List.flatMap_cons, marks_append, Part.events, (hg g List.mem_cons_self).marks_eq,
            ← ih, hd, List.countP_cons_of_pos rfl]
          omega

end UsbSniffer
