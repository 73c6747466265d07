import Mathlib.Tactic
import Mathlib.Logic.Relation

/-!
# Ring buffers, stacks, pools and invariants of runs

A ring of `N` slots and a stack, both kept in flat arrays with their
indices, as C code keeps them, and read as lists. Nothing stops a caller
from pushing to a full ring: that it does not happen is for the caller's
invariant to say, and `RingBuf.Wf` is what such an invariant carries.

A pool is a set of buffers that wander: free on a stack, queued in a
ring, or in somebody's hands. Its moves keep the bag of all buffers, and
from the bag follow the bounds and who may write where.
-/

namespace UsbSniffer.Lib

variable {α : Type}

/-! ## Rings -/

/-- An array used as a ring: the slot of the oldest element, the slot
for the next one, and the number of elements. -/
structure RingBuf (α : Type) where
  slots : Nat → α
  first : Nat
  next : Nat
  count : Nat

namespace RingBuf

/-- Store at the free end and move it on. -/
def push (N : Nat) (r : RingBuf α) (x : α) : RingBuf α where
  slots := Function.update r.slots r.next x
  first := r.first
  next := (r.next + 1) % N
  count := r.count + 1

/-- The oldest element. -/
def front (r : RingBuf α) : α := r.slots r.first

/-- Let go of the oldest element. -/
def pop (N : Nat) (r : RingBuf α) : RingBuf α where
  slots := r.slots
  first := (r.first + 1) % N
  next := r.next
  count := r.count - 1

/-- The elements, oldest first. -/
def items (N : Nat) (r : RingBuf α) : List α :=
  (List.range r.count).map fun i => r.slots ((r.first + i) % N)

/-- The indices of a ring of `N` slots fit together. -/
structure Wf (N : Nat) (r : RingBuf α) : Prop where
  count_le : r.count ≤ N
  first_lt : r.first < N
  next_eq : r.next = (r.first + r.count) % N

@[simp] theorem items_length (N : Nat) (r : RingBuf α) : (r.items N).length = r.count := by
  rw [items, List.length_map, List.length_range]

theorem items_eq_nil {N : Nat} {r : RingBuf α} (h : r.count = 0) : r.items N = [] := by
  rw [items, h]
  rfl

theorem Wf.push {N : Nat} {r : RingBuf α} (h : r.Wf N) (hlt : r.count < N) (x : α) :
    (r.push N x).Wf N where
  count_le := hlt
  first_lt := h.first_lt
  next_eq := by
    show (r.next + 1) % N = (r.first + (r.count + 1)) % N
    rw [h.next_eq, Nat.mod_add_mod, Nat.add_assoc]

theorem Wf.pop {N : Nat} {r : RingBuf α} (h : r.Wf N) (hpos : 0 < r.count) : (r.pop N).Wf N where
  count_le := Nat.le_trans (Nat.sub_le _ _) h.count_le
  first_lt := Nat.mod_lt _ (Nat.lt_of_le_of_lt (Nat.zero_le _) h.first_lt)
  next_eq := by
    show r.next = ((r.first + 1) % N + (r.count - 1)) % N
    rw [h.next_eq, Nat.mod_add_mod]
    congr 1
    omega

/-- Two offsets into a ring meet in one slot only if they are equal. -/
theorem slot_ne {N first i j : Nat} (hij : i < j) (hj : j < N) :
    (first + i) % N ≠ (first + j) % N := by
  intro he
  have h : (j - i) % N = 0 := by
    have hd := (Nat.modEq_iff_dvd' (show first + i ≤ first + j by omega)).mp he
    rw [show first + j - (first + i) = j - i by omega] at hd
    exact Nat.mod_eq_zero_of_dvd hd
  rw [Nat.mod_eq_of_lt (by omega)] at h
  omega

/-- **A push appends**, as long as there is a free slot. -/
theorem items_push {N : Nat} {r : RingBuf α} (h : r.Wf N) (hlt : r.count < N) (x : α) :
    (r.push N x).items N = r.items N ++ [x] := by
  have hold : (List.range r.count).map
      (fun i => Function.update r.slots r.next x ((r.first + i) % N)) = r.items N := by
    refine List.map_congr_left fun i hi => ?_
    rw [Function.update_of_ne]
    rw [h.next_eq]
    exact slot_ne (List.mem_range.mp hi) hlt
  show (List.range (r.count + 1)).map
    (fun i => Function.update r.slots r.next x ((r.first + i) % N)) = _
  rw [List.range_succ, List.map_append, hold, List.map_singleton, ← h.next_eq, Function.update_self]

/-- **A pop takes the oldest element off.** -/
theorem items_pop {N : Nat} {r : RingBuf α} (h : r.Wf N) (hpos : 0 < r.count) :
    r.items N = r.front :: (r.pop N).items N := by
  obtain ⟨n, hn⟩ := Nat.exists_eq_succ_of_ne_zero (Nat.ne_of_gt hpos)
  have htail : (List.range n).map ((fun i => r.slots ((r.first + i) % N)) ∘ Nat.succ) =
      (r.pop N).items N := by
    have hc : (r.pop N).count = n := by
      show r.count - 1 = n
      omega
    rw [items, hc]
    refine List.map_congr_left fun i _ => ?_
    show r.slots ((r.first + (i + 1)) % N) = r.slots (((r.first + 1) % N + i) % N)
    rw [Nat.mod_add_mod]
    congr 2
    omega
  rw [items, hn, Nat.succ_eq_add_one, List.range_succ_eq_map, List.map_cons, List.map_map, htail,
    Nat.add_zero, Nat.mod_eq_of_lt h.first_lt]
  rfl

end RingBuf

/-! ## Stacks -/

/-- An array used as a stack. -/
structure Stack (α : Type) where
  slots : Nat → α
  count : Nat

namespace Stack

def push (s : Stack α) (x : α) : Stack α where
  slots := Function.update s.slots s.count x
  count := s.count + 1

def top (s : Stack α) : α := s.slots (s.count - 1)

def pop (s : Stack α) : Stack α := { s with count := s.count - 1 }

/-- The elements, the top last. -/
def items (s : Stack α) : List α := (List.range s.count).map s.slots

@[simp] theorem items_length (s : Stack α) : s.items.length = s.count := by
  rw [items, List.length_map, List.length_range]

theorem items_push (s : Stack α) (x : α) : (s.push x).items = s.items ++ [x] := by
  have hold : (List.range s.count).map (Function.update s.slots s.count x) = s.items := by
    refine List.map_congr_left fun i hi => ?_
    rw [Function.update_of_ne (Nat.ne_of_lt (List.mem_range.mp hi))]
  show (List.range (s.count + 1)).map (Function.update s.slots s.count x) = _
  rw [List.range_succ, List.map_append, hold, List.map_singleton, Function.update_self]

theorem items_pop {s : Stack α} (h : 0 < s.count) : s.items = s.pop.items ++ [s.top] := by
  obtain ⟨n, hn⟩ := Nat.exists_eq_succ_of_ne_zero (Nat.ne_of_gt h)
  have hc : s.count - 1 = n := by omega
  rw [items, hn, Nat.succ_eq_add_one, List.range_succ, List.map_append, List.map_singleton, top, hc,
    items, pop, hc]

end Stack

/-! ## Pools -/

section Pool

variable {β : Type} {N : Nat} {name : α → β} {free : Stack β} {ring : RingBuf α}
  {hands : Multiset β}

/-- All buffers: the free ones, those the elements of the ring name, and
those in hand. -/
def pool (N : Nat) (name : α → β) (free : Stack β) (ring : RingBuf α) (hands : Multiset β) :
    Multiset β :=
  (free.items : Multiset β) + ((ring.items N).map name : List β) + hands

/-- A free buffer is taken. -/
theorem pool_take (h : 0 < free.count) :
    pool N name free.pop ring (hands + {free.top}) = pool N name free ring hands := by
  rw [pool, pool, Stack.items_pop h, ← Multiset.coe_add, Multiset.coe_singleton]
  abel

/-- A buffer is given back. -/
theorem pool_give (b : β) :
    pool N name (free.push b) ring hands = pool N name free ring (hands + {b}) := by
  rw [pool, pool, Stack.items_push, ← Multiset.coe_add, Multiset.coe_singleton]
  abel

/-- A buffer in hand is queued. -/
theorem pool_enqueue (h : ring.Wf N) (hlt : ring.count < N) (x : α) :
    pool N name free (ring.push N x) hands = pool N name free ring (hands + {name x}) := by
  rw [pool, pool, RingBuf.items_push h hlt, List.map_append, ← Multiset.coe_add,
    List.map_singleton, Multiset.coe_singleton]
  abel

/-- The oldest queued buffer is taken. -/
theorem pool_dequeue (h : ring.Wf N) (hpos : 0 < ring.count) :
    pool N name free (ring.pop N) (hands + {name ring.front}) = pool N name free ring hands := by
  rw [pool, pool, RingBuf.items_pop h hpos, List.map_cons, ← Multiset.cons_coe,
    ← Multiset.singleton_add]
  abel

theorem pool_card :
    (pool N name free ring hands).card = free.count + ring.count + hands.card := by
  simp [pool]

/-- A buffer in hand is not queued. -/
theorem pool_apart (h : (pool N name free ring hands).Nodup) {b : β} (hb : b ∈ hands) :
    ∀ x ∈ ring.items N, name x ≠ b := by
  intro x hx he
  obtain ⟨-, -, hdis⟩ := Multiset.nodup_add.mp h
  have hmem : name x ∈ ((ring.items N).map name : Multiset β) :=
    Multiset.mem_coe.mpr (List.mem_map_of_mem hx)
  exact Multiset.disjoint_left.mp hdis (Multiset.mem_add.mpr (Or.inr hmem)) (he ▸ hb)

/-- Two hands never hold the same buffer. -/
theorem pool_hands (h : (pool N name free ring hands).Nodup) : hands.Nodup :=
  (Multiset.nodup_add.mp h).2.1

end Pool

/-! ## Invariants of runs -/

variable {σ : Type}

/-- What every step keeps, every run keeps. -/
theorem run_keeps {R : σ → σ → Prop} {I : σ → Prop} (hstep : ∀ s s', R s s' → I s → I s')
    {s s' : σ} (hrun : Relation.ReflTransGen R s s') (h : I s) : I s' := by
  induction hrun with
  | refl => exact h
  | tail _ hlast ih => exact hstep _ _ hlast ih

/-- If every step from a state with the invariant uses up some of a
measure, no run from there goes on for ever. -/
theorem run_ends {R : σ → σ → Prop} {I : σ → Prop} (measure : σ → Nat)
    (hstep : ∀ s s', R s s' → I s → I s' ∧ measure s' < measure s) {s : σ} (h : I s) :
    Acc (fun t' t => R t t') s := by
  induction hn : measure s using Nat.strong_induction_on generalizing s with
  | _ n ih =>
      refine Acc.intro s fun s' hs => ?_
      obtain ⟨h', hlt⟩ := hstep s s' hs h
      exact ih (measure s') (hn ▸ hlt) h' rfl

end UsbSniffer.Lib
