import Mathlib.Tactic

/-!
# Reading bytes

A reader takes what it needs off the front of a list of bytes and gives
back the rest, or fails. Numbers are little-endian.
-/

namespace UsbSniffer.Lib

/-- The next `n` bytes. -/
def readBytes (n : Nat) (bs : List UInt8) : Option (List UInt8 × List UInt8) :=
  if n ≤ bs.length then some (bs.take n, bs.drop n) else none

/-- The number some bytes stand for, the lowest first. -/
def leNat : List UInt8 → Nat
  | [] => 0
  | b :: bs => b.toNat + 256 * leNat bs

/-- The next number of `n` bytes. -/
def readNat (n : Nat) (bs : List UInt8) : Option (Nat × List UInt8) :=
  (readBytes n bs).map fun r => (leNat r.1, r.2)

/-- How far `n` bytes are from a multiple of four. -/
def padding (n : Nat) : Nat := (4 - n % 4) % 4

theorem readBytes_append {n : Nat} {xs : List UInt8} (h : xs.length = n) (rest : List UInt8) :
    readBytes n (xs ++ rest) = some (xs, rest) := by
  rw [readBytes, if_pos (by simp [h]), ← h, List.take_left, List.drop_left]

theorem readNat_append {n : Nat} {xs : List UInt8} (h : xs.length = n) (rest : List UInt8) :
    readNat n (xs ++ rest) = some (leNat xs, rest) := by
  rw [readNat, readBytes_append h]
  rfl

theorem dvd_add_padding (n : Nat) : 4 ∣ n + padding n := by
  rw [padding]
  omega

section Items

variable {α : Type}

/-- Items to the end of the input, at most `fuel` of them. -/
def readAll (read : List UInt8 → Option (α × List UInt8)) : Nat → List UInt8 → Option (List α)
  | _, [] => some []
  | 0, _ :: _ => none
  | fuel + 1, b :: bs => do
      let (x, rest) ← read (b :: bs)
      let xs ← readAll read fuel rest
      return x :: xs

/-- `x` is read from `bytes`, whatever follows. -/
structure ReadsAs (read : List UInt8 → Option (α × List UInt8)) (bytes : List UInt8) (x : α) :
    Prop where
  ne_nil : bytes ≠ []
  read_eq : ∀ rest, read (bytes ++ rest) = some (x, rest)

/-- **What is put down item by item is read back item by item.** -/
theorem readAll_flatten {read : List UInt8 → Option (α × List UInt8)}
    {items : List (List UInt8 × α)} (h : ∀ i ∈ items, ReadsAs read i.1 i.2) {fuel : Nat}
    (hfuel : items.length ≤ fuel) :
    readAll read fuel (items.map Prod.fst).flatten = some (items.map Prod.snd) := by
  induction items generalizing fuel with
  | nil => cases fuel <;> rfl
  | cons i items ih =>
      obtain ⟨bytes, x⟩ := i
      obtain ⟨hne, hread⟩ := h _ List.mem_cons_self
      cases fuel with
      | zero => simp at hfuel
      | succ fuel =>
          have hrest := ih (fun j hj => h j (List.mem_cons_of_mem _ hj))
            (Nat.le_of_succ_le_succ hfuel)
          rw [List.map_cons, List.flatten_cons, List.map_cons]
          -- an item is not empty, so the reader is called on it
          cases bytes with
          | nil => exact absurd rfl hne
          | cons b bs =>
              rw [List.cons_append, readAll, ← List.cons_append, hread]
              simp only [Option.bind_eq_bind, Option.bind_some, hrest]
              rfl

theorem length_le_flatten {items : List (List UInt8 × α)}
    (h : ∀ i ∈ items, i.1 ≠ []) : items.length ≤ (items.map Prod.fst).flatten.length := by
  induction items with
  | nil => exact Nat.le_refl 0
  | cons i items ih =>
      have hpos := List.length_pos_iff.mpr (h i List.mem_cons_self)
      have hrest := ih fun j hj => h j (List.mem_cons_of_mem _ hj)
      rw [List.map_cons, List.flatten_cons, List.length_append, List.length_cons]
      omega

end Items

end UsbSniffer.Lib
