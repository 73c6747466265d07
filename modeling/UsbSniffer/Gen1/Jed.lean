import Mathlib.Tactic

/-!
# Bitstream files of the first generation

`parse_jed_file` of `gen1/fpga.c` and the `find_str` it searches with.
The parser finds its fields by their first marker, takes every `0` and
`1` up to the next `*` as a bit and ignores everything else; two loops
with different checks store the bits, one into the configuration buffer
and one into the two words of the feature row.

A stop is either an error the program reports and exits with, or a store
outside the configuration buffer, which `parseJedFile_inside` rules out.
-/

namespace UsbSniffer.Gen1.Jed

/-- How the parser ends early. -/
inductive Stop where
  | error (msg : String)
  | outOfBounds
deriving Repr, DecidableEq

/-- The buffer behind `config`. -/
abbrev Mem := Nat → UInt8

def bytesOf (text : List Char) : List UInt8 := text.map (fun c => c.toNat.toUInt8)

/-- `BITSTREAM_SIGNATURE`. -/
def bitstreamSignature : List UInt8 :=
  bytesOf ['L', 'C', 'M', 'X', 'O', '2', '-', '2', '0', '0', '0', 'H', 'C']

/-- `start_text`. -/
def startText : List UInt8 := bytesOf ['L', '0', '0', '0', '0', '0', '0']

/-- `fr_text`. -/
def frText : List UInt8 :=
  bytesOf ['N', 'O', 'T', 'E', ' ', 'F', 'E', 'A', 'T', 'U', 'R', 'E', '_', 'R', 'O', 'W', '*']

/-- `MAX_CONFIG_SIZE`. -/
def maxConfigSize : Nat := 512 * 1024

/-- `FLASH_ROW_SIZE`. -/
def flashRowSize : Nat := 128

/-- `'*'`, `'0'` and `'1'`. -/
def star : UInt8 := 0x2A

def zero : UInt8 := 0x30

def one : UInt8 := 0x31

/-- `find_str`: the offset of the first match within `size` bytes. -/
def findStr (buf : List UInt8) (size : Nat) (str : List UInt8) : Option Nat :=
  if size = 0 ∨ str.length = 0 ∨ size < str.length then none
  else (List.range (size - str.length + 1)).find? (fun i => (buf.drop i).take str.length == str)

/-- `bitstream_valid`. -/
def bitstreamValid (data : List UInt8) (size : Nat) : Bool :=
  if size < 1024 then false else (findStr data 1024 bitstreamSignature).isSome

/-- `config[i] = v`. -/
def store (config : Mem) (i : Nat) (v : UInt8) : Except Stop Mem :=
  if i < maxConfigSize then .ok (Function.update config i v) else .error .outOfBounds

/-- `memset(config, 0, MAX_CONFIG_SIZE)`. -/
def clear (config : Mem) : Mem := fun i => if i < maxConfigSize then 0 else config i

/-- The loop over the configuration data: what is left of the file, from
the terminator on, the number of bits and the buffer. -/
def configLoop : List UInt8 → Nat → Mem → Except Stop (List UInt8 × Nat × Mem)
  | [], bitCount, config => .ok ([], bitCount, config)
  | c :: rest, bitCount, config =>
      if c = star then .ok (c :: rest, bitCount, config)
      else if c = zero ∨ c = one then
        match store config (bitCount / 8)
            (config (bitCount / 8) ||| ((c - zero) <<< UInt8.ofNat (bitCount % 8))) with
        | .error e => .error e
        | .ok config =>
            -- the check comes after the store
            if bitCount + 1 < maxConfigSize * 8 then configLoop rest (bitCount + 1) config
            else .error (.error "malformed JED file: configuration data is too big")
      else configLoop rest bitCount config

/-- The first half of `parse_jed_file`. -/
def parseConfig (data : List UInt8) (config : Mem) : Except Stop (Nat × Mem) :=
  match findStr data data.length startText with
  | none => .error (.error "malformed JED file: no 'L000000' found")
  | some ptr =>
      match configLoop (data.drop (ptr + startText.length)) 0 (clear config) with
      | .error e => .error e
      | .ok ([], _, _) => .error (.error "malformed JED file: no field terminator found")
      | .ok (_ :: _, bitCount, config) =>
          if bitCount % flashRowSize ≠ 0 then
            .error (.error
              "malformed JED file: size of the configuration data must be a multiple of 128")
          else .ok (bitCount, config)

/-- `*feature` and `*feabits`. -/
structure Row where
  feature : UInt64
  feabits : UInt16
deriving Repr, DecidableEq

/-- One bit of the feature row. -/
def putRow (row : Row) (frBitCount : Nat) (bit : UInt8) : Row :=
  if frBitCount < 64 then
    { row with feature := row.feature ||| (bit.toUInt64 <<< UInt64.ofNat frBitCount) }
  else { row with feabits := row.feabits ||| (bit.toUInt16 <<< UInt16.ofNat (frBitCount - 64)) }

/-- The loop over the feature row. -/
def featureLoop : List UInt8 → Nat → Row → Except Stop (List UInt8 × Nat × Row)
  | [], frBitCount, row => .ok ([], frBitCount, row)
  | c :: rest, frBitCount, row =>
      if c = star then .ok (c :: rest, frBitCount, row)
      else if c = zero ∨ c = one then
        -- the check comes before the store
        if frBitCount < 64 + 16 then
          featureLoop rest (frBitCount + 1) (putRow row frBitCount (c - zero))
        else .error (.error "malformed JED file: feature row data is too big")
      else featureLoop rest frBitCount row

/-- The second half of `parse_jed_file`. -/
def parseFeature (data : List UInt8) : Except Stop Row :=
  match findStr data data.length frText with
  | none => .error (.error "malformed JED file: no feature row found")
  | some ptr =>
      match featureLoop (data.drop (ptr + frText.length)) 0 ⟨0, 0⟩ with
      | .error e => .error e
      | .ok ([], _, _) => .error (.error "malformed JED file: no field terminator found")
      | .ok (_ :: _, frBitCount, row) =>
          if frBitCount ≠ 64 + 16 then
            .error (.error "malformed JED file: invalid feature row size")
          else .ok row

/-- What `parse_jed_file` returns, through its result and its pointers. -/
structure Parsed where
  bitCount : Nat
  config : Mem
  row : Row

/-- `parse_jed_file`. -/
def parseJedFile (data : List UInt8) (config : Mem) : Except Stop Parsed :=
  if bitstreamValid data data.length = false then
    .error (.error "malformed JED file: device signature not found")
  else
    match parseConfig data config with
    | .error e => .error e
    | .ok (bitCount, config) =>
        match parseFeature data with
        | .error e => .error e
        | .ok row => .ok ⟨bitCount, config, row⟩

/-! ## What a file says -/

/-- The first `marker` of the file stands in front of `text`, and a `*`
behind it. -/
def Field (data marker text : List UInt8) : Prop :=
  ∃ pre post, data = pre ++ marker ++ (text ++ star :: post) ∧ star ∉ text ∧
    ∀ j < pre.length, ¬ marker <+: data.drop j

/-- The bit a character stands for. -/
def bitOf (c : UInt8) : Option Bool :=
  if c = zero then some false else if c = one then some true else none

/-- The bits of a text. -/
def bitsOf (text : List UInt8) : List Bool := text.filterMap bitOf

/-! ## Searching -/

theorem memcmp_iff (buf str : List UInt8) (i : Nat) :
    ((buf.drop i).take str.length == str) = true ↔ str <+: buf.drop i := by
  rw [beq_iff_eq, List.prefix_iff_eq_take]
  exact eq_comm

theorem findStr_some {buf str : List UInt8} {i : Nat} (h : findStr buf buf.length str = some i) :
    str <+: buf.drop i ∧ ∀ j < i, ¬ str <+: buf.drop j := by
  rw [findStr] at h
  split at h
  · cases h
  · rw [List.find?_range_eq_some] at h
    obtain ⟨hmatch, -, hfirst⟩ := h
    refine ⟨(memcmp_iff _ _ _).mp hmatch, ?_⟩
    intro j hj hpre
    have hno := hfirst j hj
    rw [(memcmp_iff _ _ _).mpr hpre] at hno
    cases hno

theorem findStr_none {buf str : List UInt8} (hstr : str ≠ [])
    (h : findStr buf buf.length str = none) (i : Nat) : ¬ str <+: buf.drop i := by
  intro hpre
  have hlen := hpre.length_le
  have hpos := List.length_pos_iff.mpr hstr
  rw [List.length_drop] at hlen
  rw [findStr, if_neg (by omega), List.find?_eq_none] at h
  exact h i (List.mem_range.mpr (by omega)) ((memcmp_iff _ _ _).mpr hpre)

theorem findStr_isSome {buf str : List UInt8} (hstr : str ≠ []) {size : Nat}
    (hsize : str.length ≤ size) :
    (findStr buf size str).isSome = true ↔ ∃ i, i + str.length ≤ size ∧ str <+: buf.drop i := by
  have hpos := List.length_pos_iff.mpr hstr
  rw [findStr, if_neg (by omega), List.find?_isSome]
  constructor
  · rintro ⟨i, hi, hmatch⟩
    rw [List.mem_range] at hi
    exact ⟨i, by omega, (memcmp_iff _ _ _).mp hmatch⟩
  · rintro ⟨i, hi, hpre⟩
    exact ⟨i, List.mem_range.mpr (by omega), (memcmp_iff _ _ _).mpr hpre⟩

/-- **Which files are looked at**: 1024 bytes with the signature among
them. -/
theorem bitstreamValid_iff (data : List UInt8) :
    bitstreamValid data data.length = true ↔
      1024 ≤ data.length ∧ bitstreamSignature <:+: data.take 1024 := by
  have hlen : bitstreamSignature.length = 13 := rfl
  by_cases hshort : data.length < 1024
  · rw [bitstreamValid, if_pos hshort]
    constructor
    · intro h
      cases h
    · rintro ⟨h, -⟩
      omega
  · rw [bitstreamValid, if_neg hshort, findStr_isSome (by decide) (by omega)]
    constructor
    · rintro ⟨i, hi, rest, hrest⟩
      refine ⟨by omega, data.take i, rest.take (1024 - i - bitstreamSignature.length), ?_⟩
      have hsplit : data = data.take i ++ (bitstreamSignature ++ rest) := by
        rw [hrest, List.take_append_drop]
      have htake : (data.take i).length = i := by
        rw [List.length_take]
        omega
      have hfits : (data.take i ++ (bitstreamSignature ++ rest)).take 1024 =
          data.take i ++ bitstreamSignature ++ rest.take (1024 - i - bitstreamSignature.length) := by
        rw [List.take_append, htake, List.take_append, List.append_assoc,
          List.take_of_length_le (l := data.take i) (by omega),
          List.take_of_length_le (l := bitstreamSignature) (by omega)]
      rw [← hfits, ← hsplit]
    · rintro ⟨-, pre, post, heq⟩
      have htotal := congrArg List.length heq
      simp only [List.length_append, List.length_take] at htotal
      refine ⟨pre.length, by omega, ?_⟩
      have hdata : data = pre ++ (bitstreamSignature ++ (post ++ data.drop 1024)) := by
        conv_lhs => rw [← List.take_append_drop 1024 data, ← heq]
        simp only [List.append_assoc]
      rw [hdata, List.drop_left]
      exact List.prefix_append _ _

/-- The field behind the first marker is what the file goes on with. -/
theorem field_iff {data marker : List UInt8} {i : Nat}
    (h : findStr data data.length marker = some i) (text : List UInt8) :
    Field data marker text ↔
      ∃ post, data.drop (i + marker.length) = text ++ star :: post ∧ star ∉ text := by
  obtain ⟨⟨rest, hrest⟩, hfirst⟩ := findStr_some h
  constructor
  · rintro ⟨pre, post, hdata, htext, hpre⟩
    have hat : marker <+: data.drop pre.length := by
      rw [hdata, List.append_assoc, List.drop_left]
      exact List.prefix_append _ _
    have hi : pre.length = i := by
      apply Nat.le_antisymm
      · by_contra hlt
        exact hpre i (by omega) ⟨rest, hrest⟩
      · by_contra hlt
        exact hfirst pre.length (by omega) hat
    refine ⟨post, ?_, htext⟩
    rw [← hi, hdata, ← List.length_append, List.drop_left]
  · rintro ⟨post, hdrop, htext⟩
    have hle : i ≤ data.length := by
      by_contra hlt
      rw [List.drop_eq_nil_of_le (by omega)] at hrest
      have hnil := congrArg List.length hdrop
      simp at hnil
      omega
    have hrest' : data.drop (i + marker.length) = rest := by
      rw [← List.drop_drop, ← hrest, List.drop_left]
    refine ⟨data.take i, post, ?_, htext, ?_⟩
    · rw [← hdrop, hrest', List.append_assoc, hrest, List.take_append_drop]
    · intro j hj
      rw [List.length_take] at hj
      exact hfirst j (by omega)

theorem not_field {data marker : List UInt8} (hm : marker ≠ [])
    (h : findStr data data.length marker = none) (text : List UInt8) :
    ¬ Field data marker text := by
  rintro ⟨pre, post, hdata, -, -⟩
  apply findStr_none hm h pre.length
  rw [hdata, List.append_assoc, List.drop_left]
  exact List.prefix_append _ _

/-! ## Bits of words -/

section
variable {σ : Type} (put : σ → Nat → Bool → σ) (read : σ → Nat → Bool)

/-- Bits stored one after another. -/
def putAll (s : σ) (n : Nat) : List Bool → σ
  | [] => s
  | b :: bits => putAll (put s n b) (n + 1) bits

/-- **Bits are read back where they were stored**, and the others stay
as they were. -/
theorem read_putAll {limit : Nat}
    (hput : ∀ s n b i, n < limit → i < limit → read (put s n b) i = (read s i || decide (i = n) && b))
    (s : σ) (n : Nat) (bits : List Bool) (hn : n + bits.length ≤ limit) {i : Nat} (hi : i < limit) :
    read (putAll put s n bits) i = (read s i || decide (n ≤ i) && bits.getD (i - n) false) := by
  induction bits generalizing s n with
  | nil => simp [putAll]
  | cons b bits ih =>
      rw [List.length_cons] at hn
      rw [putAll, ih _ _ (by omega), hput _ _ _ _ (by omega) hi]
      by_cases heq : i = n
      · subst heq
        simp
      · by_cases hle : n + 1 ≤ i
        · have hsub : i - n = (i - (n + 1)) + 1 := by omega
          simp [heq, hle, hsub, Nat.le_of_succ_le hle]
        · have hlt : ¬ n ≤ i := by omega
          simp [heq, hle, hlt]

end

/-- The configuration buffer, bit by bit. -/
def configBit (config : Mem) (i : Nat) : Bool := (config (i / 8)).toNat.testBit (i % 8)

/-- A bit as a byte. -/
def bitByte (b : Bool) : UInt8 := if b then 1 else 0

def putConfig (config : Mem) (n : Nat) (b : Bool) : Mem :=
  Function.update config (n / 8)
    (config (n / 8) ||| (bitByte b <<< UInt8.ofNat (n % 8)))

theorem testBit_two_pow_or (v k j : Nat) :
    (v ||| 2 ^ k).testBit j = (v.testBit j || decide (j = k)) := by
  rw [Nat.testBit_or, Nat.testBit_two_pow]
  congr 1
  exact decide_eq_decide.mpr eq_comm

theorem configBit_putConfig (config : Mem) (n : Nat) (b : Bool) (i : Nat) :
    configBit (putConfig config n b) i = (configBit config i || decide (i = n) && b) := by
  rw [configBit, putConfig, configBit]
  by_cases hbyte : i / 8 = n / 8
  · rw [hbyte, Function.update_self]
    cases b with
    | false => simp [bitByte]
    | true =>
        have hshift : (bitByte true <<< UInt8.ofNat (n % 8)).toNat = 2 ^ (n % 8) := by
          have hlt : n % 8 < 8 := Nat.mod_lt n (by omega)
          interval_cases n % 8 <;> rfl
        rw [UInt8.toNat_or, hshift, testBit_two_pow_or, Bool.and_true]
        congr 1
        exact decide_eq_decide.mpr (by omega)
  · have hne : i ≠ n := fun h => hbyte (by rw [h])
    rw [Function.update_of_ne hbyte]
    simp [hne]

/-- The feature row, bit by bit. -/
def rowBit (row : Row) (i : Nat) : Bool :=
  if i < 64 then row.feature.toNat.testBit i else row.feabits.toNat.testBit (i - 64)

theorem rowBit_putRow (row : Row) (n : Nat) (b : Bool) (i : Nat) (hn : n < 80) (hi : i < 80) :
    rowBit (putRow row n (bitByte b)) i = (rowBit row i || decide (i = n) && b) := by
  cases b with
  | false =>
      rw [putRow]
      split
      · simp [bitByte, rowBit]
      · simp [bitByte, rowBit]
  | true =>
      rw [putRow, Bool.and_true]
      by_cases hlow : n < 64
      · have hshift : (row.feature ||| ((bitByte true).toUInt64 <<< UInt64.ofNat n)).toNat =
            row.feature.toNat ||| 2 ^ n := by
          have hpow : 2 ^ n < 2 ^ 64 := Nat.pow_lt_pow_right (by omega) hlow
          have hmod : (UInt64.ofNat n).toNat % 64 = n := by
            rw [UInt64.toNat_ofNat_of_lt' (by simp only [UInt64.size]; omega), Nat.mod_eq_of_lt hlow]
          rw [UInt64.toNat_or, UInt64.toNat_shiftLeft, hmod]
          show _ ||| (1 <<< n) % 2 ^ 64 = _
          rw [Nat.one_shiftLeft, Nat.mod_eq_of_lt hpow]
        rw [if_pos hlow, rowBit, rowBit]
        by_cases hilow : i < 64
        · rw [if_pos hilow, if_pos hilow, hshift, testBit_two_pow_or]
        · have hne : i ≠ n := by omega
          rw [if_neg hilow, if_neg hilow]
          simp [hne]
      · have hshift : (row.feabits ||| ((bitByte true).toUInt16 <<< UInt16.ofNat (n - 64))).toNat =
            row.feabits.toNat ||| 2 ^ (n - 64) := by
          have hpow : 2 ^ (n - 64) < 2 ^ 16 := Nat.pow_lt_pow_right (by omega) (by omega)
          have hmod : (UInt16.ofNat (n - 64)).toNat % 16 = n - 64 := by
            rw [UInt16.toNat_ofNat_of_lt' (by simp only [UInt16.size]; omega),
              Nat.mod_eq_of_lt (by omega)]
          rw [UInt16.toNat_or, UInt16.toNat_shiftLeft, hmod]
          show _ ||| (1 <<< (n - 64)) % 2 ^ 16 = _
          rw [Nat.one_shiftLeft, Nat.mod_eq_of_lt hpow]
        rw [if_neg hlow, rowBit, rowBit]
        by_cases hilow : i < 64
        · have hne : i ≠ n := by omega
          rw [if_pos hilow, if_pos hilow]
          simp [hne]
        · rw [if_neg hilow, if_neg hilow, hshift, testBit_two_pow_or]
          congr 1
          exact decide_eq_decide.mpr (by omega)

/-! ## The loops -/

/-- What a character is to the loops. -/
theorem char_cases (c : UInt8) :
    (¬ (c = zero ∨ c = one) ∧ bitOf c = none) ∨
      ((c = zero ∨ c = one) ∧ ∃ b, bitOf c = some b ∧ c - zero = bitByte b) := by
  by_cases hzero : c = zero
  · exact .inr ⟨.inl hzero, false, by rw [bitOf, if_pos hzero], by rw [hzero]; rfl⟩
  · by_cases hone : c = one
    · exact .inr ⟨.inr hone, true, by rw [bitOf, if_neg hzero, if_pos hone], by rw [hone]; rfl⟩
    · exact .inl ⟨by simp [hzero, hone], by rw [bitOf, if_neg hzero, if_neg hone]⟩

/-- The error of the first loop. -/
def configTooBig : Stop := .error "malformed JED file: configuration data is too big"

theorem configLoop_other {c : UInt8} (hstar : c ≠ star) (hbit : ¬ (c = zero ∨ c = one))
    (rest : List UInt8) (n : Nat) (config : Mem) :
    configLoop (c :: rest) n config = configLoop rest n config := by
  rw [configLoop, if_neg hstar, if_neg hbit]

theorem configLoop_bit {c : UInt8} (hstar : c ≠ star) (hbit : c = zero ∨ c = one) {b : Bool}
    (hb : c - zero = bitByte b) (rest : List UInt8) {n : Nat} (hn : n < maxConfigSize * 8)
    (config : Mem) :
    configLoop (c :: rest) n config =
      if n + 1 < maxConfigSize * 8 then configLoop rest (n + 1) (putConfig config n b)
      else .error configTooBig := by
  have hin : n / 8 < maxConfigSize := by omega
  rw [configLoop, if_neg hstar, if_pos hbit, hb, store, if_pos hin]
  rfl

/-- **The first loop** up to a point where it stops: the end of the file
or a terminator. -/
theorem configLoop_text {text rest : List UInt8} (htext : star ∉ text)
    (hrest : ∀ n config, configLoop rest n config = .ok (rest, n, config)) {n : Nat}
    (hn : n < maxConfigSize * 8) (config : Mem) :
    configLoop (text ++ rest) n config =
      if n + (bitsOf text).length < maxConfigSize * 8 then
        .ok (rest, n + (bitsOf text).length, putAll putConfig config n (bitsOf text))
      else .error configTooBig := by
  induction text generalizing n config with
  | nil =>
      have hnil : bitsOf [] = [] := rfl
      rw [List.nil_append, hrest, hnil, List.length_nil, Nat.add_zero, if_pos hn]
      rfl
  | cons c text ih =>
      rw [List.mem_cons, not_or] at htext
      have hstar : c ≠ star := fun h => htext.1 h.symm
      rw [List.cons_append]
      obtain ⟨hno, hnone⟩ | ⟨hbit, b, hsome, hb⟩ := char_cases c
      · have hbits : bitsOf (c :: text) = bitsOf text := List.filterMap_cons_none hnone
        rw [configLoop_other hstar hno, ih htext.2 hn, hbits]
      · have hbits : bitsOf (c :: text) = b :: bitsOf text := List.filterMap_cons_some hsome
        rw [configLoop_bit hstar hbit hb _ hn, hbits, List.length_cons]
        by_cases hnext : n + 1 < maxConfigSize * 8
        · rw [if_pos hnext, ih htext.2 hnext, Nat.add_right_comm, ← Nat.add_assoc]
          rfl
        · rw [if_neg hnext, if_neg (by omega)]

/-- The error of the second loop. -/
def featureTooBig : Stop := .error "malformed JED file: feature row data is too big"

/-- **The second loop.** -/
theorem featureLoop_text {text rest : List UInt8} (htext : star ∉ text)
    (hrest : ∀ n row, featureLoop rest n row = .ok (rest, n, row)) {n : Nat} (hn : n ≤ 80)
    (row : Row) :
    featureLoop (text ++ rest) n row =
      if n + (bitsOf text).length ≤ 80 then
        .ok (rest, n + (bitsOf text).length,
          putAll (fun row n b => putRow row n (bitByte b)) row n (bitsOf text))
      else .error featureTooBig := by
  induction text generalizing n row with
  | nil =>
      have hnil : bitsOf [] = [] := rfl
      rw [List.nil_append, hrest, hnil, List.length_nil, Nat.add_zero, if_pos hn]
      rfl
  | cons c text ih =>
      rw [List.mem_cons, not_or] at htext
      have hstar : c ≠ star := fun h => htext.1 h.symm
      rw [List.cons_append, featureLoop, if_neg hstar]
      obtain ⟨hno, hnone⟩ | ⟨hbit, b, hsome, hb⟩ := char_cases c
      · have hbits : bitsOf (c :: text) = bitsOf text := List.filterMap_cons_none hnone
        rw [if_neg hno, ih htext.2 hn, hbits]
      · have hbits : bitsOf (c :: text) = b :: bitsOf text := List.filterMap_cons_some hsome
        rw [if_pos hbit, hb, hbits, List.length_cons]
        by_cases hnext : n < 64 + 16
        · rw [if_pos hnext, ih htext.2 (by omega), Nat.add_right_comm, ← Nat.add_assoc]
          rfl
        · rw [if_neg hnext, if_neg (by omega)]
          rfl

/-! ## The whole file -/

theorem configLoop_star (post : List UInt8) (n : Nat) (config : Mem) :
    configLoop (star :: post) n config = .ok (star :: post, n, config) := by
  rw [configLoop, if_pos rfl]

theorem featureLoop_star (post : List UInt8) (n : Nat) (row : Row) :
    featureLoop (star :: post) n row = .ok (star :: post, n, row) := by
  rw [featureLoop, if_pos rfl]

theorem configLoop_nil (n : Nat) (config : Mem) :
    configLoop [] n config = .ok ([], n, config) := rfl

theorem featureLoop_nil (n : Nat) (row : Row) : featureLoop [] n row = .ok ([], n, row) := rfl

/-- A field behind its marker, or no terminator. -/
theorem terminator_cases (l : List UInt8) :
    (∃ text post, l = text ++ star :: post ∧ star ∉ text) ∨ star ∉ l := by
  by_cases hstar : star ∈ l
  · obtain ⟨text, post, heq, htext⟩ := List.eq_append_cons_of_mem hstar
    exact .inl ⟨text, post, heq, htext⟩
  · exact .inr hstar

theorem field_unique {data marker text text' : List UInt8} (hm : marker ≠ [])
    (h : Field data marker text) (h' : Field data marker text') : text = text' := by
  cases hfind : findStr data data.length marker with
  | none => exact absurd h (not_field hm hfind text)
  | some ptr =>
      obtain ⟨post, heq, htext⟩ := (field_iff hfind text).mp h
      obtain ⟨post', heq', htext'⟩ := (field_iff hfind text').mp h'
      have htake : ∀ {t p : List UInt8}, star ∉ t → (t ++ star :: p).takeWhile (· ≠ star) = t := by
        intro t p ht
        have hall : ∀ c ∈ t, decide (c ≠ star) = true := by
          intro c hc
          exact decide_eq_true (fun h => ht (by rw [← h]; exact hc))
        rw [List.takeWhile_append_of_pos hall, List.takeWhile_cons_of_neg (by simp),
          List.append_nil]
      rw [← htake htext (p := post), ← heq, heq', htake htext']

/-- The configuration a field stands for. -/
def configOf (config : Mem) (text : List UInt8) : Mem :=
  putAll putConfig (clear config) 0 (bitsOf text)

/-- The feature row a field stands for. -/
def rowOf (text : List UInt8) : Row :=
  putAll (fun row n b => putRow row n (bitByte b)) ⟨0, 0⟩ 0 (bitsOf text)

/-- A configuration field is of whole rows and fits. -/
def ConfigSized (text : List UInt8) : Prop :=
  flashRowSize ∣ (bitsOf text).length ∧ (bitsOf text).length < maxConfigSize * 8

theorem parseConfig_of_field {data text : List UInt8} (hfield : Field data startText text)
    (config : Mem) :
    (ConfigSized text → parseConfig data config = .ok ((bitsOf text).length, configOf config text)) ∧
      (¬ ConfigSized text → ∃ msg, parseConfig data config = .error (.error msg)) := by
  have hpos : 0 < maxConfigSize * 8 := by decide
  cases hfind : findStr data data.length startText with
  | none => exact absurd hfield (not_field (by decide) hfind text)
  | some ptr =>
      obtain ⟨post, heq, htext⟩ := (field_iff hfind text).mp hfield
      have hloop := configLoop_text htext (configLoop_star post) hpos (clear config)
      rw [Nat.zero_add] at hloop
      simp only [parseConfig, hfind, heq, hloop]
      by_cases hfits : (bitsOf text).length < maxConfigSize * 8
      · rw [if_pos hfits]
        constructor
        · rintro ⟨hrows, -⟩
          rw [Nat.dvd_iff_mod_eq_zero] at hrows
          exact if_neg (not_not.mpr hrows)
        · intro hbad
          have hrows : (bitsOf text).length % flashRowSize ≠ 0 :=
            fun h => hbad ⟨Nat.dvd_of_mod_eq_zero h, hfits⟩
          exact ⟨_, if_pos hrows⟩
      · rw [if_neg hfits]
        constructor
        · rintro ⟨-, h⟩
          exact absurd h hfits
        · intro _
          exact ⟨_, rfl⟩

theorem parseConfig_of_no_field {data : List UInt8} (hnone : ∀ text, ¬ Field data startText text)
    (config : Mem) : ∃ msg, parseConfig data config = .error (.error msg) := by
  cases hfind : findStr data data.length startText with
  | none => exact ⟨_, by rw [parseConfig, hfind]⟩
  | some ptr =>
      obtain ⟨text, post, heq, htext⟩ | hopen :=
        terminator_cases (data.drop (ptr + startText.length))
      · exact absurd ((field_iff hfind text).mpr ⟨post, heq, htext⟩) (hnone text)
      · have hloop := configLoop_text hopen configLoop_nil
          (show 0 < maxConfigSize * 8 by decide) (clear config)
        rw [List.append_nil] at hloop
        simp only [parseConfig, hfind, hloop]
        by_cases hfits : 0 + (bitsOf (data.drop (ptr + startText.length))).length < maxConfigSize * 8
        · rw [if_pos hfits]
          exact ⟨_, rfl⟩
        · rw [if_neg hfits]
          exact ⟨_, rfl⟩

/-- A feature row is sixty-four bits and sixteen. -/
def RowSized (text : List UInt8) : Prop := (bitsOf text).length = 80

theorem parseFeature_of_field {data text : List UInt8} (hfield : Field data frText text) :
    (RowSized text → parseFeature data = .ok (rowOf text)) ∧
      (¬ RowSized text → ∃ msg, parseFeature data = .error (.error msg)) := by
  cases hfind : findStr data data.length frText with
  | none => exact absurd hfield (not_field (by decide) hfind text)
  | some ptr =>
      obtain ⟨post, heq, htext⟩ := (field_iff hfind text).mp hfield
      have hloop := featureLoop_text htext (featureLoop_star post) (Nat.zero_le 80) ⟨0, 0⟩
      rw [Nat.zero_add] at hloop
      simp only [parseFeature, hfind, heq, hloop]
      by_cases hfits : (bitsOf text).length ≤ 80
      · rw [if_pos hfits]
        constructor
        · intro hrow
          exact if_neg (not_not.mpr hrow)
        · intro hbad
          exact ⟨_, if_pos hbad⟩
      · rw [if_neg hfits]
        constructor
        · intro hrow
          exact absurd (le_of_eq hrow) hfits
        · intro _
          exact ⟨_, rfl⟩

theorem parseFeature_of_no_field {data : List UInt8} (hnone : ∀ text, ¬ Field data frText text) :
    ∃ msg, parseFeature data = .error (.error msg) := by
  cases hfind : findStr data data.length frText with
  | none => exact ⟨_, by rw [parseFeature, hfind]⟩
  | some ptr =>
      obtain ⟨text, post, heq, htext⟩ | hopen :=
        terminator_cases (data.drop (ptr + frText.length))
      · exact absurd ((field_iff hfind text).mpr ⟨post, heq, htext⟩) (hnone text)
      · have hloop := featureLoop_text hopen featureLoop_nil (Nat.zero_le 80) ⟨0, 0⟩
        rw [List.append_nil] at hloop
        simp only [parseFeature, hfind, hloop]
        by_cases hfits : 0 + (bitsOf (data.drop (ptr + frText.length))).length ≤ 80
        · rw [if_pos hfits]
          exact ⟨_, rfl⟩
        · rw [if_neg hfits]
          exact ⟨_, rfl⟩

/-- What a file with both fields is parsed to: the bits where they
belong, and nothing outside the configuration buffer. -/
structure Renders (config : Mem) (text row : List UInt8) (p : Parsed) : Prop where
  bitCount : p.bitCount = (bitsOf text).length
  config_bits : ∀ i < maxConfigSize * 8, configBit p.config i = (bitsOf text).getD i false
  feature_bits : ∀ k < 64, p.row.feature.toNat.testBit k = (bitsOf row).getD k false
  feabits_bits : ∀ k < 16, p.row.feabits.toNat.testBit k = (bitsOf row).getD (64 + k) false
  outside : ∀ i, maxConfigSize ≤ i → p.config i = config i

theorem putConfig_outside (config : Mem) {n : Nat} (hn : n < maxConfigSize * 8) (b : Bool) {i : Nat}
    (hi : maxConfigSize ≤ i) : putConfig config n b i = config i := by
  rw [putConfig, Function.update_of_ne (by omega)]

theorem putAll_outside (config : Mem) (n : Nat) (bits : List Bool)
    (hn : n + bits.length ≤ maxConfigSize * 8) {i : Nat} (hi : maxConfigSize ≤ i) :
    putAll putConfig config n bits i = config i := by
  induction bits generalizing config n with
  | nil => rfl
  | cons b bits ih =>
      rw [List.length_cons] at hn
      rw [putAll, ih _ _ (by omega), putConfig_outside _ (by omega) _ hi]

theorem renders {text row : List UInt8} (htext : ConfigSized text) (hrow : RowSized row)
    (config : Mem) :
    Renders config text row ⟨(bitsOf text).length, configOf config text, rowOf row⟩ := by
  have hfits := htext.2
  have hbits : (bitsOf row).length = 80 := hrow
  have hread : ∀ k < 80, rowBit (rowOf row) k = (bitsOf row).getD k false := by
    intro k hk
    have hput := read_putAll (fun row n b => putRow row n (bitByte b)) rowBit
      (fun s n b i hn hi => rowBit_putRow s n b i hn hi) ⟨0, 0⟩ 0 (bitsOf row) (by omega) hk
    have hzero : rowBit ⟨0, 0⟩ k = false := by
      rw [rowBit]
      split
      · exact Nat.zero_testBit k
      · exact Nat.zero_testBit (k - 64)
    rw [rowOf, hput, hzero]
    simp
  refine ⟨rfl, ?_, ?_, ?_, ?_⟩
  · intro i hi
    have hput := read_putAll putConfig configBit
      (fun s n b i _ _ => configBit_putConfig s n b i) (clear config) 0 (bitsOf text) (by omega) hi
    have hzero : configBit (clear config) i = false := by
      have hin : i / 8 < maxConfigSize := by omega
      rw [configBit, clear, if_pos hin]
      exact Nat.zero_testBit _
    show configBit (configOf config text) i = _
    rw [configOf, hput, hzero]
    simp
  · intro k hk
    have hk' := hread k (by omega)
    rw [rowBit, if_pos hk] at hk'
    exact hk'
  · intro k hk
    have hk' := hread (64 + k) (by omega)
    rw [rowBit, if_neg (by omega), Nat.add_sub_cancel_left] at hk'
    exact hk'
  · intro i hi
    show configOf config text i = config i
    rw [configOf, putAll_outside _ _ _ (by omega) hi, clear, if_neg (by omega)]

/-- With both fields of the right size the file is parsed. -/
theorem parseJedFile_of_fields {data text row : List UInt8}
    (hvalid : bitstreamValid data data.length = true) (htext : Field data startText text)
    (hrow : Field data frText row) (hsized : ConfigSized text) (hrsized : RowSized row)
    (config : Mem) :
    parseJedFile data config = .ok ⟨(bitsOf text).length, configOf config text, rowOf row⟩ := by
  rw [parseJedFile, if_neg (by rw [hvalid]; decide), (parseConfig_of_field htext config).1 hsized,
    (parseFeature_of_field hrow).1 hrsized]

/-- Without, an error is reported. -/
theorem parseJedFile_of_no_fields {data : List UInt8}
    (hbad : ¬ ∃ text row, Field data startText text ∧ Field data frText row ∧ ConfigSized text ∧
      RowSized row) (config : Mem) : ∃ msg, parseJedFile data config = .error (.error msg) := by
  rw [parseJedFile]
  split
  · exact ⟨_, rfl⟩
  by_cases htext : ∃ text, Field data startText text ∧ ConfigSized text
  · obtain ⟨text, htext, hsized⟩ := htext
    rw [(parseConfig_of_field htext config).1 hsized]
    by_cases hrow : ∃ row, Field data frText row
    · obtain ⟨row, hrow⟩ := hrow
      obtain ⟨msg, herr⟩ := (parseFeature_of_field hrow).2
        (fun hr => hbad ⟨text, row, htext, hrow, hsized, hr⟩)
      exact ⟨msg, by rw [herr]⟩
    · obtain ⟨msg, herr⟩ := parseFeature_of_no_field (fun row h => hrow ⟨row, h⟩)
      exact ⟨msg, by rw [herr]⟩
  · by_cases hany : ∃ text, Field data startText text
    · obtain ⟨text, hfield⟩ := hany
      obtain ⟨msg, herr⟩ := (parseConfig_of_field hfield config).2
        (fun hs => htext ⟨text, hfield, hs⟩)
      exact ⟨msg, by rw [herr]⟩
    · obtain ⟨msg, herr⟩ := parseConfig_of_no_field (fun text h => hany ⟨text, h⟩) config
      exact ⟨msg, by rw [herr]⟩

/-- No file makes the parser store outside the buffer. -/
theorem parseJedFile_inside (data : List UInt8) (config : Mem) :
    parseJedFile data config ≠ .error .outOfBounds := by
  intro hout
  by_cases hgood : ∃ text row, Field data startText text ∧ Field data frText row ∧
      ConfigSized text ∧ RowSized row
  · obtain ⟨text, row, htext, hrow, hsized, hrsized⟩ := hgood
    cases hvalid : bitstreamValid data data.length with
    | false =>
        rw [parseJedFile, if_pos hvalid] at hout
        cases hout
    | true =>
        rw [parseJedFile_of_fields hvalid htext hrow hsized hrsized] at hout
        cases hout
  · obtain ⟨msg, herr⟩ := parseJedFile_of_no_fields hgood config
    rw [herr] at hout
    cases hout

/-- **JED files are parsed to what they say.** A file with the signature
is accepted exactly when both fields are there with their terminators
and of the right size; then every bit is where it belongs, and in no
case does the parser leave the buffer. -/
theorem parseJedFile_spec (data : List UInt8) (hlen : 1024 ≤ data.length)
    (hsig : bitstreamSignature <:+: data.take 1024) (config : Mem) :
    ((∃ p, parseJedFile data config = .ok p) ↔
      ∃ text row, Field data startText text ∧ Field data frText row ∧ ConfigSized text ∧
        RowSized row) ∧
    (∀ p text row, parseJedFile data config = .ok p → Field data startText text →
      Field data frText row → Renders config text row p) ∧
    parseJedFile data config ≠ .error .outOfBounds := by
  have hvalid := (bitstreamValid_iff data).mpr ⟨hlen, hsig⟩
  refine ⟨⟨?_, ?_⟩, ?_, parseJedFile_inside data config⟩
  · rintro ⟨p, hok⟩
    by_contra hbad
    obtain ⟨msg, herr⟩ := parseJedFile_of_no_fields hbad config
    rw [herr] at hok
    cases hok
  · rintro ⟨text, row, htext, hrow, hsized, hrsized⟩
    exact ⟨_, parseJedFile_of_fields hvalid htext hrow hsized hrsized config⟩
  · intro p text row hok htext hrow
    by_cases hgood : ∃ text row, Field data startText text ∧ Field data frText row ∧
        ConfigSized text ∧ RowSized row
    · obtain ⟨text', row', htext', hrow', hsized, hrsized⟩ := hgood
      have hall := parseJedFile_of_fields hvalid htext' hrow' hsized hrsized config
      rw [hok] at hall
      cases hall
      rw [field_unique (by decide) htext htext', field_unique (by decide) hrow hrow']
      exact renders hsized hrsized config
    · obtain ⟨msg, herr⟩ := parseJedFile_of_no_fields hgood config
      rw [herr] at hok
      cases hok

/-- One row of configuration data. -/
def oneRowText : List UInt8 := (List.replicate 64 [one, zero]).flatten

/-- A feature row. -/
def featureText : List UInt8 := (List.replicate 40 [zero, one]).flatten

/-- A file with one row of configuration data. -/
def oneRowFile : List UInt8 :=
  startText ++ (oneRowText ++ star :: (frText ++ (featureText ++ star :: (bitstreamSignature ++
    List.replicate 777 0x20))))

theorem parseJedFile_spec_oneRowFile : ∃ p, parseJedFile oneRowFile (fun _ => 0xFF) = .ok p := by
  have hlen : oneRowFile.length = 1024 := by decide +kernel
  have hsig : bitstreamSignature <:+: oneRowFile.take 1024 := by
    rw [List.take_of_length_le (le_of_eq hlen)]
    refine ⟨startText ++ (oneRowText ++ star :: (frText ++ (featureText ++ [star]))),
      List.replicate 777 0x20, ?_⟩
    simp only [oneRowFile, List.append_assoc, List.cons_append, List.nil_append]
  have htext : Field oneRowFile startText oneRowText :=
    ⟨[], frText ++ (featureText ++ star :: (bitstreamSignature ++ List.replicate 777 0x20)), rfl,
      by decide +kernel, fun j hj => absurd hj (Nat.not_lt_zero j)⟩
  have hrow : Field oneRowFile frText featureText := by
    refine ⟨startText ++ (oneRowText ++ [star]), bitstreamSignature ++ List.replicate 777 0x20, ?_,
      by decide +kernel, by decide +kernel⟩
    simp only [oneRowFile, List.append_assoc, List.cons_append, List.nil_append]
  have hsized : ConfigSized oneRowText := ⟨by decide +kernel, by decide +kernel⟩
  have hrsized : RowSized featureText := by
    rw [RowSized]
    decide +kernel
  exact (parseJedFile_spec oneRowFile (le_of_eq hlen.symm) hsig _).1.mpr
    ⟨_, _, htext, hrow, hsized, hrsized⟩

end UsbSniffer.Gen1.Jed
