import Mdb.Lib.Wire
import Mdb.Server

/-!
# Numbers and strings in leveldb's files

`util/coding.cc`: numbers of fixed width, lowest byte first; numbers of seven bits a byte; strings
after their length. The `uint32_t` version of the encoder is written out case by case, the `uint64_t`
version is a loop; both decoders are loops that drop the bits that do not fit.

* `encodeFixed32`, `decodeFixed32`, `encodeFixed64`, `decodeFixed64`;
* `encodeVarint32`, `encodeVarint64`, `varintLength`, `getVarint32`, `getVarint64`;
* `putLengthPrefixedSlice`, `getLengthPrefixedSlice`;
* `encodeVarint32_eq`, `encodeVarint64_eq`, `getVarint_eq`: both encoders write `Wire.varint`, both
  decoders read it;
* **`coding_roundTrips`**: what any of them wrote is read back by its decoder, with any bytes after
  it, and no part of it is taken for the whole.
-/

namespace Mdb.Ldb

open Wire

/-- A `leveldb::Slice`, or the contents of a `std::string`. -/
abbrev Slice := List UInt8

/-- The number as an `unsigned char`. -/
def lowByte {w : ℕ} (v : BitVec w) : UInt8 := UInt8.ofNat v.toNat

/-- The byte as a number of `w` bits. -/
def widen (w : ℕ) (b : UInt8) : BitVec w := BitVec.ofNat w b.toNat

/-! ## Fixed width -/

/-- `EncodeFixed32`. -/
def encodeFixed32 (v : BitVec 32) : Slice :=
  [lowByte (v &&& 0xff#32), lowByte ((v >>> 8) &&& 0xff#32), lowByte ((v >>> 16) &&& 0xff#32),
    lowByte ((v >>> 24) &&& 0xff#32)]

/-- `EncodeFixed64`. -/
def encodeFixed64 (v : BitVec 64) : Slice :=
  [lowByte (v &&& 0xff#64), lowByte ((v >>> 8) &&& 0xff#64), lowByte ((v >>> 16) &&& 0xff#64),
    lowByte ((v >>> 24) &&& 0xff#64), lowByte ((v >>> 32) &&& 0xff#64), lowByte ((v >>> 40) &&& 0xff#64),
    lowByte ((v >>> 48) &&& 0xff#64), lowByte ((v >>> 56) &&& 0xff#64)]

/-- `DecodeFixed32`: there is no check that there are four bytes, the caller makes it. -/
def decodeFixed32 (p : Slice) : BitVec 32 :=
  widen 32 (p.getD 0 0) ||| widen 32 (p.getD 1 0) <<< 8 ||| widen 32 (p.getD 2 0) <<< 16 |||
    widen 32 (p.getD 3 0) <<< 24

/-- `DecodeFixed64`. -/
def decodeFixed64 (p : Slice) : BitVec 64 :=
  let lo := (decodeFixed32 p).setWidth 64
  let hi := (decodeFixed32 (p.drop 4)).setWidth 64
  hi <<< 32 ||| lo

/-! ## Seven bits a byte -/

/-- `EncodeVarint32`, `PutVarint32`. -/
def encodeVarint32 (v : BitVec 32) : Slice :=
  if v < 1#32 <<< 7 then [lowByte v]
  else if v < 1#32 <<< 14 then [lowByte (v ||| 128#32), lowByte (v >>> 7)]
  else if v < 1#32 <<< 21 then [lowByte (v ||| 128#32), lowByte (v >>> 7 ||| 128#32), lowByte (v >>> 14)]
  else if v < 1#32 <<< 28 then
    [lowByte (v ||| 128#32), lowByte (v >>> 7 ||| 128#32), lowByte (v >>> 14 ||| 128#32), lowByte (v >>> 21)]
  else
    [lowByte (v ||| 128#32), lowByte (v >>> 7 ||| 128#32), lowByte (v >>> 14 ||| 128#32),
      lowByte (v >>> 21 ||| 128#32), lowByte (v >>> 28)]

theorem toNat_shiftRight_seven {w : ℕ} (v : BitVec w) : (v >>> 7).toNat = v.toNat / 128 := by
  rw [BitVec.toNat_ushiftRight, Nat.shiftRight_eq_div_pow]

/-- `EncodeVarint64`, `PutVarint64`. -/
def encodeVarint64 (v : BitVec 64) : Slice :=
  if 128 ≤ v.toNat then lowByte ((v &&& 127#64) ||| 128#64) :: encodeVarint64 (v >>> 7) else [lowByte v]
termination_by v.toNat
decreasing_by
  rw [toNat_shiftRight_seven]
  omega

/-- `VarintLength`. -/
def varintLength (v : BitVec 64) : ℕ :=
  if 128 ≤ v.toNat then varintLength (v >>> 7) + 1 else 1
termination_by v.toNat
decreasing_by
  rw [toNat_shiftRight_seven]
  omega

/-- The loop of the decoders: `last` is the largest shift. -/
def getVarintLoop {w : ℕ} (last shift : ℕ) (result : BitVec w) :
    Slice → Option (BitVec w × Slice)
  | [] => none
  | byte :: p =>
    if shift ≤ last then
      if byte &&& 128 ≠ 0 then
        getVarintLoop last (shift + 7) (result ||| widen w (byte &&& 127) <<< shift) p
      else some (result ||| widen w byte <<< shift, p)
    else none

/-- `GetVarint32PtrFallback`. -/
def getVarint32PtrFallback (p : Slice) : Option (BitVec 32 × Slice) := getVarintLoop 28 0 0 p

/-- `GetVarint32Ptr`, `GetVarint32`: one byte is read without the loop. -/
def getVarint32 (p : Slice) : Option (BitVec 32 × Slice) :=
  match p with
  | byte :: rest => if byte &&& 128 = 0 then some (widen 32 byte, rest) else getVarint32PtrFallback p
  | [] => getVarint32PtrFallback p

/-- `GetVarint64Ptr`, `GetVarint64`. -/
def getVarint64 (p : Slice) : Option (BitVec 64 × Slice) := getVarintLoop 63 0 0 p

/-! ## Strings -/

/-- `PutLengthPrefixedSlice`; the length is cut to a `uint32_t`. -/
def putLengthPrefixedSlice (value : Slice) : Slice :=
  encodeVarint32 (BitVec.ofNat 32 value.length) ++ value

/-- `GetLengthPrefixedSlice(input, result)`. -/
def getLengthPrefixedSlice (input : Slice) : Option (Slice × Slice) :=
  match getVarint32 input with
  | none => none
  | some (len, input) =>
    if len.toNat ≤ input.length then some (input.take len.toNat, input.drop len.toNat) else none

/-! ## The encoders write `Wire.varint` -/

theorem or_128_mod (n : ℕ) : (n ||| 128) % 256 = n % 128 + 128 := by
  have hbyte : ∀ m : Fin 256, m.val ||| 128 = m.val % 128 + 128 := by decide +kernel
  calc (n ||| 128) % 2 ^ 8 = n % 2 ^ 8 ||| 128 % 2 ^ 8 := Nat.or_mod_two_pow
    _ = n % 2 ^ 8 % 128 + 128 := hbyte ⟨n % 2 ^ 8, Nat.mod_lt _ (by decide)⟩
    _ = n % 128 + 128 := by omega

theorem ofNat_congr {m n : ℕ} (h : m % 256 = n % 256) : UInt8.ofNat m = UInt8.ofNat n := by
  apply UInt8.toNat_inj.mp
  rw [UInt8.toNat_ofNat', UInt8.toNat_ofNat']
  exact h

theorem lowByte_or_128 {w : ℕ} (hw : 8 ≤ w) (v : BitVec w) :
    lowByte (v ||| 128#w) = UInt8.ofNat (v.toNat % 128 + 128) := by
  have h128 : 128 % 2 ^ w = 128 :=
    Nat.mod_eq_of_lt (lt_of_lt_of_le (by decide) (Nat.pow_le_pow_right (by decide) hw))
  apply ofNat_congr
  rw [BitVec.toNat_or, BitVec.toNat_ofNat, h128, or_128_mod]
  omega

theorem lowByte_shift {w : ℕ} (v : BitVec w) (k : ℕ) :
    lowByte (v >>> k) = UInt8.ofNat (v.toNat / 2 ^ k) := by
  rw [lowByte, BitVec.toNat_ushiftRight, Nat.shiftRight_eq_div_pow]

/-- The cases of the 32-bit encoder write what the loop of the 64-bit encoder writes. -/
theorem encodeVarint32_eq (v : BitVec 32) : encodeVarint32 v = varint v.toNat := by
  have hv := v.isLt
  have h7 : v < 1#32 <<< 7 ↔ v.toNat < 2 ^ 7 := Iff.rfl
  have h14 : v < 1#32 <<< 14 ↔ v.toNat < 2 ^ 14 := Iff.rfl
  have h21 : v < 1#32 <<< 21 ↔ v.toNat < 2 ^ 21 := Iff.rfl
  have h28 : v < 1#32 <<< 28 ↔ v.toNat < 2 ^ 28 := Iff.rfl
  have hlow : lowByte v = UInt8.ofNat v.toNat := rfl
  simp only [encodeVarint32, h7, h14, h21, h28, hlow, lowByte_or_128 (show 8 ≤ 32 by decide),
    lowByte_shift, BitVec.toNat_ushiftRight, Nat.shiftRight_eq_div_pow]
  generalize v.toNat = n at hv
  have e14 : n / 2 ^ 14 = n / 128 / 128 := by omega
  have e21 : n / 2 ^ 21 = n / 128 / 128 / 128 := by omega
  have e28 : n / 2 ^ 28 = n / 128 / 128 / 128 / 128 := by omega
  rw [e14, e21, e28, show 2 ^ 7 = 128 from rfl]
  split_ifs with h₁ h₂ h₃ h₄
  · rw [varint_of_lt h₁]
  · rw [varint_of_ge (by omega), varint_of_lt (by omega)]
  · rw [varint_of_ge (by omega), varint_of_ge (by omega), varint_of_lt (by omega)]
  · rw [varint_of_ge (by omega), varint_of_ge (by omega), varint_of_ge (by omega),
      varint_of_lt (by omega)]
  · rw [varint_of_ge (by omega), varint_of_ge (by omega), varint_of_ge (by omega),
      varint_of_ge (by omega), varint_of_lt (by omega)]

theorem encodeVarint64_eq (v : BitVec 64) : encodeVarint64 v = varint v.toNat := by
  fun_induction encodeVarint64 v with
  | case1 v hge ih =>
    have hlow : (v &&& 127#64).toNat = v.toNat % 128 := by
      rw [BitVec.toNat_and]
      exact Nat.and_two_pow_sub_one_eq_mod v.toNat 7
    rw [ih, varint_of_ge hge, lowByte_or_128 (by decide), hlow, toNat_shiftRight_seven, Nat.mod_mod]
  | case2 v hlt => rw [varint_of_lt (by omega), lowByte]

theorem varintLength_eq (v : BitVec 64) : varintLength v = (encodeVarint64 v).length := by
  fun_induction varintLength v with
  | case1 v hge ih => rw [ih, encodeVarint64.eq_def v, if_pos hge, List.length_cons]
  | case2 v hlt => rw [encodeVarint64, if_neg hlt, List.length_singleton]

/-! ## The decoders read it -/

theorem and_128_eq_zero_iff (b : UInt8) : b &&& 128 = 0 ↔ b.toNat < 128 := by
  have hbyte : ∀ m : Fin 256, m.val &&& 128 = 0 ↔ m.val < 128 := by decide +kernel
  rw [← hbyte ⟨b.toNat, b.toNat_lt⟩, ← UInt8.toNat_inj, UInt8.toNat_and]
  rfl

theorem toNat_and_127 (b : UInt8) : (b &&& 127).toNat = b.toNat % 128 := by
  rw [UInt8.toNat_and]
  exact Nat.and_two_pow_sub_one_eq_mod b.toNat 7

/-- Bits above those of `r` are added. -/
theorem toNat_or_shift {w shift : ℕ} {r : BitVec w} (hr : r.toNat < 2 ^ shift) (hs : shift ≤ w)
    (b : UInt8) : (r ||| widen w b <<< shift).toNat = (r.toNat + 2 ^ shift * b.toNat) % 2 ^ w := by
  have hmul : 2 ^ w = 2 ^ shift * 2 ^ (w - shift) := by rw [← pow_add, Nat.add_sub_cancel' hs]
  have hmod : 2 ^ shift * b.toNat % 2 ^ w = 2 ^ shift * (b.toNat % 2 ^ (w - shift)) := by
    rw [hmul, Nat.mul_mod_mul_left]
  have hhigh : (widen w b <<< shift).toNat = 2 ^ shift * b.toNat % 2 ^ w := by
    rw [BitVec.toNat_shiftLeft, widen, BitVec.toNat_ofNat, Nat.shiftLeft_eq, Nat.mul_mod, Nat.mod_mod,
      ← Nat.mul_mod, Nat.mul_comm]
  have hlt : 2 ^ shift * (b.toNat % 2 ^ (w - shift)) + r.toNat < 2 ^ w := by
    have hb : b.toNat % 2 ^ (w - shift) + 1 ≤ 2 ^ (w - shift) := Nat.mod_lt _ (Nat.two_pow_pos _)
    calc 2 ^ shift * (b.toNat % 2 ^ (w - shift)) + r.toNat
        < 2 ^ shift * (b.toNat % 2 ^ (w - shift) + 1) := by rw [Nat.mul_add_one]; omega
      _ ≤ 2 ^ w := hmul ▸ Nat.mul_le_mul_left _ hb
  rw [BitVec.toNat_or, hhigh, hmod, Nat.or_comm, ← Nat.two_pow_add_eq_or_of_lt hr,
    Nat.add_comm r.toNat, ← Nat.mod_add_mod, hmod, Nat.mod_eq_of_lt hlt]

/-- **The loop reads `Wire.readVarint`**, with `k` rounds to go, and keeps the low `w` bits. -/
theorem getVarintLoop_eq {w last : ℕ} (hlast : last < w) : ∀ (l : Slice) {k shift : ℕ}
    (result : BitVec w), shift + 7 * k = last + 7 → result.toNat < 2 ^ shift →
    getVarintLoop last shift result l =
      (readVarint k l).map fun r => (BitVec.ofNat w (result.toNat + 2 ^ shift * r.1), r.2) := by
  intro l
  induction l with
  | nil =>
    intro k shift result _ _
    cases k <;> rfl
  | cons b l ih =>
    intro k shift result hk hr
    cases k with
    | zero => rw [getVarintLoop, if_neg (by omega), readVarint, Option.map_none]
    | succ k =>
      have hval := toNat_or_shift hr (show shift ≤ w by omega)
      rw [getVarintLoop, if_pos (by omega), readVarint]
      by_cases hb : b.toNat < 128
      · have hb' := (and_128_eq_zero_iff b).mpr hb
        rw [if_neg (not_not.mpr hb'), if_pos hb, Option.map_some]
        congr 2
        apply BitVec.eq_of_toNat_eq
        rw [hval, BitVec.toNat_ofNat]
      · have hb' : b &&& 128 ≠ 0 := fun h => hb ((and_128_eq_zero_iff b).mp h)
        have hlow : (b &&& 127).toNat = b.toNat - 128 := by
          have := b.toNat_lt
          rw [toNat_and_127]
          omega
        have hlt : (result ||| widen w (b &&& 127) <<< shift).toNat < 2 ^ (shift + 7) := by
          rw [hval, hlow]
          refine lt_of_le_of_lt (Nat.mod_le _ _) ?_
          have := b.toNat_lt
          have hmul : 2 ^ shift * (b.toNat - 128) ≤ 2 ^ shift * 127 :=
            Nat.mul_le_mul_left _ (by omega)
          rw [pow_add]
          omega
        rw [if_pos hb', if_neg hb, ih _ (show shift + 7 + 7 * k = last + 7 by omega) hlt,
          Option.map_map]
        congr 1
        funext r
        simp only [Function.comp_apply, Prod.mk.injEq, and_true]
        apply BitVec.eq_of_toNat_eq
        rw [BitVec.toNat_ofNat, BitVec.toNat_ofNat, hval, hlow, Nat.mod_add_mod, pow_add,
          show 2 ^ 7 = 128 from rfl, Nat.mul_add, ← Nat.add_assoc, ← Nat.mul_assoc]

theorem getVarint32_eq (l : Slice) :
    getVarint32 l = (readVarint 5 l).map fun r => (BitVec.ofNat 32 r.1, r.2) := by
  have hloop : getVarint32PtrFallback l =
      (readVarint 5 l).map fun r => (BitVec.ofNat 32 r.1, r.2) := by
    rw [getVarint32PtrFallback, getVarintLoop_eq (by decide) l (k := 5) 0 rfl (by decide)]
    simp
  cases l with
  | nil => exact hloop
  | cons b l =>
    rw [getVarint32]
    split_ifs with hb
    · rw [readVarint, if_pos ((and_128_eq_zero_iff b).mp hb), Option.map_some, widen]
    · exact hloop

theorem getVarint64_eq (l : Slice) :
    getVarint64 l = (readVarint 10 l).map fun r => (BitVec.ofNat 64 r.1, r.2) := by
  rw [getVarint64, getVarintLoop_eq (by decide) l (k := 10) 0 rfl (by decide)]
  simp

theorem putLengthPrefixedSlice_eq {value : Slice} (h : value.length < 2 ^ 32) :
    putLengthPrefixedSlice value = block value := by
  rw [putLengthPrefixedSlice, encodeVarint32_eq, BitVec.toNat_ofNat, Nat.mod_eq_of_lt h, block]

/-! ## Fixed width is `Wire.le` -/

theorem lowByte_and_ff {w : ℕ} (hw : 8 ≤ w) (v : BitVec w) :
    lowByte (v &&& 0xff#w) = UInt8.ofNat v.toNat := by
  have hff : 255 % 2 ^ w = 255 :=
    Nat.mod_eq_of_lt (lt_of_lt_of_le (by decide) (Nat.pow_le_pow_right (by decide) hw))
  apply ofNat_congr
  rw [BitVec.toNat_and, BitVec.toNat_ofNat, hff,
    show v.toNat &&& 255 = v.toNat % 256 from Nat.and_two_pow_sub_one_eq_mod v.toNat 8, Nat.mod_mod]

theorem encodeFixed32_eq (v : BitVec 32) : encodeFixed32 v = le 4 v.toNat := by
  simp only [encodeFixed32, lowByte_and_ff (show 8 ≤ 32 by decide), BitVec.toNat_ushiftRight,
    Nat.shiftRight_eq_div_pow, le, Nat.div_div_eq_div_mul]

theorem encodeFixed64_eq (v : BitVec 64) : encodeFixed64 v = le 8 v.toNat := by
  simp only [encodeFixed64, lowByte_and_ff (show 8 ≤ 64 by decide), BitVec.toNat_ushiftRight,
    Nat.shiftRight_eq_div_pow, le, Nat.div_div_eq_div_mul]

theorem toNat_decodeFixed32 (b₀ b₁ b₂ b₃ : UInt8) (rest : Slice) :
    (decodeFixed32 (b₀ :: b₁ :: b₂ :: b₃ :: rest)).toNat = ofLe [b₀, b₁, b₂, b₃] := by
  have h₀ := b₀.toNat_lt
  have h₁ := b₁.toNat_lt
  have h₂ := b₂.toNat_lt
  have h₃ := b₃.toNat_lt
  have e₀ : (widen 32 b₀).toNat = b₀.toNat := by
    rw [widen, BitVec.toNat_ofNat]
    omega
  have e₁ : (widen 32 b₀ ||| widen 32 b₁ <<< 8).toNat = b₀.toNat + 2 ^ 8 * b₁.toNat := by
    rw [toNat_or_shift (by omega) (by decide), e₀]
    omega
  have e₂ : (widen 32 b₀ ||| widen 32 b₁ <<< 8 ||| widen 32 b₂ <<< 16).toNat =
      b₀.toNat + 2 ^ 8 * b₁.toNat + 2 ^ 16 * b₂.toNat := by
    rw [toNat_or_shift (by omega) (by decide), e₁]
    omega
  change (widen 32 b₀ ||| widen 32 b₁ <<< 8 ||| widen 32 b₂ <<< 16 ||| widen 32 b₃ <<< 24).toNat = _
  rw [toNat_or_shift (by omega) (by decide), e₂]
  simp only [ofLe]
  omega

theorem toNat_decodeFixed64 (b₀ b₁ b₂ b₃ b₄ b₅ b₆ b₇ : UInt8) (rest : Slice) :
    (decodeFixed64 (b₀ :: b₁ :: b₂ :: b₃ :: b₄ :: b₅ :: b₆ :: b₇ :: rest)).toNat =
      ofLe [b₀, b₁, b₂, b₃, b₄, b₅, b₆, b₇] := by
  have hlo := toNat_decodeFixed32 b₀ b₁ b₂ b₃ (b₄ :: b₅ :: b₆ :: b₇ :: rest)
  have hhi := toNat_decodeFixed32 b₄ b₅ b₆ b₇ rest
  have hlt : ofLe [b₀, b₁, b₂, b₃] < 256 ^ 4 := ofLe_lt _
  have hlt' : ofLe [b₄, b₅, b₆, b₇] < 256 ^ 4 := ofLe_lt _
  have hshift : 2 ^ 32 * ofLe [b₄, b₅, b₆, b₇] % 2 ^ 64 = 2 ^ 32 * ofLe [b₄, b₅, b₆, b₇] :=
    Nat.mod_eq_of_lt (by omega)
  simp only [decodeFixed64, List.drop_succ_cons, List.drop_zero, BitVec.toNat_or,
    BitVec.toNat_shiftLeft, BitVec.toNat_setWidth, hlo, hhi]
  rw [Nat.mod_eq_of_lt (show ofLe [b₀, b₁, b₂, b₃] < 2 ^ 64 by omega),
    Nat.mod_eq_of_lt (show ofLe [b₄, b₅, b₆, b₇] < 2 ^ 64 by omega), Nat.shiftLeft_eq, Nat.mul_comm,
    hshift, ← Nat.two_pow_add_eq_or_of_lt (show ofLe [b₀, b₁, b₂, b₃] < 2 ^ 32 by omega)]
  simp only [ofLe]
  omega

theorem decodeFixed32_append (v : BitVec 32) (rest : Slice) :
    decodeFixed32 (encodeFixed32 v ++ rest) = v := by
  apply BitVec.eq_of_toNat_eq
  have hv := v.isLt
  rw [encodeFixed32]
  simp only [List.cons_append, List.nil_append]
  rw [toNat_decodeFixed32]
  change ofLe (encodeFixed32 v) = v.toNat
  rw [encodeFixed32_eq, ofLe_le]
  exact Nat.mod_eq_of_lt hv

theorem decodeFixed64_append (v : BitVec 64) (rest : Slice) :
    decodeFixed64 (encodeFixed64 v ++ rest) = v := by
  apply BitVec.eq_of_toNat_eq
  have hv := v.isLt
  rw [encodeFixed64]
  simp only [List.cons_append, List.nil_append]
  rw [toNat_decodeFixed64]
  change ofLe (encodeFixed64 v) = v.toNat
  rw [encodeFixed64_eq, ofLe_le]
  exact Nat.mod_eq_of_lt hv

/-! ## Round trips -/

theorem getVarint32_append (v : BitVec 32) (rest : Slice) :
    getVarint32 (encodeVarint32 v ++ rest) = some (v, rest) := by
  rw [getVarint32_eq, encodeVarint32_eq, readVarint_varint (by have := v.isLt; omega), Option.map_some,
    BitVec.ofNat_toNat, BitVec.setWidth_eq]

theorem getVarint64_append (v : BitVec 64) (rest : Slice) :
    getVarint64 (encodeVarint64 v ++ rest) = some (v, rest) := by
  rw [getVarint64_eq, encodeVarint64_eq, readVarint_varint (by have := v.isLt; omega), Option.map_some,
    BitVec.ofNat_toNat, BitVec.setWidth_eq]

theorem getLengthPrefixedSlice_append {value : Slice} (h : value.length < 2 ^ 32) (rest : Slice) :
    getLengthPrefixedSlice (putLengthPrefixedSlice value ++ rest) = some (value, rest) := by
  have hlen : (BitVec.ofNat 32 value.length).toNat = value.length := by
    rw [BitVec.toNat_ofNat, Nat.mod_eq_of_lt h]
  rw [getLengthPrefixedSlice, putLengthPrefixedSlice, List.append_assoc, getVarint32_append]
  simp only [hlen, List.length_append, Nat.le_add_right, if_true, List.take_left, List.drop_left]

theorem getLengthPrefixedSlice_of_part {value l : Slice} (h : value.length < 2 ^ 32)
    (hpre : l <+: putLengthPrefixedSlice value) (hne : l ≠ putLengthPrefixedSlice value) :
    getLengthPrefixedSlice l = none := by
  rw [putLengthPrefixedSlice_eq h] at hpre hne
  rw [getLengthPrefixedSlice, getVarint32_eq]
  rcases prefix_block_cases hpre hne with hnone | ⟨t, rfl, ht⟩
  · rw [hnone, Option.map_none]
  · rw [readVarint_varint (by omega), Option.map_some]
    dsimp only
    rw [BitVec.toNat_ofNat, Nat.mod_eq_of_lt h, if_neg (by omega)]

/-- **What was encoded is decoded**, with any bytes after it, and no part of it is taken for the
whole. -/
theorem coding_roundTrips :
    (∀ v rest, decodeFixed32 (encodeFixed32 v ++ rest) = v) ∧
    (∀ v rest, decodeFixed64 (encodeFixed64 v ++ rest) = v) ∧
    (RoundTrips (fun _ => True) encodeVarint32 getVarint32 ∧
      Complete (fun _ => True) encodeVarint32 getVarint32) ∧
    (RoundTrips (fun _ => True) encodeVarint64 getVarint64 ∧
      Complete (fun _ => True) encodeVarint64 getVarint64) ∧
    RoundTrips (·.length < 2 ^ 32) putLengthPrefixedSlice getLengthPrefixedSlice ∧
      Complete (·.length < 2 ^ 32) putLengthPrefixedSlice getLengthPrefixedSlice := by
  refine ⟨decodeFixed32_append, decodeFixed64_append, ⟨?_, ?_⟩, ⟨?_, ?_⟩, ?_, ?_⟩
  · exact fun v _ => getVarint32_append v
  · intro v _ l hpre hne
    rw [encodeVarint32_eq] at hpre hne
    rw [getVarint32_eq, readVarint_of_part hpre hne, Option.map_none]
  · exact fun v _ => getVarint64_append v
  · intro v _ l hpre hne
    rw [encodeVarint64_eq] at hpre hne
    rw [getVarint64_eq, readVarint_of_part hpre hne, Option.map_none]
  · exact fun value h => getLengthPrefixedSlice_append h
  · exact fun value h l => getLengthPrefixedSlice_of_part h

end Mdb.Ldb
