import Mdb.Lib.Mixing
import Mdb.Lib.Wire

/-!
# Cyclic redundancy checks

A remainder of `w` bits modulo a polynomial, lowest bit first: each bit of the data shifts the
remainder down and xors the polynomial in if a bit fell out. The shifts are linear, and where the
polynomial has its top bit they lose nothing.

* `shift`, `shifts`: one shift, and several; `shifts_xor`, `shifts_add`;
* `shifts_split`: `k` shifts are those of the low `k` bits, and the rest moved down;
* `shifts_injective`;
* `byte`, `bytes`: the remainder after more data; `bytes_eq_shifts`: after at most `w` bits of data it
  is the shifts of the remainder with the data xored in;
* **`bytes_inj`**: data that differ only within `w` bits leave different remainders.
-/

namespace Crc

open Wire

variable {w : ℕ} (poly : BitVec w)

/-- The remainder after one more bit. -/
def shift (l : BitVec w) : BitVec w := if l.getLsbD 0 then (l >>> 1) ^^^ poly else l >>> 1

/-- The remainder after `n` more bits. -/
def shifts : ℕ → BitVec w → BitVec w
  | 0, l => l
  | n + 1, l => shifts n (shift poly l)

/-- The remainder after one more byte. -/
def byte (l : BitVec w) (b : UInt8) : BitVec w := shifts poly 8 (l ^^^ BitVec.ofNat w b.toNat)

/-- The remainder after more bytes. -/
def bytes (l : BitVec w) (data : List UInt8) : BitVec w := data.foldl (byte poly) l

/-! ## Shifts are linear -/

theorem shift_xor (a b : BitVec w) : shift poly (a ^^^ b) = shift poly a ^^^ shift poly b := by
  apply BitVec.eq_of_getLsbD_eq
  intro i _
  simp only [shift, BitVec.getLsbD_xor, BitVec.ushiftRight_xor_distrib]
  cases a.getLsbD 0 <;> cases b.getLsbD 0 <;>
    simp only [Bool.xor_false, Bool.xor_true, Bool.not_false, Bool.not_true, if_true, if_false,
      Bool.false_eq_true, BitVec.getLsbD_xor] <;>
    cases (a >>> 1).getLsbD i <;> cases (b >>> 1).getLsbD i <;> cases poly.getLsbD i <;> rfl

theorem shifts_xor : ∀ (n : ℕ) (a b : BitVec w),
    shifts poly n (a ^^^ b) = shifts poly n a ^^^ shifts poly n b
  | 0, _, _ => rfl
  | n + 1, a, b => by rw [shifts, shift_xor, shifts_xor n, shifts, shifts]

theorem shifts_add : ∀ (m n : ℕ) (l : BitVec w),
    shifts poly (m + n) l = shifts poly n (shifts poly m l)
  | 0, n, l => by rw [Nat.zero_add, shifts]
  | m + 1, n, l => by rw [Nat.succ_add, shifts, shifts, shifts_add m n]

/-- A remainder whose low bits are clear only moves down. -/
theorem shifts_of_clear : ∀ {n : ℕ} {l : BitVec w}, (∀ i < n, l.getLsbD i = false) →
    shifts poly n l = l >>> n
  | 0, l, _ => by rw [shifts, BitVec.ushiftRight_zero]
  | n + 1, l, h => by
    have h0 : shift poly l = l >>> 1 := by
      rw [shift, h 0 (Nat.succ_pos n), if_neg Bool.false_ne_true]
    have hclear : ∀ i < n, (l >>> 1).getLsbD i = false := fun i hi => by
      rw [BitVec.getLsbD_ushiftRight]
      exact h _ (by omega)
    rw [shifts, h0, shifts_of_clear hclear, Nat.add_comm, BitVec.shiftRight_add]

/-- The low `k` bits. -/
def low (k : ℕ) (l : BitVec w) : BitVec w := BitVec.ofNat w (l.toNat % 2 ^ k)

theorem getLsbD_low (k : ℕ) (l : BitVec w) (i : ℕ) :
    (low k l).getLsbD i = (decide (i < k) && l.getLsbD i) := by
  rw [low, BitVec.getLsbD_ofNat, Nat.testBit_mod_two_pow, ← BitVec.testBit_toNat]
  by_cases hi : i < w
  · simp [hi]
  · simp [hi, BitVec.testBit_toNat, BitVec.getLsbD_of_ge l i (by omega)]

/-- **Shifts split**: those of the low bits, and the rest moved down. -/
theorem shifts_split (k : ℕ) (l : BitVec w) : shifts poly k l = shifts poly k (low k l) ^^^ l >>> k := by
  have hsplit : l = low k l ^^^ (low k l ^^^ l) := by
    rw [← BitVec.xor_assoc, BitVec.xor_self, BitVec.zero_xor]
  have hclear : ∀ i < k, (low k l ^^^ l).getLsbD i = false := fun i hi => by
    rw [BitVec.getLsbD_xor, getLsbD_low, decide_eq_true hi, Bool.true_and, Bool.xor_self]
  have hdown : (low k l ^^^ l) >>> k = l >>> k := by
    apply BitVec.eq_of_getLsbD_eq
    intro i _
    rw [BitVec.getLsbD_ushiftRight, BitVec.getLsbD_ushiftRight, BitVec.getLsbD_xor, getLsbD_low,
      decide_eq_false (by omega), Bool.false_and, Bool.false_xor]
  conv_lhs => rw [hsplit]
  rw [shifts_xor, shifts_of_clear poly hclear, hdown]

/-- Data above the low `k` bits waits for `k` shifts. -/
theorem shifts_xor_shiftLeft {k : ℕ} (a : BitVec w) {b : BitVec w} (hb : b.toNat < 2 ^ (w - k))
    (hk : k ≤ w) : shifts poly k (a ^^^ b <<< k) = shifts poly k a ^^^ b := by
  have hclear : ∀ i < k, (b <<< k).getLsbD i = false := fun i hi => by
    rw [BitVec.getLsbD_shiftLeft, decide_eq_true hi]
    simp
  have hback : (b <<< k) >>> k = b := by
    apply BitVec.eq_of_toNat_eq
    have hlt : b.toNat * 2 ^ k < 2 ^ w := by
      calc b.toNat * 2 ^ k < 2 ^ (w - k) * 2 ^ k := Nat.mul_lt_mul_of_pos_right hb (Nat.two_pow_pos k)
        _ = 2 ^ w := by rw [← pow_add, Nat.sub_add_cancel hk]
    rw [BitVec.toNat_ushiftRight, BitVec.toNat_shiftLeft, Nat.shiftLeft_eq, Nat.mod_eq_of_lt hlt,
      Nat.shiftRight_eq_div_pow, Nat.mul_div_cancel _ (Nat.two_pow_pos k)]
  rw [shifts_xor, shifts_of_clear poly hclear, hback]

/-! ## Shifts lose nothing -/

variable {poly}

theorem shift_injective (hw : 0 < w) (hpoly : poly.getLsbD (w - 1) = true) :
    Function.Injective (shift poly) := by
  -- by linearity only `0` may be shifted to `0`
  have hzero : ∀ z, shift poly z = 0#w → z = 0#w := fun z hz => by
    have hbits : ∀ i, (shift poly z).getLsbD i = false := fun i => by rw [hz, BitVec.getLsbD_zero]
    have hlow : z.getLsbD 0 = false := by
      by_contra h
      have htop := hbits (w - 1)
      rw [shift, if_pos (by simpa using h), BitVec.getLsbD_xor, hpoly, BitVec.getLsbD_ushiftRight,
        BitVec.getLsbD_of_ge z _ (by omega)] at htop
      exact absurd htop (by decide)
    apply BitVec.eq_of_getLsbD_eq
    intro i _
    rw [BitVec.getLsbD_zero]
    rcases i with _ | i
    · exact hlow
    · have := hbits i
      rw [shift, hlow, if_neg Bool.false_ne_true, BitVec.getLsbD_ushiftRight, Nat.add_comm] at this
      exact this
  intro a b h
  have hxor : shift poly (a ^^^ b) = 0#w := by rw [shift_xor, h, BitVec.xor_self]
  exact BitVec.xor_eq_zero_iff.mp (hzero _ hxor)

theorem shifts_injective (hw : 0 < w) (hpoly : poly.getLsbD (w - 1) = true) :
    ∀ n, Function.Injective (shifts poly n)
  | 0 => Function.injective_id
  | n + 1 => (shifts_injective hw hpoly n).comp (shift_injective hw hpoly)

/-! ## Bytes -/

theorem bytes_append (l : BitVec w) (a b : List UInt8) :
    bytes poly l (a ++ b) = bytes poly (bytes poly l a) b := List.foldl_append

/-- The bytes as one word, lowest first. -/
def word (w : ℕ) (data : List UInt8) : BitVec w := BitVec.ofNat w (ofLe data)

theorem word_cons (b : UInt8) (data : List UInt8) :
    word w (b :: data) = BitVec.ofNat w b.toNat ^^^ word w data <<< 8 := by
  apply BitVec.eq_of_getLsbD_eq
  intro i hi
  have hb : b.toNat < 2 ^ 8 := b.toNat_lt
  rw [word, ofLe, BitVec.getLsbD_ofNat, Nat.add_comm, show 256 = 2 ^ 8 from rfl,
    Nat.testBit_two_pow_mul_add _ hb, BitVec.getLsbD_xor, BitVec.getLsbD_shiftLeft, word,
    BitVec.getLsbD_ofNat, BitVec.getLsbD_ofNat]
  by_cases h8 : i < 8
  · simp [hi, h8]
  · have hout : b.toNat.testBit i = false :=
      Nat.testBit_lt_two_pow (lt_of_lt_of_le hb (Nat.pow_le_pow_right (by decide) (by omega)))
    simp [hi, h8, hout, show i - 8 < w by omega]

theorem toNat_word {data : List UInt8} (h : 8 * data.length ≤ w) : (word w data).toNat = ofLe data := by
  have hlt : ofLe data < 2 ^ w := by
    refine lt_of_lt_of_le (ofLe_lt data) ?_
    rw [show 256 = 2 ^ 8 from rfl, ← pow_mul]
    exact Nat.pow_le_pow_right (by decide) h
  rw [word, BitVec.toNat_ofNat, Nat.mod_eq_of_lt hlt]

/-- **At most `w` bits of data at once**: the remainder with the data xored in, shifted. -/
theorem bytes_eq_shifts : ∀ (data : List UInt8) (l : BitVec w), 8 * data.length ≤ w →
    bytes poly l data = shifts poly (8 * data.length) (l ^^^ word w data)
  | [], l, _ => by
    rw [bytes, List.foldl_nil, word, ofLe, List.length_nil, Nat.mul_zero, shifts, BitVec.xor_zero]
  | b :: data, l, h => by
    rw [List.length_cons] at h
    have hdata : (word w data).toNat < 2 ^ (w - 8) := by
      rw [toNat_word (by omega)]
      refine lt_of_lt_of_le (ofLe_lt data) ?_
      rw [show 256 = 2 ^ 8 from rfl, ← pow_mul]
      exact Nat.pow_le_pow_right (by decide) (by omega)
    change bytes poly (byte poly l b) data = _
    rw [bytes_eq_shifts data _ (by omega), byte, List.length_cons, Nat.mul_add_one, Nat.add_comm,
      shifts_add, word_cons, ← BitVec.xor_assoc, shifts_xor_shiftLeft poly _ hdata (by omega)]

theorem bytes_injective (hw : 0 < w) (hpoly : poly.getLsbD (w - 1) = true) :
    ∀ data : List UInt8, Function.Injective fun l => bytes poly l data
  | [] => Function.injective_id
  | _ :: data =>
    (bytes_injective hw hpoly data).comp
      ((shifts_injective hw hpoly 8).comp (Mixing.xor_injective _))

/-- **Data that differ only within `w` bits leave different remainders.** -/
theorem bytes_inj (hw : 0 < w) (hpoly : poly.getLsbD (w - 1) = true) {l : BitVec w}
    {pre x y post : List UInt8} (hlen : x.length = y.length) (hx : 8 * x.length ≤ w)
    (h : bytes poly l (pre ++ x ++ post) = bytes poly l (pre ++ y ++ post)) : x = y := by
  rw [bytes_append, bytes_append, bytes_append, bytes_append] at h
  have hmid := bytes_injective hw hpoly post h
  rw [bytes_eq_shifts x _ hx, bytes_eq_shifts y _ (hlen ▸ hx), hlen] at hmid
  have hxor := shifts_injective hw hpoly _ hmid
  rw [BitVec.xor_comm, BitVec.xor_comm _ (word w y)] at hxor
  have hword := congrArg BitVec.toNat (Mixing.xor_injective _ hxor)
  rw [toNat_word hx, toNat_word (hlen ▸ hx)] at hword
  rw [← le_ofLe x, ← le_ofLe y, hword, hlen]

end Crc
