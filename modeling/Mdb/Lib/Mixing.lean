import Mathlib

/-!
# Words mixed without loss

The steps a non-cryptographic hash is made of are permutations of the machine words: a word
xored with itself shifted, rotated, multiplied by an odd constant, xored with another word. A
function that takes each word once spreads the words evenly over the values of its low bits.

* `xorShift_injective`, `rotl_injective`, `mul_injective`, `xor_injective`;
* `card_low_bits`, **`card_low_bits_of_injective`**: of the `2 ^ w` words exactly `2 ^ (w - p)` are
  taken to a word with given low `p` bits.
-/

namespace Mixing

variable {w : ℕ}

/-- The word rotated left by `r` bits, as two shifts. -/
def rotl (x : BitVec w) (r : ℕ) : BitVec w := (x <<< r) ||| (x >>> (w - r))

theorem eq_zero_of_eq_ushiftRight {z : BitVec w} {k : ℕ} (hk : 0 < k) (h : z = z >>> k) : z = 0#w := by
  have hz : z.toNat = z.toNat / 2 ^ k := by
    conv_lhs => rw [h]
    rw [BitVec.toNat_ushiftRight, Nat.shiftRight_eq_div_pow]
  apply BitVec.eq_of_toNat_eq
  rw [BitVec.toNat_ofNat, Nat.zero_mod]
  by_contra hne
  have hlt := Nat.div_lt_self (Nat.pos_of_ne_zero hne) (Nat.one_lt_two_pow hk.ne')
  omega

theorem xorShift_injective {k : ℕ} (hk : 0 < k) :
    Function.Injective fun x : BitVec w => x ^^^ (x >>> k) := by
  intro x y h
  have hz : x ^^^ y = (x ^^^ y) >>> k := by
    rw [BitVec.ushiftRight_xor_distrib]
    calc x ^^^ y = (x ^^^ x >>> k) ^^^ x >>> k ^^^ y := by simp
      _ = (y ^^^ y >>> k) ^^^ x >>> k ^^^ y := by rw [show x ^^^ x >>> k = y ^^^ y >>> k from h]
      _ = x >>> k ^^^ y >>> k := by
        apply BitVec.eq_of_getLsbD_eq
        intro i _
        simp only [BitVec.getLsbD_xor]
        cases y.getLsbD i <;> cases (x >>> k).getLsbD i <;> cases (y >>> k).getLsbD i <;> rfl
  exact BitVec.xor_eq_zero_iff.mp (eq_zero_of_eq_ushiftRight hk hz)

theorem getLsbD_rotl_high {x : BitVec w} {r i : ℕ} (hr : r ≤ w) (hi : i + r < w) :
    (rotl x r).getLsbD (i + r) = x.getLsbD i := by
  have hout : x.getLsbD (w - r + (i + r)) = false := BitVec.getLsbD_of_ge _ _ (by omega)
  have hlow : ¬ i + r < r := by omega
  simp only [rotl, BitVec.getLsbD_or, BitVec.getLsbD_shiftLeft, BitVec.getLsbD_ushiftRight, hout, hi,
    hlow, Nat.add_sub_cancel, decide_true, decide_false, Bool.not_false, Bool.true_and, Bool.or_false]

theorem getLsbD_rotl_low {x : BitVec w} {r i : ℕ} (hr : r ≤ w) (hi : i < w) (hir : w ≤ i + r) :
    (rotl x r).getLsbD (i + r - w) = x.getLsbD i := by
  have hlow : i + r - w < r := by omega
  have hsrc : w - r + (i + r - w) = i := by omega
  simp [rotl, hlow, hsrc]

theorem rotl_injective {r : ℕ} (hr : r ≤ w) : Function.Injective fun x : BitVec w => rotl x r := by
  intro x y h
  have hbits : ∀ j, (rotl x r).getLsbD j = (rotl y r).getLsbD j := fun j => congrArg (·.getLsbD j) h
  apply BitVec.eq_of_getLsbD_eq
  intro i hi
  by_cases hir : i + r < w
  · rw [← getLsbD_rotl_high hr hir, ← getLsbD_rotl_high hr hir, hbits]
  · rw [← getLsbD_rotl_low hr hi (by omega), ← getLsbD_rotl_low hr hi (by omega), hbits]

theorem mul_injective {c d : BitVec w} (hcd : c * d = 1#w) : Function.Injective fun x => x * c := by
  intro x y h
  calc x = x * c * d := by rw [BitVec.mul_assoc, hcd, BitVec.mul_one]
    _ = y * c * d := by rw [show x * c = y * c from h]
    _ = y := by rw [BitVec.mul_assoc, hcd, BitVec.mul_one]

theorem xor_injective (c : BitVec w) : Function.Injective fun x => x ^^^ c := by
  intro x y h
  calc x = x ^^^ c ^^^ c := by simp
    _ = y ^^^ c ^^^ c := by rw [show x ^^^ c = y ^^^ c from h]
    _ = y := by simp

theorem add_injective (c : BitVec w) : Function.Injective fun x => x + c := by
  intro x y h
  exact (BitVec.add_left_inj c).mp h

/-! ## The words with given low bits -/

theorem card_low_bits {p j : ℕ} (hp : p ≤ w) (hj : j < 2 ^ p) :
    Nat.card {x : BitVec w // x.toNat % 2 ^ p = j} = 2 ^ (w - p) := by
  have hw : 2 ^ (w - p) * 2 ^ p = 2 ^ w := by rw [← Nat.pow_add, Nat.sub_add_cancel hp]
  rw [← Nat.card_fin (2 ^ (w - p))]
  -- the word with low bits `j` is its high part, a number below `2 ^ (w - p)`
  refine Nat.card_eq_of_bijective
    (fun x => ⟨x.1.toNat / 2 ^ p, Nat.div_lt_of_lt_mul (by rw [Nat.mul_comm, hw]; exact x.1.isLt)⟩)
    ⟨?_, ?_⟩
  · rintro ⟨x, hx⟩ ⟨y, hy⟩ h
    have hdiv : x.toNat / 2 ^ p = y.toNat / 2 ^ p := congrArg Fin.val h
    apply Subtype.ext
    apply BitVec.eq_of_toNat_eq
    calc x.toNat = 2 ^ p * (x.toNat / 2 ^ p) + x.toNat % 2 ^ p := (Nat.div_add_mod ..).symm
      _ = 2 ^ p * (y.toNat / 2 ^ p) + y.toNat % 2 ^ p := by rw [hdiv, hx, hy]
      _ = y.toNat := Nat.div_add_mod ..
  · rintro ⟨q, hq⟩
    have hlt : q * 2 ^ p + j < 2 ^ w := by
      have : (q + 1) * 2 ^ p ≤ 2 ^ (w - p) * 2 ^ p := Nat.mul_le_mul_right _ hq
      rw [hw, Nat.add_mul] at this
      omega
    refine ⟨⟨BitVec.ofNatLT _ hlt, ?_⟩, Fin.ext ?_⟩
    · rw [BitVec.toNat_ofNatLT, Nat.mul_add_mod', Nat.mod_eq_of_lt hj]
    · change (BitVec.ofNatLT _ hlt).toNat / 2 ^ p = q
      rw [BitVec.toNat_ofNatLT, Nat.mul_comm, Nat.mul_add_div (Nat.two_pow_pos p),
        Nat.div_eq_of_lt hj, Nat.add_zero]

/-- **An injective function of the words spreads them evenly** over the values of its low bits. -/
theorem card_low_bits_of_injective {f : BitVec w → BitVec w} (hf : Function.Injective f) {p j : ℕ}
    (hp : p ≤ w) (hj : j < 2 ^ p) :
    Nat.card {x : BitVec w // (f x).toNat % 2 ^ p = j} = 2 ^ (w - p) := by
  have hbij : Function.Bijective f := Finite.injective_iff_bijective.mp hf
  rw [← card_low_bits hp hj]
  exact Nat.card_congr ((Equiv.ofBijective f hbij).subtypeEquiv fun _ => Iff.rfl)

end Mixing
