import Mathlib

/-!
# Numbers as bytes

* `le k n`: the `k` low bytes of `n`, lowest first; `ofLe`: the number that bytes stand for;
* `varint n`: seven bits of `n` a byte, lowest first, with the top bit set in every byte but the last;
  `readVarint k`: the number at the front of some bytes, in at most `k` of them;
  `readVarint_varint`, `readVarint_of_part`: what was written is read back, and nothing is read
  from a part of it;
* `block`: a string after its length;
* `RoundTrips`: a decoder takes what an encoder wrote off the front of any bytes; `Complete`: it
  takes nothing off a part of it;
  **`RoundTrips.unique`**: bytes are encoded in one way only, whatever follows them.
-/

namespace Wire

/-! ## Fixed width -/

/-- The `k` low bytes of `n`, lowest first. -/
def le : ℕ → ℕ → List UInt8
  | 0, _ => []
  | k + 1, n => UInt8.ofNat n :: le k (n / 256)

/-- The number whose bytes, lowest first, are given. -/
def ofLe : List UInt8 → ℕ
  | [] => 0
  | b :: l => b.toNat + 256 * ofLe l

@[simp]
theorem length_le : ∀ k n, (le k n).length = k
  | 0, _ => rfl
  | k + 1, n => by rw [le, List.length_cons, length_le k]

theorem ofLe_le : ∀ k n, ofLe (le k n) = n % 256 ^ k
  | 0, n => by rw [le, ofLe, pow_zero, Nat.mod_one]
  | k + 1, n => by
    rw [le, ofLe, ofLe_le k, UInt8.toNat_ofNat', pow_succ' 256 k]
    exact (Nat.mod_mul (a := 256)).symm

theorem ofLe_lt : ∀ l : List UInt8, ofLe l < 256 ^ l.length
  | [] => Nat.one_pos
  | b :: l => by
    have hb := b.toNat_lt
    have hl := ofLe_lt l
    rw [ofLe, List.length_cons, pow_succ']
    omega

theorem le_ofLe : ∀ l : List UInt8, le l.length (ofLe l) = l
  | [] => rfl
  | b :: l => by
    have hb := b.toNat_lt
    have hlow : UInt8.ofNat (b.toNat + 256 * ofLe l) = b := by
      apply UInt8.toNat_inj.mp
      rw [UInt8.toNat_ofNat']
      omega
    have hhigh : (b.toNat + 256 * ofLe l) / 256 = ofLe l := by omega
    rw [List.length_cons, ofLe, le, hlow, hhigh, le_ofLe l]

/-! ## Seven bits a byte -/

/-- The number, seven bits a byte. -/
def varint (n : ℕ) : List UInt8 :=
  if n < 128 then [UInt8.ofNat n] else UInt8.ofNat (n % 128 + 128) :: varint (n / 128)
termination_by n
decreasing_by omega

/-- The number at the front of the bytes, in at most `k` of them, and what is after it. -/
def readVarint : ℕ → List UInt8 → Option (ℕ × List UInt8)
  | 0, _ => none
  | _ + 1, [] => none
  | k + 1, b :: l =>
    if b.toNat < 128 then some (b.toNat, l)
    else (readVarint k l).map fun r => (b.toNat - 128 + 128 * r.1, r.2)

theorem varint_of_lt {n : ℕ} (h : n < 128) : varint n = [UInt8.ofNat n] := by
  rw [varint, if_pos h]

theorem varint_of_ge {n : ℕ} (h : 128 ≤ n) :
    varint n = UInt8.ofNat (n % 128 + 128) :: varint (n / 128) := by
  rw [varint, if_neg (by omega)]

theorem toNat_ofNat_of_lt {n : ℕ} (h : n < 256) : (UInt8.ofNat n).toNat = n := by
  rw [UInt8.toNat_ofNat']
  omega

/-- **What was written is read back**, with any bytes after it. -/
theorem readVarint_varint : ∀ {k n : ℕ}, n < 128 ^ (k + 1) → ∀ rest,
    readVarint (k + 1) (varint n ++ rest) = some (n, rest) := by
  intro k
  induction k with
  | zero =>
    intro n hn rest
    rw [varint_of_lt (by omega), List.singleton_append, readVarint, toNat_ofNat_of_lt (by omega),
      if_pos (by omega)]
  | succ k ih =>
    intro n hn rest
    rcases Nat.lt_or_ge n 128 with h | h
    · rw [varint_of_lt h, List.singleton_append, readVarint, toNat_ofNat_of_lt (by omega), if_pos h]
    · have hdiv : n / 128 < 128 ^ (k + 1) := by
        rw [Nat.div_lt_iff_lt_mul (by decide), ← pow_succ]
        exact hn
      rw [varint_of_ge h, List.cons_append, readVarint, toNat_ofNat_of_lt (by omega),
        if_neg (by omega), ih hdiv rest, Option.map_some]
      congr 2
      omega

/-- Nothing is read from a part of what was written. -/
theorem readVarint_of_part : ∀ {k n : ℕ} {l : List UInt8}, l <+: varint n → l ≠ varint n →
    readVarint k l = none := by
  intro k
  induction k with
  | zero => exact fun _ _ => rfl
  | succ k ih =>
    intro n l hpre hne
    cases l with
    | nil => rfl
    | cons b l =>
      rcases Nat.lt_or_ge n 128 with h | h
      · rw [varint_of_lt h] at hpre hne
        obtain ⟨rfl, hl⟩ := List.cons_prefix_cons.mp hpre
        rw [List.prefix_nil] at hl
        exact absurd (by rw [hl]) hne
      · rw [varint_of_ge h] at hpre hne
        obtain ⟨rfl, hl⟩ := List.cons_prefix_cons.mp hpre
        rw [readVarint, toNat_ofNat_of_lt (by omega), if_neg (by omega),
          ih hl (fun he => hne (by rw [he])), Option.map_none]

/-! ## A string after its length -/

/-- The string after its length. -/
def block (s : List UInt8) : List UInt8 := varint s.length ++ s

/-- A part of a string with its length ends in the length, or in the string. -/
theorem prefix_block_cases {s l : List UInt8} (hpre : l <+: block s) (hne : l ≠ block s) :
    (∀ k, readVarint k l = none) ∨ ∃ t, l = varint s.length ++ t ∧ t.length < s.length := by
  by_cases hlen : varint s.length <+: l
  · obtain ⟨t, rfl⟩ := hlen
    have ht : t <+: s := (List.prefix_append_right_inj _).mp hpre
    refine .inr ⟨t, rfl, lt_of_le_of_ne ht.length_le fun he => hne ?_⟩
    rw [ht.eq_of_length he, block]
  · have hl : l <+: varint s.length :=
      (List.prefix_or_prefix_of_prefix hpre (List.prefix_append _ _)).resolve_right hlen
    exact .inl fun k => readVarint_of_part hl fun he => hlen (by rw [he])

/-! ## Decoders of what was encoded -/

section Codec

variable {α β : Type} {P : α → Prop} {enc : α → List β} {dec : List β → Option (α × List β)}

/-- The decoder takes what the encoder wrote off the front of any bytes. -/
def RoundTrips (P : α → Prop) (enc : α → List β) (dec : List β → Option (α × List β)) : Prop :=
  ∀ a, P a → ∀ rest, dec (enc a ++ rest) = some (a, rest)

/-- No part of what the encoder wrote is decoded. -/
def Complete (P : α → Prop) (enc : α → List β) (dec : List β → Option (α × List β)) : Prop :=
  ∀ a, P a → ∀ l, l <+: enc a → l ≠ enc a → dec l = none

/-- **Bytes are encoded in one way only**, whatever follows them. -/
theorem RoundTrips.unique (h : RoundTrips P enc dec) {a b : α} (ha : P a) (hb : P b) {r r' : List β}
    (heq : enc a ++ r = enc b ++ r') : a = b ∧ r = r' := by
  have hdec := h a ha r
  rw [heq, h b hb r', Option.some.injEq, Prod.mk.injEq] at hdec
  exact ⟨hdec.1.symm, hdec.2.symm⟩

end Codec

end Wire
