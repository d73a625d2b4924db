import Mdb.Lib.Mixing
import Mdb.Store.Trace

/-!
# The hash function

`InitHash(MURMUR3_HASH)` makes `MurmurHash3_x86_32` the hash of the keys. It mixes a key four bytes
at a time; each step permutes the 32-bit words, both in the accumulator and in the word that is
mixed in.

* `rotl32`, `getblock32`, `fmix32`, `scramble`, `mixBlock`, `murmurBody`, `mixTail`,
  `murmurHash3X8632`, as in the source; `leBytes`, the bytes of a word;
* `fmix32_injective`, `mixBlock_injective`, `mixBlock_injective_right`, `finish_injective`: the
  accumulator is never forgotten;
* **`murmurHash_ne`**: two keys that differ only inside one word of four bytes, or only in the
  tail, have different hash values;
* **`murmurHash_spreads`**: the keys that differ in one word are spread evenly over the buckets
  of a table of any size, and over the item locks.
-/

namespace Mdb

open Mixing

/-! ## `murmur3_hash.c` -/

/-- `rotl32`. -/
def rotl32 (x : BitVec 32) (r : ℕ) : BitVec 32 := (x <<< r) ||| (x >>> (32 - r))

/-- `getblock32`: the word at four bytes, on a little-endian machine. -/
def getblock32 (b₀ b₁ b₂ b₃ : UInt8) : BitVec 32 :=
  BitVec.ofNat 32 (b₀.toNat + 2 ^ 8 * b₁.toNat + 2 ^ 16 * b₂.toNat + 2 ^ 24 * b₃.toNat)

/-- `fmix32`: the finalization mix. -/
def fmix32 (h : BitVec 32) : BitVec 32 :=
  let h := h ^^^ (h >>> 16)
  let h := h * 0x85ebca6b#32
  let h := h ^^^ (h >>> 13)
  let h := h * 0xc2b2ae35#32
  h ^^^ (h >>> 16)

/-- What is done to a word `k1` before it is xored into the accumulator. -/
def scramble (k1 : BitVec 32) : BitVec 32 := rotl32 (k1 * 0xcc9e2d51#32) 15 * 0x1b873593#32

/-- One round of the body. -/
@[irreducible]
def mixBlock (h1 k1 : BitVec 32) : BitVec 32 := rotl32 (h1 ^^^ scramble k1) 13 * 5#32 + 0xe6546b64#32

/-- The body: the accumulator after the whole words of `data`, and the bytes that are left. -/
def murmurBody (h1 : BitVec 32) : List UInt8 → BitVec 32 × List UInt8
  | b₀ :: b₁ :: b₂ :: b₃ :: data => murmurBody (mixBlock h1 (getblock32 b₀ b₁ b₂ b₃)) data
  | tail => (h1, tail)

/-- The byte as a 32-bit word. -/
def wide (b : UInt8) : BitVec 32 := b.toBitVec.setWidth 32

/-- The `switch` on the number of bytes that are left, each case falling through to the next. -/
def mixTail (h1 : BitVec 32) : List UInt8 → BitVec 32
  | [t₀, t₁, t₂] => h1 ^^^ scramble (wide t₂ <<< 16 ^^^ wide t₁ <<< 8 ^^^ wide t₀)
  | [t₀, t₁] => h1 ^^^ scramble (wide t₁ <<< 8 ^^^ wide t₀)
  | [t₀] => h1 ^^^ scramble (wide t₀)
  | _ => h1

/-- What is done from an accumulator `h1` on, with `data` to read, for a key of `length` bytes. -/
def finish (length : ℕ) (h1 : BitVec 32) (data : List UInt8) : BitVec 32 :=
  fmix32 (mixTail (murmurBody h1 data).1 (murmurBody h1 data).2 ^^^ BitVec.ofNat 32 length)

/-- `MurmurHash3_x86_32(key, length)`. -/
def murmurHash3X8632 (key : List UInt8) : BitVec 32 := finish key.length 0#32 key

/-- `Hash(key, nkey)` after `InitHash(MURMUR3_HASH)`. -/
def murmurHash (key : Key) : UInt32 := UInt32.ofBitVec (murmurHash3X8632 key.bytes)

example : murmurHash3X8632 "hello".toUTF8.toList = 0x248bfa47#32 := by decide +kernel

/-! ## The mixing steps are permutations -/

theorem rotl32_injective {r : ℕ} (hr : r ≤ 32) : Function.Injective fun x => rotl32 x r :=
  rotl_injective hr

theorem fmix32_injective : Function.Injective fmix32 :=
  have h₁ := mul_injective (show 0x85ebca6b#32 * 0xa5cb9243#32 = 1#32 from by decide)
  have h₂ := mul_injective (show 0xc2b2ae35#32 * 0x7ed1b41d#32 = 1#32 from by decide)
  have hs₁₆ := xorShift_injective (w := 32) (show 0 < 16 by decide)
  have hs₁₃ := xorShift_injective (w := 32) (show 0 < 13 by decide)
  hs₁₆.comp (h₂.comp (hs₁₃.comp (h₁.comp hs₁₆)))

theorem scramble_injective : Function.Injective scramble :=
  have h₁ := mul_injective (show 0xcc9e2d51#32 * 0xdee13bb1#32 = 1#32 from by decide)
  have h₂ := mul_injective (show 0x1b873593#32 * 0x56ed309b#32 = 1#32 from by decide)
  h₂.comp ((rotl32_injective (by decide)).comp h₁)

theorem finishRound_injective :
    Function.Injective fun h : BitVec 32 => rotl32 h 13 * 5#32 + 0xe6546b64#32 :=
  have h₅ := mul_injective (show 5#32 * 0xcccccccd#32 = 1#32 from by decide)
  (add_injective _).comp (h₅.comp (rotl32_injective (by decide)))

theorem mixBlock_injective (k1 : BitVec 32) : Function.Injective fun h1 => mixBlock h1 k1 := by
  unfold mixBlock
  exact finishRound_injective.comp (xor_injective _)

theorem mixBlock_injective_right (h1 : BitVec 32) : Function.Injective (mixBlock h1) := by
  intro k k' h
  unfold mixBlock at h
  have hx : h1 ^^^ scramble k = h1 ^^^ scramble k' := finishRound_injective h
  rw [BitVec.xor_comm h1, BitVec.xor_comm h1] at hx
  exact scramble_injective (xor_injective h1 hx)

theorem mixTail_injective (tail : List UInt8) : Function.Injective fun h1 => mixTail h1 tail := by
  match tail with
  | [_, _, _] | [_, _] | [_] => exact xor_injective _
  | [] => exact Function.injective_id
  | _ :: _ :: _ :: _ :: _ => exact Function.injective_id

theorem murmurBody_cons (h1 : BitVec 32) (b₀ b₁ b₂ b₃ : UInt8) (data : List UInt8) :
    murmurBody h1 (b₀ :: b₁ :: b₂ :: b₃ :: data) =
      murmurBody (mixBlock h1 (getblock32 b₀ b₁ b₂ b₃)) data := murmurBody.eq_1 ..

/-- The bytes that are left do not depend on the accumulator. -/
theorem murmurBody_tail (data : List UInt8) :
    ∀ h1 h1', (murmurBody h1 data).2 = (murmurBody h1' data).2 := by
  intro h1
  fun_induction murmurBody h1 data with
  | case1 h1 b₀ b₁ b₂ b₃ data ih =>
    intro h1'
    rw [murmurBody_cons]
    exact ih _
  | case2 h1 tail hshort =>
    intro h1'
    rw [murmurBody.eq_2 _ _ hshort]

theorem murmurBody_injective (data : List UInt8) :
    Function.Injective fun h1 => (murmurBody h1 data).1 := by
  intro h1
  fun_induction murmurBody h1 data with
  | case1 h1 b₀ b₁ b₂ b₃ data ih =>
    intro h1' h
    dsimp only at h
    rw [murmurBody_cons, murmurBody_cons] at h
    exact mixBlock_injective _ (ih h)
  | case2 h1 tail hshort =>
    intro h1' h
    dsimp only at h
    rwa [murmurBody.eq_2 _ _ hshort, murmurBody.eq_2 _ _ hshort] at h

/-- **The accumulator is never forgotten**: what is left to read takes different accumulators to
different hash values. -/
theorem finish_injective (n : ℕ) (data : List UInt8) :
    Function.Injective fun h1 => finish n h1 data := by
  intro h1 h1' h
  have h₁ := xor_injective _ (fmix32_injective h)
  rw [murmurBody_tail data h1' h1] at h₁
  exact murmurBody_injective data (mixTail_injective _ h₁)

/-! ## One word of a key -/

/-- Four bytes are one round of the body. -/
theorem finish_block (n : ℕ) (h1 : BitVec 32) (b₀ b₁ b₂ b₃ : UInt8) (data : List UInt8) :
    finish n h1 (b₀ :: b₁ :: b₂ :: b₃ :: data) =
      finish n (mixBlock h1 (getblock32 b₀ b₁ b₂ b₃)) data := by
  rw [finish, finish, murmurBody_cons]

/-- Whole words before the rest of a key only choose the accumulator the rest starts from. -/
theorem exists_accumulator (n : ℕ) : ∀ (pre : List UInt8), 4 ∣ pre.length → ∀ h1,
    ∃ h, ∀ data, finish n h1 (pre ++ data) = finish n h data
  | [], _, h1 => ⟨h1, fun _ => rfl⟩
  | [_], hpre, _ | [_, _], hpre, _ | [_, _, _], hpre, _ => absurd hpre (by simp)
  | b₀ :: b₁ :: b₂ :: b₃ :: pre, hpre, h1 => by
    have hpre' : 4 ∣ pre.length := by
      simp only [List.length_cons] at hpre
      omega
    obtain ⟨h, hh⟩ := exists_accumulator n pre hpre' (mixBlock h1 (getblock32 b₀ b₁ b₂ b₃))
    refine ⟨h, fun data => ?_⟩
    rw [← hh, ← finish_block]
    rfl

theorem getblock32_inj {a₀ a₁ a₂ a₃ b₀ b₁ b₂ b₃ : UInt8}
    (h : getblock32 a₀ a₁ a₂ a₃ = getblock32 b₀ b₁ b₂ b₃) : [a₀, a₁, a₂, a₃] = [b₀, b₁, b₂, b₃] := by
  have hn := congrArg BitVec.toNat h
  simp only [getblock32, BitVec.toNat_ofNat] at hn
  have ha₀ := a₀.toNat_lt; have ha₁ := a₁.toNat_lt; have ha₂ := a₂.toNat_lt; have ha₃ := a₃.toNat_lt
  have hb₀ := b₀.toNat_lt; have hb₁ := b₁.toNat_lt; have hb₂ := b₂.toNat_lt; have hb₃ := b₃.toNat_lt
  have heq : a₀.toNat = b₀.toNat ∧ a₁.toNat = b₁.toNat ∧ a₂.toNat = b₂.toNat ∧ a₃.toNat = b₃.toNat := by
    omega
  simp only [UInt8.toNat_inj] at heq
  obtain ⟨rfl, rfl, rfl, rfl⟩ := heq
  rfl

/-- The bytes of a word, lowest first. -/
def leBytes (x : BitVec 32) : List UInt8 :=
  [UInt8.ofNat x.toNat, UInt8.ofNat (x.toNat / 2 ^ 8), UInt8.ofNat (x.toNat / 2 ^ 16),
    UInt8.ofNat (x.toNat / 2 ^ 24)]

theorem getblock32_leBytes (x : BitVec 32) :
    getblock32 (.ofNat x.toNat) (.ofNat (x.toNat / 2 ^ 8)) (.ofNat (x.toNat / 2 ^ 16))
      (.ofNat (x.toNat / 2 ^ 24)) = x := by
  have hx := x.isLt
  apply BitVec.eq_of_toNat_eq
  simp only [getblock32, BitVec.toNat_ofNat, UInt8.toNat_ofNat']
  omega

/-! ## The tail -/

theorem getLsbD_wide (b : UInt8) (i : ℕ) : (wide b).getLsbD i = b.toBitVec.getLsbD i := by
  rw [wide, BitVec.getLsbD_setWidth]
  by_cases hi : i < 32
  · simp [hi]
  · simp [hi, BitVec.getLsbD_of_ge b.toBitVec i (by omega)]

theorem getLsbD_wide_of_ge (b : UInt8) {i : ℕ} (hi : 8 ≤ i) : (wide b).getLsbD i = false := by
  rw [getLsbD_wide, BitVec.getLsbD_of_ge _ _ hi]

theorem wide_zero : wide 0 = 0#32 := by decide

/-- The bytes of a tail can be read off the word they are put into. -/
theorem tailWord_inj {a₀ a₁ a₂ b₀ b₁ b₂ : UInt8}
    (h : wide a₂ <<< 16 ^^^ wide a₁ <<< 8 ^^^ wide a₀ = wide b₂ <<< 16 ^^^ wide b₁ <<< 8 ^^^ wide b₀) :
    a₀ = b₀ ∧ a₁ = b₁ ∧ a₂ = b₂ := by
  have hbit : ∀ i, _ := fun i => congrArg (·.getLsbD i) h
  have hbyte {a b : UInt8} (hab : ∀ i < 8, a.toBitVec.getLsbD i = b.toBitVec.getLsbD i) : a = b :=
    UInt8.toBitVec_inj.mp (BitVec.eq_of_getLsbD_eq hab)
  simp only [BitVec.getLsbD_xor, BitVec.getLsbD_shiftLeft] at hbit
  refine ⟨hbyte fun i hi => ?_, hbyte fun i hi => ?_, hbyte fun i hi => ?_⟩
  · have := hbit i
    simpa [getLsbD_wide, hi, show i < 16 by omega] using this
  · have := hbit (i + 8)
    rw [getLsbD_wide_of_ge a₀ (by omega), getLsbD_wide_of_ge b₀ (by omega)] at this
    simpa [getLsbD_wide, show i + 8 < 32 by omega, show i + 8 < 16 by omega] using this
  · have := hbit (i + 16)
    rw [getLsbD_wide_of_ge a₀ (by omega), getLsbD_wide_of_ge b₀ (by omega),
      getLsbD_wide_of_ge a₁ (by omega), getLsbD_wide_of_ge b₁ (by omega)] at this
    simpa [getLsbD_wide, show i + 16 < 32 by omega] using this

/-- The byte at index `i` of a tail, `0` past its end. -/
def tailByte (tail : List UInt8) (i : ℕ) : UInt8 := tail.getD i 0

/-- A tail is one word mixed in; an empty one is the word `0`, which changes nothing. -/
theorem mixTail_eq (h1 : BitVec 32) {tail : List UInt8} (hlt : tail.length < 4) :
    mixTail h1 tail = h1 ^^^ scramble (wide (tailByte tail 2) <<< 16 ^^^
      wide (tailByte tail 1) <<< 8 ^^^ wide (tailByte tail 0)) := by
  match tail, hlt with
  | [], _ =>
    have h0 : scramble 0#32 = 0#32 := by decide +kernel
    simp [mixTail, tailByte, wide_zero, h0]
  | [_], _ => simp [mixTail, tailByte, wide_zero]
  | [_, _], _ => simp [mixTail, tailByte, wide_zero]
  | [_, _, _], _ => rfl

theorem eq_of_tailByte {x y : List UInt8} (hlen : x.length = y.length) (hlt : x.length < 4)
    (h : tailByte x 0 = tailByte y 0 ∧ tailByte x 1 = tailByte y 1 ∧ tailByte x 2 = tailByte y 2) :
    x = y := by
  apply List.ext_getElem hlen
  intro i hx hy
  have hi : i = 0 ∨ i = 1 ∨ i = 2 := by omega
  rcases hi with rfl | rfl | rfl
  · simpa [tailByte, hx, hy] using h.1
  · simpa [tailByte, hx, hy] using h.2.1
  · simpa [tailByte, hx, hy] using h.2.2

theorem mixTail_inj {h1 : BitVec 32} {x y : List UInt8} (hlen : x.length = y.length)
    (hlt : x.length < 4) (h : mixTail h1 x = mixTail h1 y) : x = y := by
  rw [mixTail_eq h1 hlt, mixTail_eq h1 (hlen ▸ hlt), BitVec.xor_comm h1, BitVec.xor_comm h1] at h
  exact eq_of_tailByte hlen hlt (tailWord_inj (scramble_injective (xor_injective h1 h)))

/-! ## Keys that differ in one word -/

/-- The keys have the same length and the same bytes outside word `i`. -/
structure AgreeOutside (i : ℕ) (k k' : Key) : Prop where
  length : k'.bytes.length = k.bytes.length
  bytes : ∀ j, j / 4 ≠ i → k'.bytes[j]? = k.bytes[j]?

/-- The bytes of word `i` of a key, fewer than four in the tail. -/
def Key.word (k : Key) (i : ℕ) : List UInt8 := (k.bytes.drop (4 * i)).take 4

theorem Key.bytes_eq (k : Key) (i : ℕ) :
    k.bytes = k.bytes.take (4 * i) ++ (k.word i ++ k.bytes.drop (4 * i + 4)) := by
  rw [Key.word, ← List.drop_drop, List.take_append_drop, List.take_append_drop]

namespace AgreeOutside

variable {i : ℕ} {k k' : Key}

protected theorem refl (i : ℕ) (k : Key) : AgreeOutside i k k := ⟨rfl, fun _ _ => rfl⟩

theorem take_eq (h : AgreeOutside i k k') : k'.bytes.take (4 * i) = k.bytes.take (4 * i) := by
  apply List.ext_getElem?
  intro j
  rw [List.getElem?_take, List.getElem?_take]
  split_ifs with hj
  · exact h.bytes j (by omega)
  · rfl

theorem drop_eq (h : AgreeOutside i k k') : k'.bytes.drop (4 * i + 4) = k.bytes.drop (4 * i + 4) := by
  apply List.ext_getElem?
  intro j
  rw [List.getElem?_drop, List.getElem?_drop]
  exact h.bytes _ (by omega)

theorem bytes_eq (h : AgreeOutside i k k') :
    k'.bytes = k.bytes.take (4 * i) ++ (k'.word i ++ k.bytes.drop (4 * i + 4)) := by
  rw [← h.take_eq, ← h.drop_eq]
  exact k'.bytes_eq i

theorem word_length (h : AgreeOutside i k k') : (k'.word i).length = (k.word i).length := by
  simp only [Key.word, List.length_take, List.length_drop, h.length]

theorem eq_of_word (h : AgreeOutside i k k') (hw : k'.word i = k.word i) : k' = k := by
  have hb := h.bytes_eq
  rw [hw, ← k.bytes_eq i] at hb
  cases k
  cases k'
  congr

end AgreeOutside

theorem exists_four_bytes : ∀ {x : List UInt8}, x.length = 4 → ∃ b₀ b₁ b₂ b₃, x = [b₀, b₁, b₂, b₃]
  | [b₀, b₁, b₂, b₃], _ => ⟨b₀, b₁, b₂, b₃, rfl⟩

/-- The word is mixed into the accumulator without loss, as a round of the body or as the tail. -/
theorem finish_word_inj {n : ℕ} {h1 : BitVec 32} {x y post : List UInt8} (hlen : x.length = y.length)
    (hx : x.length = 4 ∨ x.length < 4 ∧ post = [])
    (h : finish n h1 (x ++ post) = finish n h1 (y ++ post)) : x = y := by
  rcases hx with h4 | ⟨hlt, rfl⟩
  · obtain ⟨a₀, a₁, a₂, a₃, rfl⟩ := exists_four_bytes h4
    obtain ⟨b₀, b₁, b₂, b₃, rfl⟩ := exists_four_bytes (hlen ▸ h4)
    simp only [List.cons_append, List.nil_append, finish_block] at h
    exact getblock32_inj (mixBlock_injective_right h1 (finish_injective n post h))
  · have hbody {z : List UInt8} (hz : z.length < 4) : murmurBody h1 z = (h1, z) :=
      murmurBody.eq_2 h1 z fun _ _ _ _ _ hz' => by
        simp only [hz', List.length_cons] at hz
        omega
    rw [List.append_nil, List.append_nil, finish, finish, hbody hlt, hbody (hlen ▸ hlt)] at h
    exact mixTail_inj hlen hlt (xor_injective _ (fmix32_injective h))

theorem Key.word_cases (k : Key) {i : ℕ} (hi : 4 * i ≤ k.bytes.length) :
    (k.word i).length = 4 ∨ (k.word i).length < 4 ∧ k.bytes.drop (4 * i + 4) = [] := by
  simp only [Key.word, List.length_take, List.length_drop, List.drop_eq_nil_iff]
  omega

/-- The hash value of a key depends on its word `i` through the accumulator the words before leave. -/
theorem exists_murmurHash_eq (k : Key) {i : ℕ} (hi : 4 * i ≤ k.bytes.length) :
    ∃ h1, ∀ k', AgreeOutside i k k' → murmurHash3X8632 k'.bytes =
      finish k.bytes.length h1 (k'.word i ++ k.bytes.drop (4 * i + 4)) := by
  have hdvd : 4 ∣ (k.bytes.take (4 * i)).length := by simp [hi]
  obtain ⟨h1, hacc⟩ := exists_accumulator k.bytes.length _ hdvd 0#32
  refine ⟨h1, fun k' h => ?_⟩
  rw [murmurHash3X8632, h.length, h.bytes_eq, hacc]

/-- **Keys that differ inside one word do not collide**: two keys of one length with the same bytes
outside one aligned word of four, or outside the tail, have different hash values. -/
theorem murmurHash_ne {i : ℕ} {k k' : Key} (h : AgreeOutside i k k') (hne : k' ≠ k) :
    murmurHash k' ≠ murmurHash k := by
  intro heq
  apply hne
  apply h.eq_of_word
  by_cases hi : 4 * i ≤ k.bytes.length
  · obtain ⟨h1, hread⟩ := exists_murmurHash_eq k hi
    have hhash : murmurHash3X8632 k'.bytes = murmurHash3X8632 k.bytes :=
      congrArg UInt32.toBitVec heq
    rw [hread k' h, hread k (.refl i k)] at hhash
    exact finish_word_inj h.word_length (h.word_length ▸ k.word_cases hi) hhash
  · -- there is no such word: both are empty
    simp [Key.word, List.drop_eq_nil_of_le (show k.bytes.length ≤ 4 * i by omega),
      List.drop_eq_nil_of_le (show k'.bytes.length ≤ 4 * i by rw [h.length]; omega)]

/-- Keys `"aaaab"` and `"aaaac"`, which differ in the tail. -/
example :
    murmurHash ⟨[97, 97, 97, 97, 99], by decide⟩ ≠ murmurHash ⟨[97, 97, 97, 97, 98], by decide⟩ :=
  have hagree : AgreeOutside 1 ⟨[97, 97, 97, 97, 98], by decide⟩ ⟨[97, 97, 97, 97, 99], by decide⟩ :=
    ⟨rfl, fun j hj => by
      rcases Nat.lt_or_ge j 4 with h | h
      · interval_cases j <;> rfl
      · rw [List.getElem?_eq_none (by simp; omega), List.getElem?_eq_none (by simp; omega)]⟩
  murmurHash_ne hagree (by decide)

/-! ## Spread over buckets and locks -/

/-- The key with word `i` replaced by the bytes of `x`. -/
def Key.withWord (k : Key) {i : ℕ} (hi : 4 * i + 4 ≤ k.bytes.length) (x : BitVec 32) : Key where
  bytes := k.bytes.take (4 * i) ++ (leBytes x ++ k.bytes.drop (4 * i + 4))
  length_le := by
    have := k.length_le
    simp only [List.length_append, List.length_take, List.length_drop, leBytes, List.length_cons,
      List.length_nil]
    omega

section Spread

variable {k : Key} {i : ℕ} (hi : 4 * i + 4 ≤ k.bytes.length)

theorem leBytes_length (x : BitVec 32) : (leBytes x).length = 4 := rfl

theorem withWord_bytes (x : BitVec 32) :
    (k.withWord hi x).bytes = k.bytes.take (4 * i) ++ (leBytes x ++ k.bytes.drop (4 * i + 4)) := rfl

theorem withWord_word (x : BitVec 32) : (k.withWord hi x).word i = leBytes x := by
  have hpre : (k.bytes.take (4 * i)).length = 4 * i := by
    rw [List.length_take]
    omega
  rw [Key.word, withWord_bytes, List.drop_left' hpre, List.take_left' (leBytes_length x)]

theorem agreeOutside_withWord (x : BitVec 32) : AgreeOutside i k (k.withWord hi x) where
  length := by
    simp only [Key.withWord, List.length_append, List.length_take, List.length_drop, leBytes_length]
    omega
  bytes j hj := by
    have hpre : (k.bytes.take (4 * i)).length = 4 * i := by
      rw [List.length_take]
      omega
    rw [withWord_bytes]
    rcases Nat.lt_or_ge j (4 * i) with hlt | hge
    · rw [List.getElem?_append_left (by omega), List.getElem?_take_of_lt hlt]
    · rw [List.getElem?_append_right (by omega),
        List.getElem?_append_right (by rw [leBytes_length]; omega), List.getElem?_drop, leBytes_length,
        hpre]
      congr 1
      omega

theorem leBytes_getblock32 (b₀ b₁ b₂ b₃ : UInt8) :
    leBytes (getblock32 b₀ b₁ b₂ b₃) = [b₀, b₁, b₂, b₃] :=
  getblock32_inj (getblock32_leBytes _)

theorem leBytes_injective : Function.Injective leBytes := by
  intro x y h
  simp only [leBytes, List.cons.injEq, and_true] at h
  rw [← getblock32_leBytes x, ← getblock32_leBytes y, h.1, h.2.1, h.2.2.1, h.2.2.2]

/-- The keys that agree with `k` outside a whole word are one for each value of the word. -/
theorem AgreeOutside.exists_withWord {k' : Key} (h : AgreeOutside i k k') :
    ∃ x, k.withWord hi x = k' := by
  have hword : (k'.word i).length = 4 := by
    simp only [Key.word, List.length_take, List.length_drop, h.length]
    omega
  obtain ⟨b₀, b₁, b₂, b₃, hb⟩ := exists_four_bytes hword
  refine ⟨getblock32 b₀ b₁ b₂ b₃, ?_⟩
  have hbytes : (k.withWord hi (getblock32 b₀ b₁ b₂ b₃)).bytes = k'.bytes := by
    rw [h.bytes_eq, hb, withWord_bytes, leBytes_getblock32]
  cases k'
  exact Key.mk.injEq .. ▸ hbytes

theorem withWord_injective : Function.Injective (k.withWord hi) := by
  intro x y h
  apply leBytes_injective
  rw [← withWord_word hi x, ← withWord_word hi y, h]

theorem murmurHash_withWord_injective :
    Function.Injective fun x => (murmurHash (k.withWord hi x)).toBitVec := by
  intro x y h
  by_contra hne
  have hagree : AgreeOutside i (k.withWord hi y) (k.withWord hi x) :=
    ⟨by rw [(agreeOutside_withWord hi x).length, (agreeOutside_withWord hi y).length],
      fun j hj => by rw [(agreeOutside_withWord hi x).bytes j hj, (agreeOutside_withWord hi y).bytes j hj]⟩
  exact murmurHash_ne hagree (fun he => hne (withWord_injective hi he)) (UInt32.toBitVec_inj.mp h)

end Spread

/-- **The keys that differ in one word are spread evenly**: whatever the other bytes of a key are,
each of the `2 ^ p` buckets of a table gets `2 ^ (32 - p)` of the `2 ^ 32` keys. With `p` the power
of the item locks, so does each item lock. -/
theorem murmurHash_spreads {k : Key} {i p b : ℕ} (hi : 4 * i + 4 ≤ k.bytes.length) (hp : p ≤ 32)
    (hb : b < Store.hashsize p) :
    Nat.card {k' // AgreeOutside i k k' ∧ (murmurHash k').toNat &&& Store.hashmask p = b} =
      2 ^ (32 - p) := by
  rw [← card_low_bits_of_injective (murmurHash_withWord_injective hi) hp hb]
  symm
  refine Nat.card_eq_of_bijective (fun x => ⟨k.withWord hi x.1, agreeOutside_withWord hi x.1, ?_⟩)
    ⟨?_, ?_⟩
  · rw [and_hashmask]
    exact x.2
  · rintro ⟨x, hx⟩ ⟨y, hy⟩ h
    exact Subtype.ext (withWord_injective hi (congrArg Subtype.val h))
  · rintro ⟨k', hk', hmask⟩
    obtain ⟨x, rfl⟩ := hk'.exists_withWord hi
    rw [and_hashmask] at hmask
    exact ⟨⟨x, hmask⟩, rfl⟩

/-- The keys of four bytes, over the item locks. -/
theorem murmurHash_spreads_locks :
    Nat.card {k' // AgreeOutside 0 ⟨[0, 0, 0, 0], by decide⟩ k' ∧
      (murmurHash k').toNat &&& Store.hashmask Store.lgPower = 5} = 2 ^ 19 :=
  murmurHash_spreads (by decide) (by decide) (by decide)

end Mdb
