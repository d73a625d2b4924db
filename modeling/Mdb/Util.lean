import Mdb.Lib.CText

/-!
# Numbers from text

The functions of `util.cpp` that read a number from a client's text.

* `CString`: what a `char*` points at; `textBytes`: characters as bytes;
* `safeParse`: the body that `safeStrtoull`, `safeStrtoll`, `safeStrtoul` and `safeStrtol` share;
* `Exact`: they accept the numerals of the output type, with their values, and nothing else;
* **`safe_parse_exact_iff`**: `safe_strtoll` is exact. `safe_strtoull` is exact except for negative
  numerals below `-2^63`, whose modular negation looks positive again, and for large positive ones
  with a `-` somewhere behind them. `safe_strtoul` and `safe_strtol` are exact only where nothing is
  lost when the 64-bit number is cut to 32 bits.
-/

namespace Mdb

open CText

/-- What a `const char*` argument points at: bytes without a NUL, up to the terminating one. -/
structure CString where
  bytes : List UInt8
  no_nul : 0 ∉ bytes
  deriving DecidableEq

/-- `""`. -/
def CString.empty : CString := ⟨[], by decide⟩

/-- A text as bytes. -/
def textBytes (text : List Char) : List UInt8 := text.map Char.toUInt8

/-! ## The functions -/

/-- `xisspace(*endptr)`; at the end of the text `*endptr` is the NUL, which is no blank. -/
def xisspace (endptr : List UInt8) : Bool := endptr.head?.any isSpace

/-- What the functions do with the number that was parsed: what is returned, and `*out`. A number
is turned down by `reject` and stored by `narrow`. -/
def safeParse {α β : Type} [Zero β] (str : List UInt8) (parsed : Parsed α) (reject : α → Bool)
    (narrow : α → β) : Bool × β :=
  if parsed.erange = true ∨ str = parsed.endptr then (false, 0)
  else if xisspace parsed.endptr ∨ parsed.endptr = [] ∧ parsed.endptr ≠ str then
    if reject parsed.val then (false, 0) else (true, narrow parsed.val)
  else (false, 0)

/-- The guess that an unsigned number was negated: it is negative as a signed number, and
`strchr` finds a minus sign. -/
def looksNegative (str : List UInt8) (ull : UInt64) : Bool := ull.toInt64 < 0 ∧ minus ∈ str

/-- `safe_strtoull`. -/
def safeStrtoull (str : List UInt8) : Bool × UInt64 :=
  safeParse str (strtoull str) (looksNegative str) id

/-- `safe_strtoll`. -/
def safeStrtoll (str : List UInt8) : Bool × Int64 :=
  safeParse str (strtoll str) (fun _ => false) id

/-- `safe_strtoul`; `strtoul` is `strtoull` where `long` has 64 bits, and `*out` has 32. -/
def safeStrtoul (str : List UInt8) : Bool × UInt32 :=
  safeParse str (strtoull str) (looksNegative str) UInt64.toUInt32

/-- `safe_strtol`; `strtol` is `strtoll` where `long` has 64 bits, and `*out` has 32. -/
def safeStrtol (str : List UInt8) : Bool × Int32 :=
  safeParse str (strtoll str) (fun _ => false) Int64.toInt32

/-! ## What is accepted -/

theorem xisspace_or_nil {rest : List UInt8} :
    (xisspace rest = true ∨ rest = []) ↔ ∀ c ∈ rest.head?, isSpace c = true := by
  cases rest with
  | nil => simp
  | cons c cs => simp [xisspace]

section
variable {α β : Type} [Zero β] {str rest : List UInt8} {v : ℤ} {x : α} {e : Bool}
  {reject : α → Bool} {narrow : α → β}

theorem safeParse_of_read (h : read str = some (v, rest)) (e : Bool) :
    safeParse str ⟨x, rest, e⟩ reject narrow =
      if e = false ∧ (∀ c ∈ rest.head?, isSpace c = true) ∧ reject x = false
      then (true, narrow x) else (false, 0) := by
  have hne := read_ne_self h
  simp only [safeParse, hne.symm, or_false, ne_eq, hne, not_false_eq_true, and_true,
    xisspace_or_nil]
  cases e <;> cases reject x <;> simp

end

theorem toNat_ofInt (v : ℤ) : ((UInt64.ofInt v).toNat : ℤ) = v % 2 ^ 64 := by
  have h : 0 ≤ v % 2 ^ 64 := Int.emod_nonneg v (by norm_num)
  have h' : v % 2 ^ 64 < 2 ^ 64 := Int.emod_lt_of_pos v (by norm_num)
  rw [UInt64.ofInt, UInt64.toNat_ofNat', Nat.mod_eq_of_lt (by omega), Int.toNat_of_nonneg h]

theorem toNat_toUInt32_ofInt (v : ℤ) : ((UInt64.ofInt v).toUInt32.toNat : ℤ) = v % 2 ^ 32 := by
  have := toNat_ofInt v
  rw [UInt64.toNat_toUInt32]
  omega

theorem toInt64_neg_iff (x : UInt64) : x.toInt64 < 0 ↔ 2 ^ 63 ≤ x.toNat := by
  rw [Int64.lt_iff_toInt_lt]
  have h : x.toInt64.toInt < 0 ↔ 2 ^ 64 ≤ 2 * x.toBitVec.toNat := BitVec.toInt_neg_iff
  simp only [Int64.toInt_zero, h, UInt64.toNat_toBitVec]
  omega

theorem looksNegative_iff {str : List UInt8} {v : ℤ} :
    looksNegative str (UInt64.ofInt v) = true ↔ 2 ^ 63 ≤ v % 2 ^ 64 ∧ minus ∈ str := by
  have h := toNat_ofInt v
  simp only [looksNegative, decide_eq_true_eq, toInt64_neg_iff]
  apply and_congr_left'
  omega

section
variable {β : Type} [Zero β] {str : List UInt8} {v : ℤ}

theorem safeParse_not_numeral {α : Type} {parsed : Parsed α} {reject : α → Bool} {narrow : α → β}
    (h : ∀ v, ¬ IsNumeral str v) (hp : parsed.endptr = ((read str).map Prod.snd).getD str) :
    safeParse str parsed reject narrow = (false, 0) := by
  cases hr : read str with
  | none => simp [safeParse, hp, hr]
  | some r =>
    have hend : parsed.endptr = r.2 := by simp [hp, hr]
    have hne : r.2 ≠ str := read_ne_self hr
    have hrest : ¬ ∀ c ∈ r.2.head?, isSpace c = true := by
      intro hc
      exact h r.1 (isNumeral_iff.2 ⟨r.2, hr, hc⟩)
    rw [← xisspace_or_nil, not_or] at hrest
    simp [safeParse, hend, hne, hrest]

/-- **The unsigned functions on a numeral**: its magnitude must fit 64 bits, and it must not look
negative. -/
theorem unsigned_numeral (narrow : UInt64 → β) (h : IsNumeral str v) :
    safeParse str (strtoull str) (looksNegative str) narrow =
      if (-2 ^ 64 < v ∧ v < 2 ^ 64) ∧ ¬ (2 ^ 63 ≤ v % 2 ^ 64 ∧ minus ∈ str)
      then (true, narrow (UInt64.ofInt v)) else (false, 0) := by
  obtain ⟨rest, hr, hs⟩ := isNumeral_iff.1 h
  by_cases hv : v.natAbs < 2 ^ 64
  · have hp : strtoull str = ⟨UInt64.ofInt v, rest, false⟩ := by
      simp only [strtoull, hr, if_pos hv]
    rw [hp, safeParse_of_read hr]
    have hv' : -2 ^ 64 < v ∧ v < 2 ^ 64 := by omega
    apply if_congr _ rfl rfl
    rw [← looksNegative_iff, Bool.not_eq_true]
    simp only [hv', and_self, true_and, and_iff_right_iff_imp]
    exact fun _ => hs
  · have hp : strtoull str = ⟨-1, rest, true⟩ := by
      simp only [strtoull, hr, if_neg hv]
    have hv' : ¬ (-2 ^ 64 < v ∧ v < 2 ^ 64) := by omega
    rw [hp, safeParse_of_read hr, if_neg (by simp), if_neg (fun hc => hv' hc.1)]

theorem unsigned_not_numeral (narrow : UInt64 → β) (h : ∀ v, ¬ IsNumeral str v) :
    safeParse str (strtoull str) (looksNegative str) narrow = (false, 0) := by
  apply safeParse_not_numeral h
  unfold strtoull
  cases read str with
  | none => rfl
  | some r => by_cases hv : r.1.natAbs < 2 ^ 64 <;> simp only [hv] <;> simp

/-- **The signed functions on a numeral**: it must fit 64 bits. -/
theorem signed_numeral (narrow : Int64 → β) (h : IsNumeral str v) :
    safeParse str (strtoll str) (fun _ => false) narrow =
      if -2 ^ 63 ≤ v ∧ v < 2 ^ 63 then (true, narrow (Int64.ofInt v)) else (false, 0) := by
  obtain ⟨rest, hr, hs⟩ := isNumeral_iff.1 h
  by_cases hlo : v < -2 ^ 63
  · have hp : strtoll str = ⟨Int64.minValue, rest, true⟩ := by
      simp only [strtoll, hr, if_pos hlo]
    rw [hp, safeParse_of_read hr, if_neg (by simp), if_neg (by omega)]
  by_cases hhi : 2 ^ 63 ≤ v
  · have hp : strtoll str = ⟨Int64.maxValue, rest, true⟩ := by
      simp only [strtoll, hr, if_neg hlo, if_pos hhi]
    rw [hp, safeParse_of_read hr, if_neg (by simp), if_neg (by omega)]
  · have hp : strtoll str = ⟨Int64.ofInt v, rest, false⟩ := by
      simp only [strtoll, hr, if_neg hlo, if_neg hhi]
    rw [hp, safeParse_of_read hr, if_pos ⟨rfl, hs, rfl⟩, if_pos (by omega)]

theorem signed_not_numeral (narrow : Int64 → β) (h : ∀ v, ¬ IsNumeral str v) :
    safeParse str (strtoll str) (fun _ => false) narrow = (false, 0) := by
  apply safeParse_not_numeral h
  unfold strtoll
  cases read str with
  | none => rfl
  | some r => by_cases hlo : r.1 < -2 ^ 63 <;> by_cases hhi : 2 ^ 63 ≤ r.1 <;>
      simp only [hlo, hhi] <;> simp

end

/-! ## Exactness -/

/-- **Exact on `str`**: true for a numeral from `lo` to `hi` and for nothing else, with its value in
`*out`; after false `*out` is 0. -/
structure Exact {β : Type} [Zero β] (toInt : β → ℤ) (lo hi : ℤ) (str : List UInt8)
    (r : Bool × β) : Prop where
  accepts : r.1 = true ↔ ∃ v, IsNumeral str v ∧ lo ≤ v ∧ v ≤ hi
  value : r.1 = true → IsNumeral str (toInt r.2)
  cleared : r.1 = false → r.2 = 0

section
variable {β : Type} [Zero β] {toInt : β → ℤ} {lo hi : ℤ} {str : List UInt8}

theorem exact_of_not_numeral (h : ∀ v, ¬ IsNumeral str v) : Exact toInt lo hi str (false, 0) := by
  refine ⟨?_, ?_, ?_⟩ <;> simp [h]

theorem exact_numeral_iff {v : ℤ} (h : IsNumeral str v) (c : Prop) [Decidable c] (x : β) :
    Exact toInt lo hi str (if c then (true, x) else (false, 0)) ↔
      (c ↔ lo ≤ v ∧ v ≤ hi) ∧ (c → toInt x = v) := by
  have hiff : (∃ w, IsNumeral str w ∧ lo ≤ w ∧ w ≤ hi) ↔ lo ≤ v ∧ v ≤ hi := by
    constructor
    · rintro ⟨w, hw, hlo⟩
      rwa [h.unique hw]
    · intro hv
      exact ⟨v, h, hv⟩
  constructor
  · rintro ⟨ha, hval, -⟩
    split_ifs at ha hval with hc
    · exact ⟨by simpa [hc, hiff] using ha, fun _ => (h.unique (hval rfl)).symm⟩
    · exact ⟨by simpa [hc, hiff] using ha, fun h' => absurd h' hc⟩
  · rintro ⟨ha, hval⟩
    split_ifs with hc
    · exact ⟨by simpa [hc, hiff] using ha, fun _ => (hval hc).symm ▸ h, by simp⟩
    · exact ⟨by simpa [hc, hiff] using ha, by simp, by simp⟩

end

theorem safeStrtoull_exact_iff (str : List UInt8) :
    Exact (fun x : UInt64 => (x.toNat : ℤ)) 0 (2 ^ 64 - 1) str (safeStrtoull str) ↔
      ∀ v, IsNumeral str v → ¬ (-2 ^ 64 < v ∧ v < -2 ^ 63) ∧
        ¬ (2 ^ 63 ≤ v ∧ v < 2 ^ 64 ∧ minus ∈ str) := by
  by_cases hn : ∃ v, IsNumeral str v
  · obtain ⟨v, hv⟩ := hn
    rw [hv.forall_iff, safeStrtoull, unsigned_numeral _ hv, exact_numeral_iff hv, id, toNat_ofInt]
    have hminus : v < 0 → minus ∈ str := hv.minus_mem
    by_cases hm : minus ∈ str
    · simp only [hm, and_true]
      omega
    · have hpos : 0 ≤ v := by
        by_contra hneg
        exact hm (hminus (by omega))
      simp only [hm, and_false, not_false_eq_true, and_true]
      omega
  · push Not at hn
    simp [safeStrtoull, unsigned_not_numeral _ hn, exact_of_not_numeral hn, hn]

theorem safeStrtoul_exact_iff (str : List UInt8) :
    Exact (fun x : UInt32 => (x.toNat : ℤ)) 0 (2 ^ 32 - 1) str (safeStrtoul str) ↔
      ∀ v, IsNumeral str v → ¬ (-2 ^ 64 < v ∧ v < -2 ^ 63) ∧
        ¬ (2 ^ 32 ≤ v ∧ v < 2 ^ 64 ∧ (v < 2 ^ 63 ∨ minus ∉ str)) := by
  by_cases hn : ∃ v, IsNumeral str v
  · obtain ⟨v, hv⟩ := hn
    rw [hv.forall_iff, safeStrtoul, unsigned_numeral _ hv, exact_numeral_iff hv,
      toNat_toUInt32_ofInt]
    have hminus : v < 0 → minus ∈ str := hv.minus_mem
    by_cases hm : minus ∈ str
    · simp only [hm, and_true, not_true_eq_false, or_false]
      omega
    · have hpos : 0 ≤ v := by
        by_contra hneg
        exact hm (hminus (by omega))
      simp only [hm, and_false, not_false_eq_true, and_true, or_true]
      omega
  · push Not at hn
    simp [safeStrtoul, unsigned_not_numeral _ hn, exact_of_not_numeral hn, hn]

theorem safeStrtoll_exact (str : List UInt8) :
    Exact Int64.toInt (-2 ^ 63) (2 ^ 63 - 1) str (safeStrtoll str) := by
  by_cases hn : ∃ v, IsNumeral str v
  · obtain ⟨v, hv⟩ := hn
    rw [safeStrtoll, signed_numeral _ hv, exact_numeral_iff hv]
    constructor
    · omega
    · rintro ⟨hlo, hhi⟩
      exact Int64.toInt_ofInt_of_le hlo hhi
  · push Not at hn
    simp [safeStrtoll, signed_not_numeral _ hn, exact_of_not_numeral hn]

theorem safeStrtol_exact_iff (str : List UInt8) :
    Exact Int32.toInt (-2 ^ 31) (2 ^ 31 - 1) str (safeStrtol str) ↔
      ∀ v, IsNumeral str v → -2 ^ 63 ≤ v → v < 2 ^ 63 → -2 ^ 31 ≤ v ∧ v < 2 ^ 31 := by
  by_cases hn : ∃ v, IsNumeral str v
  · obtain ⟨v, hv⟩ := hn
    rw [hv.forall_iff, safeStrtol, signed_numeral _ hv, exact_numeral_iff hv]
    constructor
    · rintro ⟨hiff, -⟩ hlo hhi
      have := hiff.1 ⟨hlo, hhi⟩
      omega
    · intro h
      constructor
      · omega
      · rintro ⟨hlo, hhi⟩
        have hv32 := h hlo hhi
        rw [Int64.toInt_toInt32, Int64.toInt_ofInt_of_le hlo hhi]
        exact Int.bmod_eq_of_le (by omega) (by omega)
  · push Not at hn
    simp [safeStrtol, signed_not_numeral _ hn, exact_of_not_numeral hn, hn]

/-- **Where number parsing is exact**: `safe_strtoll` everywhere. The unsigned functions fail for
numerals between `-2^64` and `-2^63`, which they accept; `safe_strtoull` also fails for a large
numeral with a minus sign behind it, which it turns down; and the 32-bit functions fail for every
other numeral outside 32 bits that the 64-bit function accepts. -/
theorem safe_parse_exact_iff (str : CString) :
    (Exact (fun x : UInt64 => (x.toNat : ℤ)) 0 (2 ^ 64 - 1) str.bytes (safeStrtoull str.bytes) ↔
      ∀ v, IsNumeral str.bytes v → ¬ (-2 ^ 64 < v ∧ v < -2 ^ 63) ∧
        ¬ (2 ^ 63 ≤ v ∧ v < 2 ^ 64 ∧ minus ∈ str.bytes)) ∧
    Exact Int64.toInt (-2 ^ 63) (2 ^ 63 - 1) str.bytes (safeStrtoll str.bytes) ∧
    (Exact (fun x : UInt32 => (x.toNat : ℤ)) 0 (2 ^ 32 - 1) str.bytes (safeStrtoul str.bytes) ↔
      ∀ v, IsNumeral str.bytes v → ¬ (-2 ^ 64 < v ∧ v < -2 ^ 63) ∧
        ¬ (2 ^ 32 ≤ v ∧ v < 2 ^ 64 ∧ (v < 2 ^ 63 ∨ minus ∉ str.bytes))) ∧
    (Exact Int32.toInt (-2 ^ 31) (2 ^ 31 - 1) str.bytes (safeStrtol str.bytes) ↔
      ∀ v, IsNumeral str.bytes v → -2 ^ 63 ≤ v → v < 2 ^ 63 → -2 ^ 31 ≤ v ∧ v < 2 ^ 31) :=
  ⟨safeStrtoull_exact_iff _, safeStrtoll_exact _, safeStrtoul_exact_iff _, safeStrtol_exact_iff _⟩

/-- `-18446744073709551615` is accepted as 1, `4294967297` as the 32-bit number 1 and `2147483648`
as `-2147483648`; `9223372036854775808 -` is turned down. -/
theorem safe_parse_not_exact :
    ¬ Exact (fun x : UInt64 => (x.toNat : ℤ)) 0 (2 ^ 64 - 1)
      (textBytes "-18446744073709551615".toList) (safeStrtoull (textBytes "-18446744073709551615".toList)) ∧
    ¬ Exact (fun x : UInt64 => (x.toNat : ℤ)) 0 (2 ^ 64 - 1)
      (textBytes "9223372036854775808 -".toList) (safeStrtoull (textBytes "9223372036854775808 -".toList)) ∧
    ¬ Exact (fun x : UInt32 => (x.toNat : ℤ)) 0 (2 ^ 32 - 1) (textBytes "4294967297".toList)
      (safeStrtoul (textBytes "4294967297".toList)) ∧
    ¬ Exact Int32.toInt (-2 ^ 31) (2 ^ 31 - 1) (textBytes "2147483648".toList)
      (safeStrtol (textBytes "2147483648".toList)) ∧
    safeStrtoull (textBytes "-18446744073709551615".toList) = (true, 1) ∧
    safeStrtoull (textBytes "9223372036854775808 -".toList) = (false, 0) ∧
    safeStrtoul (textBytes "4294967297".toList) = (true, 1) ∧
    safeStrtol (textBytes "2147483648".toList) = (true, -2147483648) := by
  refine ⟨?_, ?_, ?_, ?_, by decide, by decide, by decide, by decide⟩
  · intro h
    have hv : IsNumeral (textBytes "-18446744073709551615".toList) (-18446744073709551615) :=
      isNumeral_iff.2 ⟨[], by decide, by simp⟩
    have := ((safeStrtoull_exact_iff _).1 h _ hv).1
    omega
  · intro h
    have hv : IsNumeral (textBytes "9223372036854775808 -".toList) 9223372036854775808 :=
      isNumeral_iff.2 ⟨textBytes " -".toList, by decide, by rintro c ⟨⟩; decide⟩
    have := ((safeStrtoull_exact_iff _).1 h _ hv).2
    exact this ⟨by omega, by omega, by decide⟩
  · intro h
    have hv : IsNumeral (textBytes "4294967297".toList) 4294967297 :=
      isNumeral_iff.2 ⟨[], by decide, by simp⟩
    have := ((safeStrtoul_exact_iff _).1 h _ hv).2
    omega
  · intro h
    have hv : IsNumeral (textBytes "2147483648".toList) 2147483648 :=
      isNumeral_iff.2 ⟨[], by decide, by simp⟩
    have := (safeStrtol_exact_iff _).1 h _ hv
    omega

end Mdb
