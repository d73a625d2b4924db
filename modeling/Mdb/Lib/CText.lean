import Mathlib

/-!
# Text in C

Byte strings without the NUL that ends them, as the C library reads them.

* `isSpace`, `isDigit`: the characters of the C locale;
* `IsNumeral text v`: blanks, at most one sign and digits of value `v`, up to the end or a blank;
* `read`: what `strtol` and its relatives read in base 10, and where they stop;
  **`isNumeral_iff`**: a numeral is what they read up to the end or a blank;
* `strtoull`, `strtoll`: their results, and when they set `errno`;
* `tokens`: the pieces that `strtok_r` finds.
-/

namespace CText

/-- `isspace` in the C locale: a blank, or one of `\t`, `\n`, `\v`, `\f`, `\r`. -/
def isSpace (c : UInt8) : Bool := c = 32 ∨ 9 ≤ c ∧ c ≤ 13

/-- `isdigit`. -/
def isDigit (c : UInt8) : Bool := 48 ≤ c ∧ c ≤ 57

/-- `'+'`. -/
def plus : UInt8 := 43

/-- `'-'`. -/
def minus : UInt8 := 45

/-- The value of a run of decimal digits. -/
def value (ds : List UInt8) : ℕ := ds.foldl (fun n c => 10 * n + (c.toNat - 48)) 0

/-- The value of digits after a sign. -/
def signed (sign ds : List UInt8) : ℤ := if sign = [minus] then -(value ds : ℤ) else value ds

theorem isSpace_iff {c : UInt8} :
    isSpace c = true ↔ c.toNat = 32 ∨ 9 ≤ c.toNat ∧ c.toNat ≤ 13 := by
  simp [isSpace, UInt8.le_iff_toNat_le, ← UInt8.toNat_inj]

theorem isDigit_iff {c : UInt8} : isDigit c = true ↔ 48 ≤ c.toNat ∧ c.toNat ≤ 57 := by
  simp [isDigit, UInt8.le_iff_toNat_le]

theorem not_isSpace_of_isDigit {c : UInt8} (h : isDigit c = true) : isSpace c = false := by
  rw [isDigit_iff] at h
  rw [← Bool.not_eq_true, isSpace_iff]
  omega

theorem not_isDigit_of_isSpace {c : UInt8} (h : isSpace c = true) : isDigit c = false := by
  rw [isSpace_iff] at h
  rw [← Bool.not_eq_true, isDigit_iff]
  omega

theorem isDigit_ne_sign {c : UInt8} (h : isDigit c = true) : c ≠ plus ∧ c ≠ minus := by
  rw [isDigit_iff] at h
  constructor
  · rintro rfl
    simp [plus] at h
  · rintro rfl
    simp [minus] at h

/-! ## Numerals -/

/-- `text` is blanks, a sign or none, digits, and `rest`. -/
structure Splits (text blanks sign digits rest : List UInt8) : Prop where
  eq : text = blanks ++ (sign ++ (digits ++ rest))
  blanks : ∀ c ∈ blanks, isSpace c = true
  sign : sign = [] ∨ sign = [plus] ∨ sign = [minus]
  ne_nil : digits ≠ []
  digits : ∀ c ∈ digits, isDigit c = true

/-- **A numeral**: blanks, a sign or none, and digits of value `v`, followed by nothing or a blank. -/
def IsNumeral (text : List UInt8) (v : ℤ) : Prop :=
  ∃ blanks sign digits rest, Splits text blanks sign digits rest ∧
    (∀ c ∈ rest.head?, isSpace c = true) ∧ v = signed sign digits

/-- The sign at the front of a text, and what follows it. -/
def readSign : List UInt8 → List UInt8 × List UInt8
  | [] => ([], [])
  | c :: cs => if c = plus ∨ c = minus then ([c], cs) else ([], c :: cs)

/-- **What is read in base 10**: the number and the text behind it, unless there are no digits. -/
def read (text : List UInt8) : Option (ℤ × List UInt8) :=
  let r := readSign (text.dropWhile isSpace)
  let ds := r.2.takeWhile isDigit
  if ds = [] then none else some (signed r.1 ds, r.2.dropWhile isDigit)

theorem readSign_append {sign body : List UInt8} (hs : sign = [] ∨ sign = [plus] ∨ sign = [minus])
    (hb : ∀ c ∈ body.head?, c ≠ plus ∧ c ≠ minus) : readSign (sign ++ body) = (sign, body) := by
  rcases hs with rfl | rfl | rfl
  · cases body with
    | nil => rfl
    | cons c cs =>
      have := hb c rfl
      rw [List.nil_append, readSign, if_neg (by tauto)]
  · simp [readSign]
  · simp [readSign]

theorem readSign_cons (c : UInt8) (cs : List UInt8) :
    readSign (c :: cs) = if c = plus ∨ c = minus then ([c], cs) else ([], c :: cs) := rfl

theorem readSign_spec (body : List UInt8) :
    body = (readSign body).1 ++ (readSign body).2 ∧
      ((readSign body).1 = [] ∨ (readSign body).1 = [plus] ∨ (readSign body).1 = [minus]) := by
  cases body with
  | nil => simp [readSign]
  | cons c cs =>
    rw [readSign_cons]
    split_ifs with h
    · simpa using h
    · simp

/-! ## What is read -/

theorem takeWhile_run {p : UInt8 → Bool} {run rest : List UInt8} (hr : ∀ c ∈ run, p c = true)
    (hs : ∀ c ∈ rest.head?, p c = false) : (run ++ rest).takeWhile p = run := by
  rw [List.takeWhile_append_of_pos hr]
  cases rest with
  | nil => simp
  | cons c cs => simp [hs c rfl]

theorem dropWhile_run {p : UInt8 → Bool} {run rest : List UInt8} (hr : ∀ c ∈ run, p c = true)
    (hs : ∀ c ∈ rest.head?, p c = false) : (run ++ rest).dropWhile p = rest := by
  rw [List.dropWhile_append_of_pos hr]
  cases rest with
  | nil => simp
  | cons c cs => simp [hs c rfl]

theorem head?_dropWhile_eq_false {p : UInt8 → Bool} {l : List UInt8} :
    ∀ c ∈ (l.dropWhile p).head?, p c = false := by
  intro c hc
  have h := List.head?_dropWhile_not p l
  rw [Option.mem_def] at hc
  rw [hc] at h
  simpa using h

/-- **A numeral is read as its value**, up to the text behind its digits. -/
theorem Splits.read {text blanks sign digits rest : List UInt8}
    (h : Splits text blanks sign digits rest) (hr : ∀ c ∈ rest.head?, isDigit c = false) :
    read text = some (signed sign digits, rest) := by
  obtain ⟨d, ds, hd⟩ := List.exists_cons_of_ne_nil h.ne_nil
  have hdig : isDigit d = true := h.digits d (by simp [hd])
  have hsign : ∀ c ∈ (digits ++ rest).head?, c ≠ plus ∧ c ≠ minus := by
    intro c hc
    have : d = c := by simpa [hd] using hc
    exact this ▸ isDigit_ne_sign hdig
  -- the blanks end at the sign, or at the first digit where there is none
  have hblank : ∀ c ∈ (sign ++ (digits ++ rest)).head?, isSpace c = false := by
    intro c hc
    rcases h.sign with hs | hs | hs
    · have : d = c := by simpa [hd, hs] using hc
      exact this ▸ not_isSpace_of_isDigit hdig
    · have : plus = c := by simpa [hs] using hc
      exact this ▸ by decide
    · have : minus = c := by simpa [hs] using hc
      exact this ▸ by decide
  have hbody : text.dropWhile isSpace = sign ++ (digits ++ rest) := by
    rw [h.eq]
    exact dropWhile_run h.blanks hblank
  simp only [CText.read, hbody, readSign_append h.sign hsign, takeWhile_run h.digits hr,
    dropWhile_run h.digits hr, if_neg h.ne_nil]

/-- **What is read stands there**: blanks, a sign or none, digits of that value, and the rest. -/
theorem splits_of_read {text rest : List UInt8} {v : ℤ} (h : read text = some (v, rest)) :
    ∃ blanks sign digits, Splits text blanks sign digits rest ∧ v = signed sign digits ∧
      ∀ c ∈ rest.head?, isDigit c = false := by
  simp only [CText.read] at h
  split_ifs at h with hd
  have hbody := readSign_spec (text.dropWhile isSpace)
  revert h hd hbody
  generalize readSign (text.dropWhile isSpace) = r
  intro hd h hbody
  obtain ⟨hv, hrest⟩ : signed r.1 (r.2.takeWhile isDigit) = v ∧ r.2.dropWhile isDigit = rest := by
    simpa using h
  refine ⟨text.takeWhile isSpace, r.1, r.2.takeWhile isDigit, ⟨?_, ?_, hbody.2, hd, ?_⟩, hv.symm, ?_⟩
  · rw [← hrest, List.takeWhile_append_dropWhile, ← hbody.1, List.takeWhile_append_dropWhile]
  · intro c hc
    exact List.mem_takeWhile_imp hc
  · intro c hc
    exact List.mem_takeWhile_imp hc
  · rw [← hrest]
    exact head?_dropWhile_eq_false

/-- **A numeral is what is read up to the end or a blank**, so its value is determined. -/
theorem isNumeral_iff {text : List UInt8} {v : ℤ} :
    IsNumeral text v ↔ ∃ rest, read text = some (v, rest) ∧ ∀ c ∈ rest.head?, isSpace c = true := by
  constructor
  · rintro ⟨blanks, sign, digits, rest, h, hr, rfl⟩
    refine ⟨rest, h.read ?_, hr⟩
    intro c hc
    exact not_isDigit_of_isSpace (hr c hc)
  · rintro ⟨rest, h, hr⟩
    obtain ⟨blanks, sign, digits, hs, hv, -⟩ := splits_of_read h
    exact ⟨blanks, sign, digits, rest, hs, hr, hv⟩

instance (text : List UInt8) (v : ℤ) : Decidable (IsNumeral text v) :=
  decidable_of_iff ((read text).any fun r => r.1 = v ∧ r.2.head?.all isSpace = true) <| by
    rw [isNumeral_iff, Option.any_eq_true]
    constructor
    · rintro ⟨r, hr, h⟩
      simp only [Option.all_eq_true, decide_eq_true_eq] at h
      exact ⟨r.2, by rw [hr, ← h.1], fun c hc => h.2 c hc⟩
    · rintro ⟨rest, hr, hs⟩
      refine ⟨(v, rest), hr, ?_⟩
      simp only [Option.all_eq_true, decide_eq_true_eq]
      exact ⟨trivial, fun c hc => hs c hc⟩

theorem IsNumeral.unique {text : List UInt8} {v w : ℤ} (hv : IsNumeral text v)
    (hw : IsNumeral text w) : v = w := by
  obtain ⟨rest, hr, -⟩ := isNumeral_iff.1 hv
  obtain ⟨rest', hr', -⟩ := isNumeral_iff.1 hw
  rw [hr] at hr'
  simp only [Option.some.injEq, Prod.mk.injEq] at hr'
  exact hr'.1

theorem IsNumeral.forall_iff {text : List UInt8} {v : ℤ} (hv : IsNumeral text v) {P : ℤ → Prop} :
    (∀ w, IsNumeral text w → P w) ↔ P v := by
  constructor
  · intro h
    exact h v hv
  · intro h w hw
    exact hv.unique hw ▸ h

theorem IsNumeral.exists_iff {text : List UInt8} {v : ℤ} (hv : IsNumeral text v) {P : ℤ → Prop} :
    (∃ w, IsNumeral text w ∧ P w) ↔ P v := by
  constructor
  · rintro ⟨w, hw, h⟩
    exact hv.unique hw ▸ h
  · intro h
    exact ⟨v, hv, h⟩

/-- A negative value has a minus sign in front. -/
theorem IsNumeral.minus_mem {text : List UInt8} {v : ℤ} (h : IsNumeral text v) (hv : v < 0) :
    minus ∈ text := by
  obtain ⟨blanks, sign, digits, rest, hs, -, rfl⟩ := h
  unfold signed at hv
  split_ifs at hv with hm
  · rw [hs.eq, hm]
    simp
  · omega

theorem read_ne_self {text rest : List UInt8} {v : ℤ} (h : read text = some (v, rest)) :
    rest ≠ text := by
  obtain ⟨blanks, sign, digits, hs, -, -⟩ := splits_of_read h
  intro heq
  have hlen := congrArg List.length hs.eq
  have := List.length_pos_of_ne_nil hs.ne_nil
  simp only [heq, List.length_append] at hlen
  omega

/-! ## `strtoull` and `strtoll` -/

/-- What the functions return, where they point `endptr`, and whether `errno` is `ERANGE`. -/
structure Parsed (α : Type) where
  val : α
  endptr : List UInt8
  erange : Bool
  deriving DecidableEq

/-- `strtoull(str, &endptr, 10)` where `unsigned long long` has 64 bits: the magnitude must fit,
and a minus sign negates modulo `2^64`. -/
def strtoull (str : List UInt8) : Parsed UInt64 :=
  match read str with
  | none => ⟨0, str, false⟩
  | some (v, rest) =>
    if v.natAbs < 2 ^ 64 then ⟨UInt64.ofInt v, rest, false⟩ else ⟨-1, rest, true⟩

/-- `strtoll(str, &endptr, 10)` where `long long` has 64 bits. -/
def strtoll (str : List UInt8) : Parsed Int64 :=
  match read str with
  | none => ⟨0, str, false⟩
  | some (v, rest) =>
    if v < -2 ^ 63 then ⟨Int64.minValue, rest, true⟩
    else if 2 ^ 63 ≤ v then ⟨Int64.maxValue, rest, true⟩
    else ⟨Int64.ofInt v, rest, false⟩

/-! ## `strtok_r` -/

/-- The non-empty pieces of `text` between the delimiters: what a run of `strtok_r` calls finds. -/
def tokens (delim : UInt8) (text : List UInt8) : List (List UInt8) :=
  (text.splitOn delim).filter (· ≠ [])

end CText
