import Mdb.Engine

/-!
# Expiry times

`RealTime` turns the 64-bit time a client asks for into the 32-bit relative time that `DoItemGet`
compares with the clock.

* `deadline`: the moment that was asked for; `Faithful`: 0 stands for no deadline, and from now on a
  time has come exactly when its deadline has;
* `Convertible`: the requests that 32 bits can express;
* **`realTime_faithful_iff`**: those are the requests that are converted faithfully;
* `isDead_iff_deadline`: what follows for an item with such a time;
* `realTime_not_faithful`: a delta that reaches back to the start of the process becomes 0, so that
  the item never expires; one that reaches back further comes out in the far future.
-/

namespace Mdb

/-- The absolute time that `exptime` asks for at the absolute time `now`. -/
def deadline (now : ℕ) (exptime : Int64) : ℤ :=
  if exptime ≤ realtimeMaxdelta then now + exptime.toInt else exptime.toInt

/-- **`rt` stands for `exptime`**: it is 0 for 0 only, and otherwise `rt <= t` says at every relative
time `t` from now on that the deadline is not after `start + t`. -/
structure Faithful (start now : ℕ) (exptime : Int64) (rt : UInt32) : Prop where
  zero_iff : rt = 0 ↔ exptime = 0
  due_iff : exptime ≠ 0 → ∀ t : UInt32, now - start ≤ t.toNat →
    (rt ≤ t ↔ deadline now exptime ≤ start + t.toNat)

/-- The requests that fit: no deadline; a time after the start, by less than `2^32` seconds; a time
at or before the start, once the process is a second old; a delay that ends before the relative
time `2^32`; and a delay of `-d` seconds if `d`, modulo `2^32`, is less than the age of the
process. -/
def Convertible (start now : ℕ) (exptime : ℤ) : Prop :=
  exptime = 0 ∨
  (realtimeMaxdelta.toInt < exptime ∧ start < exptime ∧ exptime - start < 2 ^ 32) ∨
  (realtimeMaxdelta.toInt < exptime ∧ exptime ≤ start ∧ start < now) ∨
  (0 < exptime ∧ exptime ≤ realtimeMaxdelta.toInt ∧ now - start + exptime < 2 ^ 32) ∨
  (exptime < 0 ∧ -exptime % 2 ^ 32 < now - start)

instance (start now : ℕ) (exptime : ℤ) : Decidable (Convertible start now exptime) :=
  inferInstanceAs (Decidable (_ ∨ _))

theorem realtimeMaxdelta_toInt : realtimeMaxdelta.toInt = 2592000 := by decide

theorem uint32_toNat_ofInt (v : ℤ) : ((UInt32.ofInt v).toNat : ℤ) = v % 2 ^ 32 := by
  have h : 0 ≤ v % 2 ^ 32 := Int.emod_nonneg v (by norm_num)
  have h' : v % 2 ^ 32 < 2 ^ 32 := Int.emod_lt_of_pos v (by norm_num)
  rw [UInt32.ofInt, UInt32.toNat_ofNat', Nat.mod_eq_of_lt (by omega), Int.toNat_of_nonneg h]

theorem eq_zero_iff_toInt {x : Int64} : x = 0 ↔ x.toInt = 0 := by
  rw [← Int64.toInt_inj, Int64.toInt_zero]

/-- `RealTime` as a number. -/
theorem realTime_toNat (started now : UInt32) (exptime : Int64) :
    ((realTime started now exptime).toNat : ℤ) =
      if exptime.toInt = 0 then 0
      else if 2592000 < exptime.toInt then
        if exptime.toInt ≤ started.toNat then 1 else (exptime.toInt - started.toNat) % 2 ^ 32
      else (exptime.toInt + now.toNat) % 2 ^ 32 := by
  simp only [realTime, eq_zero_iff_toInt, Int64.lt_iff_toInt_lt, realtimeMaxdelta_toInt]
  split_ifs
  · rfl
  · rfl
  · exact uint32_toNat_ofInt _
  · exact uint32_toNat_ofInt _

theorem deadline_eq (now : ℕ) (exptime : Int64) :
    deadline now exptime =
      if exptime.toInt ≤ 2592000 then now + exptime.toInt else exptime.toInt := by
  simp only [deadline, Int64.le_iff_toInt_le, realtimeMaxdelta_toInt]

/-- Faithfulness is about numbers below `2^32`. -/
theorem faithful_iff {start now : ℕ} {exptime : Int64} {rt : UInt32} :
    Faithful start now exptime rt ↔ (rt.toNat = 0 ↔ exptime.toInt = 0) ∧
      (exptime.toInt ≠ 0 → ∀ t : ℕ, t < 2 ^ 32 → now - start ≤ t →
        (rt.toNat ≤ t ↔ deadline now exptime ≤ start + t)) := by
  have hrt : rt = 0 ↔ rt.toNat = 0 := by
    rw [← UInt32.toNat_inj]
    rfl
  constructor
  · rintro ⟨hz, hd⟩
    rw [hrt, eq_zero_iff_toInt] at hz
    refine ⟨hz, fun he t ht hnow => ?_⟩
    have := hd (mt eq_zero_iff_toInt.1 he) (UInt32.ofNat t)
    rw [UInt32.le_iff_toNat_le, UInt32.toNat_ofNat_of_lt' ht] at this
    exact this hnow
  · rintro ⟨hz, hd⟩
    refine ⟨by rw [hrt, hz, eq_zero_iff_toInt], fun he t hnow => ?_⟩
    rw [UInt32.le_iff_toNat_le]
    exact hd (mt eq_zero_iff_toInt.2 he) t.toNat t.toNat_lt hnow

/-- **Which requests are converted faithfully**: those that 32 bits can express. -/
theorem realTime_faithful_iff {start now : ℕ} (hle : start ≤ now) (hlt : now < 2 ^ 32)
    (exptime : Int64) :
    Faithful start now exptime
      (realTime (UInt32.ofNat start) (UInt32.ofNat (now - start)) exptime) ↔
    Convertible start now exptime.toInt := by
  have hrt := realTime_toNat (UInt32.ofNat start) (UInt32.ofNat (now - start)) exptime
  rw [UInt32.toNat_ofNat_of_lt' (show start < 2 ^ 32 by omega),
    UInt32.toNat_ofNat_of_lt' (show now - start < 2 ^ 32 by omega)] at hrt
  rw [faithful_iff, deadline_eq, Convertible, realtimeMaxdelta_toInt]
  generalize (realTime (UInt32.ofNat start) (UInt32.ofNat (now - start)) exptime).toNat = r at hrt ⊢
  generalize exptime.toInt = e at hrt ⊢
  constructor
  · rintro ⟨hz, hd⟩
    by_cases he : e = 0
    · exact .inl he
    · -- the present and the last moment decide
      have hnow := hd he (now - start) (by omega) le_rfl
      have hlast := hd he (2 ^ 32 - 1) (by omega) (by omega)
      split_ifs at hrt hnow hlast <;> omega
  · intro hc
    constructor
    · split_ifs at hrt <;> omega
    · intro he t ht hnow
      split_ifs at hrt ⊢ <;> omega

/-- A minute from now. -/
theorem realTime_faithful_minute : Faithful 100 200 60 (realTime 100 100 60) :=
  (@realTime_faithful_iff 100 200 (by decide) (by decide) 60).2 (by decide)

/-- **A request that has expired becomes one that never does**: at relative time 100 a delta of `-100`
gives 0, and one of `-101` the last moment of the clock. -/
theorem realTime_not_faithful :
    realTime 100 100 (-100) = 0 ∧ ¬ Faithful 100 200 (-100) (realTime 100 100 (-100)) ∧
    realTime 100 100 (-101) = 4294967295 ∧ ¬ Faithful 100 200 (-101) (realTime 100 100 (-101)) := by
  refine ⟨by decide, ?_, by decide, ?_⟩
  · intro h
    have hz := h.zero_iff.1 (by decide)
    revert hz
    decide
  · intro h
    have hd := (h.due_iff (by decide) 100 (by decide)).2 (by decide)
    revert hd
    decide

/-- **An item is dead once its deadline has come**, if its time stands for the request. -/
theorem isDead_iff_deadline {s : Store} {it : Ptr} {start now : ℕ} {exptime : Int64}
    (h : Faithful start now exptime (s.heap.exptime it)) (hnow : now - start ≤ s.now.toNat)
    (hflush : s.isFlushed it = false) :
    s.isDead it ↔ exptime ≠ 0 ∧ deadline now exptime ≤ start + s.now.toNat := by
  simp only [Store.isDead, hflush, Bool.false_eq_true, false_or, ne_eq, h.zero_iff]
  apply and_congr_right
  intro he
  exact h.due_iff he s.now hnow

end Mdb
