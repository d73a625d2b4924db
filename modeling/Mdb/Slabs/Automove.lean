import Mdb.Lib.Run
import Mdb.Slabs.Reassign

/-!
# Deciding to move a page

`SlabAutomoveDecision` compares the eviction counts of the classes with those of its last round, and
keeps in static variables for how long each class has been quiet and which class has won how often.

* `itemStatsEvictions`; `scanClass`, `Automove.scan`, `Automove.decide`, `Store.slabAutomoveDecision`;
* `Round`, `AutomoveRun`: calls, and the rounds that they have evaluated, the last one first; `Idle`,
  `Wins`: what a round says about a class; `Streak`: it has said so for some rounds;
* `Scanned`, `Automove.scanned`: what the loop over the classes computes, by induction on the classes;
* `Tracks`: the static variables against the history; **`automove_justified`**;
* **`evictions_exact`**: the vector of counts, if the array is zero at first;
  **`evictions_uninitialised`**.
-/

namespace Mdb

open Run

/-! ## The two functions -/

/-- `lru_status`. -/
def lruStatuses : List LruStatus := [.hot, .warm, .cold, .noexp]

/-- `ItemStatsEvictions(evicted)`: what the array holds afterwards. -/
def itemStatsEvictions (itemStats : ℕ → ItemStats) (evicted : ℕ → UInt64) : ℕ → UInt64 :=
  (List.range maxNumberOfSlabClasses).foldl (fun evicted n =>
    lruStatuses.foldl (fun evicted x =>
      Function.update evicted n (evicted n + (itemStats (n ||| x.val)).evicted)) evicted) evicted

/-- The static variables of `SlabAutomoveDecision`. -/
structure Automove where
  nextRun : UInt32
  evictedOld : ℕ → UInt64
  slabZeroes : ℕ → UInt32
  slabWinner : ℕ
  slabWins : UInt32

/-- The static variables at first. -/
def Automove.init : Automove := ⟨0, fun _ => 0, fun _ => 0, 0, 0⟩

/-- The variables of the loop over the classes. -/
structure AutomoveScan where
  evictedOld : ℕ → UInt64
  slabZeroes : ℕ → UInt32
  highestSlab : ℕ
  evictedMax : UInt64
  source : ℕ

/-- The body of the loop for class `i`. -/
def AutomoveScan.scanClass (evictedNew : ℕ → UInt64) (totalPages : ℕ → ℕ) (a : AutomoveScan) (i : ℕ) :
    AutomoveScan :=
  let evictedDiff := evictedNew i - a.evictedOld i
  let a := if evictedDiff = 0 ∧ 2 < totalPages i then
      { a with
        slabZeroes := Function.update a.slabZeroes i (a.slabZeroes i + 1)
        source := if a.source = 0 ∧ 3 ≤ a.slabZeroes i + 1 then i else a.source }
    else
      { a with
        slabZeroes := Function.update a.slabZeroes i 0
        evictedMax := if a.evictedMax < evictedDiff then evictedDiff else a.evictedMax
        highestSlab := if a.evictedMax < evictedDiff then i else a.highestSlab }
  { a with evictedOld := Function.update a.evictedOld i (evictedNew i) }

/-- The classes `POWER_SMALLEST ≤ i < power_largest_`. -/
def automoveClasses (powerLargest : ℕ) : List ℕ :=
  List.range' powerSmallest (powerLargest - powerSmallest)

namespace Automove

variable (m : Automove)

/-- The loop over the classes. -/
def scan (evictedNew : ℕ → UInt64) (totalPages : ℕ → ℕ) (powerLargest : ℕ) : AutomoveScan :=
  (automoveClasses powerLargest).foldl (AutomoveScan.scanClass evictedNew totalPages)
    ⟨m.evictedOld, m.slabZeroes, 0, 0, 0⟩

/-- The last winner has the highest increase again. -/
def Again (a : AutomoveScan) : Prop := m.slabWinner ≠ 0 ∧ m.slabWinner = a.highestSlab

instance (a : AutomoveScan) : Decidable (m.Again a) := inferInstanceAs (Decidable (_ ∧ _))

/-- `slab_winner` and `slab_wins` after the round. -/
def winner (a : AutomoveScan) : ℕ × UInt32 :=
  if m.Again a then (m.slabWinner, m.slabWins + 1) else (a.highestSlab, 1)

/-- The destination: a class that has won three times in a row. -/
def dest (a : AutomoveScan) : ℕ := if m.Again a ∧ 3 ≤ (m.winner a).2 then m.slabWinner else 0

/-- `SlabAutomoveDecision(&src, &dst)` at time `currentTime`, for the given eviction counts and page
counts: `some (src, dst)` if it returns 1. -/
def decide (currentTime : UInt32) (evictedNew : ℕ → UInt64) (totalPages : ℕ → ℕ) (powerLargest : ℕ) :
    Option (ℕ × ℕ) × Automove :=
  if m.nextRun ≤ currentTime then
    let a := m.scan evictedNew totalPages powerLargest
    (if a.source ≠ 0 ∧ m.dest a ≠ 0 then some (a.source, m.dest a) else none,
      { nextRun := currentTime + 10
        evictedOld := a.evictedOld
        slabZeroes := a.slabZeroes
        slabWinner := (m.winner a).1
        slabWins := (m.winner a).2 })
  else (none, m)

end Automove

/-- `SlabAutomoveDecision` on a store; `evictedNew` is what the array holds before
`ItemStatsEvictions`. -/
def Store.slabAutomoveDecision (s : Store) (m : Automove) (evictedNew : ℕ → UInt64) :
    Option (ℕ × ℕ) × Automove :=
  m.decide s.now (itemStatsEvictions s.itemStats evictedNew) (fun i => (s.slabs.slabclass i).slabs)
    s.slabs.powerLargest

/-! ## Histories -/

/-- What a call has found. -/
structure Round where
  time : UInt32
  evicted : ℕ → UInt64
  pages : ℕ → ℕ

/-- The counts of the last round; before the first one they are zero. -/
def lastEvicted : List Round → ℕ → UInt64
  | [] => fun _ => 0
  | r :: _ => r.evicted

/-- By how much the count of a class has gone up in the last round, modulo `2 ^ 64`. -/
def increase : List Round → ℕ → UInt64
  | [] => fun _ => 0
  | r :: hist => fun i => r.evicted i - lastEvicted hist i

/-- In the last round the class has had no evictions and more than two pages. -/
def Idle (i : ℕ) : List Round → Prop
  | [] => False
  | r :: hist => r.evicted i = lastEvicted hist i ∧ 2 < r.pages i

/-- In the last round the class has had the largest increase, above zero; of equals it is the first. -/
def Wins (powerLargest i : ℕ) (hist : List Round) : Prop :=
  hist ≠ [] ∧ i ∈ automoveClasses powerLargest ∧ 0 < increase hist i ∧
    ∀ j ∈ automoveClasses powerLargest, increase hist j ≤ increase hist i ∧
      (j < i → increase hist j < increase hist i)

/-- It has been so in each of the last `n` rounds. -/
def Streak (P : List Round → Prop) (hist : List Round) (n : ℕ) : Prop := ∀ k < n, P (hist.drop k)

theorem Streak.zero (P : List Round → Prop) (hist : List Round) : Streak P hist 0 :=
  fun _ h => absurd h (Nat.not_lt_zero _)

theorem Streak.cons {P : List Round → Prop} {hist : List Round} {n m : ℕ} {r : Round}
    (h : Streak P hist n) (hr : P (r :: hist)) (hm : m ≤ n + 1) : Streak P (r :: hist) m
  | 0, _ => hr
  | k + 1, hk => h k (by omega)

theorem toNat_succ_le (n : UInt32) : (n + 1).toNat ≤ n.toNat + 1 := by
  rw [UInt32.toNat_add]
  exact Nat.mod_le _ _

/-- The static variables, and the rounds evaluated so far. -/
structure AutomoveRun where
  vars : Automove
  hist : List Round

/-- A call. -/
def AutomoveRun.call (q : AutomoveRun) (powerLargest : ℕ) (r : Round) : Option (ℕ × ℕ) × AutomoveRun :=
  let d := q.vars.decide r.time r.evicted r.pages powerLargest
  (d.1, ⟨d.2, if q.vars.nextRun ≤ r.time then r :: q.hist else q.hist⟩)

/-- At first nothing has been evaluated. -/
def AutomoveRun.Init (q : AutomoveRun) : Prop := q = ⟨.init, []⟩

def AutomoveStep (powerLargest : ℕ) (q q' : AutomoveRun) : Prop := ∃ r, q' = (q.call powerLargest r).2

/-! ## The loop over the classes -/

/-- What the loop has computed after the classes below `n`. -/
structure Scanned (m : Automove) (evictedNew : ℕ → UInt64) (pages : ℕ → ℕ) (n : ℕ)
    (a : AutomoveScan) : Prop where
  evictedOld : ∀ i, a.evictedOld i = if i ∈ automoveClasses n then evictedNew i else m.evictedOld i
  zeroes : ∀ i, a.slabZeroes i = if i ∈ automoveClasses n then
      if evictedNew i = m.evictedOld i ∧ 2 < pages i then m.slabZeroes i + 1 else 0
    else m.slabZeroes i
  source : a.source ≠ 0 → a.source ∈ automoveClasses n ∧ 3 ≤ a.slabZeroes a.source
  highest : a.highestSlab = 0 ∧ a.evictedMax = 0 ∧
      (∀ j ∈ automoveClasses n, evictedNew j - m.evictedOld j = 0) ∨
    a.highestSlab ∈ automoveClasses n ∧ 0 < a.evictedMax ∧
      a.evictedMax = evictedNew a.highestSlab - m.evictedOld a.highestSlab ∧
      ∀ j ∈ automoveClasses n, evictedNew j - m.evictedOld j ≤ a.evictedMax ∧
        (j < a.highestSlab → evictedNew j - m.evictedOld j < a.evictedMax)

theorem mem_automoveClasses {n i : ℕ} : i ∈ automoveClasses n ↔ 1 ≤ i ∧ i < n := by
  simp only [automoveClasses, List.mem_range'_1, powerSmallest]
  omega

theorem automoveClasses_succ {n : ℕ} (hn : 1 ≤ n) :
    automoveClasses (n + 1) = automoveClasses n ++ [n] := by
  rw [automoveClasses, automoveClasses, powerSmallest, Nat.succ_sub hn, List.range'_concat]
  simp [Nat.add_sub_cancel' hn]

section Scan

variable {m : Automove} {evictedNew : ℕ → UInt64} {pages : ℕ → ℕ} {n : ℕ} {a : AutomoveScan}

theorem update_scanned {α : Type} {c f g : ℕ → α} (hn : 1 ≤ n)
    (hc : ∀ i, c i = if i ∈ automoveClasses n then f i else g i) {x : α} (hx : x = f n) (i : ℕ) :
    Function.update c n x i = if i ∈ automoveClasses (n + 1) then f i else g i := by
  rw [automoveClasses_succ hn]
  by_cases e : i = n
  · subst e
    simp [hx]
  · simp [hc, e]

/-- **One class.** -/
theorem Scanned.scanClass (h : Scanned m evictedNew pages n a) (hn : 1 ≤ n) :
    Scanned m evictedNew pages (n + 1) (a.scanClass evictedNew pages n) := by
  have hnot : n ∉ automoveClasses n := fun hm => (mem_automoveClasses.mp hm).2.ne rfl
  have hold : a.evictedOld n = m.evictedOld n := by rw [h.evictedOld, if_neg hnot]
  have hzero : a.slabZeroes n = m.slabZeroes n := by rw [h.zeroes, if_neg hnot]
  have hsucc : ∀ i, i ∈ automoveClasses (n + 1) ↔ i ∈ automoveClasses n ∨ i = n := fun i => by
    rw [automoveClasses_succ hn, List.mem_append, List.mem_singleton]
  have hsource : a.source ≠ 0 → a.source ≠ n := fun hs e => hnot (e ▸ (h.source hs).1)
  unfold AutomoveScan.scanClass
  dsimp only
  rw [hold, hzero]
  by_cases hz : evictedNew n - m.evictedOld n = 0 ∧ 2 < pages n
  · rw [if_pos hz]
    have hz' : evictedNew n = m.evictedOld n ∧ 2 < pages n := ⟨sub_eq_zero.mp hz.1, hz.2⟩
    refine ⟨update_scanned hn h.evictedOld rfl, update_scanned hn h.zeroes (if_pos hz').symm,
      fun hs => ?_, ?_⟩
    · dsimp only at hs ⊢
      split_ifs at hs ⊢ with hc
      · exact ⟨(hsucc n).mpr (.inr rfl), by rw [Function.update_self]; exact hc.2⟩
      · rw [Function.update_of_ne (hsource hs)]
        exact ⟨(hsucc _).mpr (.inl (h.source hs).1), (h.source hs).2⟩
    · -- a class without evictions does not compete
      rcases h.highest with ⟨h1, h2, h3⟩ | ⟨h1, h2, h3, h4⟩
      · refine .inl ⟨h1, h2, fun j hj => ?_⟩
        rcases (hsucc j).mp hj with hj | rfl
        · exact h3 j hj
        · exact hz.1
      · refine .inr ⟨(hsucc _).mpr (.inl h1), h2, h3, fun j hj => ?_⟩
        rcases (hsucc j).mp hj with hj | rfl
        · exact h4 j hj
        · rw [hz.1]
          exact ⟨UInt64.le_of_lt h2, fun _ => h2⟩
  · rw [if_neg hz]
    have hz' : ¬ (evictedNew n = m.evictedOld n ∧ 2 < pages n) := fun e =>
      hz ⟨sub_eq_zero.mpr e.1, e.2⟩
    refine ⟨update_scanned hn h.evictedOld rfl, update_scanned hn h.zeroes (if_neg hz').symm,
      fun hs => ?_, ?_⟩
    · dsimp only at hs ⊢
      rw [Function.update_of_ne (hsource hs)]
      exact ⟨(hsucc _).mpr (.inl (h.source hs).1), (h.source hs).2⟩
    · dsimp only
      split_ifs with hmax
      · -- the class wins so far
        refine .inr ⟨(hsucc n).mpr (.inr rfl), UInt64.lt_of_le_of_lt UInt64.zero_le hmax, rfl,
          fun j hj => ?_⟩
        rcases (hsucc j).mp hj with hj | rfl
        · have hlt : evictedNew j - m.evictedOld j < evictedNew n - m.evictedOld n := by
            rcases h.highest with ⟨-, h2, h3⟩ | ⟨-, -, -, h4⟩
            · rw [h3 j hj, ← h2]
              exact hmax
            · exact UInt64.lt_of_le_of_lt (h4 j hj).1 hmax
          exact ⟨UInt64.le_of_lt hlt, fun _ => hlt⟩
        · exact ⟨UInt64.le_refl _, fun e => absurd e (lt_irrefl j)⟩
      · rcases h.highest with ⟨h1, h2, h3⟩ | ⟨h1, h2, h3, h4⟩
        · refine .inl ⟨h1, h2, fun j hj => ?_⟩
          rcases (hsucc j).mp hj with hj | rfl
          · exact h3 j hj
          · rw [h2] at hmax
            exact UInt64.le_zero_iff.mp (UInt64.not_lt.mp hmax)
        · refine .inr ⟨(hsucc _).mpr (.inl h1), h2, h3, fun j hj => ?_⟩
          rcases (hsucc j).mp hj with hj | rfl
          · exact h4 j hj
          · refine ⟨UInt64.not_lt.mp hmax, fun e => absurd (mem_automoveClasses.mp h1).2 ?_⟩
            exact not_lt.mpr e.le

/-- **All classes.** -/
theorem Automove.scanned (m : Automove) (evictedNew : ℕ → UInt64) (pages : ℕ → ℕ)
    (powerLargest : ℕ) :
    Scanned m evictedNew pages powerLargest (m.scan evictedNew pages powerLargest) := by
  have hnone : ∀ n ≤ 1, automoveClasses n = [] := fun n hn => by
    rw [automoveClasses, powerSmallest, Nat.sub_eq_zero_of_le hn]
    rfl
  induction powerLargest with
  | zero =>
    rw [scan, hnone 0 (by omega)]
    exact ⟨fun _ => rfl, fun _ => rfl, fun h => absurd rfl h, .inl ⟨rfl, rfl, fun j hj => by cases hj⟩⟩
  | succ n ih =>
    by_cases hn : 1 ≤ n
    · rw [scan, automoveClasses_succ hn, List.foldl_append]
      exact ih.scanClass hn
    · obtain rfl : n = 0 := by omega
      rw [scan, hnone 1 le_rfl]
      exact ⟨fun _ => rfl, fun _ => rfl, fun h => absurd rfl h,
        .inl ⟨rfl, rfl, fun j hj => by cases hj⟩⟩

end Scan

/-! ## The static variables against the history -/

/-- **What the static variables say** about the rounds so far. A counter may have wrapped around; it
then says less than it could. -/
structure Tracks (powerLargest : ℕ) (q : AutomoveRun) : Prop where
  evictedOld : ∀ i ∈ automoveClasses powerLargest, q.vars.evictedOld i = lastEvicted q.hist i
  zeroes : ∀ i ∈ automoveClasses powerLargest,
    Streak (Idle i) q.hist (q.vars.slabZeroes i).toNat
  wins : q.vars.slabWinner ≠ 0 →
    Streak (Wins powerLargest q.vars.slabWinner) q.hist q.vars.slabWins.toNat
  nextRun : ∀ r ∈ q.hist.head?, q.vars.nextRun = r.time + 10
  apart : q.hist.IsChain fun r r' => r'.time + 10 ≤ r.time

/-- What a decision is justified by. -/
structure Justified (powerLargest : ℕ) (hist : List Round) (src dst : ℕ) : Prop where
  source : src ∈ automoveClasses powerLargest
  dest : dst ∈ automoveClasses powerLargest
  ne : src ≠ dst
  idle : Streak (Idle src) hist 3
  wins : Streak (Wins powerLargest dst) hist 3

theorem Justified.of_streaks {powerLargest src dst : ℕ} {hist : List Round}
    (hs : src ∈ automoveClasses powerLargest) (hi : Streak (Idle src) hist 3)
    (hw : Streak (Wins powerLargest dst) hist 3) : Justified powerLargest hist src dst := by
  have h1 := hi 0 (by omega)
  have h2 := hw 0 (by omega)
  refine ⟨hs, h2.2.1, fun e => ?_, hi, hw⟩
  -- a class that has had no evictions has not won
  subst e
  cases hist with
  | nil => exact h1
  | cons r hist =>
    have h3 : increase (r :: hist) src = 0 := sub_eq_zero.mpr h1.1
    have h4 := h2.2.2.1
    rw [List.drop_zero, h3] at h4
    exact UInt64.lt_irrefl _ h4

namespace Tracks

variable {powerLargest : ℕ} {q : AutomoveRun} {r : Round}

theorem increase_eq (h : Tracks powerLargest q) (r : Round) {i : ℕ}
    (hi : i ∈ automoveClasses powerLargest) :
    increase (r :: q.hist) i = r.evicted i - q.vars.evictedOld i := by
  rw [h.evictedOld i hi]
  rfl

theorem wins_highest (h : Tracks powerLargest q) {a : AutomoveScan}
    (ha : Scanned q.vars r.evicted r.pages powerLargest a) (h0 : a.highestSlab ≠ 0) :
    Wins powerLargest a.highestSlab (r :: q.hist) := by
  rcases ha.highest with ⟨e, -⟩ | ⟨h1, h2, h3, h4⟩
  · exact absurd e h0
  · have hinc : increase (r :: q.hist) a.highestSlab = a.evictedMax := by rw [h.increase_eq r h1, h3]
    refine ⟨List.cons_ne_nil _ _, h1, by rw [hinc]; exact h2, fun j hj => ?_⟩
    rw [hinc, h.increase_eq r hj]
    exact h4 j hj

theorem idle_streak (h : Tracks powerLargest q) {a : AutomoveScan}
    (ha : Scanned q.vars r.evicted r.pages powerLargest a) {i : ℕ}
    (hi : i ∈ automoveClasses powerLargest) :
    Streak (Idle i) (r :: q.hist) (a.slabZeroes i).toNat := by
  rw [ha.zeroes i, if_pos hi]
  split_ifs with hz
  · exact (h.zeroes i hi).cons ⟨by rw [hz.1, h.evictedOld i hi], hz.2⟩ (toNat_succ_le _)
  · exact .zero _ _

theorem wins_streak (h : Tracks powerLargest q) {a : AutomoveScan}
    (ha : Scanned q.vars r.evicted r.pages powerLargest a) (h0 : (q.vars.winner a).1 ≠ 0) :
    Streak (Wins powerLargest (q.vars.winner a).1) (r :: q.hist) (q.vars.winner a).2.toNat := by
  unfold Automove.winner at h0 ⊢
  split_ifs at h0 ⊢ with hw
  · refine (h.wins h0).cons ?_ (toNat_succ_le _)
    rw [hw.2] at h0 ⊢
    exact h.wins_highest ha h0
  · exact (Streak.zero _ _).cons (h.wins_highest ha h0) (show (1 : UInt32).toNat ≤ 0 + 1 by decide)

/-- A source and a destination have earned it. -/
theorem justified (h : Tracks powerLargest q) {a : AutomoveScan}
    (ha : Scanned q.vars r.evicted r.pages powerLargest a) (hs : a.source ≠ 0)
    (hd : q.vars.dest a ≠ 0) : Justified powerLargest (r :: q.hist) a.source (q.vars.dest a) := by
  unfold Automove.dest at hd ⊢
  split_ifs at hd ⊢ with hw
  · have hwin : (q.vars.winner a).1 = q.vars.slabWinner := by rw [Automove.winner, if_pos hw.1]
    obtain ⟨h1, h2⟩ := ha.source hs
    have h3 := h.wins_streak ha (by rw [hwin]; exact hd)
    rw [hwin] at h3
    exact .of_streaks h1 (fun k hk => h.idle_streak ha h1 k (lt_of_lt_of_le hk h2)) fun k hk =>
      h3 k (lt_of_lt_of_le hk hw.2)
  · exact absurd rfl hd

/-- **One call.** -/
theorem call (h : Tracks powerLargest q) (r : Round) :
    Tracks powerLargest (q.call powerLargest r).2 ∧
    ∀ src dst, (q.call powerLargest r).1 = some (src, dst) →
      Justified powerLargest (q.call powerLargest r).2.hist src dst := by
  unfold AutomoveRun.call Automove.decide
  dsimp only
  by_cases hrun : q.vars.nextRun ≤ r.time
  swap
  · rw [if_neg hrun, if_neg hrun]
    exact ⟨h, fun src dst e => by cases e⟩
  rw [if_pos hrun, if_pos hrun]
  have ha := q.vars.scanned r.evicted r.pages powerLargest
  generalize q.vars.scan r.evicted r.pages powerLargest = a at ha ⊢
  refine ⟨⟨fun i hi => ?_, fun i hi => h.idle_streak ha hi, h.wins_streak ha, fun r' hr => ?_, ?_⟩,
    fun src dst e => ?_⟩
  · dsimp only
    rw [ha.evictedOld, if_pos hi]
    rfl
  · obtain rfl : r = r' := by simpa using hr
    rfl
  · refine List.isChain_cons.mpr ⟨fun r' hr => ?_, h.apart⟩
    rw [← h.nextRun r' hr]
    exact hrun
  · dsimp only at e ⊢
    split_ifs at e with hyes
    cases e
    exact h.justified ha hyes.1 hyes.2

theorem reach (h : Reach AutomoveRun.Init (AutomoveStep powerLargest) q) : Tracks powerLargest q := by
  refine h.invariant (fun q hq => ?_) fun q q' hq hs => ?_
  · subst hq
    exact ⟨fun _ _ => rfl, fun _ _ => .zero _ _, fun h => absurd rfl h, fun r hr => (by cases hr),
      .nil⟩
  · obtain ⟨r, rfl⟩ := hs
    exact (hq.call r).1

end Tracks

/-- **Automove decisions are justified by history.** After any calls, with any clock values, eviction
counts and page counts: if the next call returns 1, source and destination are two classes below the
largest; in each of the last three rounds evaluated, the source's count was as in the round before and
it had more than two pages, and the destination had the largest increase, above zero, the first of
equals. With clock values below `2 ^ 32 - 10` the rounds evaluated are at least 10 apart. -/
theorem automove_justified {powerLargest : ℕ} {q : AutomoveRun}
    (h : Reach AutomoveRun.Init (AutomoveStep powerLargest) q) :
    (∀ r src dst, (q.call powerLargest r).1 = some (src, dst) →
      (1 ≤ src ∧ src < powerLargest) ∧ (1 ≤ dst ∧ dst < powerLargest) ∧ src ≠ dst ∧
      ∀ k < 3, Idle src ((q.call powerLargest r).2.hist.drop k) ∧
        Wins powerLargest dst ((q.call powerLargest r).2.hist.drop k)) ∧
    ((∀ r ∈ q.hist, r.time.toNat < 2 ^ 32 - 10) →
      q.hist.IsChain fun r r' => r'.time.toNat + 10 ≤ r.time.toNat) := by
  have ht := Tracks.reach h
  refine ⟨fun r src dst e => ?_, fun hclock => ?_⟩
  · have hj := (ht.call r).2 src dst e
    exact ⟨mem_automoveClasses.mp hj.source, mem_automoveClasses.mp hj.dest, hj.ne,
      fun k hk => ⟨hj.idle k hk, hj.wins k hk⟩⟩
  · refine List.IsChain.imp_of_mem_imp (fun r r' _ hr' hle => ?_) ht.apart
    have hlt := hclock r' hr'
    rw [UInt32.le_iff_toNat_le, UInt32.toNat_add] at hle
    have h10 : (10 : UInt32).toNat = 10 := rfl
    omega

/-- A round at time `t` in which only class 2 has had evictions, `n` in all; the classes have three pages
each. -/
def quietRound (t : UInt32) (n : UInt64) : Round := ⟨t, fun i => if i = 2 then n else 0, fun _ => 3⟩

/-- Two rounds with evictions in class 2 only. -/
def twoRounds : AutomoveRun :=
  (((⟨.init, []⟩ : AutomoveRun).call 4 (quietRound 0 5)).2.call 4 (quietRound 10 6)).2

theorem twoRounds_reach : Reach AutomoveRun.Init (AutomoveStep 4) twoRounds :=
  .next (.next (.start rfl) ⟨quietRound 0 5, rfl⟩) ⟨quietRound 10 6, rfl⟩

/-- The third round moves a page from class 1 to class 2. -/
theorem automove_justified_third :
    (twoRounds.call 4 (quietRound 20 8)).1 = some (1, 2) ∧
    ∀ k < 3, Idle 1 ((twoRounds.call 4 (quietRound 20 8)).2.hist.drop k) := by
  have he : (twoRounds.call 4 (quietRound 20 8)).1 = some (1, 2) := by decide
  exact ⟨he, fun k hk => (((automove_justified twoRounds_reach).1 _ 1 2 he).2.2.2 k hk).1⟩

/-! ## The eviction counts -/

/-- The evictions from the four queues of class `n`. -/
def evictions (itemStats : ℕ → ItemStats) (n : ℕ) : UInt64 :=
  (lruStatuses.map fun x => (itemStats (n ||| x.val)).evicted).sum

section Evictions

variable (itemStats : ℕ → ItemStats) (evicted : ℕ → UInt64)

/-- The loop over the queues of a class. -/
theorem evictionsLoop_eq (n : ℕ) (l : List LruStatus) : l.foldl (fun evicted x =>
      Function.update evicted n (evicted n + (itemStats (n ||| x.val)).evicted)) evicted =
    Function.update evicted n
      (evicted n + (l.map fun x => (itemStats (n ||| x.val)).evicted).sum) := by
  induction l generalizing evicted with
  | nil => simp
  | cons x l ih =>
    rw [List.foldl_cons, ih, Function.update_self, Function.update_idem, List.map_cons, List.sum_cons,
      add_assoc]

/-- **The array goes up by the evictions of the class.** -/
theorem itemStatsEvictions_eq {n : ℕ} (hn : n < maxNumberOfSlabClasses) :
    itemStatsEvictions itemStats evicted n = evicted n + evictions itemStats n := by
  have hloop : ∀ l : List ℕ, l.Nodup → ∀ evicted : ℕ → UInt64,
      l.foldl (fun evicted n => lruStatuses.foldl (fun evicted x => Function.update evicted n
        (evicted n + (itemStats (n ||| x.val)).evicted)) evicted) evicted n =
      if n ∈ l then evicted n + evictions itemStats n else evicted n := by
    intro l hl
    induction l with
    | nil => exact fun _ => rfl
    | cons k l ih =>
      intro evicted
      obtain ⟨hk, hl⟩ := List.nodup_cons.mp hl
      rw [List.foldl_cons, ih hl, evictionsLoop_eq]
      by_cases e : n = k
      · subst e
        simp [hk, evictions]
      · simp [e]
  rw [itemStatsEvictions, hloop _ List.nodup_range, if_pos (List.mem_range.mpr hn)]

end Evictions

theorem Automove.scan_congr (m : Automove) {evicted evicted' : ℕ → UInt64} (pages : ℕ → ℕ)
    {powerLargest : ℕ} (h : ∀ i < powerLargest, evicted i = evicted' i) :
    m.scan evicted pages powerLargest = m.scan evicted' pages powerLargest := by
  refine List.foldl_ext _ _ _ fun a i hi => ?_
  rw [AutomoveScan.scanClass, AutomoveScan.scanClass, h i (mem_automoveClasses.mp hi).2]

/-- **Automove reads true eviction totals from a zeroed array.** What the decision is based on is the
sum of the evictions of the four queues of each class exactly if the array was zero there; so two calls
that find zeroed arrays, and the same statistics, pages, clock and static variables, reach the same
decision. -/
theorem evictions_exact {s s' : Store} (m : Automove) {evicted evicted' : ℕ → UInt64}
    (hs : s'.itemStats = s.itemStats) (hnow : s'.now = s.now)
    (hpages : ∀ i, (s'.slabs.slabclass i).slabs = (s.slabs.slabclass i).slabs)
    (hlargest : s'.slabs.powerLargest = s.slabs.powerLargest)
    (hle : s.slabs.powerLargest ≤ maxNumberOfSlabClasses)
    (h0 : ∀ n < maxNumberOfSlabClasses, evicted n = 0)
    (h0' : ∀ n < maxNumberOfSlabClasses, evicted' n = 0) :
    (∀ (found : ℕ → UInt64) (n : ℕ), n < maxNumberOfSlabClasses →
      (itemStatsEvictions s.itemStats found n = evictions s.itemStats n ↔ found n = 0)) ∧
    (∀ n < maxNumberOfSlabClasses,
      itemStatsEvictions s.itemStats evicted n = evictions s.itemStats n) ∧
    s'.slabAutomoveDecision m evicted' = s.slabAutomoveDecision m evicted := by
  have hiff : ∀ (found : ℕ → UInt64) (n : ℕ), n < maxNumberOfSlabClasses →
      (itemStatsEvictions s.itemStats found n = evictions s.itemStats n ↔ found n = 0) := by
    intro found n hn
    rw [itemStatsEvictions_eq _ _ hn]
    exact add_eq_right
  refine ⟨hiff, fun n hn => (hiff evicted n hn).mpr (h0 n hn), ?_⟩
  have heq : ∀ i < s.slabs.powerLargest, itemStatsEvictions s.itemStats evicted' i =
      itemStatsEvictions s.itemStats evicted i := fun i hi =>
    ((hiff evicted' i (lt_of_lt_of_le hi hle)).mpr (h0' i (lt_of_lt_of_le hi hle))).trans
      ((hiff evicted i (lt_of_lt_of_le hi hle)).mpr (h0 i (lt_of_lt_of_le hi hle))).symm
  have hscan := m.scan_congr (fun i => (s.slabs.slabclass i).slabs) heq
  unfold Store.slabAutomoveDecision Automove.decide
  rw [hs, hnow, hlargest, funext hpages, hscan]

/-- A store with four classes that has evicted `n` items, all from the `COLD` queue of class 2. -/
def evictingStore (t : UInt32) (n : UInt64) : Store :=
  { Store.initial 1 (fun _ => 0) fourClasses
      ⟨fun _ => true, fun _ => true, fun _ => true, fun _ => none⟩ with
    now := t
    itemStats := fun id => if id = 130 then { ItemStats.zero with evicted := n } else .zero }

/-- From a zeroed array the third round moves a page from class 1 to class 2. -/
theorem evictions_exact_third :
    ((evictingStore 20 8).slabAutomoveDecision twoRounds.vars fun _ => 0).1 = some (1, 2) ∧
    (evictingStore 20 8).slabAutomoveDecision twoRounds.vars (fun n => if n < 64 then 0 else 1) =
      (evictingStore 20 8).slabAutomoveDecision twoRounds.vars fun _ => 0 := by
  refine ⟨by decide +kernel, (evictions_exact twoRounds.vars rfl rfl (fun _ => rfl) rfl (by decide)
    (fun _ _ => rfl) fun n hn => if_pos hn).2.2⟩

/-- **An array that is not zero** is taken for evictions: class 1 has none, the array says 7, and no page
is moved. -/
theorem evictions_uninitialised :
    evictions (evictingStore 20 8).itemStats 1 = 0 ∧
    itemStatsEvictions (evictingStore 20 8).itemStats (fun n => if n = 1 then 7 else 0) 1 = 7 ∧
    ((evictingStore 20 8).slabAutomoveDecision twoRounds.vars fun _ => 0).1 = some (1, 2) ∧
    ((evictingStore 20 8).slabAutomoveDecision twoRounds.vars fun n => if n = 1 then 7 else 0).1 =
      none := by
  refine ⟨by decide, ?_, ?_, ?_⟩ <;> decide +kernel

end Mdb
