import Mdb.Lib.RoundRobin
import Mdb.State

/-!
# Asking for a page to be moved

`SlabsReassignPickany` goes round the classes with a cursor that it keeps from call to call;
`DoSlabsReassign` checks a request and leaves it for the rebalancer.

* `pickLoop`, `slabsReassignPickany`; `Reassigner`, `doSlabsReassign`;
* `Slabs.classesFrom cur`: the classes in the order in which the loop comes to them; each call is a
  `RoundRobin.turn` of that list (**`pickany_turn`**);
* **`reassign_requests`**: what a call picks, that successive calls go round the eligible classes, and
  which requests are granted.
-/

namespace Mdb

open RoundRobin

/-! ## The two functions -/

namespace Slabs

variable (sl : Slabs)

/-- `++cur; if (cur > power_largest_) cur = POWER_SMALLEST;`. -/
def nextClass (cur : ℕ) : ℕ := if sl.powerLargest < cur + 1 then powerSmallest else cur + 1

/-- The loop of `SlabsReassignPickany`, with `tries` left: the class, and the cursor. -/
def pickLoop (dst : ℤ) : ℕ → ℕ → ℤ × ℕ
  | 0, cur => (-1, cur)
  | tries + 1, cur =>
    let cur := sl.nextClass cur
    if (cur : ℤ) = dst then pickLoop dst tries cur
    else if 1 < (sl.slabclass cur).slabs then (cur, cur)
    else pickLoop dst tries cur

/-- `SlabsReassignPickany(dst)` with its cursor: the class, and the cursor. -/
def slabsReassignPickany (cur : ℕ) (dst : ℤ) : ℤ × ℕ :=
  sl.pickLoop dst (sl.powerLargest + 1 - powerSmallest) cur

/-- What `n` successive calls return. -/
def picks (dst : ℤ) : ℕ → ℕ → List ℤ
  | 0, _ => []
  | n + 1, cur => (sl.slabsReassignPickany cur dst).1 ::
      picks dst n (sl.slabsReassignPickany cur dst).2

end Slabs

/-- `enum ReassignResultType`. -/
inductive ReassignResultType where
  | ok
  | running
  | badclass
  | nospare
  | srcDstSame
  deriving DecidableEq, Repr

/-- `g_slab_rebalance_signal`, the classes of `g_slab_rebal`, and the cursor of
`SlabsReassignPickany`. -/
structure Reassigner where
  signal : ℤ
  sClsid : ℤ
  dClsid : ℤ
  cur : ℕ
  deriving DecidableEq

/-- A class that exists. -/
def Slabs.IsClass (sl : Slabs) (c : ℤ) : Prop := powerSmallest ≤ c ∧ c ≤ sl.powerLargest

instance (sl : Slabs) (c : ℤ) : Decidable (sl.IsClass c) := inferInstanceAs (Decidable (_ ∧ _))

/-- The class that `src` stands for, and the cursor: `-1` is for any class. -/
def Reassigner.source (r : Reassigner) (sl : Slabs) (src dst : ℤ) : ℤ × ℕ :=
  if src = -1 then sl.slabsReassignPickany r.cur dst else (src, r.cur)

/-- `DoSlabsReassign(src, dst)`. -/
def Reassigner.doSlabsReassign (r : Reassigner) (sl : Slabs) (src dst : ℤ) :
    ReassignResultType × Reassigner :=
  if r.signal ≠ 0 then (.running, r)
  else if src = dst then (.srcDstSame, r)
  else
    let p := r.source sl src dst
    let r := { r with cur := p.2 }
    if ¬ sl.IsClass p.1 ∨ ¬ sl.IsClass dst then (.badclass, r)
    else if (sl.slabclass p.1.toNat).slabs < 2 then (.nospare, r)
    else (.ok, { r with sClsid := p.1, dClsid := dst, signal := 1 })

/-! ## The cursor -/

namespace Slabs

variable {sl : Slabs} {cur : ℕ} {dst : ℤ}

/-- The classes in the order in which the cursor comes to them. -/
def classesFrom (sl : Slabs) (cur : ℕ) : List ℕ :=
  List.range' (cur + 1) (sl.powerLargest - cur) ++ List.range' powerSmallest cur

/-- A class that a page may be taken from. -/
def eligible (sl : Slabs) (dst : ℤ) (c : ℕ) : Bool := (c : ℤ) ≠ dst && 1 < (sl.slabclass c).slabs

theorem mem_classesFrom (h : cur ≤ sl.powerLargest) {c : ℕ} :
    c ∈ sl.classesFrom cur ↔ powerSmallest ≤ c ∧ c ≤ sl.powerLargest := by
  simp only [classesFrom, List.mem_append, List.mem_range'_1, powerSmallest]
  omega

theorem classesFrom_nodup (sl : Slabs) (cur : ℕ) : (sl.classesFrom cur).Nodup := by
  refine List.Nodup.append List.nodup_range' List.nodup_range' fun c h h' => ?_
  simp only [List.mem_range'_1, powerSmallest] at h h'
  omega

theorem length_classesFrom (h : cur ≤ sl.powerLargest) :
    (sl.classesFrom cur).length = sl.powerLargest := by
  simp only [classesFrom, List.length_append, List.length_range']
  omega

theorem nextClass_le (hpos : 0 < sl.powerLargest) : sl.nextClass cur ≤ sl.powerLargest := by
  unfold nextClass powerSmallest
  split_ifs <;> omega

/-- **One step of the cursor**: the first class goes to the back. -/
theorem classesFrom_next (h : cur ≤ sl.powerLargest) (hpos : 0 < sl.powerLargest) :
    ∃ rest, sl.classesFrom cur = sl.nextClass cur :: rest ∧
      sl.classesFrom (sl.nextClass cur) = rest ++ [sl.nextClass cur] := by
  unfold nextClass
  by_cases hlt : sl.powerLargest < cur + 1
  · obtain rfl : cur = sl.powerLargest := by omega
    obtain ⟨n, hn⟩ : ∃ n, sl.powerLargest = n + 1 := ⟨sl.powerLargest - 1, by omega⟩
    refine ⟨List.range' 2 n, ?_, ?_⟩
    · rw [if_pos hlt, classesFrom, Nat.sub_self, hn]
      rfl
    · rw [if_pos hlt, classesFrom, hn]
      rfl
  · refine ⟨List.range' (cur + 2) (sl.powerLargest - (cur + 1)) ++ List.range' powerSmallest cur,
      ?_, ?_⟩
    · rw [if_neg hlt, classesFrom, show sl.powerLargest - cur = sl.powerLargest - (cur + 1) + 1 by
        omega, List.range'_succ]
      rfl
    · rw [if_neg hlt, classesFrom, List.range'_concat, ← List.append_assoc, Nat.one_mul,
        Nat.add_comm powerSmallest cur]
      rfl

/-- **The loop**: it stops at the first eligible class, and the cursor with it. -/
theorem pickLoop_spec (hpos : 0 < sl.powerLargest) (tries : ℕ) (h : cur ≤ sl.powerLargest)
    {l rest : List ℕ} (hl : sl.classesFrom cur = l ++ rest) (hn : l.length = tries) :
    (∃ a c b, l = a ++ c :: b ∧ (∀ x ∈ a, sl.eligible dst x = false) ∧ sl.eligible dst c = true ∧
      c ≤ sl.powerLargest ∧ sl.pickLoop dst tries cur = ((c : ℤ), c) ∧
      sl.classesFrom c = b ++ rest ++ a ++ [c]) ∨
    (∀ x ∈ l, sl.eligible dst x = false) ∧ ∃ cur', cur' ≤ sl.powerLargest ∧
      sl.pickLoop dst tries cur = (-1, cur') ∧ sl.classesFrom cur' = rest ++ l := by
  induction tries generalizing cur l rest with
  | zero =>
    obtain rfl := List.length_eq_zero_iff.mp hn
    exact .inr ⟨fun x hx => (by cases hx), cur, h, rfl, by rw [hl, List.nil_append, List.append_nil]⟩
  | succ tries ih =>
    obtain ⟨x, l, rfl⟩ := List.exists_cons_of_length_eq_add_one hn
    obtain ⟨rest', h1, h2⟩ := classesFrom_next h hpos
    have hc := hl.symm.trans h1
    rw [List.cons_append, List.cons.injEq] at hc
    obtain ⟨rfl, rfl⟩ := hc
    rw [pickLoop]
    by_cases he : sl.eligible dst (sl.nextClass cur) = true
    · have he' := he
      simp only [eligible, Bool.and_eq_true, decide_eq_true_eq] at he'
      refine .inl ⟨[], _, l, rfl, fun x hx => (by cases hx), he, nextClass_le hpos, ?_, ?_⟩
      · rw [if_neg he'.1, if_pos he'.2]
      · rw [h2, List.append_nil]
    · have hskip : (if (sl.nextClass cur : ℤ) = dst then sl.pickLoop dst tries (sl.nextClass cur)
          else if 1 < (sl.slabclass (sl.nextClass cur)).slabs then
            ((sl.nextClass cur : ℤ), sl.nextClass cur)
          else sl.pickLoop dst tries (sl.nextClass cur)) =
          sl.pickLoop dst tries (sl.nextClass cur) := by
        split_ifs with e1 e2
        · rfl
        · exact absurd (by simp [eligible, e1, e2]) he
        · rfl
      rw [hskip]
      have hfalse : sl.eligible dst (sl.nextClass cur) = false := by simpa using he
      rcases ih (nextClass_le hpos) (l := l) (h2.trans (List.append_assoc _ _ _))
          (by simpa using hn) with ⟨a, c, b, rfl, ha, hc, hle, hp, hcl⟩ | ⟨ha, cur', hle, hp, hcl⟩
      · refine .inl ⟨sl.nextClass cur :: a, c, b, rfl, ?_, hc, hle, hp, by rw [hcl]; simp⟩
        simpa [hfalse] using ha
      · exact .inr ⟨by simpa [hfalse] using ha, cur', hle, hp, by rw [hcl]; simp⟩

/-- **A call takes a turn** of the classes from the cursor on. -/
theorem pickany_turn (dst : ℤ) (h : cur ≤ sl.powerLargest) :
    (sl.slabsReassignPickany cur dst).2 ≤ sl.powerLargest ∧
    (sl.slabsReassignPickany cur dst).1 =
      ((turn (sl.eligible dst) (sl.classesFrom cur)).1.elim (-1) fun c => (c : ℤ)) ∧
    sl.classesFrom (sl.slabsReassignPickany cur dst).2 =
      (turn (sl.eligible dst) (sl.classesFrom cur)).2 := by
  have hl : (sl.classesFrom cur).length = sl.powerLargest + 1 - powerSmallest :=
    (length_classesFrom h).trans (Nat.add_sub_cancel _ _).symm
  rcases Nat.eq_zero_or_pos sl.powerLargest with h0 | hpos
  · have hnil : sl.classesFrom cur = [] := List.length_eq_zero_iff.mp (by
      rw [length_classesFrom h, h0])
    have hp : sl.slabsReassignPickany cur dst = (-1, cur) := by
      rw [slabsReassignPickany, h0]
      rfl
    rw [hp, hnil]
    exact ⟨h, rfl, rfl⟩
  · rcases pickLoop_spec hpos _ h (List.append_nil _).symm hl with
      ⟨a, c, b, hcl, ha, hc, hle, hp, hnext⟩ | ⟨ha, cur', hle, hp, hnext⟩
    · rw [slabsReassignPickany, hp, hcl, turn_split ha hc]
      refine ⟨hle, rfl, ?_⟩
      rw [hnext, List.append_nil]
    · rw [slabsReassignPickany, hp, turn_none ha]
      exact ⟨hle, rfl, hnext⟩

theorem picks_turns (dst : ℤ) (n : ℕ) (h : cur ≤ sl.powerLargest) : sl.picks dst n cur =
    (turns (sl.eligible dst) n (sl.classesFrom cur)).map fun o => o.elim (-1) fun c => (c : ℤ) := by
  induction n generalizing cur with
  | zero => rfl
  | succ n ih =>
    obtain ⟨h1, h2, h3⟩ := pickany_turn dst h
    rw [picks, turns, List.map_cons, ih h1, h2, h3]

/-- The classes that a page may be taken from, in the order in which the cursor comes to them. -/
def eligibleFrom (sl : Slabs) (dst : ℤ) (cur : ℕ) : List ℕ :=
  (sl.classesFrom cur).filter (sl.eligible dst)

/-- Class `c` may give up a page to class `dst`. -/
def CanGive (sl : Slabs) (dst c : ℤ) : Prop :=
  sl.IsClass c ∧ c ≠ dst ∧ 1 < (sl.slabclass c.toNat).slabs

theorem mem_eligibleFrom (h : cur ≤ sl.powerLargest) {c : ℕ} :
    c ∈ sl.eligibleFrom dst cur ↔ sl.CanGive dst c := by
  rw [eligibleFrom, List.mem_filter, mem_classesFrom h]
  simp only [eligible, CanGive, IsClass, Bool.and_eq_true, decide_eq_true_eq, Int.toNat_natCast,
    Nat.cast_le]

/-- **Successive calls** go round the eligible classes. -/
theorem picks_cyclic (dst : ℤ) (n : ℕ) (h : cur ≤ sl.powerLargest) : sl.picks dst n cur =
    (List.range n).map fun i =>
      ((sl.eligibleFrom dst cur)[i % (sl.eligibleFrom dst cur).length]?).elim (-1) fun c => (c : ℤ) := by
  rw [picks_turns dst n h, turns_eq, List.map_map]
  rfl

/-- **One call.** -/
theorem pickany_spec (dst : ℤ) (h : cur ≤ sl.powerLargest) :
    sl.CanGive dst (sl.slabsReassignPickany cur dst).1 ∨
    (sl.slabsReassignPickany cur dst).1 = -1 ∧ ∀ c, ¬ sl.CanGive dst c := by
  have h1 := picks_cyclic dst 1 h
  rw [picks, picks, List.range_one, List.map_singleton, List.cons.injEq, Nat.zero_mod] at h1
  rw [h1.1]
  cases he : sl.eligibleFrom dst cur with
  | nil =>
    refine .inr ⟨rfl, fun c hc => ?_⟩
    have hnat : ((c.toNat : ℕ) : ℤ) = c := Int.toNat_of_nonneg (by
      have := hc.1.1
      unfold powerSmallest at this
      omega)
    have hmem : c.toNat ∈ sl.eligibleFrom dst cur := (mem_eligibleFrom h).mpr (by rw [hnat]; exact hc)
    rw [he] at hmem
    cases hmem
  | cons c e =>
    exact .inl ((mem_eligibleFrom h).mp (by rw [he]; exact List.mem_cons_self))

end Slabs

/-! ## Requests -/

/-- What a request is granted for. -/
def Reassigner.Grants (r : Reassigner) (sl : Slabs) (src dst : ℤ) : Prop :=
  r.signal = 0 ∧ src ≠ dst ∧ sl.IsClass dst ∧
    (sl.IsClass src ∧ 2 ≤ (sl.slabclass src.toNat).slabs ∨ src = -1 ∧ ∃ c, sl.CanGive dst c)

namespace Reassigner

variable {r : Reassigner} {sl : Slabs} {src dst : ℤ}

theorem not_isClass_neg (sl : Slabs) : ¬ sl.IsClass (-1) := fun h => by
  have := h.1
  unfold powerSmallest at this
  omega

theorem source_le (hcur : r.cur ≤ sl.powerLargest) : (r.source sl src dst).2 ≤ sl.powerLargest := by
  unfold source
  split_ifs
  · exact (Slabs.pickany_turn dst hcur).1
  · exact hcur

theorem source_ne (hcur : r.cur ≤ sl.powerLargest) (hsd : src ≠ dst)
    (hv : sl.IsClass (r.source sl src dst).1) : (r.source sl src dst).1 ≠ dst := by
  unfold source at hv ⊢
  split_ifs at hv ⊢
  · rcases Slabs.pickany_spec dst hcur with hg | ⟨he, -⟩
    · exact hg.2.1
    · rw [he] at hv
      exact absurd hv (not_isClass_neg sl)
  · exact hsd

theorem grants_iff (hcur : r.cur ≤ sl.powerLargest) : r.Grants sl src dst ↔
    r.signal = 0 ∧ src ≠ dst ∧ sl.IsClass dst ∧ sl.IsClass (r.source sl src dst).1 ∧
      2 ≤ (sl.slabclass (r.source sl src dst).1.toNat).slabs := by
  unfold Grants source
  refine and_congr_right fun _ => and_congr_right fun _ => and_congr_right fun _ => ?_
  split_ifs with hm
  · constructor
    · rintro (⟨hs, -⟩ | ⟨-, c, hc⟩)
      · exact absurd (by rwa [hm] at hs) (not_isClass_neg sl)
      · rcases Slabs.pickany_spec dst hcur with hg | ⟨-, hno⟩
        · exact ⟨hg.1, hg.2.2⟩
        · exact absurd hc (hno c)
    · rintro ⟨hs, -⟩
      rcases Slabs.pickany_spec dst hcur with hg | ⟨he, -⟩
      · exact .inr ⟨hm, _, hg⟩
      · rw [he] at hs
        exact absurd hs (not_isClass_neg sl)
  · exact ⟨fun h => h.resolve_right fun h => hm h.1, .inl⟩

/-- **A request that is granted** names two classes; otherwise only the cursor may have moved. -/
theorem doSlabsReassign_spec (hcur : r.cur ≤ sl.powerLargest) (src dst : ℤ) :
    (r.Grants sl src dst ∧ (∃ c cur, sl.IsClass c ∧ c ≠ dst ∧ cur ≤ sl.powerLargest ∧
      r.doSlabsReassign sl src dst = (.ok, ⟨1, c, dst, cur⟩))) ∨
    (¬ r.Grants sl src dst ∧ ∃ res cur, res ≠ .ok ∧ cur ≤ sl.powerLargest ∧
      r.doSlabsReassign sl src dst = (res, { r with cur := cur })) := by
  rw [grants_iff hcur]
  unfold doSlabsReassign
  by_cases h0 : r.signal ≠ 0
  · rw [if_pos h0]
    exact .inr ⟨fun h => h0 h.1, _, r.cur, by decide, hcur, rfl⟩
  rw [if_neg h0]
  by_cases hsd : src = dst
  · rw [if_pos hsd]
    exact .inr ⟨fun h => h.2.1 hsd, _, r.cur, by decide, hcur, rfl⟩
  rw [if_neg hsd]
  dsimp only
  by_cases hv : ¬ sl.IsClass (r.source sl src dst).1 ∨ ¬ sl.IsClass dst
  · rw [if_pos hv]
    refine .inr ⟨fun h => ?_, _, _, by decide, source_le hcur, rfl⟩
    exact hv.elim (fun hs => hs h.2.2.2.1) fun hd => hd h.2.2.1
  rw [if_neg hv]
  push Not at h0 hv
  by_cases h2 : (sl.slabclass (r.source sl src dst).1.toNat).slabs < 2
  · rw [if_pos h2]
    exact .inr ⟨fun h => by have := h.2.2.2.2; omega, _, _, by decide, source_le hcur, rfl⟩
  · rw [if_neg h2]
    exact .inl ⟨⟨h0, hsd, hv.2, hv.1, by omega⟩, _, _, hv.1, source_ne hcur hsd hv.1,
      source_le hcur, rfl⟩

end Reassigner

/-- **Page reassignment requests.** For any page counts, any number of classes, any cursor that earlier
calls have left and any `src` and `dst`: a call of `SlabsReassignPickany` returns a class that can give
a page to `dst`, or `-1` if there is none, and keeps its cursor in range; successive calls go round
these classes in the order of the cursor; `DoSlabsReassign` says `REASSIGN_OK` exactly if the request
is to be granted; it then leaves two different classes and the signal, and otherwise leaves them as
they were. -/
theorem reassign_requests {sl : Slabs} {r : Reassigner} (hcur : r.cur ≤ sl.powerLargest)
    (src dst : ℤ) :
    (sl.CanGive dst (sl.slabsReassignPickany r.cur dst).1 ∨
      (sl.slabsReassignPickany r.cur dst).1 = -1 ∧ ∀ c, ¬ sl.CanGive dst c) ∧
    (sl.slabsReassignPickany r.cur dst).2 ≤ sl.powerLargest ∧
    ((sl.eligibleFrom dst r.cur).Nodup ∧
      (∀ c : ℕ, c ∈ sl.eligibleFrom dst r.cur ↔ sl.CanGive dst c) ∧
      ∀ n, sl.picks dst n r.cur = (List.range n).map fun i =>
        ((sl.eligibleFrom dst r.cur)[i % (sl.eligibleFrom dst r.cur).length]?).elim (-1)
          fun c => (c : ℤ)) ∧
    ((r.doSlabsReassign sl src dst).1 = .ok ↔ r.Grants sl src dst) ∧
    (r.doSlabsReassign sl src dst).2.cur ≤ sl.powerLargest ∧
    ((r.doSlabsReassign sl src dst).1 = .ok →
      sl.IsClass (r.doSlabsReassign sl src dst).2.sClsid ∧
      sl.IsClass (r.doSlabsReassign sl src dst).2.dClsid ∧
      (r.doSlabsReassign sl src dst).2.sClsid ≠ (r.doSlabsReassign sl src dst).2.dClsid ∧
      (r.doSlabsReassign sl src dst).2.signal = 1) ∧
    ((r.doSlabsReassign sl src dst).1 ≠ .ok →
      (r.doSlabsReassign sl src dst).2.sClsid = r.sClsid ∧
      (r.doSlabsReassign sl src dst).2.dClsid = r.dClsid ∧
      (r.doSlabsReassign sl src dst).2.signal = r.signal) := by
  refine ⟨Slabs.pickany_spec dst hcur, (Slabs.pickany_turn dst hcur).1,
    ⟨(Slabs.classesFrom_nodup sl r.cur).filter _, fun c => Slabs.mem_eligibleFrom hcur,
      fun n => Slabs.picks_cyclic dst n hcur⟩, ?_⟩
  rcases Reassigner.doSlabsReassign_spec hcur src dst with
    ⟨hg, c, cur, hc, hne, hle, he⟩ | ⟨hg, res, cur, hres, hle, he⟩
  · rw [he]
    exact ⟨⟨fun _ => hg, fun _ => rfl⟩, hle, fun _ => ⟨hc, hg.2.2.1, hne, rfl⟩, fun h => absurd rfl h⟩
  · rw [he]
    exact ⟨⟨fun h => absurd h hres, fun h => absurd h hg⟩, hle, fun h => absurd h hres,
      fun _ => ⟨rfl, rfl, rfl⟩⟩

/-- Four classes, with three pages, one page, two pages and four pages. -/
def fourClasses : Slabs where
  slabclass c := ⟨96, 4, none, 0, [0, 3, 1, 2, 4].getD c 0, [], 0, 0⟩
  memLimit := 0
  memMalloced := 0
  memLimitReached := false
  powerLargest := 4
  memBase := none
  memCurrent := 0
  memAvail := 0

/-- With the cursor at 3, five calls for class 1 return 4, 3, 4, 3, 4; a request that leaves the source
open is granted. -/
theorem reassign_requests_four :
    fourClasses.picks 1 5 3 = [4, 3, 4, 3, 4] ∧
    ((⟨0, 0, 0, 3⟩ : Reassigner).doSlabsReassign fourClasses (-1) 1).1 = .ok := by
  have h := @reassign_requests fourClasses ⟨0, 0, 0, 3⟩ (by decide) (-1) 1
  refine ⟨(h.2.2.1.2.2 5).trans (by decide), h.2.2.2.1.mpr ⟨rfl, by decide, by decide, .inr ⟨rfl, 4, ?_⟩⟩⟩
  exact ⟨by decide, by decide, by decide⟩

end Mdb
