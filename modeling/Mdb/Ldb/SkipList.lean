import Mdb.Lib.Run
import Mdb.Lib.Sll

/-!
# Skip lists

`db/skiplist.h`: the entries of a memtable in order. Every node is in the list of level 0 and in those
below its height. One thread inserts at a time, a pointer at a time, from the lowest level up; others
search meanwhile without a lock.

* `Random`, `randomHeight`: the generator of the heights; `Random.next_eq`;
* `SkipList`: nodes with their keys, heights and links; `Search`, `step`, `findGreaterOrEqual`;
  `Inserting`, `beginInsert`, `writeStep`: `Insert`, store by store; `insert`: all of it;
* `Inv`: each level is a list, ordered and part of the one below; `Writing`: what an insertion that has
  come so far keeps; `Searching`: what a search keeps, however old the height it started from;
* **`findGreaterOrEqual_spec`**: a search ends and finds the first node that is not before the key;
* `Writing.step`: no store breaks a level;
* `SkipStep`, `SetStep`: one inserting thread and any number of searching ones, and a set whose
  operations are whole;
* **`skipList_refines_set`**: every run of the threads is a run of the set: an insertion happens when
  the node is linked into level 0, a search when its last link is read.
-/

namespace Mdb.Ldb

/-! ## `util/random.h` -/

namespace Random

/-- `Random::Random(s)`. -/
def new (s : UInt32) : UInt32 :=
  let seed := s &&& 0x7fffffff
  if seed = 0 ∨ seed = 2147483647 then 1 else seed

/-- `Random::Next()`; the number is also the new seed. -/
def next (seed : UInt32) : UInt32 :=
  let product : UInt64 := seed.toUInt64 * 16807
  let seed := (product >>> 31 + (product &&& 2147483647)).toUInt32
  if 2147483647 < seed then seed - 2147483647 else seed

/-- **The generator is multiplication modulo `2 ^ 31 - 1`**, and never gets stuck at 0. -/
theorem next_eq {seed : UInt32} (h : 0 < seed.toNat) (hlt : seed.toNat < 2147483647) :
    (next seed).toNat = seed.toNat * 16807 % 2147483647 ∧ 0 < (next seed).toNat := by
  have hproduct : (seed.toUInt64 * 16807).toNat = seed.toNat * 16807 := by
    rw [UInt64.toNat_mul, UInt32.toNat_toUInt64]
    exact Nat.mod_eq_of_lt (show seed.toNat * 16807 < 2 ^ 64 by omega)
  have hsum : ((seed.toUInt64 * 16807) >>> 31 + ((seed.toUInt64 * 16807) &&& 2147483647)).toUInt32.toNat =
      seed.toNat * 16807 / 2 ^ 31 + seed.toNat * 16807 % 2 ^ 31 := by
    have hand : seed.toNat * 16807 &&& 2147483647 = seed.toNat * 16807 % 2 ^ 31 :=
      Nat.and_two_pow_sub_one_eq_mod _ 31
    have hshift : ((seed.toUInt64 * 16807) >>> 31).toNat = seed.toNat * 16807 / 2 ^ 31 := by
      rw [UInt64.toNat_shiftRight, hproduct, Nat.shiftRight_eq_div_pow]
      rfl
    rw [UInt64.toNat_toUInt32, UInt64.toNat_add, UInt64.toNat_and, hproduct, hshift]
    rw [show (2147483647 : UInt64).toNat = 2147483647 from rfl, hand]
    omega
  -- the multiplier has no factor in common with the modulus
  have hne : seed.toNat * 16807 % 2147483647 ≠ 0 := by
    intro hzero
    have hdvd := (Nat.Coprime.dvd_mul_right (by norm_num : Nat.Coprime 2147483647 16807)).mp
      (Nat.dvd_of_mod_eq_zero hzero)
    exact absurd (Nat.le_of_dvd h hdvd) (not_le.mpr hlt)
  unfold next
  dsimp only
  split_ifs with hbig
  · have hbig' : 2147483647 < seed.toNat * 16807 / 2 ^ 31 + seed.toNat * 16807 % 2 ^ 31 := by
      rw [← hsum]
      exact hbig
    rw [UInt32.toNat_sub_of_le _ _ (UInt32.le_of_lt hbig), hsum]
    rw [show (2147483647 : UInt32).toNat = 2147483647 from rfl]
    omega
  · have hsmall : ¬ 2147483647 < seed.toNat * 16807 / 2 ^ 31 + seed.toNat * 16807 % 2 ^ 31 := by
      rw [← hsum]
      exact hbig
    rw [hsum]
    omega
end Random

/-- `kMaxHeight`. -/
def kMaxHeight : ℕ := 12

/-- The loop of `RandomHeight`, with the number of rounds it may still take. -/
def randomHeightLoop : ℕ → ℕ → UInt32 → ℕ × UInt32
  | 0, height, rnd => (height, rnd)
  | rounds + 1, height, rnd =>
    if Random.next rnd % 4 = 0 then randomHeightLoop rounds (height + 1) (Random.next rnd)
    else (height, Random.next rnd)

/-- `RandomHeight()`. -/
def randomHeight (rnd : UInt32) : ℕ × UInt32 := randomHeightLoop (kMaxHeight - 1) 1 rnd

theorem randomHeightLoop_mem (rounds : ℕ) : ∀ (height : ℕ) (rnd : UInt32),
    height ≤ (randomHeightLoop rounds height rnd).1 ∧
      (randomHeightLoop rounds height rnd).1 ≤ height + rounds := by
  induction rounds with
  | zero => exact fun height rnd => ⟨le_rfl, le_rfl⟩
  | succ rounds ih =>
    intro height rnd
    rw [randomHeightLoop]
    split_ifs
    · have := ih (height + 1) (Random.next rnd)
      omega
    · exact ⟨le_rfl, Nat.le_add_right _ _⟩

theorem randomHeight_mem (rnd : UInt32) : 0 < (randomHeight rnd).1 ∧ (randomHeight rnd).1 ≤ kMaxHeight :=
  randomHeightLoop_mem (kMaxHeight - 1) 1 rnd

/-! ## The list -/

/-- A `SkipList`. A node is its number; `next n i` is its link on level `i`. -/
structure SkipList (K : Type) where
  key : ℕ → K
  height : ℕ → ℕ
  next : ℕ → ℕ → Option ℕ
  maxHeight : ℕ
  rnd : UInt32
  size : ℕ

/-- Where a search is: `x` and `level`. -/
structure Search where
  node : ℕ
  level : ℕ

/-- How far an insertion has come: the height is to be stored, the node to be made, its link on level
`i` to be set, or the node `x` to be linked in on level `i`. -/
inductive InsertPc where
  | raise
  | alloc
  | prepare (i x : ℕ)
  | publish (i x : ℕ)

/-- The local variables of `Insert`. -/
structure Inserting (K : Type) where
  key : K
  height : ℕ
  prev : ℕ → ℕ
  pc : InsertPc

namespace SkipList

variable {K : Type} (cmp : K → K → Ordering)

/-- `head_`. -/
def head : ℕ := 0

/-- The constructor; any key will do for the head. -/
def new (any : K) : SkipList K :=
  ⟨fun _ => any, fun _ => kMaxHeight, fun _ _ => none, 1, Random.new 0xdeadbeef, 1⟩

/-- The link of `x` on level `i` is set to `v`. -/
def setNext (l : SkipList K) (x i : ℕ) (v : Option ℕ) : SkipList K :=
  { l with next := Function.update l.next x (Function.update (l.next x) i v) }

/-- The node is before the key. -/
def before (l : SkipList K) (key : K) (n : ℕ) : Bool := (cmp (l.key n) key).isLT

/-- `KeyIsAfterNode(key, n)`. -/
def keyIsAfterNode (l : SkipList K) (key : K) (n : Option ℕ) : Bool := n.any (l.before cmp key)

/-- One round of `FindGreaterOrEqual`, with the result if it is the last one. -/
def step (l : SkipList K) (key : K) (s : Search) : Search ⊕ Option ℕ :=
  let next := l.next s.node s.level
  if l.keyIsAfterNode cmp key next then .inl ⟨next.getD s.node, s.level⟩
  else if s.level = 0 then .inr next
  else .inl ⟨s.node, s.level - 1⟩

/-- The loop of `FindGreaterOrEqual`, which also fills `prev`. -/
def findLoop (l : SkipList K) (key : K) : ℕ → Search → (ℕ → ℕ) → Option (Option ℕ × (ℕ → ℕ))
  | 0, _, _ => none
  | fuel + 1, s, prev =>
    let next := l.next s.node s.level
    if l.keyIsAfterNode cmp key next then findLoop l key fuel ⟨next.getD s.node, s.level⟩ prev
    else if s.level = 0 then some (next, Function.update prev s.level s.node)
    else findLoop l key fuel ⟨s.node, s.level - 1⟩ (Function.update prev s.level s.node)

/-- `FindGreaterOrEqual(key, prev)`. Each level is walked once at most. -/
def findGreaterOrEqual (l : SkipList K) (key : K) : Option (Option ℕ × (ℕ → ℕ)) :=
  findLoop cmp l key (kMaxHeight * l.size) ⟨head, l.maxHeight - 1⟩ fun _ => head

/-- `Insert(key)` up to its first store: the search, the assertion and the height. -/
def beginInsert (l : SkipList K) (key : K) : Option (SkipList K × Inserting K) :=
  match findGreaterOrEqual cmp l key with
  | none => none
  | some (x, prev) =>
    if x.any fun n => cmp key (l.key n) == .eq then none
    else
      let r := randomHeight l.rnd
      some ({ l with rnd := r.2 },
        ⟨key, r.1, fun i => if i < l.maxHeight then prev i else head, .raise⟩)

/-- One store of `Insert`. -/
def writeStep (l : SkipList K) (w : Inserting K) : SkipList K × Option (Inserting K) :=
  match w.pc with
  | .raise =>
    (if l.maxHeight < w.height then { l with maxHeight := w.height } else l, some { w with pc := .alloc })
  | .alloc =>
    ({ l with
        key := Function.update l.key l.size w.key
        height := Function.update l.height l.size w.height
        size := l.size + 1 },
      some { w with pc := .prepare 0 l.size })
  | .prepare i x =>
    if i < w.height then
      (l.setNext x i (l.next (w.prev i) i), some { w with pc := .publish i x })
    else (l, none)
  | .publish i x => (l.setNext (w.prev i) i (some x), some { w with pc := .prepare (i + 1) x })

/-- The stores of `Insert`, one after another. -/
def writeAll : ℕ → SkipList K → Inserting K → Option (SkipList K)
  | 0, _, _ => none
  | fuel + 1, l, w =>
    match l.writeStep w with
    | (l, none) => some l
    | (l, some w) => writeAll fuel l w

/-- `Insert(key)`. -/
def insert (l : SkipList K) (key : K) : Option (SkipList K) :=
  match l.beginInsert cmp key with
  | none => none
  | some (l, w) => writeAll (2 * w.height + 3) l w

/-! ## What holds between two stores -/

/-- **A skip list**: each level is a list that hangs on the head, in the order of the keys, of nodes
that are on the level below too. -/
structure Inv (l : SkipList K) (chain : ℕ → List ℕ) : Prop where
  path : ∀ i, Sll.Path (l.next · i) head (chain i)
  sorted : (chain 0).Pairwise fun m n => cmp (l.key m) (l.key n) = .lt
  sub : ∀ i, (chain (i + 1)).Sublist (chain i)
  tall : ∀ i, ∀ n ∈ chain i, i < l.height n
  fresh : ∀ n ∈ chain 0, head < n ∧ n < l.size
  above : ∀ i, l.maxHeight ≤ i → chain i = []
  maxHeight : 0 < l.maxHeight ∧ l.maxHeight ≤ kMaxHeight
  headTall : l.height head = kMaxHeight
  size : head < l.size

variable {cmp} {l : SkipList K} {chain : ℕ → List ℕ} {key : K}

theorem inv_new (any : K) : Inv cmp (new any) fun _ => [] where
  path _ := rfl
  sorted := .nil
  sub _ := List.Sublist.refl _
  tall _ n hn := absurd hn List.not_mem_nil
  fresh n hn := absurd hn List.not_mem_nil
  above _ _ := rfl
  maxHeight := ⟨Nat.one_pos, (by decide : 1 ≤ kMaxHeight)⟩
  headTall := rfl
  size := Nat.one_pos

theorem Inv.sublist_zero (h : Inv cmp l chain) (i : ℕ) : (chain i).Sublist (chain 0) := by
  induction i with
  | zero => exact List.Sublist.refl _
  | succ i ih => exact (h.sub i).trans ih

theorem Inv.fresh_of_mem (h : Inv cmp l chain) {i n : ℕ} (hn : n ∈ chain i) : head < n ∧ n < l.size :=
  h.fresh n ((h.sublist_zero i).subset hn)

theorem Inv.sorted_level (h : Inv cmp l chain) (i : ℕ) :
    (chain i).Pairwise fun m n => cmp (l.key m) (l.key n) = .lt :=
  h.sorted.sublist (h.sublist_zero i)

theorem before_iff {n : ℕ} : l.before cmp key n = true ↔ cmp (l.key n) key = .lt := Ordering.isLT_iff_eq_lt

theorem not_before_iff {n : ℕ} : l.before cmp key n = false ↔ cmp (l.key n) key ≠ .lt := by
  rw [Ne, ← Ordering.isLT_iff_eq_lt, Bool.not_eq_true, before]

theorem Inv.down [Std.TransCmp cmp] (h : Inv cmp l chain) (key : K) (i : ℕ) : Sll.Down (l.before cmp key) (chain i) :=
  (h.sorted_level i).imp fun hlt hp => before_iff.mpr (Std.TransCmp.lt_trans hlt (before_iff.mp hp))

theorem Inv.nodup [Std.TransCmp cmp] (h : Inv cmp l chain) (i : ℕ) : (head :: chain i).Nodup := by
  refine List.nodup_cons.mpr ⟨fun hm => absurd (h.fresh_of_mem hm).1 (lt_irrefl _), ?_⟩
  refine (h.sorted_level i).imp fun {m n} hlt he => ?_
  subst he
  exact absurd (Std.ReflCmp.compare_self.symm.trans hlt) (by decide)

/-! ## Searching -/

/-- **What a search keeps**: it is at the head, or at a node of its level that is before the key. -/
structure Searching (cmp : K → K → Ordering) (l : SkipList K) (chain : ℕ → List ℕ) (key : K)
    (s : Search) : Prop where
  level : s.level < kMaxHeight
  node : s.node = head ∨ s.node ∈ chain s.level ∧ l.before cmp key s.node = true

theorem searching_start (h : Inv cmp l chain) {level : ℕ} (hl : level < l.maxHeight) :
    Searching cmp l chain key ⟨head, level⟩ :=
  ⟨lt_of_lt_of_le hl h.maxHeight.2, .inl rfl⟩

theorem Searching.mem {s : Search} (hs : Searching cmp l chain key s) : s.node ∈ head :: chain s.level := by
  rcases hs.node with hn | ⟨hn, -⟩
  · rw [hn]
    exact List.mem_cons_self
  · exact List.mem_cons_of_mem _ hn

/-- A round that goes on to the next node. -/
theorem Searching.forward {s : Search} (h : Inv cmp l chain) (hs : Searching cmp l chain key s)
    (hafter : l.keyIsAfterNode cmp key (l.next s.node s.level) = true) :
    ∃ n, l.next s.node s.level = some n ∧ n ∈ chain s.level ∧ l.before cmp key n = true := by
  cases hn : l.next s.node s.level with
  | none =>
    rw [hn] at hafter
    cases hafter
  | some n =>
    rw [hn] at hafter
    exact ⟨n, rfl, (h.path _).mem_of_next hs.mem hn, hafter⟩

/-- A round that goes down, or ends: all nodes of the level that are before the key are passed. -/
theorem Searching.passed [Std.TransCmp cmp] {s : Search} (h : Inv cmp l chain) (hs : Searching cmp l chain key s)
    (hafter : ¬ l.keyIsAfterNode cmp key (l.next s.node s.level) = true) :
    s.node = Sll.last head ((chain s.level).filter (l.before cmp key)) ∧
      l.next s.node s.level = ((chain s.level).filter fun n => !l.before cmp key n).head? := by
  refine (h.path s.level).stop (h.down key s.level) hs.node fun n hn => ?_
  rw [hn] at hafter
  simpa [keyIsAfterNode] using hafter

theorem Searching.descend {s : Search} (h : Inv cmp l chain) (hs : Searching cmp l chain key s)
    (hpos : s.level ≠ 0) : Searching cmp l chain key ⟨s.node, s.level - 1⟩ := by
  refine ⟨lt_of_le_of_lt (Nat.sub_le _ _) hs.level, hs.node.imp_right fun hn => ⟨?_, hn.2⟩⟩
  refine (h.sub (s.level - 1)).subset ?_
  rw [Nat.sub_add_cancel (Nat.one_le_iff_ne_zero.mpr hpos)]
  exact hn.1

/-- **A round of a search.** -/
theorem Searching.step_inl {s s' : Search} (h : Inv cmp l chain) (hs : Searching cmp l chain key s)
    (he : l.step cmp key s = .inl s') : Searching cmp l chain key s' := by
  unfold step at he
  dsimp only at he
  split_ifs at he with hafter hzero
  · obtain ⟨n, hn, hmem, hb⟩ := hs.forward h hafter
    obtain rfl := Sum.inl.inj he
    rw [hn]
    exact ⟨hs.level, .inr ⟨hmem, hb⟩⟩
  · obtain rfl := Sum.inl.inj he
    exact hs.descend h hzero

/-- **The last round of a search** finds the first node that is not before the key. -/
theorem Searching.step_inr [Std.TransCmp cmp] {s : Search} {r : Option ℕ} (h : Inv cmp l chain)
    (hs : Searching cmp l chain key s) (he : l.step cmp key s = .inr r) :
    r = ((chain 0).filter fun n => !l.before cmp key n).head? := by
  unfold step at he
  dsimp only at he
  split_ifs at he with hafter hzero
  obtain rfl := Sum.inr.inj he
  have hpassed := (hs.passed h hafter).2
  rw [hzero] at hpassed ⊢
  exact hpassed

/-- The nodes have numbers below `size`. -/
theorem Inv.length_lt [Std.TransCmp cmp] (h : Inv cmp l chain) (i : ℕ) : (chain i).length < l.size := by
  have hsub : (chain i).toFinset ⊆ Finset.Ioo head l.size := fun n hn =>
    Finset.mem_Ioo.mpr (h.fresh_of_mem (List.mem_toFinset.mp hn))
  have hcard := Finset.card_le_card hsub
  rw [List.toFinset_card_of_nodup (List.nodup_cons.mp (h.nodup i)).2, Nat.card_Ioo] at hcard
  have hsize := h.size
  unfold head at *
  omega

/-- **The loop of a search ends** if it may take as many rounds as there are nodes left. -/
theorem findLoop_spec [Std.TransCmp cmp] (h : Inv cmp l chain) : ∀ {fuel : ℕ} {s : Search} {a b : List ℕ},
    Searching cmp l chain key s → chain s.level = a ++ b → s.node = Sll.last head a →
    s.level * l.size + b.length < fuel → ∀ prev : ℕ → ℕ, ∃ prev',
      findLoop cmp l key fuel s prev = some (((chain 0).filter fun n => !l.before cmp key n).head?, prev') ∧
      (∀ i ≤ s.level, prev' i = Sll.last head ((chain i).filter (l.before cmp key))) ∧
      ∀ i, s.level < i → prev' i = prev i := by
  intro fuel
  induction fuel with
  | zero => exact fun _ _ _ hlt => absurd hlt (Nat.not_lt_zero _)
  | succ fuel ih =>
    intro s a b hs hab hlast hfuel prev
    have hnext : l.next s.node s.level = b.head? := by
      rw [hlast]
      exact (hab ▸ h.path s.level).at_last.head
    unfold findLoop
    dsimp only
    by_cases hafter : l.keyIsAfterNode cmp key (l.next s.node s.level) = true
    · obtain ⟨n, hn, hmem, hb⟩ := hs.forward h hafter
      obtain ⟨b, rfl⟩ : ∃ b', b = n :: b' := List.head?_eq_some_iff.mp (hnext.symm.trans hn)
      rw [if_pos hafter, hn]
      rw [List.length_cons] at hfuel
      exact ih (s := ⟨n, s.level⟩) ⟨hs.level, .inr ⟨hmem, hb⟩⟩ (hab.trans (List.append_cons a n b))
        Sll.last_concat.symm (Nat.lt_of_succ_lt_succ hfuel) prev
    · obtain ⟨hnode, hrest⟩ := hs.passed h hafter
      rw [if_neg hafter]
      by_cases hzero : s.level = 0
      · rw [if_pos hzero, hrest]
        rw [hzero] at hnode ⊢
        refine ⟨_, rfl, fun i hi => ?_, fun i hi => Function.update_of_ne hi.ne' _ _⟩
        obtain rfl := Nat.le_zero.mp hi
        rw [Function.update_self, hnode]
      · rw [if_neg hzero]
        have hs' := hs.descend h hzero
        obtain ⟨a', b', hab', hlast'⟩ := Sll.exists_split hs'.mem
        have hlt := h.length_lt (s.level - 1)
        have hmul : (s.level - 1) * l.size + l.size = s.level * l.size := by
          rw [← Nat.succ_mul, Nat.succ_eq_add_one, Nat.sub_add_cancel (Nat.pos_of_ne_zero hzero)]
        rw [show chain (s.level - 1) = a' ++ b' from hab', List.length_append] at hlt
        obtain ⟨prev', hfind, hprev, habove⟩ := ih hs' hab' hlast' (by dsimp only; omega)
          (Function.update prev s.level s.node)
        dsimp only at hprev habove
        refine ⟨prev', hfind, fun i hi => ?_, fun i hi => ?_⟩
        · rcases Nat.lt_or_eq_of_le hi with hi | rfl
          · exact hprev i (by omega)
          · rw [habove _ (by omega), Function.update_self]
            exact hnode
        · rw [habove i (by omega), Function.update_of_ne hi.ne']

/-- **A search ends**, and finds the first node that is not before the key, and on each level the last
one that is. -/
theorem findGreaterOrEqual_spec [Std.TransCmp cmp] (h : Inv cmp l chain) (key : K) :
    ∃ prev, findGreaterOrEqual cmp l key =
        some (((chain 0).filter fun n => !l.before cmp key n).head?, prev) ∧
      ∀ i < l.maxHeight, prev i = Sll.last head ((chain i).filter (l.before cmp key)) := by
  have hpos := h.maxHeight.1
  have hlt := h.length_lt (l.maxHeight - 1)
  have hmul : (l.maxHeight - 1) * l.size + l.size = l.maxHeight * l.size := by
    rw [← Nat.succ_mul, Nat.succ_eq_add_one, Nat.sub_add_cancel hpos]
  have hle : l.maxHeight * l.size ≤ kMaxHeight * l.size := Nat.mul_le_mul_right _ h.maxHeight.2
  obtain ⟨prev, hfind, hprev, -⟩ := findLoop_spec h
    (searching_start h (Nat.sub_lt hpos Nat.one_pos) : Searching cmp l chain key _)
    (List.nil_append _).symm rfl (by dsimp only; omega : _ < kMaxHeight * l.size) fun _ => head
  exact ⟨prev, hfind, fun i hi => hprev i (Nat.le_sub_one_of_lt hi)⟩

/-! ## Inserting -/

/-- No node compares equal to the key. -/
def Absent (cmp : K → K → Ordering) (l : SkipList K) (chain : ℕ → List ℕ) (key : K) : Prop :=
  ∀ n ∈ chain 0, cmp (l.key n) key ≠ .eq

/-- From level `i` up `prev` has the last node before the key. -/
def Prevs (cmp : K → K → Ordering) (l : SkipList K) (chain : ℕ → List ℕ) (w : Inserting K) (i : ℕ) :
    Prop :=
  ∀ j, i ≤ j → j < w.height → w.prev j = Sll.last head ((chain j).filter (l.before cmp w.key))

/-- The new node `x` is on the levels below `i`. -/
structure Linked (l : SkipList K) (chain : ℕ → List ℕ) (w : Inserting K) (i x : ℕ) : Prop where
  node : head < x ∧ x < l.size
  key : l.key x = w.key
  height : l.height x = w.height
  maxHeight : w.height ≤ l.maxHeight
  pos : 0 < w.height
  le : i ≤ w.height
  mem : ∀ j < i, x ∈ chain j
  not_mem : ∀ j, i ≤ j → x ∉ chain j

/-- **What an insertion keeps** between two stores. -/
inductive Writing (cmp : K → K → Ordering) (l : SkipList K) (chain : ℕ → List ℕ) (w : Inserting K) : Prop
  | raise (hpc : w.pc = .raise) (hh : 0 < w.height ∧ w.height ≤ kMaxHeight)
      (habsent : Absent cmp l chain w.key) (hprev : Prevs cmp l chain w 0)
  | alloc (hpc : w.pc = .alloc) (hh : 0 < w.height ∧ w.height ≤ l.maxHeight)
      (habsent : Absent cmp l chain w.key) (hprev : Prevs cmp l chain w 0)
  | prepare {i x : ℕ} (hpc : w.pc = .prepare i x) (hx : Linked l chain w i x)
      (habsent : i = 0 → Absent cmp l chain w.key) (hprev : Prevs cmp l chain w i)
  | publish {i x : ℕ} (hpc : w.pc = .publish i x) (hi : i < w.height) (hx : Linked l chain w i x)
      (habsent : i = 0 → Absent cmp l chain w.key) (hprev : Prevs cmp l chain w i)
      (hnext : l.next x i = ((chain i).filter fun n => !l.before cmp w.key n).head?)

/-- The assertion in `Insert` holds just if no node compares equal to the key. -/
theorem absent_of_first [Std.TransCmp cmp] (h : Inv cmp l chain)
    (hfirst : ¬ (((chain 0).filter fun n => !l.before cmp key n).head?.any
      fun n => cmp key (l.key n) == .eq) = true) : Absent cmp l chain key := by
  intro n hn heq
  have hmem : n ∈ (chain 0).filter fun n => !l.before cmp key n := by
    rw [List.mem_filter, Bool.not_eq_true', not_before_iff, heq]
    exact ⟨hn, by decide⟩
  have hsorted := h.sorted.sublist (List.filter_sublist (p := fun n => !l.before cmp key n))
  have hall : ∀ m ∈ (chain 0).filter fun n => !l.before cmp key n, l.before cmp key m = false :=
    fun m hm => by simpa using (List.mem_filter.mp hm).2
  cases hc : (chain 0).filter fun n => !l.before cmp key n with
  | nil =>
    rw [hc] at hmem
    cases hmem
  | cons m c =>
    rw [hc] at hmem hsorted hall hfirst
    rcases List.mem_cons.mp hmem with rfl | hmem
    · exact hfirst (by simpa using Std.OrientedCmp.eq_symm heq)
    · -- a node in front of `n` would be before the key
      have hlt := Std.TransCmp.lt_of_lt_of_eq ((List.pairwise_cons.mp hsorted).1 n hmem) heq
      exact not_before_iff.mp (hall m List.mem_cons_self) hlt

theorem beginInsert_spec [Std.TransCmp cmp] (h : Inv cmp l chain) {l' : SkipList K} {w : Inserting K}
    (hb : l.beginInsert cmp key = some (l', w)) :
    Inv cmp l' chain ∧ Writing cmp l' chain w ∧ w.key = key ∧ w.pc = .raise ∧ l'.key = l.key ∧
      l'.size = l.size ∧ l'.maxHeight = l.maxHeight := by
  obtain ⟨prev, hfind, hprev⟩ := findGreaterOrEqual_spec h key
  rw [beginInsert, hfind] at hb
  dsimp only at hb
  split_ifs at hb with hfirst
  obtain ⟨rfl, rfl⟩ := Prod.mk.inj (Option.some.inj hb)
  refine ⟨⟨h.path, h.sorted, h.sub, h.tall, h.fresh, h.above, h.maxHeight, h.headTall, h.size⟩, ?_, rfl,
    rfl, rfl, rfl, rfl⟩
  have habsent : Absent cmp l chain key := absent_of_first h hfirst
  refine .raise rfl (randomHeight_mem _) habsent fun j _ _ => ?_
  dsimp only
  split_ifs with hj
  · exact hprev j hj
  · rw [h.above j (not_lt.mp hj)]
    rfl

/-- If no node compares equal to the key, `Insert` gets past its assertion. -/
theorem exists_beginInsert [Std.TransCmp cmp] (h : Inv cmp l chain) (habsent : Absent cmp l chain key) :
    ∃ l' w, l.beginInsert cmp key = some (l', w) := by
  obtain ⟨prev, hfind, -⟩ := findGreaterOrEqual_spec h key
  rw [beginInsert, hfind]
  dsimp only
  refine ⟨_, _, if_neg fun hfirst => ?_⟩
  cases hn : ((chain 0).filter fun n => !l.before cmp key n).head? with
  | none =>
    rw [hn] at hfirst
    cases hfirst
  | some n =>
    rw [hn] at hfirst
    refine habsent n (List.mem_of_mem_filter (List.mem_of_mem_head? hn)) (Std.OrientedCmp.eq_symm ?_)
    simpa using hfirst

/-- The nodes of a list stay where they are, and new ones come in. -/
structure Grows (l : SkipList K) (chain : ℕ → List ℕ) (l' : SkipList K) (chain' : ℕ → List ℕ) : Prop where
  mem : ∀ i, chain i ⊆ chain' i
  key : ∀ n < l.size, l'.key n = l.key n
  maxHeight : l.maxHeight ≤ l'.maxHeight

/-- A search does not mind. -/
theorem Searching.grow {l' : SkipList K} {chain' : ℕ → List ℕ} {s : Search} (h : Inv cmp l chain)
    (hg : Grows l chain l' chain') (hs : Searching cmp l chain key s) : Searching cmp l' chain' key s := by
  refine ⟨hs.level, hs.node.imp_right fun ⟨hn, hb⟩ => ⟨hg.mem _ hn, ?_⟩⟩
  rw [before, hg.key _ (h.fresh_of_mem hn).2]
  exact hb

theorem setNext_level (l : SkipList K) (x i : ℕ) (v : Option ℕ) :
    ((l.setNext x i v).next · i) = Function.update (l.next · i) x v := by
  funext n
  by_cases hn : n = x
  · subst hn
    simp [setNext]
  · simp [setNext, hn]

theorem setNext_other (l : SkipList K) (x : ℕ) {i j : ℕ} (v : Option ℕ) (hj : j ≠ i) :
    ((l.setNext x i v).next · j) = (l.next · j) := by
  funext n
  by_cases hn : n = x
  · subst hn
    simp [setNext, hj]
  · simp [setNext, hn]

/-- The height of the list is stored. -/
theorem Inv.raise (h : Inv cmp l chain) {m : ℕ} (hm : l.maxHeight ≤ m) (hle : m ≤ kMaxHeight) :
    Inv cmp { l with maxHeight := m } chain :=
  ⟨h.path, h.sorted, h.sub, h.tall, h.fresh, fun i hi => h.above i (hm.trans hi),
    ⟨lt_of_lt_of_le h.maxHeight.1 hm, hle⟩, h.headTall, h.size⟩

/-- A node is made. -/
theorem Inv.alloc (h : Inv cmp l chain) (key : K) (height : ℕ) :
    Inv cmp { l with
      key := Function.update l.key l.size key
      height := Function.update l.height l.size height
      size := l.size + 1 } chain := by
  have hold : ∀ {i n : ℕ}, n ∈ chain i → n ≠ l.size := fun hn => (h.fresh_of_mem hn).2.ne
  refine ⟨h.path, ?_, h.sub, fun i n hn => ?_, fun n hn => ?_, h.above, h.maxHeight, ?_, ?_⟩
  · refine h.sorted.imp_of_mem fun hm hn hlt => ?_
    dsimp only
    rw [Function.update_of_ne (hold hm), Function.update_of_ne (hold hn)]
    exact hlt
  · dsimp only
    rw [Function.update_of_ne (hold hn)]
    exact h.tall i n hn
  · exact ⟨(h.fresh n hn).1, Nat.lt_succ_of_lt (h.fresh n hn).2⟩
  · dsimp only
    rw [Function.update_of_ne h.size.ne]
    exact h.headTall
  · exact Nat.lt_succ_of_lt h.size

/-- The link of a node that is not on the level is set. -/
theorem Inv.setNext (h : Inv cmp l chain) {x i : ℕ} (hx : x ∉ head :: chain i) (v : Option ℕ) :
    Inv cmp (l.setNext x i v) chain := by
  refine ⟨fun j => ?_, h.sorted, h.sub, h.tall, h.fresh, h.above, h.maxHeight, h.headTall, h.size⟩
  by_cases hj : j = i
  · subst hj
    rw [setNext_level]
    refine (h.path j).congr fun y hy => Function.update_of_ne ?_ _ _
    rintro rfl
    exact hx hy
  · rw [setNext_other l x v hj]
    exact h.path j

/-- The level with the node `x` in its place. -/
def linkIn (cmp : K → K → Ordering) (l : SkipList K) (key : K) (x : ℕ) (c : List ℕ) : List ℕ :=
  c.filter (l.before cmp key) ++ x :: c.filter fun n => !l.before cmp key n

theorem subset_linkIn (x : ℕ) (c : List ℕ) : c ⊆ linkIn cmp l key x c := by
  intro n hn
  by_cases hb : l.before cmp key n = true
  · exact List.mem_append_left _ (List.mem_filter.mpr ⟨hn, hb⟩)
  · exact List.mem_append_right _ (List.mem_cons_of_mem _ (List.mem_filter.mpr ⟨hn, by simpa using hb⟩))

theorem mem_linkIn {n x : ℕ} {c : List ℕ} (hn : n ∈ linkIn cmp l key x c) : n = x ∨ n ∈ c := by
  rcases List.mem_append.mp hn with hn | hn
  · exact .inr (List.mem_of_mem_filter hn)
  · rcases List.mem_cons.mp hn with rfl | hn
    · exact .inl rfl
    · exact .inr (List.mem_of_mem_filter hn)

/-- On a level where the new node is, it is the first that is not before the key. -/
theorem Inv.filter_eq_cons [Std.TransCmp cmp] (h : Inv cmp l chain) {x i : ℕ} (hx : x ∈ chain i)
    (hkey : l.key x = key) :
    ∃ rest, ((chain i).filter fun n => !l.before cmp key n) = x :: rest := by
  have hmem : x ∈ (chain i).filter fun n => !l.before cmp key n := by
    rw [List.mem_filter, Bool.not_eq_true', not_before_iff, hkey,
      (Std.ReflCmp.compare_self : cmp key key = .eq)]
    exact ⟨hx, by decide⟩
  cases hc : (chain i).filter fun n => !l.before cmp key n with
  | nil =>
    rw [hc] at hmem
    cases hmem
  | cons y rest =>
    have hsorted := (h.sorted_level i).sublist (List.filter_sublist (p := fun n => !l.before cmp key n))
    rw [hc] at hmem hsorted
    rcases List.mem_cons.mp hmem with rfl | hmem
    · exact ⟨rest, rfl⟩
    · have hy : y ∈ (chain i).filter fun n => !l.before cmp key n := hc ▸ List.mem_cons_self
      rw [List.mem_filter, Bool.not_eq_true', not_before_iff, ← hkey] at hy
      exact absurd ((List.pairwise_cons.mp hsorted).1 x hmem) hy.2

/-- A level stays part of the one below. -/
theorem Inv.linkIn_sublist [Std.TransCmp cmp] (h : Inv cmp l chain) {x i : ℕ} (hx : x ∈ chain i)
    (hkey : l.key x = key) {c : List ℕ} (hc : c.Sublist (chain i)) (hxc : x ∉ c) :
    (linkIn cmp l key x c).Sublist (chain i) := by
  obtain ⟨rest, hrest⟩ := h.filter_eq_cons hx hkey
  have hafter := hc.filter fun n => !l.before cmp key n
  rw [hrest] at hafter
  rw [← (h.down key i).filter_append, hrest, linkIn]
  refine (hc.filter _).append ((List.Sublist.cons_cons x) ?_)
  rcases List.sublist_cons_iff.mp hafter with hsub | ⟨r, hr, -⟩
  · exact hsub
  · refine absurd ?_ hxc
    exact List.mem_of_mem_filter (hr ▸ List.mem_cons_self : x ∈ c.filter _)

theorem Inv.linkIn_sorted [Std.TransCmp cmp] (h : Inv cmp l chain) (habsent : Absent cmp l chain key)
    {x : ℕ} (hkey : l.key x = key) :
    (linkIn cmp l key x (chain 0)).Pairwise fun m n => cmp (l.key m) (l.key n) = .lt := by
  have hbefore : ∀ m ∈ (chain 0).filter (l.before cmp key), cmp (l.key m) (l.key x) = .lt := fun m hm => by
    rw [hkey]
    exact before_iff.mp (List.mem_filter.mp hm).2
  have hafter : ∀ n ∈ (chain 0).filter fun n => !l.before cmp key n,
      cmp (l.key x) (l.key n) = .lt := fun n hn => by
    obtain ⟨hn, hb⟩ := List.mem_filter.mp hn
    rw [Bool.not_eq_true', not_before_iff] at hb
    rw [hkey]
    refine Std.OrientedCmp.gt_iff_lt.mp ?_
    cases hc : cmp (l.key n) key with
    | lt => exact absurd hc hb
    | eq => exact absurd hc (habsent n hn)
    | gt => rfl
  have hsorted := h.sorted
  rw [← (h.down key 0).filter_append, List.pairwise_append] at hsorted
  obtain ⟨h₁, h₂, h₁₂⟩ := hsorted
  refine List.pairwise_append.mpr ⟨h₁, List.pairwise_cons.mpr ⟨hafter, h₂⟩, fun m hm n hn => ?_⟩
  rcases List.mem_cons.mp hn with rfl | hn
  · exact hbefore m hm
  · exact h₁₂ m hm n hn

/-- **The node is linked in** on level `i`. -/
theorem Inv.publish [Std.TransCmp cmp] (h : Inv cmp l chain) {w : Inserting K} {i x : ℕ}
    (hi : i < w.height) (hx : Linked l chain w i x) (habsent : i = 0 → Absent cmp l chain w.key)
    (hprev : Prevs cmp l chain w i)
    (hnext : l.next x i = ((chain i).filter fun n => !l.before cmp w.key n).head?) :
    Inv cmp (l.setNext (w.prev i) i (some x))
      (Function.update chain i (linkIn cmp l w.key x (chain i))) := by
  have hsplit := (h.down w.key i).filter_append
  have hxi : x ∉ head :: chain i := by
    rintro hm
    rcases List.mem_cons.mp hm with rfl | hm
    · exact lt_irrefl _ hx.node.1
    · exact hx.not_mem i le_rfl hm
  refine ⟨fun j => ?_, ?_, fun j => ?_, fun j n hn => ?_, fun n hn => ?_, fun j hj => ?_, h.maxHeight,
    h.headTall, h.size⟩
  · by_cases hj : j = i
    · subst hj
      rw [setNext_level, Function.update_self, hprev j le_rfl hi, linkIn]
      exact Sll.Path.insert (hsplit.symm ▸ h.path j) (hsplit.symm ▸ h.nodup j) (hsplit.symm ▸ hxi) hnext
    · rw [setNext_other l _ _ hj, Function.update_of_ne hj]
      exact h.path j
  · by_cases hzero : i = 0
    · subst hzero
      rw [Function.update_self]
      exact h.linkIn_sorted (habsent rfl) hx.key
    · rw [Function.update_of_ne (Ne.symm hzero)]
      exact h.sorted
  · by_cases hj : j = i
    · subst hj
      rw [Function.update_self, Function.update_of_ne (Nat.succ_ne_self j)]
      refine (h.sub j).trans ?_
      conv_lhs => rw [← hsplit]
      exact (List.Sublist.refl _).append (List.sublist_cons_self _ _)
    · rw [Function.update_of_ne hj]
      by_cases hj' : j + 1 = i
      · subst hj'
        rw [Function.update_self]
        exact h.linkIn_sublist (hx.mem j (Nat.lt_succ_self j)) hx.key (h.sub j) (hx.not_mem _ le_rfl)
      · rw [Function.update_of_ne hj']
        exact h.sub j
  · change j < l.height n
    by_cases hj : j = i
    · subst hj
      rw [Function.update_self] at hn
      rcases mem_linkIn hn with rfl | hn
      · rw [hx.height]
        exact hi
      · exact h.tall j n hn
    · rw [Function.update_of_ne hj] at hn
      exact h.tall j n hn
  · change head < n ∧ n < l.size
    by_cases hzero : i = 0
    · subst hzero
      rw [Function.update_self] at hn
      rcases mem_linkIn hn with rfl | hn
      · exact hx.node
      · exact h.fresh n hn
    · rw [Function.update_of_ne (Ne.symm hzero)] at hn
      exact h.fresh n hn
  · have hj' : l.maxHeight ≤ j := hj
    have hmax := hx.maxHeight
    rw [Function.update_of_ne (by omega)]
    exact h.above j hj

/-! ## A set of keys -/

/-- The keys of the list, in order. -/
def keys (l : SkipList K) (chain : ℕ → List ℕ) : List K := (chain 0).map l.key

variable (cmp) in
/-- The keys with one more. -/
def insertKey (key : K) (ks : List K) : List K :=
  ks.filter (fun k => (cmp k key).isLT) ++ key :: ks.filter fun k => !(cmp k key).isLT

variable (cmp) in
/-- The first key that is not before `key`. -/
def seekKey (key : K) (ks : List K) : Option K := (ks.filter fun k => !(cmp k key).isLT).head?

theorem keys_linkIn {x : ℕ} (hkey : l.key x = key) :
    (linkIn cmp l key x (chain 0)).map l.key = insertKey cmp key (keys l chain) := by
  rw [linkIn, insertKey, keys, List.map_append, List.map_cons, hkey, List.filter_map, List.filter_map]
  rfl

theorem map_first (l : SkipList K) (chain : ℕ → List ℕ) (key : K) :
    (((chain 0).filter fun n => !l.before cmp key n).head?).map l.key = seekKey cmp key (keys l chain) := by
  rw [seekKey, keys, List.filter_map, List.head?_map]
  rfl

end SkipList

/-- The next store puts the node into the list. -/
def Inserting.lands {K : Type} (w : Inserting K) : Bool :=
  match w.pc with
  | .publish 0 _ => true
  | _ => false

namespace SkipList

variable {K : Type} {cmp : K → K → Ordering} {l : SkipList K} {chain : ℕ → List ℕ} {key : K}

theorem grows_refl (l : SkipList K) (chain : ℕ → List ℕ) : Grows l chain l chain :=
  ⟨fun _ => List.Subset.refl _, fun _ _ => rfl, le_rfl⟩

/-- **What a store of an insertion does**: the levels stay lists, and the keys change when the node is
linked into level 0. -/
structure Stored (cmp : K → K → Ordering) (l : SkipList K) (chain : ℕ → List ℕ) (w : Inserting K)
    (l' : SkipList K) (w' : Option (Inserting K)) (chain' : ℕ → List ℕ) : Prop where
  inv : Inv cmp l' chain'
  grows : Grows l chain l' chain'
  writing : ∀ w'' ∈ w', Writing cmp l' chain' w''
  absent : w.lands = true → Absent cmp l chain w.key
  keys : keys l' chain' = bif w.lands then insertKey cmp w.key (keys l chain) else keys l chain

section Stores

variable {w : Inserting K}

theorem stored_raise (h : Inv cmp l chain) (hpc : w.pc = .raise)
    (hh : 0 < w.height ∧ w.height ≤ kMaxHeight) (habsent : Absent cmp l chain w.key)
    (hprev : Prevs cmp l chain w 0) :
    Stored cmp l chain w (l.writeStep w).1 (l.writeStep w).2 chain := by
  have hlands : w.lands = false := by rw [Inserting.lands, hpc]
  rw [writeStep, hpc]
  dsimp only
  by_cases hlt : l.maxHeight < w.height
  · rw [if_pos hlt]
    refine ⟨h.raise hlt.le hh.2, ⟨fun _ => List.Subset.refl _, fun _ _ => rfl, hlt.le⟩, ?_, ?_, ?_⟩
    · rintro w' he
      obtain rfl := Option.some.inj he
      exact .alloc rfl ⟨hh.1, le_rfl⟩ habsent hprev
    · exact fun _ => habsent
    · rw [hlands]
      rfl
  · rw [if_neg hlt]
    refine ⟨h, grows_refl l chain, ?_, fun _ => habsent, ?_⟩
    · rintro w' he
      obtain rfl := Option.some.inj he
      exact .alloc rfl ⟨hh.1, not_lt.mp hlt⟩ habsent hprev
    · rw [hlands]
      rfl

theorem stored_alloc (h : Inv cmp l chain) (hpc : w.pc = .alloc)
    (hh : 0 < w.height ∧ w.height ≤ l.maxHeight) (habsent : Absent cmp l chain w.key)
    (hprev : Prevs cmp l chain w 0) :
    Stored cmp l chain w (l.writeStep w).1 (l.writeStep w).2 chain := by
  have hlands : w.lands = false := by rw [Inserting.lands, hpc]
  have hold : ∀ {i n : ℕ}, n ∈ chain i → n ≠ l.size := fun hn => (h.fresh_of_mem hn).2.ne
  rw [writeStep, hpc]
  dsimp only
  refine ⟨h.alloc w.key w.height, ⟨fun _ => List.Subset.refl _, fun n hn => ?_, le_rfl⟩, ?_,
    fun _ => habsent, ?_⟩
  · exact Function.update_of_ne hn.ne _ _
  · rintro w' he
    obtain rfl := Option.some.inj he
    refine .prepare rfl ⟨⟨h.size, Nat.lt_succ_self _⟩, Function.update_self _ _ _,
      Function.update_self _ _ _, hh.2, hh.1, Nat.zero_le _, fun j hj => absurd hj (Nat.not_lt_zero _),
      fun j _ hm => hold hm rfl⟩ (fun _ n hn => ?_) fun j hj hlt => ?_
    · dsimp only
      rw [Function.update_of_ne (hold hn)]
      exact habsent n hn
    · dsimp only
      rw [hprev j hj hlt]
      congr 1
      refine List.filter_congr fun n hn => ?_
      rw [before, before]
      dsimp only
      rw [Function.update_of_ne (hold hn)]
  · rw [hlands]
    refine List.map_congr_left fun n hn => ?_
    exact Function.update_of_ne (hold hn) _ _

theorem stored_prepare [Std.TransCmp cmp] {i x : ℕ} (h : Inv cmp l chain) (hpc : w.pc = .prepare i x)
    (hx : Linked l chain w i x) (habsent : i = 0 → Absent cmp l chain w.key)
    (hprev : Prevs cmp l chain w i) :
    Stored cmp l chain w (l.writeStep w).1 (l.writeStep w).2 chain := by
  have hlands : w.lands = false := by rw [Inserting.lands, hpc]
  rw [writeStep, hpc]
  dsimp only
  by_cases hi : i < w.height
  · have hxi : x ∉ head :: chain i := by
      intro hm
      rcases List.mem_cons.mp hm with rfl | hm
      · exact lt_irrefl _ hx.node.1
      · exact hx.not_mem i le_rfl hm
    rw [if_pos hi]
    refine ⟨h.setNext hxi _, ⟨fun _ => List.Subset.refl _, fun _ _ => rfl, le_rfl⟩, ?_, ?_, ?_⟩
    · rintro w' he
      obtain rfl := Option.some.inj he
      refine .publish rfl hi ⟨hx.node, hx.key, hx.height, hx.maxHeight, hx.pos, hx.le, hx.mem, hx.not_mem⟩ habsent
        hprev ?_
      have hlevel := congrFun (setNext_level l x i (l.next (w.prev i) i)) x
      rw [Function.update_self] at hlevel
      have hpath := h.path i
      rw [← (h.down w.key i).filter_append] at hpath
      rw [hlevel, hprev i le_rfl hi]
      exact hpath.at_last.head
    · rw [hlands]
      exact fun he => absurd he Bool.false_ne_true
    · rw [hlands]
      rfl
  · rw [if_neg hi]
    refine ⟨h, grows_refl l chain, fun w' he => absurd he (Option.some_ne_none _).symm, ?_, ?_⟩
    · rw [hlands]
      exact fun he => absurd he Bool.false_ne_true
    · rw [hlands]
      rfl

theorem stored_publish [Std.TransCmp cmp] {i x : ℕ} (h : Inv cmp l chain) (hpc : w.pc = .publish i x)
    (hi : i < w.height) (hx : Linked l chain w i x) (habsent : i = 0 → Absent cmp l chain w.key)
    (hprev : Prevs cmp l chain w i)
    (hnext : l.next x i = ((chain i).filter fun n => !l.before cmp w.key n).head?) :
    Stored cmp l chain w (l.writeStep w).1 (l.writeStep w).2
      (Function.update chain i (linkIn cmp l w.key x (chain i))) := by
  have hlands : w.lands = decide (i = 0) := by
    rw [Inserting.lands, hpc]
    cases i <;> rfl
  have hgrow : ∀ j, chain j ⊆ Function.update chain i (linkIn cmp l w.key x (chain i)) j := by
    intro j
    by_cases hj : j = i
    · subst hj
      rw [Function.update_self]
      exact subset_linkIn x _
    · rw [Function.update_of_ne hj]
      exact List.Subset.refl _
  rw [writeStep, hpc]
  refine ⟨h.publish hi hx habsent hprev hnext, ⟨hgrow, fun _ _ => rfl, le_rfl⟩, ?_, ?_, ?_⟩
  · rintro w' he
    obtain rfl := Option.some.inj he
    refine .prepare rfl ⟨hx.node, hx.key, hx.height, hx.maxHeight, hx.pos, hi, fun j hj => ?_,
      fun j hj => ?_⟩ (fun he => absurd he (Nat.succ_ne_zero _)) fun j hj hlt => ?_
    · rcases Nat.lt_or_eq_of_le (Nat.le_of_lt_succ hj) with hj | rfl
      · exact hgrow j (hx.mem j hj)
      · rw [Function.update_self]
        exact List.mem_append_right _ List.mem_cons_self
    · rw [Function.update_of_ne (by omega)]
      exact hx.not_mem j (by omega)
    · rw [Function.update_of_ne (by omega)]
      exact hprev j (by omega) hlt
  · intro hl
    rw [hlands] at hl
    exact habsent (of_decide_eq_true hl)
  · rw [hlands]
    by_cases hzero : i = 0
    · subst hzero
      rw [decide_eq_true rfl, cond_true, SkipList.keys, Function.update_self]
      exact keys_linkIn hx.key
    · rw [decide_eq_false hzero, cond_false, SkipList.keys, Function.update_of_ne (Ne.symm hzero)]
      rfl

/-- **No store breaks a level.** -/
theorem Writing.step [Std.TransCmp cmp] (h : Inv cmp l chain) (hw : Writing cmp l chain w) :
    ∃ chain', Stored cmp l chain w (l.writeStep w).1 (l.writeStep w).2 chain' := by
  cases hw with
  | raise hpc hh habsent hprev => exact ⟨_, stored_raise h hpc hh habsent hprev⟩
  | alloc hpc hh habsent hprev => exact ⟨_, stored_alloc h hpc hh habsent hprev⟩
  | prepare hpc hx habsent hprev => exact ⟨_, stored_prepare h hpc hx habsent hprev⟩
  | publish hpc hi hx habsent hprev hnext => exact ⟨_, stored_publish h hpc hi hx habsent hprev hnext⟩

/-- The stores that are left. -/
def left (w : Inserting K) : ℕ :=
  match w.pc with
  | .raise => 2 * w.height + 3
  | .alloc => 2 * w.height + 2
  | .prepare i _ => 2 * (w.height - i) + 1
  | .publish i _ => 2 * (w.height - i)

/-- The node is in the list. -/
def landed (w : Inserting K) : Bool :=
  match w.pc with
  | .prepare (_ + 1) _ | .publish (_ + 1) _ => true
  | _ => false

/-- How an insertion goes on. -/
theorem Writing.next {w' : Inserting K} (hw : Writing cmp l chain w) (he : (l.writeStep w).2 = some w') :
    w'.key = w.key ∧ left w' < left w ∧ landed w' = (landed w || w.lands) := by
  cases hw with
  | raise hpc =>
    rw [writeStep, hpc] at he
    obtain rfl := Option.some.inj he
    rw [left, left, landed, landed, Inserting.lands, hpc]
    exact ⟨rfl, Nat.lt_succ_self _, rfl⟩
  | alloc hpc =>
    rw [writeStep, hpc] at he
    obtain rfl := Option.some.inj he
    rw [left, left, landed, landed, Inserting.lands, hpc]
    exact ⟨rfl, Nat.lt_succ_self _, rfl⟩
  | @prepare i x hpc =>
    rw [writeStep, hpc] at he
    dsimp only at he
    split_ifs at he
    obtain rfl := Option.some.inj he
    rw [left, left, landed, landed, Inserting.lands, hpc]
    exact ⟨rfl, Nat.lt_succ_self _, by cases i <;> rfl⟩
  | @publish i x hpc hi =>
    rw [writeStep, hpc] at he
    obtain rfl := Option.some.inj he
    rw [left, left, landed, landed, Inserting.lands, hpc]
    refine ⟨rfl, by dsimp only; omega, by cases i <;> rfl⟩

/-- The last store. -/
theorem Writing.last (hw : Writing cmp l chain w) (he : (l.writeStep w).2 = none) :
    landed w = true ∧ w.lands = false := by
  cases hw with
  | raise hpc =>
    rw [writeStep, hpc] at he
    cases he
  | alloc hpc =>
    rw [writeStep, hpc] at he
    cases he
  | @prepare i x hpc hx =>
    rw [writeStep, hpc] at he
    dsimp only at he
    split_ifs at he with hi
    rw [landed, Inserting.lands, hpc]
    cases i with
    | zero => exact absurd hx.pos hi
    | succ i => exact ⟨rfl, rfl⟩
  | @publish i x hpc hi =>
    rw [writeStep, hpc] at he
    cases he

theorem Writing.left_pos (hw : Writing cmp l chain w) : 0 < left w := by
  rw [left]
  cases hw with
  | raise hpc | alloc hpc | prepare hpc =>
    rw [hpc]
    exact Nat.succ_pos _
  | publish hpc hi =>
    rw [hpc]
    dsimp only
    omega

theorem writeAll_spec [Std.TransCmp cmp] : ∀ {fuel : ℕ} {l : SkipList K} {chain : ℕ → List ℕ}
    {w : Inserting K}, Inv cmp l chain → Writing cmp l chain w → left w ≤ fuel →
    ∃ l' chain', writeAll fuel l w = some l' ∧ Inv cmp l' chain' ∧
      keys l' chain' = bif landed w then keys l chain else insertKey cmp w.key (keys l chain) := by
  intro fuel
  induction fuel with
  | zero => exact fun _ hw hle => absurd hw.left_pos (not_lt.mpr hle)
  | succ fuel ih =>
    intro l chain w h hw hle
    obtain ⟨chain₁, hstored⟩ := hw.step h
    rw [writeAll]
    cases hstep : l.writeStep w with
    | mk l₁ w' =>
      rw [hstep] at hstored
      cases w' with
      | none =>
        obtain ⟨hlanded, hlands⟩ := hw.last (by rw [hstep])
        refine ⟨l₁, chain₁, rfl, hstored.inv, ?_⟩
        rw [hstored.keys, hlanded, hlands, cond_true, cond_false]
      | some w₁ =>
        obtain ⟨hkey, hleft, hlanded⟩ := hw.next (show (l.writeStep w).2 = some w₁ by rw [hstep])
        obtain ⟨l', chain', hall, hinv, hkeys⟩ := ih hstored.inv (hstored.writing w₁ rfl) (by omega)
        refine ⟨l', chain', hall, hinv, ?_⟩
        rw [hkeys, hstored.keys, hkey, hlanded]
        -- the node lands once
        cases hl : w.lands with
        | false => rw [Bool.or_false, cond_false]
        | true =>
          rw [Bool.or_true, cond_true, cond_true]
          have hnot : landed w = false := by
            rw [Inserting.lands] at hl
            rw [landed]
            split at hl
            · rename_i hpc
              rw [hpc]
            · cases hl
          rw [hnot, cond_false]

/-- **`Insert` puts the key in its place**, if no key compares equal to it. -/
theorem insert_spec [Std.TransCmp cmp] (h : Inv cmp l chain) (habsent : Absent cmp l chain key) :
    ∃ l' chain', insert cmp l key = some l' ∧ Inv cmp l' chain' ∧
      keys l' chain' = insertKey cmp key (keys l chain) := by
  obtain ⟨l₁, w, hb⟩ := exists_beginInsert h habsent
  obtain ⟨hinv, hw, hkey, hpc, hkeys, -⟩ := beginInsert_spec h hb
  have hleft : left w ≤ 2 * w.height + 3 := by
    rw [left, hpc]
  obtain ⟨l', chain', hall, hinv', hins⟩ := writeAll_spec hinv hw hleft
  have hlanded : landed w = false := by rw [landed, hpc]
  refine ⟨l', chain', ?_, hinv', ?_⟩
  · rw [insert, hb]
    exact hall
  · rw [hins, hlanded, cond_false, hkey, keys, keys, hkeys]

end Stores

end SkipList

/-! ## One thread inserts, others search -/

/-- What the threads are seen to do. -/
inductive SkipEvent (K : Type) where
  | insert (key : K)
  | seek (key : K) (r : Option K)
  | silent

/-- The list, the insertion that is going on, and the searches of the other threads. -/
structure SkipState (ι K : Type) where
  list : SkipList K
  writer : Option (Inserting K)
  reader : ι → Option (K × Search)

section Threads

variable {ι K : Type} [DecidableEq ι] (cmp : K → K → Ordering)

/-- **A step of one thread.** The height a search starts from may be an old one. -/
inductive SkipStep : SkipState ι K → SkipEvent K → SkipState ι K → Prop
  | insert {s : SkipState ι K} (key : K) {l : SkipList K} {w : Inserting K} (hw : s.writer = none)
      (hb : s.list.beginInsert cmp key = some (l, w)) :
      SkipStep s .silent { s with list := l, writer := some w }
  | write {s : SkipState ι K} {w : Inserting K} (hw : s.writer = some w) :
      SkipStep s (bif w.lands then .insert w.key else .silent)
        { s with list := (s.list.writeStep w).1, writer := (s.list.writeStep w).2 }
  | seek {s : SkipState ι K} (i : ι) (key : K) (level : ℕ) (hl : level < s.list.maxHeight) :
      SkipStep s .silent
        { s with reader := Function.update s.reader i (some (key, ⟨SkipList.head, level⟩)) }
  | read {s : SkipState ι K} {i : ι} {key : K} {p p' : Search} (hr : s.reader i = some (key, p))
      (he : s.list.step cmp key p = .inl p') :
      SkipStep s .silent { s with reader := Function.update s.reader i (some (key, p')) }
  | found {s : SkipState ι K} {i : ι} {key : K} {p : Search} {r : Option ℕ}
      (hr : s.reader i = some (key, p)) (he : s.list.step cmp key p = .inr r) :
      SkipStep s (.seek key (r.map s.list.key)) { s with reader := Function.update s.reader i none }

/-- A set of keys, whose operations are whole. -/
inductive SetStep : List K → SkipEvent K → List K → Prop
  | insert (key : K) {ks : List K} (habsent : ∀ k ∈ ks, cmp k key ≠ .eq) :
      SetStep ks (.insert key) (SkipList.insertKey cmp key ks)
  | seek (key : K) (ks : List K) : SetStep ks (.seek key (SkipList.seekKey cmp key ks)) ks
  | silent (ks : List K) : SetStep ks .silent ks

/-- **The list stands for the set `ks`**, whatever the threads are in the middle of. -/
structure Stands (s : SkipState ι K) (ks : List K) : Prop where
  exists_chain : ∃ chain, SkipList.Inv cmp s.list chain ∧
    (∀ w, s.writer = some w → SkipList.Writing cmp s.list chain w) ∧
    (∀ i key p, s.reader i = some (key, p) → SkipList.Searching cmp s.list chain key p) ∧
    ks = SkipList.keys s.list chain

variable {cmp}

theorem searching_update {l : SkipList K} {chain : ℕ → List ℕ} {reader : ι → Option (K × Search)} {i : ι}
    {new : Option (K × Search)}
    (h : ∀ i key p, reader i = some (key, p) → SkipList.Searching cmp l chain key p)
    (hnew : ∀ key p, new = some (key, p) → SkipList.Searching cmp l chain key p) :
    ∀ j key p, Function.update reader i new j = some (key, p) → SkipList.Searching cmp l chain key p := by
  intro j key p hj
  by_cases he : j = i
  · subst he
    rw [Function.update_self] at hj
    exact hnew key p hj
  · rw [Function.update_of_ne he] at hj
    exact h j key p hj

variable [Std.TransCmp cmp]

/-- **Each step is answered by the set.** -/
theorem SkipStep.simulated {s s' : SkipState ι K} {ev : SkipEvent K} {ks : List K}
    (h : SkipStep cmp s ev s') (hR : Stands cmp s ks) : ∃ ks', SetStep cmp ks ev ks' ∧ Stands cmp s' ks' := by
  obtain ⟨chain, hinv, hwriting, hsearching, rfl⟩ := hR.exists_chain
  cases h with
  | insert key hw hb =>
    obtain ⟨hinv', hwriting', -, -, hkey, hsize, hmax⟩ := SkipList.beginInsert_spec hinv hb
    have hg : SkipList.Grows s.list chain _ chain :=
      ⟨fun _ => List.Subset.refl _, fun _ _ => congrFun hkey _, hmax.ge⟩
    refine ⟨_, .silent _, ⟨chain, hinv', fun w hw => ?_, fun i k p hr => ?_, ?_⟩⟩
    · obtain rfl := Option.some.inj hw
      exact hwriting'
    · exact (hsearching i k p hr).grow hinv hg
    · rw [SkipList.keys, SkipList.keys, hkey]
  | @write w hw =>
    obtain ⟨chain', hstored⟩ := (hwriting w hw).step hinv
    refine ⟨SkipList.keys (s.list.writeStep w).1 chain', ?_, ⟨chain', hstored.inv, hstored.writing,
      fun i k p hr => ?_, rfl⟩⟩
    · rw [hstored.keys]
      cases hlands : w.lands with
      | true =>
        refine .insert w.key fun k hk => ?_
        obtain ⟨n, hn, rfl⟩ := List.mem_map.mp hk
        exact hstored.absent hlands n hn
      | false => exact .silent _
    · exact (hsearching i k p hr).grow hinv hstored.grows
  | seek i key level hl =>
    refine ⟨_, .silent _, ⟨chain, hinv, hwriting, searching_update hsearching fun k p hn => ?_, rfl⟩⟩
    obtain ⟨rfl, rfl⟩ := Prod.mk.inj (Option.some.inj hn)
    exact SkipList.searching_start hinv hl
  | @read i key p p' hr he =>
    refine ⟨_, .silent _, ⟨chain, hinv, hwriting, searching_update hsearching fun k q hn => ?_, rfl⟩⟩
    obtain ⟨rfl, rfl⟩ := Prod.mk.inj (Option.some.inj hn)
    exact (hsearching i key p hr).step_inl hinv he
  | @found i key p r hr he =>
    refine ⟨_, ?_, ⟨chain, hinv, hwriting,
      searching_update hsearching fun k q hn => absurd hn (Option.some_ne_none _).symm, rfl⟩⟩
    rw [(hsearching i key p hr).step_inr hinv he, SkipList.map_first]
    exact .seek key _

theorem steps_stands {any : K} {evs : List (SkipEvent K)} {s : SkipState ι K}
    (h : Run.Steps (SkipStep cmp) ⟨.new any, none, fun _ => none⟩ evs s) :
    ∃ ks, Run.Steps (SetStep cmp) [] evs ks ∧ Stands cmp s ks := by
  have hstart : Stands cmp (⟨.new any, none, fun _ => none⟩ : SkipState ι K) [] :=
    ⟨fun _ => [], SkipList.inv_new any, fun _ hw => absurd hw (Option.some_ne_none _).symm,
      fun _ _ _ hr => absurd hr (Option.some_ne_none _).symm, rfl⟩
  exact h.simulate (fun _ _ _ _ hR hs => hs.simulated hR) hstart

omit [DecidableEq ι] [Std.TransCmp cmp] in
theorem Stands.sorted {s : SkipState ι K} {ks : List K} (h : Stands cmp s ks) :
    ks.Pairwise fun k k' => cmp k k' = .lt := by
  obtain ⟨chain, hinv, -, -, rfl⟩ := h.exists_chain
  exact List.pairwise_map.mpr hinv.sorted

/-- **A skip list is a set**, for one thread that inserts and any number that search at the same time:
every run is a run of a set whose operations are whole. -/
theorem skipList_refines_set {any : K} {evs : List (SkipEvent K)} {s : SkipState ι K}
    (h : Run.Steps (SkipStep cmp) ⟨.new any, none, fun _ => none⟩ evs s) :
    ∃ ks, Run.Steps (SetStep cmp) [] evs ks ∧ ks.Pairwise fun k k' => cmp k k' = .lt := by
  obtain ⟨ks, hks, hR⟩ := steps_stands h
  exact ⟨ks, hks, hR.sorted⟩

end Threads

/-- A search that started before the only key was inserted, and finds it. -/
theorem skipList_refines_set_overtaken :
    ∃ s : SkipState Unit ℕ, Run.Steps (SkipStep compare) ⟨.new 0, none, fun _ => none⟩
        [.silent, .silent, .silent, .silent, .silent, .insert 5, .seek 3 (some 5)] s ∧
      ∃ ks, Run.Steps (SetStep compare) [] [.silent, .silent, .silent, .silent, .silent, .insert 5,
        .seek 3 (some 5)] ks ∧ ks.Pairwise fun k k' => compare k k' = .lt := by
  have h : ∃ s : SkipState Unit ℕ, Run.Steps (SkipStep compare) ⟨.new 0, none, fun _ => none⟩
      [.silent, .silent, .silent, .silent, .silent, .insert 5, .seek 3 (some 5)] s := by
    refine ⟨?_, .head (.seek () 3 0 (by decide)) ?_⟩
    rotate_left
    refine .head (.insert 5 rfl rfl) ?_
    refine .head (.write (w := ⟨_, _, _, .raise⟩) rfl) ?_
    refine .head (.write (w := ⟨_, _, _, .alloc⟩) rfl) ?_
    refine .head (.write (w := ⟨_, _, _, .prepare 0 1⟩) rfl) ?_
    refine .head (.write (w := ⟨_, _, _, .publish 0 1⟩) rfl) ?_
    refine .head (.found (i := ()) (r := some 1) rfl rfl) ?_
    exact .refl _
  obtain ⟨s, h⟩ := h
  exact ⟨s, h, skipList_refines_set h⟩

end Mdb.Ldb
