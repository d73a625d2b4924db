import Mdb.Slabs.Runs

/-!
# The slab classes

The table of chunk sizes that `InitSlabs` makes, for any growth factor above 1, and the search of
`SlabsClsid` in it.

* `alignUp_least`, `nextSize_lt`: rounding up stays below the maximum, and the products below `2 ^ 32`;
* `ClassTable sl st`: sizes grow in multiples of `CHUNK_ALIGN_BYTES` up to `item_size_max`;
* `slabsClsidFrom_spec`: the search finds the first class that is large enough;
* **`slab_classes`**: `InitSlabs` makes such a table, and `SlabsClsid` finds the best fit.
-/

namespace Mdb

/-! ## Rounding -/

theorem dvd_alignUp (n : ℕ) : chunkAlignBytes ∣ alignUp n := by
  unfold alignUp chunkAlignBytes
  split_ifs <;> omega

theorem alignUp_least {n m : ℕ} (h : n ≤ m) (hm : chunkAlignBytes ∣ m) : alignUp n ≤ m := by
  unfold alignUp
  unfold chunkAlignBytes at hm ⊢
  split_ifs <;> omega

/-- A size that passes the test of the loop is below the maximum. -/
theorem le_max_of_test {size num den max : ℕ} (hden : 0 < den) (hfac : den ≤ num)
    (h : size * num ≤ max * den) : size ≤ max :=
  Nat.le_of_mul_le_mul_right ((Nat.mul_le_mul_left size hfac).trans h) hden

/-- **No product of the loop wraps**: with `chunk_size` at least 1, rounding up adds at most a seventh. -/
theorem nextSize_lt {size num den max : ℕ} (hden : 0 < den) (hsize : sizeofItem + 1 ≤ size)
    (h : size * num ≤ max * den) (hmax : max < 2 ^ 31) : alignUp size * num / den < 2 ^ 32 := by
  have hal := (alignUp_bounds size).2
  have h7 : 7 * alignUp size ≤ 8 * size := by
    simp only [sizeofItem] at hsize
    omega
  have hmul : 7 * (alignUp size * num) ≤ 8 * max * den := by
    calc 7 * (alignUp size * num) = 7 * alignUp size * num := by ring
      _ ≤ 8 * size * num := Nat.mul_le_mul_right _ h7
      _ = 8 * (size * num) := by ring
      _ ≤ 8 * (max * den) := Nat.mul_le_mul_left _ h
      _ = 8 * max * den := by ring
  have hdiv : 7 * (alignUp size * num / den) ≤ 8 * max := by
    have h1 := Nat.mul_div_le (alignUp size * num) den
    refine Nat.le_of_mul_le_mul_right (c := den) ?_ hden
    calc 7 * (alignUp size * num / den) * den = 7 * (den * (alignUp size * num / den)) := by ring
      _ ≤ 7 * (alignUp size * num) := Nat.mul_le_mul_left _ h1
      _ ≤ 8 * max * den := hmul
  omega

/-! ## The table -/

/-- One class: its size is aligned, and a page holds at least one chunk and all of them. -/
structure ClassOk (st : Settings) (p : SlabClass) : Prop where
  dvd : chunkAlignBytes ∣ p.size
  perslab_pos : 1 ≤ p.perslab
  fits : p.size * p.perslab ≤ st.itemSizeMax

/-- **The table of sizes.** -/
structure ClassTable (sl : Slabs) (st : Settings) : Prop where
  powerLargest_pos : 1 ≤ sl.powerLargest
  powerLargest_le : sl.powerLargest ≤ maxNumberOfSlabClasses - 1
  cls : ∀ c, sl.InRange c → ClassOk st (sl.slabclass c)
  mono : ∀ c c', sl.InRange c → sl.InRange c' → c ≤ c' →
    (sl.slabclass c).size ≤ (sl.slabclass c').size
  last : (sl.slabclass sl.powerLargest).size = st.itemSizeMax

/-- What the loop of `InitSlabs` has made when it is at class `i` with `size`. -/
structure TableUpTo (st : Settings) (i size : ℕ) (t : ℕ → SlabClass) : Prop where
  pos : 1 ≤ size
  cls : ∀ c, powerSmallest ≤ c → c < i → ClassOk st (t c)
  mono : ∀ c c', powerSmallest ≤ c → c ≤ c' → c' < i → (t c).size ≤ (t c').size
  le : ∀ c, powerSmallest ≤ c → c < i → (t c).size ≤ size ∧ (t c).size ≤ st.itemSizeMax

variable {st : Settings} {num den : ℕ}

/-- One round of the loop. -/
theorem TableUpTo.next {i size : ℕ} {t : ℕ → SlabClass} (h : TableUpTo st i size t) (hden : 0 < den)
    (hfac : den < num) (hdvd : chunkAlignBytes ∣ st.itemSizeMax)
    (htest : size * num ≤ st.itemSizeMax * den) :
    TableUpTo st (i + 1) (alignUp size * num / den) (Function.update t i
      { t i with size := alignUp size, perslab := st.itemSizeMax / alignUp size }) := by
  have hle := (alignUp_bounds size).1
  have hmax : alignUp size ≤ st.itemSizeMax := alignUp_least (le_max_of_test hden hfac.le htest) hdvd
  have hnext : alignUp size ≤ alignUp size * num / den :=
    (Nat.le_div_iff_mul_le hden).mpr (Nat.mul_le_mul_left _ hfac.le)
  have hpos : 1 ≤ alignUp size := h.pos.trans hle
  have hself : Function.update t i
      { t i with size := alignUp size, perslab := st.itemSizeMax / alignUp size } i =
      { t i with size := alignUp size, perslab := st.itemSizeMax / alignUp size } :=
    Function.update_self _ _ _
  refine ⟨hpos.trans hnext, fun c h1 h2 => ?_, fun c c' h1 h2 h3 => ?_, fun c h1 h2 => ?_⟩
  · by_cases e : c = i
    · subst e
      rw [hself]
      exact ⟨dvd_alignUp size, (Nat.le_div_iff_mul_le hpos).mpr (by rw [one_mul]; exact hmax),
        Nat.mul_div_le _ _⟩
    · rw [Function.update_of_ne e]
      exact h.cls c h1 (by omega)
  · by_cases e' : c' = i
    · subst e'
      rw [hself]
      by_cases e : c = c'
      · subst e; rw [hself]
      · rw [Function.update_of_ne e]
        exact (h.le c h1 (by omega)).1.trans hle
    · have e : c ≠ i := by omega
      rw [Function.update_of_ne e, Function.update_of_ne e']
      exact h.mono c c' h1 h2 (by omega)
  · by_cases e : c = i
    · subst e
      rw [hself]
      exact ⟨hnext, hmax⟩
    · rw [Function.update_of_ne e]
      obtain ⟨h3, h4⟩ := h.le c h1 (by omega)
      exact ⟨h3.trans (hle.trans hnext), h4⟩

/-- **The loop of `InitSlabs`.** -/
theorem TableUpTo.loop (hden : 0 < den) (hfac : den < num) (hdvd : chunkAlignBytes ∣ st.itemSizeMax)
    (fuel : ℕ) : ∀ (i size : ℕ) (t : ℕ → SlabClass), TableUpTo st i size t →
    i ≤ (initSlabsLoop st num den fuel i size t).1 ∧
      (initSlabsLoop st num den fuel i size t).1 ≤ i + fuel ∧
      ∃ size', TableUpTo st (initSlabsLoop st num den fuel i size t).1 size'
        (initSlabsLoop st num den fuel i size t).2 := by
  induction fuel with
  | zero => exact fun i size t h => ⟨le_rfl, le_rfl, size, h⟩
  | succ fuel ih =>
    intro i size t h
    rw [initSlabsLoop]
    split_ifs with htest
    · obtain ⟨h1, h2, h3⟩ := ih _ _ _ (h.next hden hfac hdvd htest)
      exact ⟨(Nat.le_succ i).trans h1, h2.trans (by omega), h3⟩
    · exact ⟨le_rfl, Nat.le_add_right _ _, size, h⟩

/-- **`InitSlabs` makes a table of sizes.** -/
theorem initSlabs_classTable (hmax : 0 < st.itemSizeMax) (hdvd : chunkAlignBytes ∣ st.itemSizeMax)
    (hden : 0 < den) (hfac : den < num) (limit : ℕ) (base : Option ℕ) :
    ClassTable (initSlabs st limit num den base) st := by
  have h0 : TableUpTo st powerSmallest (sizeofItem + st.chunkSize) (Slabs.initial limit).slabclass :=
    ⟨Nat.le_add_right_of_le (by decide), fun c h1 h2 => by omega, fun c c' h1 h2 h3 => by omega,
      fun c h1 h2 => by omega⟩
  obtain ⟨h1, h2, size', h3⟩ := TableUpTo.loop hden hfac hdvd (maxNumberOfSlabClasses - 2) _ _ _ h0
  obtain ⟨r, hr⟩ : ∃ r, r = initSlabsLoop st num den (maxNumberOfSlabClasses - 2) powerSmallest
    (sizeofItem + st.chunkSize) (Slabs.initial limit).slabclass := ⟨_, rfl⟩
  have hsl : (initSlabs st limit num den base).slabclass =
      Function.update r.2 r.1 { r.2 r.1 with size := st.itemSizeMax, perslab := 1 } := by rw [hr]; rfl
  have hpl : (initSlabs st limit num den base).powerLargest = r.1 := by rw [hr]; rfl
  rw [← hr] at h1 h2 h3
  refine ⟨hpl ▸ h1, ?_, fun c hc => ?_, fun c c' hc hc' hle => ?_, ?_⟩
  · rw [hpl]; exact h2
  · rw [hsl]
    have hlt := hc.2
    rw [hpl] at hlt
    by_cases e : c = r.1
    · subst e
      rw [Function.update_self]
      exact ⟨hdvd, le_rfl, by simp⟩
    · rw [Function.update_of_ne e]
      exact h3.cls c hc.1 (lt_of_le_of_ne hlt e)
  · rw [hsl]
    have hlt := hc'.2
    rw [hpl] at hlt
    by_cases e' : c' = r.1
    · subst e'
      rw [Function.update_self]
      by_cases e : c = r.1
      · subst e; rw [Function.update_self]
      · rw [Function.update_of_ne e]
        exact (h3.le c hc.1 (by omega)).2
    · have e : c ≠ r.1 := by omega
      rw [Function.update_of_ne e, Function.update_of_ne e']
      exact h3.mono c c' hc.1 hle (by omega)
  · rw [hpl, hsl, Function.update_self]

/-! ## The search -/

/-- **The search** from class `res` on, all smaller classes being too small. -/
theorem slabsClsidFrom_spec (sl : Slabs) (size fuel : ℕ) : ∀ res, sl.InRange res →
    sl.powerLargest < res + fuel →
    (∀ c, sl.InRange c → c < res → (sl.slabclass c).size < size) →
    (Store.slabsClsidFrom sl size fuel res = 0 ∧
      ∀ c, sl.InRange c → (sl.slabclass c).size < size) ∨
    (sl.InRange (Store.slabsClsidFrom sl size fuel res) ∧
      size ≤ (sl.slabclass (Store.slabsClsidFrom sl size fuel res)).size ∧
      ∀ c, sl.InRange c → size ≤ (sl.slabclass c).size →
        Store.slabsClsidFrom sl size fuel res ≤ c) := by
  induction fuel with
  | zero => exact fun res hres hf _ => absurd hres.2 (by omega)
  | succ fuel ih =>
    intro res hres hf hsmall
    rw [Store.slabsClsidFrom]
    split_ifs with h1 h2
    · refine .inl ⟨rfl, fun c hc => ?_⟩
      by_cases e : c = res
      · rw [e]; exact h1
      · exact hsmall c hc (lt_of_le_of_ne (h2 ▸ hc.2) e)
    · refine ih (res + 1) ⟨hres.1.trans (Nat.le_succ _), lt_of_le_of_ne hres.2 h2⟩ (by omega)
        fun c hc hlt => ?_
      by_cases e : c = res
      · rw [e]; exact h1
      · exact hsmall c hc (by omega)
    · refine .inr ⟨hres, not_lt.mp h1, fun c hc hle => ?_⟩
      by_contra hlt
      exact absurd (hsmall c hc (not_le.mp hlt)) (not_lt.mpr hle)

/-- **Best fit**: no class for nothing and for what is too large, otherwise the smallest chunk size that
is large enough. -/
structure BestFit (s : Store) (st : Settings) (size : ℕ) : Prop where
  zero_iff : s.slabsClsid size = 0 ↔ size = 0 ∨ st.itemSizeMax < size
  inRange : s.slabsClsid size ≠ 0 → s.slabs.InRange (s.slabsClsid size)
  fits : s.slabsClsid size ≠ 0 → size ≤ (s.slabs.slabclass (s.slabsClsid size)).size
  smallest : s.slabsClsid size ≠ 0 → ∀ c, s.slabs.InRange c → size ≤ (s.slabs.slabclass c).size →
    (s.slabs.slabclass (s.slabsClsid size)).size ≤ (s.slabs.slabclass c).size

theorem ClassTable.bestFit {s : Store} (h : ClassTable s.slabs st) (size : ℕ) : BestFit s st size := by
  have hlast : s.slabs.InRange s.slabs.powerLargest := ⟨h.powerLargest_pos, le_rfl⟩
  by_cases h0 : size = 0
  · have e : s.slabsClsid size = 0 := if_pos h0
    exact ⟨⟨fun _ => .inl h0, fun _ => e⟩, fun hne => absurd e hne, fun hne => absurd e hne,
      fun hne => absurd e hne⟩
  have e : s.slabsClsid size =
      Store.slabsClsidFrom s.slabs size (s.slabs.powerLargest + 1) powerSmallest := if_neg h0
  rcases slabsClsidFrom_spec s.slabs size (s.slabs.powerLargest + 1) powerSmallest
    ⟨le_rfl, h.powerLargest_pos⟩ (by omega) (fun c hc hlt => absurd hc.1 (by omega))
    with ⟨hz, hall⟩ | ⟨hr, hfit, hfirst⟩
  · rw [← e] at hz
    refine ⟨⟨fun _ => .inr ?_, fun _ => hz⟩, fun hne => absurd hz hne, fun hne => absurd hz hne,
      fun hne => absurd hz hne⟩
    rw [← h.last]
    exact hall _ hlast
  · rw [← e] at hr hfit hfirst
    have hne : s.slabsClsid size ≠ 0 := fun hz => absurd hr.1 (by rw [hz]; decide)
    refine ⟨⟨fun hz => absurd hz hne, ?_⟩, fun _ => hr, fun _ => hfit, fun _ c hc hle => ?_⟩
    · rintro (hz | hlt)
      · exact absurd hz h0
      · have := h.mono _ _ hr hlast hr.2
        rw [h.last] at this
        omega
    · exact h.mono _ _ hr hc (hfirst c hc hle)

/-- **Slab classes.** For every `item_size_max` that is a multiple of `CHUNK_ALIGN_BYTES` and every
growth factor `num / den` above 1, `InitSlabs` makes a table of sizes, and `SlabsClsid` finds the best
fit in it. -/
theorem slab_classes (st : Settings) (limit num den : ℕ) (base : Option ℕ) (hmax : 0 < st.itemSizeMax)
    (hdvd : chunkAlignBytes ∣ st.itemSizeMax) (hden : 0 < den) (hfac : den < num) :
    ClassTable (initSlabs st limit num den base) st ∧
    ∀ s : Store, s.slabs = initSlabs st limit num den base → ∀ size, BestFit s st size := by
  have h := initSlabs_classTable hmax hdvd hden hfac limit base
  exact ⟨h, fun s hs size => ClassTable.bestFit (hs ▸ h) size⟩

/-- With pages of 256 bytes and a factor of 2 there are two classes, of 96 and 256 bytes. -/
theorem slab_classes_small :
    (initSlabs { initDBSettings with itemSizeMax := 256 } 1024 2 1 none).powerLargest = 2 ∧
    ((initSlabs { initDBSettings with itemSizeMax := 256 } 1024 2 1 none).slabclass 1).size = 96 ∧
    ClassTable (initSlabs { initDBSettings with itemSizeMax := 256 } 1024 2 1 none)
      { initDBSettings with itemSizeMax := 256 } :=
  ⟨by decide, by decide, (slab_classes _ 1024 2 1 none (by decide) (by decide) (by decide)
    (by decide)).1⟩

end Mdb
