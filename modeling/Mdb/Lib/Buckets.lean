import Mathlib

/-!
# Tables of chains

A table gives every place `i : I` a chain, a list of items; `place x` is the place where item `x`
belongs. `Holds place table items` says that the table holds exactly `items`, each once, in its own
chain.

* `Holds.insert`, `Holds.erase`: putting an item in front of its chain and taking one out;
* `Holds.rehash`: emptying one chain onto new places;
* `Holds.find_eq_some`: looking a key up in one chain is looking it up among all items.
-/

namespace Buckets

variable {P I K : Type} [DecidableEq P] [DecidableEq I]

omit [DecidableEq P] [DecidableEq I] in
/-- **The table holds exactly `items`**, each once, in the chain of its place. -/
structure Holds (place : P → I) (table : I → List P) (items : List P) : Prop where
  nodup : items.Nodup
  chain_nodup : ∀ i, (table i).Nodup
  mem_iff : ∀ i x, x ∈ table i ↔ x ∈ items ∧ place x = i

/-- `x` in front of its chain. -/
def push (place : P → I) (table : I → List P) (x : P) : I → List P :=
  Function.update table (place x) (x :: table (place x))

omit [DecidableEq P] in
theorem mem_push (place : P → I) (table : I → List P) (x y : P) (i : I) :
    y ∈ push place table x i ↔ y ∈ table i ∨ y = x ∧ place x = i := by
  by_cases e : i = place x
  · subst e; simp [push, or_comm]
  · simp [push, e, Ne.symm e]

omit [DecidableEq P] in
theorem push_nodup {place : P → I} {table : I → List P} {x : P} (h : ∀ i, (table i).Nodup)
    (hx : x ∉ table (place x)) (i : I) : (push place table x i).Nodup := by
  by_cases e : i = place x
  · subst e
    rw [push, Function.update_self]
    exact List.nodup_cons.mpr ⟨hx, h _⟩
  · rw [push, Function.update_of_ne e]
    exact h i

section Holds

variable {place : P → I} {table : I → List P} {items : List P} {x : P}

omit [DecidableEq P] [DecidableEq I] in
theorem holds_nil : Holds place (fun _ => []) [] :=
  ⟨List.nodup_nil, fun _ => List.nodup_nil, by simp⟩

omit [DecidableEq P] [DecidableEq I] in
theorem Holds.mem_place (h : Holds place table items) (hx : x ∈ items) : x ∈ table (place x) :=
  (h.mem_iff _ x).mpr ⟨hx, rfl⟩

omit [DecidableEq P] [DecidableEq I] in
/-- Only the places of the items matter. -/
theorem Holds.congr {place' : P → I} (h : Holds place table items)
    (hp : ∀ x ∈ items, place' x = place x) : Holds place' table items where
  nodup := h.nodup
  chain_nodup := h.chain_nodup
  mem_iff i x := by
    rw [h.mem_iff]
    exact and_congr_right fun hx => by rw [hp x hx]

omit [DecidableEq P] in
/-- **Insertion.** -/
theorem Holds.insert (h : Holds place table items) (hx : x ∉ items) :
    Holds place (push place table x) (x :: items) where
  nodup := List.nodup_cons.mpr ⟨hx, h.nodup⟩
  chain_nodup := push_nodup h.chain_nodup fun hm => hx ((h.mem_iff _ x).mp hm).1
  mem_iff i y := by
    rw [mem_push, h.mem_iff, List.mem_cons]
    constructor
    · rintro (⟨hy, hp⟩ | ⟨rfl, hp⟩)
      · exact ⟨.inr hy, hp⟩
      · exact ⟨.inl rfl, hp⟩
    · rintro ⟨rfl | hy, hp⟩
      · exact .inr ⟨rfl, hp⟩
      · exact .inl ⟨hy, hp⟩

/-- **Deletion.** -/
theorem Holds.erase (h : Holds place table items) (x : P) :
    Holds place (Function.update table (place x) ((table (place x)).erase x)) (items.erase x) where
  nodup := h.nodup.erase x
  chain_nodup i := by
    by_cases e : i = place x
    · subst e; rw [Function.update_self]; exact (h.chain_nodup _).erase x
    · rw [Function.update_of_ne e]; exact h.chain_nodup i
  mem_iff i y := by
    rw [h.nodup.mem_erase_iff]
    by_cases e : i = place x
    · subst e
      rw [Function.update_self, (h.chain_nodup _).mem_erase_iff, h.mem_iff, and_assoc]
    · rw [Function.update_of_ne e, h.mem_iff]
      constructor
      · rintro ⟨hy, rfl⟩
        exact ⟨⟨fun exy => e (by rw [exy]), hy⟩, rfl⟩
      · rintro ⟨⟨-, hy⟩, hp⟩
        exact ⟨hy, hp⟩

omit [DecidableEq P] in
theorem mem_foldl_push (place : P → I) (l : List P) (table : I → List P) (y : P) (i : I) :
    y ∈ l.foldl (push place) table i ↔ y ∈ table i ∨ y ∈ l ∧ place y = i := by
  induction l generalizing table with
  | nil => simp
  | cons x l ih =>
    rw [List.foldl_cons, ih, mem_push, List.mem_cons, or_assoc]
    refine or_congr_right ?_
    constructor
    · rintro (⟨rfl, hp⟩ | ⟨hy, hp⟩)
      · exact ⟨.inl rfl, hp⟩
      · exact ⟨.inr hy, hp⟩
    · rintro ⟨rfl | hy, hp⟩
      · exact .inl ⟨rfl, hp⟩
      · exact .inr ⟨hy, hp⟩

omit [DecidableEq P] in
theorem foldl_push_of_forall_ne {place : P → I} {l : List P} {i : I} (h : ∀ x ∈ l, place x ≠ i)
    (table : I → List P) : l.foldl (push place) table i = table i := by
  induction l generalizing table with
  | nil => rfl
  | cons x l ih =>
    rw [List.foldl_cons, ih (fun y hy => h y (List.mem_cons_of_mem _ hy)), push,
      Function.update_of_ne (h x List.mem_cons_self).symm]

omit [DecidableEq P] in
theorem foldl_push_nodup {place : P → I} {l : List P} {table : I → List P} (hl : l.Nodup)
    (h : ∀ i, (table i).Nodup) (hdis : ∀ x ∈ l, ∀ i, x ∉ table i) (i : I) :
    (l.foldl (push place) table i).Nodup := by
  induction l generalizing table with
  | nil => exact h i
  | cons x l ih =>
    obtain ⟨hx, hl⟩ := List.nodup_cons.mp hl
    refine ih hl (push_nodup h (hdis x List.mem_cons_self _)) fun y hy j hm => ?_
    rcases (mem_push place table x y j).mp hm with hm | ⟨rfl, -⟩
    · exact hdis y (List.mem_cons_of_mem _ hy) j hm
    · exact hx hy

omit [DecidableEq P] in
/-- **Rehashing one chain**: the items of chain `i` go to their new places, all others stay. -/
theorem Holds.rehash (h : Holds place table items) (place' : P → I) (i : I)
    (hstay : ∀ x ∈ items, place x ≠ i → place' x = place x) :
    Holds place' ((table i).foldl (push place') (Function.update table i [])) items where
  nodup := h.nodup
  chain_nodup := by
    refine foldl_push_nodup (h.chain_nodup i) (fun j => ?_) fun x hx j hm => ?_
    · by_cases e : j = i
      · subst e; rw [Function.update_self]; exact List.nodup_nil
      · rw [Function.update_of_ne e]; exact h.chain_nodup j
    · by_cases e : j = i
      · subst e; rw [Function.update_self] at hm; cases hm
      · rw [Function.update_of_ne e] at hm
        exact e (((h.mem_iff j x).mp hm).2.symm.trans ((h.mem_iff i x).mp hx).2)
  mem_iff j x := by
    rw [mem_foldl_push, h.mem_iff]
    constructor
    · rintro (hx | ⟨⟨hx, -⟩, hp⟩)
      · by_cases e : j = i
        · subst e; rw [Function.update_self] at hx; cases hx
        · rw [Function.update_of_ne e, h.mem_iff] at hx
          exact ⟨hx.1, by rw [hstay x hx.1 (fun e' => e (hx.2.symm.trans e')), hx.2]⟩
      · exact ⟨hx, hp⟩
    · rintro ⟨hx, hp⟩
      by_cases e : place x = i
      · exact .inr ⟨⟨hx, e⟩, hp⟩
      · refine .inl ?_
        rw [hstay x hx e] at hp
        rw [Function.update_of_ne (fun e' => e (hp.trans e')), h.mem_iff]
        exact ⟨hx, hp⟩

end Holds

section Find

variable [DecidableEq K] {place : P → I} {table : I → List P} {items : List P} {key : P → K} {x : P}

omit [DecidableEq P] [DecidableEq I] in
/-- **A present key is found** where its item belongs, provided no two items have the same key. -/
theorem Holds.find_eq_some (h : Holds place table items) (hx : x ∈ items)
    (huniq : ∀ y ∈ items, key y = key x → y = x) :
    (table (place x)).find? (fun y => key y = key x) = some x := by
  cases hf : (table (place x)).find? (fun y => key y = key x) with
  | none =>
    have := List.find?_eq_none.mp hf x (h.mem_place hx)
    simp at this
  | some y =>
    have hk : key y = key x := by simpa using List.find?_some hf
    have hy : y ∈ items := ((h.mem_iff _ y).mp (List.mem_of_find?_eq_some hf)).1
    rw [huniq y hy hk]

end Find

end Buckets
