import Mathlib

/-!
# Doubly linked lists in pointer fields

A node is any value of a type `P`; its links are the values of two fields `next` and `prev`, kept
as functions `P → Option P` (`none` is the null pointer). A list of nodes is *represented* when
walking the fields visits exactly these nodes in this order.

* `setAt f o v`: the guarded store `if (o) o->f = v`;
* `Seg next prev p l n`: the nodes `l` are linked both ways, between the outer nodes `p` and `n`;
* `IsDll next prev head tail l`: a whole list with its two end pointers;
* edits: `Seg.pushFront`, `Seg.popFront`, `IsDll.pushBack`, `IsDll.remove`, `IsDll.swap`, each with
  the nodes whose fields it leaves alone;
* `WellFormed next prev head tail l`: the same list as a reader of the pointers sees it.
-/

namespace Dll

variable {P : Type} [DecidableEq P]

/-- The guarded store `if (o) o->f = v`. -/
def setAt (f : P → Option P) (o v : Option P) : P → Option P :=
  match o with
  | none => f
  | some p => Function.update f p v

@[simp] theorem setAt_none (f : P → Option P) (v : Option P) : setAt f none v = f := rfl

@[simp] theorem setAt_some_self (f : P → Option P) (p : P) (v : Option P) :
    setAt f (some p) v p = v := Function.update_self _ _ _

omit [DecidableEq P] in
theorem head?_ne_of_not_mem {l : List P} {x : P} (h : x ∉ l) : l.head? ≠ some x :=
  fun e => h (List.mem_of_mem_head? e)

theorem setAt_of_ne {f : P → Option P} {o v : Option P} {x : P} (h : o ≠ some x) :
    setAt f o v x = f x := by
  cases o with
  | none => rfl
  | some p => exact Function.update_of_ne (fun e => h (by rw [e])) _ _

/-! ## Segments -/

omit [DecidableEq P] in
/-- The nodes `l` are linked both ways; the node before the first is `p`, the one after the last
is `n`. -/
def Seg (next prev : P → Option P) : Option P → List P → Option P → Prop
  | _, [], _ => True
  | p, x :: xs, n => prev x = p ∧ next x = xs.head?.or n ∧ Seg next prev (some x) xs n

section Seg

variable {next prev next' prev' : P → Option P} {p n : Option P} {x y : P} {l a b : List P}

omit [DecidableEq P] in
@[simp] theorem seg_nil : Seg next prev p [] n := trivial

omit [DecidableEq P] in
theorem seg_cons : Seg next prev p (x :: l) n ↔
    prev x = p ∧ next x = l.head?.or n ∧ Seg next prev (some x) l n := Iff.rfl

omit [DecidableEq P] in
/-- **A segment reads only the fields of its own nodes.** -/
theorem Seg.congr (h : Seg next prev p l n)
    (hn : ∀ x ∈ l, next' x = next x) (hp : ∀ x ∈ l, prev' x = prev x) :
    Seg next' prev' p l n := by
  induction l generalizing p with
  | nil => trivial
  | cons x l ih =>
    obtain ⟨h1, h2, h3⟩ := h
    refine ⟨?_, ?_, ih h3 (fun y hy => hn y (List.mem_cons_of_mem _ hy))
      (fun y hy => hp y (List.mem_cons_of_mem _ hy))⟩
    · rw [hp x List.mem_cons_self, h1]
    · rw [hn x List.mem_cons_self, h2]

omit [DecidableEq P] in
theorem seg_append : Seg next prev p (a ++ b) n ↔
    Seg next prev p a (b.head?.or n) ∧ Seg next prev (a.getLast?.or p) b n := by
  induction a generalizing p with
  | nil => simp
  | cons x a ih =>
    simp only [List.cons_append, seg_cons, List.head?_append, Option.or_assoc, ih]
    have hlast : ((x :: a).getLast?).or p = (a.getLast?).or (some x) := by
      cases a with
      | nil => rfl
      | cons y a => simp [List.getLast?_cons]
    rw [hlast, and_assoc, and_assoc]

omit [DecidableEq P] in
/-- The links of a node inside a segment. -/
theorem Seg.mid (h : Seg next prev p (a ++ x :: b) n) :
    prev x = a.getLast?.or p ∧ next x = b.head?.or n := by
  have h2 := (seg_append.mp h).2
  exact ⟨h2.1, h2.2.1⟩

/-- Changing the outer node after a segment: the last node's `next` is redirected. -/
theorem Seg.setNext (h : Seg next prev p l n) (hd : l.Nodup) (m : Option P) :
    Seg (setAt next l.getLast? m) prev p l m := by
  induction l using List.reverseRecOn generalizing n with
  | nil => trivial
  | append_singleton l x _ =>
    obtain ⟨h1, h2⟩ := seg_append.mp h
    have hx : x ∉ l := fun hx => (List.nodup_append.mp hd).2.2 x hx x (by simp) rfl
    refine seg_append.mpr ⟨?_, ?_⟩
    · refine h1.congr (fun y hy => ?_) (fun _ _ => rfl)
      exact setAt_of_ne (by simpa using fun e : x = y => hx (e ▸ hy))
    · exact ⟨h2.1, by simp, trivial⟩

/-- Changing the outer node before a segment: the first node's `prev` is redirected. -/
theorem Seg.setPrev (h : Seg next prev p l n) (hd : l.Nodup) (m : Option P) :
    Seg next (setAt prev l.head? m) m l n := by
  cases l with
  | nil => trivial
  | cons x l =>
    have hx : x ∉ l := (List.nodup_cons.mp hd).1
    refine ⟨by simp, h.2.1, h.2.2.congr (fun _ _ => rfl) (fun y hy => ?_)⟩
    exact setAt_of_ne (by simpa using fun e : x = y => hx (e ▸ hy))

/-- **Push at the front**: the new node gets a null `prev`, the old front points back to it. -/
theorem Seg.pushFront (h : Seg next prev none l none) (hd : l.Nodup) (hx : x ∉ l) :
    Seg (Function.update next x l.head?) (setAt (Function.update prev x none) l.head? (some x))
      none (x :: l) none := by
  have hne : l.head? ≠ some x := fun e => hx (List.mem_of_mem_head? e)
  refine ⟨?_, ?_, ?_⟩
  · rw [setAt_of_ne hne, Function.update_self]
  · rw [Function.update_self, Option.or_none]
  · have h' : Seg (Function.update next x l.head?) (Function.update prev x none) none l none :=
      h.congr (fun y hy => Function.update_of_ne (ne_of_mem_of_not_mem hy hx) _ _)
        (fun y hy => Function.update_of_ne (ne_of_mem_of_not_mem hy hx) _ _)
    exact h'.setPrev hd (some x)

/-- **Pop from the front.** -/
theorem Seg.popFront (h : Seg next prev none (x :: l) none) (hd : (x :: l).Nodup) :
    Seg next (setAt prev (next x) none) none l none := by
  have hn : next x = l.head? := by rw [h.2.1, Option.or_none]
  rw [hn]
  exact h.2.2.setPrev (List.nodup_cons.mp hd).2 none

end Seg

/-! ## Whole lists -/

omit [DecidableEq P] in
/-- **A list with its end pointers.** -/
structure IsDll (next prev : P → Option P) (head tail : Option P) (l : List P) : Prop where
  nodup : l.Nodup
  head_eq : head = l.head?
  tail_eq : tail = l.getLast?
  seg : Seg next prev none l none

section IsDll

variable {next prev next' prev' : P → Option P} {head tail : Option P} {x y : P} {l a b : List P}

omit [DecidableEq P] in
theorem isDll_nil : IsDll next prev none none [] := ⟨List.nodup_nil, rfl, rfl, trivial⟩

omit [DecidableEq P] in
theorem IsDll.congr (h : IsDll next prev head tail l)
    (hn : ∀ x ∈ l, next' x = next x) (hp : ∀ x ∈ l, prev' x = prev x) :
    IsDll next' prev' head tail l :=
  ⟨h.nodup, h.head_eq, h.tail_eq, h.seg.congr hn hp⟩

omit [DecidableEq P] in
theorem IsDll.mid (h : IsDll next prev head tail (a ++ x :: b)) :
    prev x = a.getLast? ∧ next x = b.head? := by
  simpa using h.seg.mid

omit [DecidableEq P] in
/-- The head is null exactly when the tail is. -/
theorem IsDll.head_none_iff (h : IsDll next prev head tail l) : head = none ↔ tail = none := by
  rw [h.head_eq, h.tail_eq, List.head?_eq_none_iff, List.getLast?_eq_none_iff]

omit [DecidableEq P] in
theorem IsDll.prev_head (h : IsDll next prev head tail l) (hx : head = some x) : prev x = none := by
  cases l with
  | nil => rw [h.head_eq] at hx; cases hx
  | cons y l =>
    rw [h.head_eq] at hx
    cases hx
    exact h.seg.1

omit [DecidableEq P] in
theorem IsDll.next_tail (h : IsDll next prev head tail l) (hx : tail = some x) : next x = none := by
  rw [h.tail_eq] at hx
  obtain ⟨l', rfl⟩ := List.getLast?_eq_some_iff.mp hx
  exact h.mid.2

omit [DecidableEq P] in
/-- Both links of a list node lead to list nodes. -/
theorem IsDll.next_mem (h : IsDll next prev head tail l) (hx : x ∈ l) (hy : next x = some y) :
    y ∈ l := by
  obtain ⟨a, b, rfl⟩ := List.append_of_mem hx
  have hb : b.head? = some y := h.mid.2.symm.trans hy
  simp [List.mem_of_mem_head? hb]

omit [DecidableEq P] in
theorem IsDll.prev_mem (h : IsDll next prev head tail l) (hx : x ∈ l) (hy : prev x = some y) :
    y ∈ l := by
  obtain ⟨a, b, rfl⟩ := List.append_of_mem hx
  have ha : a.getLast? = some y := h.mid.1.symm.trans hy
  simp [List.mem_of_getLast? ha]

omit [DecidableEq P] in
/-- **`next` and `prev` are mutually inverse on the nodes of a list.** -/
theorem IsDll.next_iff_prev (h : IsDll next prev head tail l) (hx : x ∈ l) (hy : y ∈ l) :
    next x = some y ↔ prev y = some x := by
  constructor
  · intro e
    obtain ⟨a, b, rfl⟩ := List.append_of_mem hx
    have hb : b.head? = some y := h.mid.2.symm.trans e
    obtain ⟨b', rfl⟩ : ∃ b', b = y :: b' := by
      cases b with
      | nil => cases hb
      | cons z b => cases hb; exact ⟨b, rfl⟩
    rw [List.append_cons] at h
    simpa using h.mid.1
  · intro e
    obtain ⟨a, b, rfl⟩ := List.append_of_mem hy
    have ha : a.getLast? = some x := h.mid.1.symm.trans e
    obtain ⟨a', rfl⟩ := List.getLast?_eq_some_iff.mp ha
    rw [List.append_assoc] at h
    simpa using h.mid.2

omit [DecidableEq P] in
theorem IsDll.next_ne_self (h : IsDll next prev head tail l) (hx : x ∈ l) : next x ≠ some x := by
  intro e
  obtain ⟨a, b, rfl⟩ := List.append_of_mem hx
  have hb : b.head? = some x := h.mid.2.symm.trans e
  have hd := h.nodup
  simp [List.nodup_append, List.mem_of_mem_head? hb] at hd

omit [DecidableEq P] in
theorem IsDll.head_eq_some_iff (h : IsDll next prev head tail (a ++ x :: b)) :
    head = some x ↔ a = [] := by
  rw [h.head_eq]
  cases a with
  | nil => simp
  | cons y a =>
    have hd := h.nodup
    simp only [List.cons_append, List.head?_cons, Option.some.injEq, reduceCtorEq, iff_false]
    rintro rfl
    simp at hd

omit [DecidableEq P] in
theorem IsDll.tail_eq_some_iff (h : IsDll next prev head tail (a ++ x :: b)) :
    tail = some x ↔ b = [] := by
  rw [h.tail_eq, List.getLast?_append]
  cases b using List.reverseRecOn with
  | nil => simp
  | append_singleton b y =>
    have hd := h.nodup
    rw [List.getLast?_cons, List.getLast?_concat]
    simp only [Option.getD_some, Option.some_or, Option.some.injEq, List.append_eq_nil_iff,
      reduceCtorEq, and_false, iff_false]
    rintro rfl
    simp [List.nodup_append] at hd

/-- **Push at the back**, in the order of stores of an LRU link. -/
theorem IsDll.pushBack (h : IsDll next prev head tail l) (hx : x ∉ l) :
    IsDll (setAt (Function.update next x none) tail (some x)) (Function.update prev x tail)
      (if head = none then some x else head) (some x) (l ++ [x]) := by
  have hne : tail ≠ some x := by
    rw [h.tail_eq]; exact fun e => hx (List.mem_of_getLast? e)
  have hfree : Seg (Function.update next x none) (Function.update prev x tail) none l none :=
    h.seg.congr (fun y hy => Function.update_of_ne (ne_of_mem_of_not_mem hy hx) _ _)
      (fun y hy => Function.update_of_ne (ne_of_mem_of_not_mem hy hx) _ _)
  refine ⟨?_, ?_, by simp, ?_⟩
  · refine List.nodup_append.mpr ⟨h.nodup, List.nodup_singleton x, fun y hy z hz e => ?_⟩
    rw [List.mem_singleton] at hz
    exact hx (by rw [← hz, ← e]; exact hy)
  · rw [h.head_eq, List.head?_append]
    cases l <;> simp
  · refine seg_append.mpr ⟨?_, ?_⟩
    · have := hfree.setNext h.nodup (some x)
      rw [← h.tail_eq] at this
      simpa using this
    · refine ⟨?_, ?_, trivial⟩
      · rw [Function.update_self, h.tail_eq, Option.or_none]
      · rw [setAt_of_ne hne, Function.update_self]
        rfl

theorem pushBack_frame (hne : y ≠ x) (ht : tail ≠ some y) :
    setAt (Function.update next x none) tail (some x) y = next y ∧
      Function.update prev x tail y = prev y :=
  ⟨by rw [setAt_of_ne ht, Function.update_of_ne hne], Function.update_of_ne hne _ _⟩

/-- **Removing a node** redirects the links of its two neighbours and the end pointers. -/
theorem IsDll.remove (h : IsDll next prev head tail (a ++ x :: b)) :
    IsDll (setAt next (prev x) (next x)) (setAt prev (next x) (prev x))
      (if head = some x then next x else head) (if tail = some x then prev x else tail)
      (a ++ b) := by
  obtain ⟨hp, hn⟩ := h.mid
  have hd := h.nodup
  have hda : a.Nodup := (List.nodup_append.mp hd).1
  have hdb : b.Nodup := (List.nodup_cons.mp (List.nodup_append.mp hd).2.1).2
  have hdis : ∀ y ∈ a, ∀ z ∈ b, y ≠ z := fun y hy z hz =>
    (List.nodup_append.mp hd).2.2 y hy z (List.mem_cons_of_mem _ hz)
  obtain ⟨h1, h2⟩ := seg_append.mp h.seg
  rw [hp, hn]
  refine ⟨?_, ?_, ?_, ?_⟩
  · exact List.nodup_append.mpr ⟨hda, hdb, hdis⟩
  · rw [List.head?_append]
    split_ifs with e
    · rw [h.head_eq_some_iff.mp e]; rfl
    · cases a with
      | nil => exact absurd (h.head_eq_some_iff.mpr rfl) e
      | cons y a => rw [h.head_eq]; rfl
  · rw [List.getLast?_append]
    split_ifs with e
    · rw [h.tail_eq_some_iff.mp e]; rfl
    · rw [h.tail_eq, List.getLast?_append]
      cases b with
      | nil => exact absurd (h.tail_eq_some_iff.mpr rfl) e
      | cons y b => simp [List.getLast?_cons]
  · refine seg_append.mpr ⟨?_, ?_⟩
    · have hs := h1.setNext hda b.head?
      rw [Option.or_none]
      refine hs.congr (fun _ _ => rfl) (fun y hy => setAt_of_ne fun e => ?_)
      exact hdis y hy y (List.mem_of_mem_head? e) rfl
    · have hs := h2.2.2.setPrev hdb a.getLast?
      rw [Option.or_none]
      refine hs.congr (fun y hy => setAt_of_ne fun e => ?_) (fun _ _ => rfl)
      exact hdis y (List.mem_of_getLast? e) y hy rfl

/-- **Moving a node one place towards the head**, in the order of stores of the crawler: `y` is
the node before `x`. -/
theorem IsDll.swap (h : IsDll next prev head tail (a ++ y :: x :: b))
    {next₁ next₂ next₃ prev₁ prev₂ prev₃ : P → Option P}
    (hn₁ : next₁ = Function.update next y (next x)) (hp₁ : prev₁ = setAt prev (next x) (some y))
    (hn₂ : next₂ = Function.update next₁ x (some y))
    (hp₂ : prev₂ = Function.update prev₁ x (prev₁ y))
    (hp₃ : prev₃ = Function.update prev₂ y (some x))
    (hn₃ : next₃ = setAt next₂ (prev₃ x) (some x)) :
    IsDll next₃ prev₃ (if head = some y then some x else head)
      (if tail = some x then some y else tail) (a ++ x :: y :: b) := by
  have hd := h.nodup
  have hxy : x ≠ y := by rintro rfl; simp [List.nodup_append] at hd
  have hax : ∀ w ∈ a, w ≠ x := fun w hw =>
    (List.nodup_append.mp hd).2.2 w hw x (by simp)
  have hay : ∀ w ∈ a, w ≠ y := fun w hw =>
    (List.nodup_append.mp hd).2.2 w hw y (by simp)
  have hab : ∀ w ∈ a, ∀ z ∈ b, w ≠ z := fun w hw z hz =>
    (List.nodup_append.mp hd).2.2 w hw z (by simp [hz])
  have hda : a.Nodup := (List.nodup_append.mp hd).1
  have hyb := List.nodup_cons.mp (List.nodup_append.mp hd).2.1
  have hxb := List.nodup_cons.mp hyb.2
  have hby : y ∉ b := fun hy => hyb.1 (List.mem_cons_of_mem _ hy)
  have hx := (List.append_cons a y (x :: b) ▸ h).mid
  have hnx : next x = b.head? := hx.2
  have hpy : prev y = a.getLast? := h.mid.1
  have hpy₁ : prev₁ y = a.getLast? := by
    rw [hp₁, hnx, setAt_of_ne (head?_ne_of_not_mem hby), hpy]
  have hpx₃ : prev₃ x = a.getLast? := by
    rw [hp₃, Function.update_of_ne hxy, hp₂, Function.update_self, hpy₁]
  have hlast : ∀ w, w ∉ a → a.getLast? ≠ some w := fun w hw e => hw (List.mem_of_getLast? e)
  -- the new fields off the two swapped nodes
  have hn_off : ∀ w, w ≠ x → w ≠ y → next₃ w = setAt next a.getLast? (some x) w := by
    intro w hwx hwy
    rw [hn₃, hpx₃]
    by_cases e : a.getLast? = some w
    · rw [e, setAt_some_self, setAt_some_self]
    · rw [setAt_of_ne e, setAt_of_ne e, hn₂, Function.update_of_ne hwx, hn₁,
        Function.update_of_ne hwy]
  have hp_off : ∀ w, w ≠ x → w ≠ y → prev₃ w = setAt prev b.head? (some y) w := by
    intro w hwx hwy
    rw [hp₃, Function.update_of_ne hwy, hp₂, Function.update_of_ne hwx, hp₁, hnx]
  obtain ⟨h1, h2⟩ := seg_append.mp h.seg
  refine ⟨?_, ?_, ?_, ?_⟩
  · refine (List.Perm.nodup_iff ?_).mp hd
    exact (List.Perm.swap x y b).append_left a
  · rw [List.head?_append]
    split_ifs with e
    · rw [h.head_eq_some_iff.mp e]; rfl
    · cases a with
      | nil => exact absurd (h.head_eq_some_iff.mpr rfl) e
      | cons z a => rw [h.head_eq]; rfl
  · have ht := (List.append_cons a y (x :: b) ▸ h).tail_eq_some_iff
    split_ifs with e
    · rw [ht.mp e]; simp
    · rw [h.tail_eq, List.getLast?_append, List.getLast?_append]
      cases b with
      | nil => exact absurd (ht.mpr rfl) e
      | cons z b => simp [List.getLast?_cons]
  · refine seg_append.mpr ⟨?_, ?_, ?_, ?_, ?_, ?_⟩
    · refine (h1.setNext hda (some x)).congr (fun w hw => hn_off w (hax w hw) (hay w hw)) ?_
      intro w hw
      rw [hp_off w (hax w hw) (hay w hw), setAt_of_ne]
      exact fun e => hab w hw w (List.mem_of_mem_head? e) rfl
    · rw [hpx₃, Option.or_none]
    · rw [hn₃, hpx₃, setAt_of_ne (hlast x fun hw => hax x hw rfl), hn₂, Function.update_self]
      rfl
    · rw [hp₃, Function.update_self]
    · rw [hn₃, hpx₃, setAt_of_ne (hlast y fun hw => hay y hw rfl), hn₂,
        Function.update_of_ne hxy.symm, hn₁, Function.update_self, hnx, Option.or_none]
    · have hwx : ∀ w ∈ b, w ≠ x := fun w hw e => hxb.1 (e ▸ hw)
      have hwy : ∀ w ∈ b, w ≠ y := fun w hw e => hby (e ▸ hw)
      refine (h2.2.2.2.2.setPrev hxb.2 (some y)).congr ?_ (fun w hw =>
        hp_off w (hwx w hw) (hwy w hw))
      intro w hw
      rw [hn_off w (hwx w hw) (hwy w hw), setAt_of_ne]
      exact fun e => hab w (List.mem_of_getLast? e) w hw rfl

/-- The nodes a `swap` leaves alone. -/
theorem IsDll.swap_frame (h : IsDll next prev head tail (a ++ y :: x :: b))
    {next₁ next₂ next₃ prev₁ prev₂ prev₃ : P → Option P}
    (hn₁ : next₁ = Function.update next y (next x)) (hp₁ : prev₁ = setAt prev (next x) (some y))
    (hn₂ : next₂ = Function.update next₁ x (some y))
    (hp₂ : prev₂ = Function.update prev₁ x (prev₁ y))
    (hp₃ : prev₃ = Function.update prev₂ y (some x))
    (hn₃ : next₃ = setAt next₂ (prev₃ x) (some x)) {w : P} (hw : w ∉ a ++ y :: x :: b) :
    next₃ w = next w ∧ prev₃ w = prev w := by
  have hx := (List.append_cons a y (x :: b) ▸ h).mid
  have hxm : x ∈ a ++ y :: x :: b := by simp
  have hym : y ∈ a ++ y :: x :: b := by simp
  have hwx : w ≠ x := fun e => hw (e ▸ hxm)
  have hwy : w ≠ y := fun e => hw (e ▸ hym)
  have hnx : next x ≠ some w := fun e => hw (h.next_mem hxm e)
  have hpy : prev y ≠ some w := fun e => hw (h.prev_mem hym e)
  have hp : prev₃ w = prev w := by
    rw [hp₃, Function.update_of_ne hwy, hp₂, Function.update_of_ne hwx, hp₁, setAt_of_ne hnx]
  have hd := h.nodup
  have hxy : x ≠ y := by rintro rfl; simp [List.nodup_append] at hd
  have hby : y ∉ b := fun hy => by simp [List.nodup_append, hy] at hd
  have hpx₃ : prev₃ x = prev y := by
    rw [hp₃, Function.update_of_ne hxy, hp₂, Function.update_self, hp₁, hx.2,
      setAt_of_ne (head?_ne_of_not_mem hby)]
  refine ⟨?_, hp⟩
  rw [hn₃, hpx₃, setAt_of_ne hpy, hn₂, Function.update_of_ne hwx, hn₁, Function.update_of_ne hwy]

theorem remove_frame (hp : prev x ≠ some y) (hn : next x ≠ some y) :
    setAt next (prev x) (next x) y = next y ∧ setAt prev (next x) (prev x) y = prev y :=
  ⟨setAt_of_ne hp, setAt_of_ne hn⟩

end IsDll

/-! ## What a reader of the pointers sees -/

omit [DecidableEq P] in
/-- The nodes met by following a link field from `p`, at most `n` of them. -/
def walk (f : P → Option P) : ℕ → Option P → List P
  | 0, _ => []
  | _ + 1, none => []
  | n + 1, some x => x :: walk f n (f x)

omit [DecidableEq P] in
/-- A walk along a segment visits its nodes and, at the end of a whole list, stops. -/
theorem Seg.walk_eq {next prev : P → Option P} {p : Option P} {l : List P}
    (h : Seg next prev p l none) {n : ℕ} (hn : l.length ≤ n) : walk next n l.head? = l := by
  induction l generalizing p n with
  | nil => cases n <;> rfl
  | cons x l ih =>
    cases n with
    | zero => simp at hn
    | succ n =>
      rw [List.head?_cons, walk, h.2.1, Option.or_none,
        ih h.2.2 (by simpa using hn)]

omit [DecidableEq P] in
/-- **A well-formed list, pointer by pointer**: a walk from the head visits the nodes `l` and ends;
the ends are null together and have null outer links; the links are mutually inverse; no node comes
twice. -/
structure WellFormed (next prev : P → Option P) (head tail : Option P) (l : List P) : Prop where
  visits : ∀ n, l.length ≤ n → walk next n head = l
  ends : head = none ↔ tail = none
  prev_head : ∀ x, head = some x → prev x = none
  next_tail : ∀ x, tail = some x → next x = none
  inverse : ∀ x ∈ l, ∀ y ∈ l, next x = some y ↔ prev y = some x
  nodup : l.Nodup

omit [DecidableEq P] in
theorem IsDll.wellFormed {next prev : P → Option P} {head tail : Option P} {l : List P}
    (h : IsDll next prev head tail l) : WellFormed next prev head tail l where
  visits n hn := by rw [h.head_eq]; exact h.seg.walk_eq hn
  ends := h.head_none_iff
  prev_head x hx := h.prev_head hx
  next_tail x hx := h.next_tail hx
  inverse x hx y hy := h.next_iff_prev hx hy
  nodup := h.nodup

end Dll
