import Mathlib

/-!
# Singly linked lists in a pointer field

A node is any value of a type `P`, its link the value of a field `next : P → Option P`; `none` is the
null pointer. A list hangs on a node that is not in it. It is searched by walking as long as the next
node satisfies a predicate `p`, which those in front of a node do if the node does.

* `Path next x l`: walking from `x` visits `l`; `Path.at_last`, `Path.congr`;
* `last x l`: where the walk over `l` ends;
* `Down p l`: the nodes that satisfy `p` come first; `Down.filter_append`;
* **`Path.stop`**: the walk stops at the last node that satisfies `p`;
* **`Path.insert`**: a node is linked in behind it.
-/

namespace Sll

variable {P : Type} {next next' : P → Option P} {x y n : P} {l a b : List P}

/-- Walking from `x` visits `l`. -/
def Path (next : P → Option P) : P → List P → Prop
  | x, [] => next x = none
  | x, y :: l => next x = some y ∧ Path next y l

/-- The node at the end of the walk from `x` over `l`. -/
def last (x : P) (l : List P) : P := l.getLast?.getD x

theorem last_cons : last x (y :: l) = last y l := by
  rw [last, List.getLast?_cons]
  rfl

theorem last_concat : last x (l ++ [y]) = y := by simp [last]

theorem last_mem : last x l = x ∨ last x l ∈ l := by
  cases h : l.getLast? with
  | none => exact .inl (by rw [last, h]; rfl)
  | some y =>
    refine .inr ?_
    rw [last, h]
    exact List.mem_of_getLast? h

theorem Path.head (h : Path next x l) : next x = l.head? := by
  cases l with
  | nil => exact h
  | cons y l => exact h.1

/-- The walk goes on from where its first part ends. -/
theorem Path.at_last (h : Path next x (a ++ b)) : Path next (last x a) b := by
  induction a generalizing x with
  | nil => exact h
  | cons y a ih =>
    rw [last_cons]
    exact ih h.2

/-- Where a node is on the walk. -/
theorem exists_split (hy : y ∈ x :: l) : ∃ a b, l = a ++ b ∧ y = last x a := by
  rcases List.mem_cons.mp hy with rfl | hy
  · exact ⟨[], l, rfl, rfl⟩
  · obtain ⟨a, b, rfl⟩ := List.append_of_mem hy
    exact ⟨a ++ [y], b, List.append_cons a y b, last_concat.symm⟩

/-- A walk reads only the links of the nodes on it. -/
theorem Path.congr (h : Path next x l) (hn : ∀ y ∈ x :: l, next' y = next y) : Path next' x l := by
  induction l generalizing x with
  | nil => exact (hn x List.mem_cons_self).trans h
  | cons y l ih =>
    exact ⟨(hn x List.mem_cons_self).trans h.1, ih h.2 fun z hz => hn z (List.mem_cons_of_mem _ hz)⟩

theorem Path.mem_of_next (h : Path next x l) (hy : y ∈ x :: l) (hn : next y = some n) : n ∈ l := by
  induction l generalizing x with
  | nil =>
    obtain rfl := List.mem_singleton.mp hy
    exact absurd (hn.symm.trans h) (Option.some_ne_none _)
  | cons z l ih =>
    rcases List.mem_cons.mp hy with rfl | hy
    · obtain rfl := Option.some.inj (hn.symm.trans h.1)
      exact List.mem_cons_self
    · exact List.mem_cons_of_mem _ (ih h.2 hy)

/-! ## The nodes that satisfy a predicate -/

section Search

variable {p : P → Bool}

/-- The nodes that satisfy `p` come first. -/
def Down (p : P → Bool) (l : List P) : Prop := l.Pairwise fun m n => p n = true → p m = true

theorem Down.filter_append (h : Down p l) : l.filter p ++ l.filter (fun n => !p n) = l := by
  induction h with
  | nil => rfl
  | @cons m l hm h ih =>
    by_cases hp : p m = true
    · rw [List.filter_cons_of_pos hp, List.filter_cons_of_neg (by simp [hp]), List.cons_append, ih]
    · have hall : ∀ n ∈ l, p n = false := fun n hn => by simpa using mt (hm n hn) hp
      rw [List.filter_cons_of_neg hp, List.filter_cons_of_pos (by simpa using hp),
        List.filter_eq_nil_iff.mpr fun n hn => by simp [hall n hn],
        List.filter_eq_self.mpr fun n hn => by simp [hall n hn], List.nil_append]

/-- Where the walk splits a list. -/
theorem Down.filter_split (h : Down p (a ++ b)) (ha : ∀ m ∈ a.getLast?, p m = true)
    (hb : ∀ n ∈ b.head?, p n = false) :
    (a ++ b).filter p = a ∧ (a ++ b).filter (fun n => !p n) = b := by
  obtain ⟨h₁, h₂, -⟩ := List.pairwise_append.mp h
  have hall : ∀ m ∈ a, p m = true := by
    intro m hm
    cases a using List.reverseRecOn with
    | nil => cases hm
    | append_singleton c z =>
      rcases List.mem_append.mp hm with hm | hm
      · exact (List.pairwise_append.mp h₁).2.2 m hm z List.mem_cons_self (ha z (by simp))
      · rw [List.mem_singleton.mp hm]
        exact ha z (by simp)
  have hnone : ∀ n ∈ b, p n = false := by
    intro n hn
    cases b with
    | nil => cases hn
    | cons z b =>
      have hz : p z = false := hb z rfl
      rcases List.mem_cons.mp hn with rfl | hn
      · exact hz
      · simpa [hz] using mt ((List.pairwise_cons.mp h₂).1 n hn)
  rw [List.filter_append, List.filter_append, List.filter_eq_self.mpr hall,
    List.filter_eq_nil_iff.mpr fun n hn => by simp [hnone n hn],
    List.filter_eq_nil_iff.mpr fun n hn => by simp [hall n hn],
    List.filter_eq_self.mpr fun n hn => by simp [hnone n hn]]
  exact ⟨List.append_nil _, rfl⟩

/-- **Where a walk stops**: at a node of the list that satisfies `p`, or before the list, with a next
node that does not, it has passed all that satisfy it. -/
theorem Path.stop (h : Path next x l) (hd : Down p l) (hy : y = x ∨ y ∈ l ∧ p y = true)
    (hstop : ∀ n, next y = some n → p n = false) :
    y = last x (l.filter p) ∧ next y = (l.filter fun n => !p n).head? := by
  rcases hy with rfl | ⟨hy, hp⟩
  · have hhead := h.head
    obtain ⟨h₁, h₂⟩ := Down.filter_split (a := []) hd (by simp)
      fun n hn => hstop n (hhead.trans hn)
    rw [List.nil_append] at h₁ h₂
    rw [h₁, h₂]
    exact ⟨rfl, hhead⟩
  · obtain ⟨a, b, rfl⟩ := List.append_of_mem hy
    rw [List.append_cons] at h hd ⊢
    have hhead : next y = b.head? := by
      have := h.at_last.head
      rwa [last_concat] at this
    obtain ⟨h₁, h₂⟩ := hd.filter_split (by simp [hp]) fun n hn => hstop n (hhead.trans hn)
    rw [h₁, h₂, last_concat]
    exact ⟨rfl, hhead⟩

end Search

/-- **Linking in a node** behind the first part of a list. -/
theorem Path.insert [DecidableEq P] (h : Path next x (a ++ b)) (hnodup : (x :: (a ++ b)).Nodup)
    (hn : n ∉ x :: (a ++ b)) (hnext : next n = b.head?) :
    Path (Function.update next (last x a) (some n)) x (a ++ n :: b) := by
  induction a generalizing x with
  | nil =>
    refine ⟨Function.update_self _ _ _, ?_⟩
    have hpath : Path next n b := by
      cases b with
      | nil => exact hnext
      | cons y b => exact ⟨hnext, h.2⟩
    refine hpath.congr fun y hy => Function.update_of_ne ?_ _ _
    rintro rfl
    rcases List.mem_cons.mp hy with he | hy
    · exact hn (List.mem_cons.mpr (.inl he.symm))
    · exact (List.nodup_cons.mp hnodup).1 hy
  | cons y a ih =>
    obtain ⟨hx, hnodup⟩ := List.nodup_cons.mp hnodup
    rw [last_cons]
    refine ⟨?_, ih h.2 hnodup fun hm => hn (List.mem_cons_of_mem _ hm)⟩
    rw [Function.update_of_ne, h.1]
    rintro he
    apply hx
    rcases last_mem (x := y) (l := a) with hl | hl
    · rw [he, hl]
      exact List.mem_cons_self
    · rw [he]
      exact List.mem_cons_of_mem _ (List.mem_append_left _ hl)

end Sll
