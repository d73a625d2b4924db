import Mathlib

/-!
# Queues in the order of last use

Each element bears the time of its last use, and new and moved elements go to the end of the queue.

* `Aged stamp now l`: the times grow along `l`, and none lies ahead;
* `Aged.sublist`, `Aged.tick`, `Aged.push`: elements leave, time passes, an element comes or moves;
* `Aged.le_of_append`: an element is older than all behind it.
-/

variable {P T : Type} [Preorder T]

/-- **A queue in the order of last use**, at time `now`. -/
structure Aged (stamp : P → T) (now : T) (l : List P) : Prop where
  sorted : l.Pairwise fun x y => stamp x ≤ stamp y
  past : ∀ x ∈ l, stamp x ≤ now

namespace Aged

variable {stamp : P → T} {now now' : T} {l l' : List P} {x y : P}

theorem nil : Aged stamp now [] := ⟨.nil, fun _ hx => absurd hx List.not_mem_nil⟩

theorem sublist (h : Aged stamp now l) (hs : l'.Sublist l) : Aged stamp now l' :=
  ⟨h.sorted.sublist hs, fun x hx => h.past x (hs.subset hx)⟩

theorem tick (h : Aged stamp now l) (hn : now ≤ now') : Aged stamp now' l :=
  ⟨h.sorted, fun x hx => (h.past x hx).trans hn⟩

/-- What happens to others does not matter. -/
theorem congr {stamp' : P → T} (h : Aged stamp now l) (he : ∀ x ∈ l, stamp' x = stamp x) :
    Aged stamp' now l where
  sorted := h.sorted.imp_of_mem fun hx hy hle => by rw [he _ hx, he _ hy]; exact hle
  past x hx := by rw [he x hx]; exact h.past x hx

/-- **An element goes to the end**, used now. -/
theorem push [DecidableEq P] (h : Aged stamp now l) (hx : x ∉ l) :
    Aged (Function.update stamp x now) now (l ++ [x]) := by
  have hold : ∀ y ∈ l, Function.update stamp x now y = stamp y := fun y hy =>
    Function.update_of_ne (ne_of_mem_of_not_mem hy hx) _ _
  have hl := h.congr hold
  refine ⟨List.pairwise_append.mpr ⟨hl.sorted, List.pairwise_singleton _ _, fun y hy z hz => ?_⟩,
    fun y hy => ?_⟩
  · rw [List.mem_singleton.mp hz, Function.update_self]
    exact hl.past y hy
  · rcases List.mem_append.mp hy with hy | hy
    · exact hl.past y hy
    · rw [List.mem_singleton.mp hy, Function.update_self]

/-- Whoever stands further ahead was used no later. -/
theorem le_of_append {a b : List P} (h : Aged stamp now (a ++ x :: b)) (hy : y ∈ a) :
    stamp y ≤ stamp x :=
  (List.pairwise_append.mp h.sorted).2.2 y hy x List.mem_cons_self

end Aged
