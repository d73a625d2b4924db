import Mathlib.Data.List.Rotate
import Mathlib.Data.List.TakeWhile

/-!
# Taking turns

* `turn p l`: the first of `l` that qualifies is served, and goes to the back;
* **`turns_eq`**: in any number of turns those that qualify are served cyclically, in the order of `l`.
-/

namespace RoundRobin

variable {α : Type} (p : α → Bool)

/-- One turn. Those passed over go to the back before the one that is served. -/
def turn (l : List α) : Option α × List α :=
  match l.dropWhile fun x => !p x with
  | [] => (none, l)
  | c :: b => (some c, b ++ (l.takeWhile fun x => !p x) ++ [c])

/-- Who is served in `n` turns. -/
def turns : ℕ → List α → List (Option α)
  | 0, _ => []
  | n + 1, l => (turn p l).1 :: turns n (turn p l).2

variable {p}

theorem turn_none {l : List α} (h : ∀ x ∈ l, p x = false) : turn p l = (none, l) := by
  have hd : l.dropWhile (fun x => !p x) = [] := by
    rw [List.dropWhile_eq_nil_iff]
    intro x hx
    rw [h x hx, Bool.not_false]
  rw [turn, hd]

theorem turn_split {a b : List α} {c : α} (ha : ∀ x ∈ a, p x = false) (hc : p c = true) :
    turn p (a ++ c :: b) = (some c, b ++ a ++ [c]) := by
  have ha' : ∀ x ∈ a, (!p x) = true := fun x hx => by rw [ha x hx, Bool.not_false]
  have hd : (a ++ c :: b).dropWhile (fun x => !p x) = c :: b := by
    rw [List.dropWhile_append_of_pos ha', List.dropWhile_cons_of_neg (by simp [hc])]
  have ht : (a ++ c :: b).takeWhile (fun x => !p x) = a := by
    rw [List.takeWhile_append_of_pos ha', List.takeWhile_cons_of_neg (by simp [hc]), List.append_nil]
  rw [turn, hd, ht]

/-- **Those that qualify are served cyclically.** -/
theorem turns_eq (n : ℕ) (l : List α) : turns p n l =
    (List.range n).map fun i => (l.filter p)[i % (l.filter p).length]? := by
  induction n generalizing l with
  | zero => rfl
  | succ n ih =>
    rw [turns, List.range_succ_eq_map, List.map_cons, List.map_map]
    cases hf : l.filter p with
    | nil =>
      have hnone : ∀ x ∈ l, p x = false := fun x hx => by
        simpa using List.filter_eq_nil_iff.mp hf x hx
      rw [turn_none hnone, ih, hf]
      simp [Function.comp_def]
    | cons c e =>
      obtain ⟨a, b, rfl, ha, hc, rfl⟩ := List.filter_eq_cons_iff.mp hf
      have ha' : ∀ x ∈ a, p x = false := fun x hx => by simpa using ha x hx
      have hrot : (b ++ a ++ [c]).filter p = (c :: b.filter p).rotate 1 := by
        simp [List.filter_eq_nil_iff.mpr ha, hc]
      rw [turn_split ha' hc, ih, hrot]
      refine congrArg₂ _ (by simp) (List.map_congr_left fun i _ => ?_)
      -- the turn has put the one served to the back
      have hlt : i % (c :: b.filter p).length < (c :: b.filter p).length :=
        Nat.mod_lt _ (by simp)
      rw [List.length_rotate, List.getElem?_rotate hlt, Nat.mod_add_mod]
      rfl

end RoundRobin
