import Mathlib

/-!
# The mutexes of one thread

* `LockEvent M`: what a thread does with mutexes that are not recursive;
* `holds h evs`: what a thread that holds `h` holds after `evs`, unless it gets stuck;
* `Disciplined h evs`: it never waits for a mutex of its own, and ends up with what it had; rules for
  pieces one after the other, between a lock and its unlock, and under a `tryLock`;
* `Disciplined.balanced`: then every mutex is given back as often as it was taken.
-/

namespace Locks

/-- What a thread does with mutexes; a `tryLock` has got the mutex or not. -/
inductive LockEvent (M : Type) where
  | lock (m : M)
  | unlock (m : M)
  | tryLock (m : M) (ok : Bool)
  deriving DecidableEq, Repr

variable {M : Type} [DecidableEq M] {h h' : List M} {a b : List (LockEvent M)} {m : M}

/-- What a thread that holds `h` holds after an event; `none` if it waits for a mutex of its own or
gives back one that it does not hold. -/
def LockEvent.after (h : List M) : LockEvent M → Option (List M)
  | .lock m => if m ∈ h then none else some (m :: h)
  | .unlock m => if m ∈ h then some (h.erase m) else none
  | .tryLock m true => if m ∈ h then none else some (m :: h)
  | .tryLock _ false => some h

/-- What it holds after several events. -/
def holds (h : List M) (evs : List (LockEvent M)) : Option (List M) := evs.foldlM LockEvent.after h

/-- **Lock discipline**: the events never get stuck, and what was taken is given back. -/
def Disciplined (h : List M) (evs : List (LockEvent M)) : Prop := holds h evs = some h

instance (h : List M) (evs : List (LockEvent M)) : Decidable (Disciplined h evs) :=
  inferInstanceAs (Decidable (_ = _))

/-- The event takes `m`. -/
def LockEvent.takes (m : M) : LockEvent M → Bool
  | .lock n | .tryLock n true => n = m
  | .unlock _ | .tryLock _ false => false

/-- The event gives `m` back. -/
def LockEvent.gives (m : M) : LockEvent M → Bool
  | .unlock n => n = m
  | .lock _ | .tryLock _ _ => false

theorem holds_nil (h : List M) : holds h [] = some h := rfl

theorem holds_append (ha : holds h a = some h') : holds h (a ++ b) = holds h' b := by
  rw [holds, List.foldlM_append, show a.foldlM LockEvent.after h = some h' from ha]
  rfl

theorem holds_lock (hm : m ∉ h) : holds h (.lock m :: a) = holds (m :: h) a := by
  rw [holds, List.foldlM_cons, LockEvent.after, if_neg hm]
  rfl

/-- A thread that waits for itself. -/
theorem holds_lock_own (hm : m ∈ h) : holds h (.lock m :: a) = none := by
  rw [holds, List.foldlM_cons, LockEvent.after, if_pos hm]
  rfl

theorem holds_tryLock (hm : m ∉ h) : holds h (.tryLock m true :: a) = holds (m :: h) a := by
  rw [holds, List.foldlM_cons, LockEvent.after, if_neg hm]
  rfl

theorem holds_unlock : holds (m :: h) (.unlock m :: a) = holds h a := by
  rw [holds, List.foldlM_cons, LockEvent.after, if_pos List.mem_cons_self, List.erase_cons_head]
  rfl

/-- The second of two mutexes is given back first. -/
theorem holds_unlock_second {n : M} (hn : n ≠ m) :
    holds (n :: m :: h) (.unlock m :: a) = holds (n :: h) a := by
  rw [holds, List.foldlM_cons, LockEvent.after,
    if_pos (List.mem_cons_of_mem _ List.mem_cons_self), List.erase_cons_tail (by simpa using hn),
    List.erase_cons_head]
  rfl

theorem LockEvent.after_count {e : LockEvent M} (he : e.after h = some h') (m : M) :
    h'.count m + (e.gives m).toNat = h.count m + (e.takes m).toNat := by
  have hcons : ∀ n, (n :: h).count m + 0 = h.count m + (decide (n = m)).toNat := fun n => by
    by_cases e : n = m <;> simp [e]
  cases e with
  | lock n =>
    rw [LockEvent.after] at he
    split_ifs at he
    cases he
    exact hcons n
  | unlock n =>
    rw [LockEvent.after] at he
    split_ifs at he with hn
    cases he
    by_cases e : n = m
    · subst e
      have := List.count_pos_iff.mpr hn
      simp only [LockEvent.gives, LockEvent.takes, List.count_erase_self]
      simp
      omega
    · simp [LockEvent.gives, LockEvent.takes, e, List.count_erase_of_ne (Ne.symm e)]
  | tryLock n ok =>
    cases ok with
    | true =>
      rw [LockEvent.after] at he
      split_ifs at he
      cases he
      exact hcons n
    | false =>
      cases he
      rfl

/-- What is held at the end is what was held at first, with what was taken and without what was given
back. -/
theorem holds_count (m : M) {evs : List (LockEvent M)} (he : holds h evs = some h') :
    h'.count m + evs.countP (LockEvent.gives m) = h.count m + evs.countP (LockEvent.takes m) := by
  induction evs generalizing h with
  | nil => cases he; rfl
  | cons e evs ih =>
    rw [holds, List.foldlM_cons, Option.bind_eq_bind, Option.bind_eq_some_iff] at he
    obtain ⟨h₁, h1, h2⟩ := he
    have h3 := ih h2
    have h4 := LockEvent.after_count h1 m
    have hb : ∀ b : Bool, (if b = true then 1 else 0) = b.toNat := by decide
    rw [List.countP_cons, List.countP_cons, hb, hb]
    omega

namespace Disciplined

/-- **As often given back as taken.** -/
theorem balanced (ha : Disciplined h a) (m : M) :
    a.countP (LockEvent.takes m) = a.countP (LockEvent.gives m) := by
  have := holds_count m ha
  omega

theorem nil (h : List M) : Disciplined h [] := rfl

theorem append (ha : Disciplined h a) (hb : Disciplined h b) : Disciplined h (a ++ b) :=
  (holds_append ha).trans hb

/-- **Between a lock and its unlock.** -/
theorem bracket (hm : m ∉ h) (ha : Disciplined (m :: h) a) :
    Disciplined h (.lock m :: (a ++ [.unlock m])) := by
  rw [Disciplined, holds_lock hm, holds_append ha, holds_unlock]
  rfl

theorem pair (hm : m ∉ h) : Disciplined h [.lock m, .unlock m] := bracket hm (nil _)

/-- Under a `tryLock` that has got the mutex. -/
theorem tryBracket (hm : m ∉ h) (ha : Disciplined (m :: h) a) :
    Disciplined h (.tryLock m true :: (a ++ [.unlock m])) := by
  rw [Disciplined, holds_tryLock hm, holds_append ha, holds_unlock]
  rfl

theorem tryLock_false (ha : Disciplined h a) : Disciplined h (.tryLock m false :: a) := ha

theorem flatMap {α : Type} {l : List α} {f : α → List (LockEvent M)}
    (hf : ∀ x ∈ l, Disciplined h (f x)) : Disciplined h (l.flatMap f) := by
  induction l with
  | nil => exact nil h
  | cons x l ih =>
    rw [List.flatMap_cons]
    exact (hf x List.mem_cons_self).append (ih fun y hy => hf y (List.mem_cons_of_mem _ hy))

end Disciplined

end Locks
