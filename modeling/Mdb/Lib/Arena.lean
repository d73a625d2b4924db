import Mathlib

/-!
# Bump allocation

A block of `limit` bytes at `base` is handed out from its front, region after region. A region is a
start and a length; each start is a multiple of `align` away from the base, so the cursor moves by a
length rounded up, and the last region may move it past the end.

* `Region.Apart`: two regions share no byte;
* `Arena.Ok`: the cursor, the bytes left and the regions handed out so far fit together;
* `Arena.Ok.take`: the next region.
-/

/-- A start and a length. -/
abbrev Region := ℕ × ℕ

/-- The regions share no byte. -/
def Region.Apart (q q' : Region) : Prop := q.1 + q.2 ≤ q'.1 ∨ q'.1 + q'.2 ≤ q.1

/-- Every byte of the region is one of the `limit` bytes from `base`. -/
def Region.Within (base limit : ℕ) (q : Region) : Prop :=
  ∀ a, q.1 ≤ a → a < q.1 + q.2 → base ≤ a ∧ a < base + limit

namespace Arena

/-- **The state of a bump allocator**: `cur` is the cursor, `avail` the bytes left, `regions` what was
handed out, newest first. -/
structure Ok (align base limit cur avail : ℕ) (regions : List Region) : Prop where
  base_le : base ≤ cur
  aligned : align ∣ cur - base
  room : 0 < avail → cur + avail = base + limit
  below : ∀ q ∈ regions, q.1 + q.2 ≤ cur
  start : ∀ q ∈ regions, base ≤ q.1 ∧ align ∣ q.1 - base
  within : ∀ q ∈ regions, q.Within base limit
  apart : regions.Pairwise Region.Apart

variable {align base limit cur avail len up : ℕ} {regions : List Region}

theorem Ok.empty : Ok align base limit base limit [] :=
  ⟨le_rfl, by simp, fun _ => rfl, by simp, by simp, by simp, .nil⟩

/-- A region that still fits is inside; it may be empty. -/
theorem Ok.within_next (h : Ok align base limit cur avail regions) (hlen : len ≤ avail) :
    Region.Within base limit (cur, len) := by
  intro a h1 h2
  have hroom := h.room (by dsimp only at h1 h2; omega)
  have := h.base_le
  dsimp only at h1 h2
  omega

/-- **The next region**: `len` bytes are asked for and at most `avail` are left, and the cursor moves
by `up`. -/
theorem Ok.take (h : Ok align base limit cur avail regions) (hlen : len ≤ avail) (hup : len ≤ up)
    (hdvd : align ∣ up) :
    Ok align base limit (cur + up) (if up < avail then avail - up else 0)
      ((cur, len) :: regions) where
  base_le := h.base_le.trans (Nat.le_add_right _ _)
  aligned := by
    have e : cur + up - base = (cur - base) + up := by
      have := h.base_le
      omega
    rw [e]
    exact dvd_add h.aligned hdvd
  room hpos := by
    split_ifs at hpos ⊢ with hlt
    · have := h.room (by omega)
      omega
    · omega
  below q hq := by
    rcases List.mem_cons.mp hq with rfl | hq
    · exact Nat.add_le_add_left hup _
    · exact (h.below q hq).trans (Nat.le_add_right _ _)
  start q hq := by
    rcases List.mem_cons.mp hq with rfl | hq
    · exact ⟨h.base_le, h.aligned⟩
    · exact h.start q hq
  within q hq := by
    rcases List.mem_cons.mp hq with rfl | hq
    · exact h.within_next hlen
    · exact h.within q hq
  apart := List.pairwise_cons.mpr ⟨fun q hq => .inr (h.below q hq), h.apart⟩

end Arena
