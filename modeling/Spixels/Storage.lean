import Mathlib.Data.List.Basic

/-!
# Storage blocks

A block of memory with equal cells is the list of its cells.  `resize` is what an allocator does (kept cells keep
their value, new cells hold whatever was there before), `fill` overwrites a range, and `sweep` is a loop that
updates one cell per iteration.  A sweep over pairwise distinct cells updates each of them once and leaves the
others alone: `getElem?_sweep_of_mem`, `getElem?_sweep_of_ne`.
-/

namespace Storage

variable {α ι : Type*}

/-- The block `old` resized to `n` cells; cell `i` of new storage holds `fresh i`. -/
def resize (fresh : Nat → α) (old : List α) (n : Nat) : List α :=
  (List.range n).map fun i => old[i]?.getD (fresh i)

/-- The cells `off, …, off + n - 1` of `buf` overwritten with `v`, as far as they are cells of `buf`. -/
def fill (buf : List α) (off n : Nat) (v : α) : List α :=
  buf.mapIdx fun i x => if off ≤ i ∧ i < off + n then v else x

/-- The loop that updates the cell `idx k` with `f k`, for the `k` of `ks` in turn. -/
def sweep (idx : ι → Nat) (f : ι → α → α) (buf : List α) (ks : List ι) : List α :=
  ks.foldl (fun b k => b.modify (idx k) (f k)) buf

@[simp] theorem length_resize (fresh : Nat → α) (old : List α) (n : Nat) : (resize fresh old n).length = n := by
  simp [resize]

theorem getElem?_resize (fresh : Nat → α) (old : List α) {n i : Nat} (hi : i < n) :
    (resize fresh old n)[i]? = some (old[i]?.getD (fresh i)) := by
  simp [resize, hi]

theorem getElem?_resize_old (fresh : Nat → α) {old : List α} {n i : Nat} (hi : i < n) (ho : i < old.length) :
    (resize fresh old n)[i]? = old[i]? := by
  rw [getElem?_resize fresh old hi, List.getElem?_eq_getElem ho]; rfl

@[simp] theorem length_fill (buf : List α) (off n : Nat) (v : α) : (fill buf off n v).length = buf.length := by
  simp [fill]

theorem getElem?_fill (buf : List α) (off n : Nat) (v : α) (i : Nat) :
    (fill buf off n v)[i]? = buf[i]?.map fun x => if off ≤ i ∧ i < off + n then v else x := by
  simp [fill]

theorem getElem?_fill_of_lt {buf : List α} {off n : Nat} {v : α} {i : Nat} (hi : i < off) :
    (fill buf off n v)[i]? = buf[i]? := by
  have h : ¬(off ≤ i ∧ i < off + n) := by omega
  rw [getElem?_fill]; simp [h]

theorem getElem?_fill_of_mem {buf : List α} {off n : Nat} {v : α} {i : Nat} (hl : i < buf.length) (hi : off ≤ i)
    (hn : i < off + n) : (fill buf off n v)[i]? = some v := by
  rw [getElem?_fill, List.getElem?_eq_getElem hl]; simp [hi, hn]

section Sweep

variable {idx : ι → Nat} {f : ι → α → α}

@[simp] theorem length_sweep (buf : List α) (ks : List ι) : (sweep idx f buf ks).length = buf.length := by
  induction ks generalizing buf with
  | nil => rfl
  | cons k ks ih => exact (ih _).trans (List.length_modify ..)

/-- A sweep leaves the cells it does not visit alone. -/
theorem getElem?_sweep_of_ne {buf : List α} {ks : List ι} {i : Nat} (h : ∀ k ∈ ks, idx k ≠ i) :
    (sweep idx f buf ks)[i]? = buf[i]? := by
  induction ks generalizing buf with
  | nil => rfl
  | cons k ks ih =>
    have hk : idx k ≠ i := h k (by simp)
    refine (ih fun k' hk' => h k' (List.mem_cons_of_mem _ hk')).trans ?_
    simp [hk]

/-- A sweep over pairwise distinct cells updates each of them once. -/
theorem getElem?_sweep_of_mem (idx : ι → Nat) {buf : List α} {ks : List ι}
    (hd : ks.Pairwise fun a b => idx a ≠ idx b) {k : ι} (hk : k ∈ ks) :
    (sweep idx f buf ks)[idx k]? = buf[idx k]?.map (f k) := by
  induction ks generalizing buf with
  | nil => cases hk
  | cons j ks ih =>
    obtain ⟨hj, hd'⟩ := List.pairwise_cons.1 hd
    rcases List.mem_cons.1 hk with rfl | hk'
    · refine (getElem?_sweep_of_ne fun k' hk' => (hj k' hk').symm).trans ?_
      simp
    · refine (ih hd' hk').trans ?_
      simp [hj k hk']

end Sweep

end Storage
