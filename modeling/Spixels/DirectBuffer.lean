import Spixels.DirectMultiSpi

/-!
# The buffer of the direct backend

Painting bytes leads from a buffer to the same buffer with the lanes of the bytes replaced: `painted`,
`paint_painted`.  What `bzero` makes of the words that a growth adds is in `DirectGrowth`.
-/

namespace Spixels

open Waveform (byteDrive)
open Run (run bind_eq_ok map_eq_ok)

namespace DirectMultiSPI

/-- The words `base`, with the bytes of `σ` in place of their lanes. -/
def painted (base : List (BitVec 32)) (σ : Streams) : List (BitVec 32) :=
  base.mapIdx fun i w => ofLanes fun l => (byteDrive (σ.byte l) i).getD (w.getLsbD l)

@[simp] theorem length_painted (base : List (BitVec 32)) (σ : Streams) :
    (painted base σ).length = base.length := by
  simp [painted]

theorem getElem?_painted (base : List (BitVec 32)) (σ : Streams) (i : Nat) :
    (painted base σ)[i]? = base[i]?.map fun w => ofLanes fun l => (byteDrive (σ.byte l) i).getD (w.getLsbD l) := by
  simp [painted]

/-- Nothing is painted where there is no byte. -/
theorem painted_of_none {base : List (BitVec 32)} {σ : Streams} (h : ∀ g p, σ.byte g p = none) :
    painted base σ = base := by
  apply List.ext_getElem?
  intro i
  have hid : (fun w : BitVec 32 => ofLanes fun l => (byteDrive (σ.byte l) i).getD (w.getLsbD l)) = id := by
    funext w
    exact (eq_ofLanes fun l _ => by rw [byteDrive, h]; rfl).symm
  rw [getElem?_painted, hid, Option.map_id, id]

/-- The lane of a painted word. -/
theorem getLsbD_painted {base : List (BitVec 32)} (σ : Streams) {i l : Nat} (hi : i < base.length) (hl : l < 32) :
    ((painted base σ).getD i 0#32).getLsbD l = (byteDrive (σ.byte l) i).getD ((base.getD i 0#32).getLsbD l) := by
  have hpainted : (painted base σ).getD i 0#32 =
      ofLanes fun l => (byteDrive (σ.byte l) i).getD ((base.getD i 0#32).getLsbD l) := by
    rw [List.getD_eq_getElem?_getD, List.getD_eq_getElem?_getD, getElem?_painted, List.getElem?_eq_getElem hi]
    rfl
  rw [hpainted, getLsbD_ofLanes _ hl]

/-- The lane of a pin without bytes is not painted. -/
theorem getLsbD_painted_of_none {clk : Int} (hc : IsPin clk) {base : List (BitVec 32)} {σ : Streams}
    (hfree : ∀ p, σ.byte clk p = none) (hbase : ∀ w ∈ base, w.getLsbD clk.toNat = false) :
    ∀ w ∈ painted base σ, w.getLsbD clk.toNat = false := by
  intro w hw
  obtain ⟨i, hi⟩ := List.mem_iff_getElem?.1 hw
  rw [getElem?_painted] at hi
  obtain ⟨v, hv, rfl⟩ := Option.map_eq_some_iff.1 hi
  rw [getLsbD_ofLanes _ hc.toNat_lt, hc.natCast_toNat, byteDrive, hfree]
  exact hbase v (List.mem_of_getElem? hv)

/-- Painting one more byte. -/
theorem paint_painted {g : Int} (hg : IsPin g) (base : List (BitVec 32)) (σ : Streams) (p : Nat) (b : BitVec 8) :
    Storage.sweep (fun k => 8 * p + k) (paintBit g b) (painted base σ) (List.range 8) =
      painted base (σ.set g p b) := by
  apply List.ext_getElem?
  intro i
  by_cases hmem : ∃ k < 8, 8 * p + k = i
  · obtain ⟨k, hk, rfl⟩ := hmem
    have hd : (List.range 8).Pairwise fun a b => 8 * p + a ≠ 8 * p + b := List.nodup_range.imp fun hab => by omega
    rw [Storage.getElem?_sweep_of_mem (fun k => 8 * p + k) hd (List.mem_range.2 hk), getElem?_painted,
      getElem?_painted, Option.map_map]
    congr 1
    funext w
    have hbit := and_mask_ne_zero b hk
    simp only [Function.comp_apply, paintBit, Waveform.byteDrive_of_lt _ p hk, Streams.byte_set]
    by_cases hb : b.getMsbD k = true
    · rw [hb, decide_eq_true_eq] at hbit
      rw [if_pos hbit, ofLanes_or_shl1 hg]
      refine ofLanes_congr fun l _ => ?_
      by_cases hlg : (l : Int) = g <;> simp [hlg, hb]
    · rw [Bool.not_eq_true] at hb
      rw [hb, decide_eq_false_iff_not] at hbit
      rw [if_neg hbit, ofLanes_and_not_shl1 hg]
      refine ofLanes_congr fun l _ => ?_
      by_cases hlg : (l : Int) = g <;> simp [hlg, hb]
  · have hne : ∀ k ∈ List.range 8, 8 * p + k ≠ i := fun k hk he => hmem ⟨k, List.mem_range.1 hk, he⟩
    have hpos : i / 8 ≠ p := fun he => hmem ⟨i % 8, by omega, by omega⟩
    rw [Storage.getElem?_sweep_of_ne hne, getElem?_painted, getElem?_painted]
    congr 1
    funext w
    refine ofLanes_congr fun l _ => ?_
    simp [byteDrive, Streams.byte_set, hpos]

end DirectMultiSPI

end Spixels
