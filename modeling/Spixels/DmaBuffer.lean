import Spixels.DmaMultiSpi

/-!
# The shadow buffer of the DMA backend

`render clk σ` is the buffer that the streams `σ` ask for, entry by entry: an even entry drives the pins that
have a byte at its position, and lowers the clock; an odd entry raises the clock.  Growing the buffer and
painting a byte both lead from the rendering of the old streams to the rendering of the new ones, whatever the
sizes are and however often the buffer grew: `grow_render`, `paint_render`.
-/

namespace Spixels

open Waveform (byteDrive)

namespace DMAMultiSPI

/-- Entry `i` of the buffer for the streams `σ`. -/
def entry (clk : Int) (σ : Streams) (i : Nat) : GpioData :=
  if i % 2 = 0 then
    { set := ofLanes fun l => (byteDrive (σ.byte l) (i / 2)).getD false
      ignoredUpperSetBits := 0#32
      reservedArea := 0#32
      clr := ofLanes fun l => ((byteDrive (σ.byte l) (i / 2)).map not).getD (decide (clk = l)) }
  else { GpioData.zero with set := shl1 clk }

/-- The buffer for the streams `σ`. -/
def render (clk : Int) (σ : Streams) : List GpioData := (List.range (16 * σ.size + 1)).map (entry clk σ)

@[simp] theorem length_render (clk : Int) (σ : Streams) : (render clk σ).length = 16 * σ.size + 1 := by
  simp [render]

theorem getElem?_render (clk : Int) (σ : Streams) {i : Nat} (hi : i < 16 * σ.size + 1) :
    (render clk σ)[i]? = some (entry clk σ i) := by
  simp [render, hi]

/-! ### Single entries -/

theorem entry_odd (clk : Int) (σ : Streams) {i : Nat} (hi : i % 2 = 1) :
    entry clk σ i = { GpioData.zero with set := shl1 clk } := by
  simp [entry, hi]

/-- Two entries with the same bytes are the same. -/
theorem entry_congr {clk : Int} {σ τ : Streams} {i : Nat}
    (h : ∀ l : Nat, l < 32 → byteDrive (σ.byte l) (i / 2) = byteDrive (τ.byte l) (i / 2)) :
    entry clk σ i = entry clk τ i := by
  unfold entry
  split
  · congr 1 <;> exact ofLanes_congr fun l hl => by rw [h l hl]
  · rfl

/-- Entries beyond the bytes only move the clock. -/
theorem entry_of_none {clk : Int} (hc : IsPin clk) {σ : Streams} {i : Nat}
    (h : ∀ g, σ.byte g (i / 16) = none) : entry clk σ i = prepareClock clk i GpioData.zero := by
  have hd : ∀ l : Nat, byteDrive (σ.byte l) (i / 2) = none := fun l => by
    rw [byteDrive, show i / 2 / 8 = i / 16 by omega, h]; rfl
  unfold entry prepareClock
  split
  · congr 1
    · exact (eq_ofLanes fun l _ => by rw [hd]; simp [GpioData.zero]).symm
    · exact (eq_ofLanes fun l _ => by rw [hd, getLsbD_shl1 hc]; rfl).symm
  · rfl

/-- Painting the `k`-th bit of a byte for the pin `g`. -/
theorem paintBit_entry {clk g : Int} (hg : IsPin g) {σ : Streams} {p k : Nat} (hk : k < 8) (b : BitVec 8) :
    paintBit g b k (entry clk σ (16 * p + 2 * k)) = entry clk (σ.set g p b) (16 * p + 2 * k) := by
  have hdrive : ∀ l : Nat, byteDrive ((σ.set g p b).byte l) ((16 * p + 2 * k) / 2) =
      if (l : Int) = g then some (b.getMsbD k) else byteDrive (σ.byte l) ((16 * p + 2 * k) / 2) := by
    intro l
    simp only [show (16 * p + 2 * k) / 2 = 8 * p + k by omega, Waveform.byteDrive_of_lt _ p hk, Streams.byte_set]
    by_cases hl : (l : Int) = g <;> simp [hl]
  have hbit := and_mask_ne_zero b hk
  have heven : (16 * p + 2 * k) % 2 = 0 := by omega
  unfold paintBit entry
  simp only [heven, ↓reduceIte, hdrive]
  by_cases hb : b.getMsbD k = true
  · rw [hb, decide_eq_true_eq] at hbit
    rw [if_pos hbit, ofLanes_or_shl1 hg, ofLanes_and_not_shl1 hg]
    congr 1 <;> refine ofLanes_congr fun l _ => ?_ <;> by_cases hlg : (l : Int) = g <;> simp [hlg, hb]
  · rw [Bool.not_eq_true] at hb
    rw [hb, decide_eq_false_iff_not] at hbit
    rw [if_neg hbit, ofLanes_or_shl1 hg, ofLanes_and_not_shl1 hg]
    congr 1 <;> refine ofLanes_congr fun l _ => ?_ <;> by_cases hlg : (l : Int) = g <;> simp [hlg, hb]

/-! ### The whole buffer -/

/-- The buffer after growing, for any contents of the new storage. -/
theorem grow_render {clk : Int} (hc : IsPin clk) {σ : Streams} (hσ : σ.Bounded) {n : Nat} (hn : σ.size < n)
    (fresh : Nat → GpioData) {old : List GpioData}
    (hold : old = [] ∧ σ.size = 0 ∨ old = render clk σ) :
    Storage.sweep id (prepareClock clk)
        (Storage.fill (Storage.resize fresh old (16 * n + 1)) (16 * σ.size) (16 * n + 1 - 16 * σ.size)
          GpioData.zero)
        (List.range' (16 * σ.size) (16 * n + 1 - 16 * σ.size)) =
      render clk (σ.register n) := by
  have hmax : (σ.register n).size = n := by simp; omega
  apply List.ext_getElem?
  intro i
  by_cases hi : i < 16 * n + 1
  · rw [getElem?_render _ _ (by rw [hmax]; exact hi)]
    by_cases hlow : i < 16 * σ.size
    · -- an old entry other than the last one is kept
      have hne : ∀ k ∈ List.range' (16 * σ.size) (16 * n + 1 - 16 * σ.size), id k ≠ i := by
        intro k hk; simp only [List.mem_range'_1] at hk; simp only [id_eq]; omega
      have hold' : old = render clk σ := hold.resolve_left fun h => by omega
      rw [Storage.getElem?_sweep_of_ne hne, Storage.getElem?_fill_of_lt hlow,
        Storage.getElem?_resize_old _ hi (by rw [hold', length_render]; omega), hold',
        getElem?_render _ _ (by omega)]
      rfl
    · -- the old last entry and the new ones are cleared and prepared
      have hmem : i ∈ List.range' (16 * σ.size) (16 * n + 1 - 16 * σ.size) := by
        simp only [List.mem_range'_1]; omega
      have hd : (List.range' (16 * σ.size) (16 * n + 1 - 16 * σ.size)).Pairwise fun a b => id a ≠ id b :=
        List.nodup_range'
      refine (Storage.getElem?_sweep_of_mem id hd hmem).trans ?_
      rw [id_eq, Storage.getElem?_fill_of_mem (by simpa using hi) (by omega) (by omega), Option.map_some,
        entry_of_none hc fun g => ?_]
      exact hσ.byte_eq_none g (by omega)
  · rw [List.getElem?_eq_none (by simp; omega), List.getElem?_eq_none (by rw [length_render, hmax]; omega)]

/-- The buffer after painting a byte. -/
theorem paint_render {clk g : Int} (hg : IsPin g) (σ : Streams) (p : Nat) (b : BitVec 8) :
    Storage.sweep (fun k => 2 * 8 * p + 2 * k) (paintBit g b) (render clk σ) (List.range 8) =
      render clk (σ.set g p b) := by
  apply List.ext_getElem?
  intro i
  by_cases hi : i < 16 * σ.size + 1
  · rw [getElem?_render clk (σ.set g p b) (by simpa using hi)]
    by_cases hmem : ∃ k < 8, 16 * p + 2 * k = i
    · obtain ⟨k, hk, rfl⟩ := hmem
      have hd : (List.range 8).Pairwise fun a b => 2 * 8 * p + 2 * a ≠ 2 * 8 * p + 2 * b :=
        List.nodup_range.imp fun hab => by omega
      rw [show 16 * p + 2 * k = 2 * 8 * p + 2 * k by omega,
        Storage.getElem?_sweep_of_mem (fun k => 2 * 8 * p + 2 * k) hd (List.mem_range.2 hk),
        getElem?_render clk σ (by omega), Option.map_some, paintBit_entry hg hk]
    · have hne : ∀ k ∈ List.range 8, 2 * 8 * p + 2 * k ≠ i := fun k hk he =>
        hmem ⟨k, List.mem_range.1 hk, by omega⟩
      rw [Storage.getElem?_sweep_of_ne hne, getElem?_render _ _ hi]
      congr 1
      by_cases hodd : i % 2 = 1
      · rw [entry_odd _ _ hodd, entry_odd _ _ hodd]
      · -- an even entry of another position keeps its bytes
        apply entry_congr
        intro l hl
        have hpos : i / 2 / 8 ≠ p := fun he => hmem ⟨i / 2 % 8, by omega, by omega⟩
        simp [byteDrive, Streams.byte_set, hpos]
  · rw [List.getElem?_eq_none (by simp; omega), List.getElem?_eq_none (by simp; omega)]

end DMAMultiSPI

end Spixels
