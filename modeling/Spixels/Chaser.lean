import Mathlib.Data.List.Basic

/-!
# Chasers

A pattern that runs along a row of `n` cells: a counter counts modulo `m`, and each step clears the cell at the
counter modulo `n` and lays the pattern down behind it.  What runs out of the row is cut off.

`shown` is the row after a step in closed form.  Where the counter starts again before the pattern has reached the
end of the row, the pattern stays there until the next round passes over it: `rowAfter_succ`.
-/

namespace Chaser

variable {α : Type*} (n m : Nat) (off : α) (pattern : List α)

/-- One step: the cell `pos` is cleared, and the pattern is laid down behind it. -/
def paint (pos : Nat) (row : Nat → α) (k : Nat) : α :=
  if k = pos then off
  else if pos < k then (pattern[k - (pos + 1)]?).getD (row k)
  else row k

/-- The row after `i` steps. -/
def rowAfter : Nat → Nat → α
  | 0 => fun _ => off
  | i + 1 => paint off pattern (i % m % n) (rowAfter i)

/-- The pattern behind `pos`, on top of `row`. -/
def trail (pos : Nat) (row : α) (k : Nat) : α :=
  if k ≤ pos then off else (pattern[k - (pos + 1)]?).getD row

/-- The row after the step number `i`.  The first round after the counter has started again finds what the last step
before has left. -/
def shown (i k : Nat) : α :=
  trail off pattern (i % m % n)
    (if m ≤ i ∧ i % m < n then trail off pattern ((m - 1) % n) off k else off) k

variable {n m off pattern}

theorem paint_nil (pos : Nat) (row : Nat → α) (k : Nat) :
    paint off [] pos row k = if k = pos then off else row k := by
  simp [paint]

/-- The last cell of the pattern is laid down last. -/
theorem paint_snoc (pos : Nat) (row : Nat → α) (a : α) (k : Nat) :
    paint off (pattern ++ [a]) pos row k =
      if k = pos + 1 + pattern.length then a else paint off pattern pos row k := by
  unfold paint
  by_cases hk : k = pos + 1 + pattern.length
  · rw [if_pos hk, if_neg (by omega), if_pos (by omega), show k - (pos + 1) = pattern.length by omega]
    simp
  · rw [if_neg hk]
    rcases Nat.lt_or_ge pos k with hlt | hge
    · -- another cell of the pattern, or none
      rcases Nat.lt_or_ge (k - (pos + 1)) pattern.length with hin | hout
      · rw [List.getElem?_append_left hin]
      · rw [List.getElem?_eq_none (by simp; omega), List.getElem?_eq_none hout]
    · rw [if_neg (Nat.not_lt.2 hge), if_neg (Nat.not_lt.2 hge)]

theorem succ_mod (i : Nat) {d : Nat} (hd : 0 < d) :
    (i + 1) % d = i % d + 1 ∧ i % d + 1 < d ∨ (i + 1) % d = 0 ∧ i % d + 1 = d := by
  have hlt := Nat.mod_lt i hd
  rw [← Nat.mod_add_mod i d 1]
  rcases Nat.lt_or_ge (i % d + 1) d with h | h
  · exact .inl ⟨Nat.mod_eq_of_lt h, h⟩
  · obtain heq : i % d + 1 = d := by omega
    exact .inr ⟨by rw [heq, Nat.mod_self], heq⟩

/-- The next step of the same round. -/
theorem paint_trail {pos k : Nat} (row : α) :
    paint off pattern (pos + 1) (trail off pattern pos row) k = trail off pattern (pos + 1) row k := by
  unfold paint trail
  by_cases hk : k = pos + 1
  · rw [if_pos hk, if_pos (by omega)]
  · rw [if_neg hk]
    by_cases hlt : pos + 1 < k
    · rw [if_pos hlt, if_neg (by omega), if_neg (by omega)]
      -- where the pattern ends, the step before has not laid it down either
      cases hnew : pattern[k - (pos + 1 + 1)]? with
      | some a => rfl
      | none =>
        have hold : pattern[k - (pos + 1)]? = none := by
          rw [List.getElem?_eq_none_iff] at hnew ⊢
          omega
        rw [hold]
        rfl
    · rw [if_neg hlt, if_pos (by omega), if_pos (by omega)]

/-- The first step of a round. -/
theorem paint_zero (row : Nat → α) (k : Nat) : paint off pattern 0 row k = trail off pattern 0 (row k) k := by
  unfold paint trail
  rcases Nat.eq_zero_or_pos k with rfl | hk
  · rfl
  · rw [if_neg (by omega), if_pos hk, if_neg (by omega)]

theorem paint_congr {pos : Nat} {row row' : Nat → α} {k : Nat} (h : row k = row' k) :
    paint off pattern pos row k = paint off pattern pos row' k := by
  simp only [paint, h]

theorem trail_of_le {pos k : Nat} (row : α) (hk : k ≤ pos) : trail off pattern pos row k = off := if_pos hk

/-- What the row shows after each step. -/
theorem rowAfter_succ (hn : 0 < n) (hm : n ≤ m) (i : Nat) {k : Nat} (hk : k < n) :
    rowAfter n m off pattern (i + 1) k = shown n m off pattern i k := by
  induction i with
  | zero =>
    have hfirst : ¬(m ≤ 0 ∧ 0 % m < n) := by omega
    rw [shown, if_neg hfirst, Nat.zero_mod, Nat.zero_mod]
    exact paint_zero _ k
  | succ i ih =>
    rw [rowAfter, paint_congr ih]
    have hmod : i % m % n ≤ i % m := Nat.mod_le _ _
    rcases succ_mod i (show 0 < m by omega) with ⟨hnext, hlt⟩ | ⟨hnext, hlast⟩
    · rcases succ_mod (i % m) hn with ⟨hpos, hin⟩ | ⟨hpos, hend⟩
      · -- the same round goes on
        have hround : (m ≤ i + 1 ∧ i % m + 1 < n) ↔ (m ≤ i ∧ i % m < n) := by
          have hne : i + 1 ≠ m := fun he => by rw [he, Nat.mod_self] at hnext; omega
          constructor
          · rintro ⟨hle, hround⟩
            exact ⟨by omega, by omega⟩
          · rintro ⟨hle, hround⟩
            rw [Nat.mod_eq_of_lt hround] at hin
            exact ⟨by omega, hin⟩
        unfold shown
        simp only [hnext, hpos, hround]
        exact (paint_congr rfl).trans (paint_trail _)
      · -- the round is over, and all cells are cleared
        have hround : ¬(m ≤ i + 1 ∧ i % m + 1 < n) := by omega
        rw [hnext, hpos, paint_zero, shown, shown, trail_of_le _ (show k ≤ i % m % n by omega), hnext, hpos,
          if_neg hround]
    · -- the counter starts again
      have hcount : i % m = m - 1 := by omega
      have hstart : m ≤ i + 1 ∧ 0 < n := ⟨by have := Nat.mod_le i m; omega, hn⟩
      have hbefore : shown n m off pattern i k = trail off pattern ((m - 1) % n) off k := by
        rw [shown, hcount]
        split
        · rename_i hround
          have hmn : m - 1 = n - 1 := by omega
          rw [hmn, Nat.mod_eq_of_lt (by omega), trail_of_le _ (by omega), trail_of_le _ (by omega)]
        · rfl
      rw [hnext, Nat.zero_mod, paint_zero, hbefore, shown, hnext, Nat.zero_mod, if_pos hstart]

end Chaser
