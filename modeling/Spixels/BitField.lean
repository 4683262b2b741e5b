import Mathlib.Data.BitVec

/-!
# Fields of a word

A register word is made of fields, each of them some adjacent bits.  `place` is the word with one field and zeros
around it, `update` replaces one field of a word and leaves the others alone: `field_update_same`,
`field_update_of_disjoint`.  `Holds` says of a word that it is one field.  The word of several fields is made of
these by `or`, and they are read back from it if they do not overlap: `field_word`.
-/

namespace BitField

variable {w n m : Nat}

/-- The `n` bits from `pos` on. -/
abbrev field (word : BitVec w) (pos n : Nat) : BitVec n := word.extractLsb' pos n

/-- The word that has `v` in the bits from `pos` on, and zeros elsewhere. -/
def place (w pos : Nat) (v : BitVec n) : BitVec w := v.setWidth w <<< pos

/-- The word with one field cleared and set again. -/
def update (word : BitVec w) (pos : Nat) (v : BitVec n) : BitVec w :=
  word &&& ~~~place w pos (BitVec.allOnes n) ||| place w pos v

/-- The bits from `pos` on are `v`, and all others are zero. -/
structure Holds (word : BitVec w) (pos : Nat) (v : BitVec n) : Prop where
  field : field word pos n = v
  zero : ∀ i, i < pos ∨ pos + n ≤ i → word.getLsbD i = false

/-- Two fields have no bit in common. -/
def Disjoint (pos n pos' m : Nat) : Prop := pos + n ≤ pos' ∨ pos' + m ≤ pos

theorem Disjoint.symm {pos pos' : Nat} (h : Disjoint pos n pos' m) : Disjoint pos' m pos n := Or.symm h

theorem getLsbD_place (pos : Nat) (v : BitVec n) (i : Nat) :
    (place w pos v).getLsbD i = (decide (i < w) && decide (pos ≤ i) && v.getLsbD (i - pos)) := by
  simp only [place, BitVec.getLsbD_shiftLeft, BitVec.getLsbD_setWidth]
  by_cases hi : i < w
  · by_cases hp : i < pos
    · simp [hp, Nat.not_le.2 hp]
    · simp [hi, hp, Nat.not_lt.1 hp, show i - pos < w by omega]
  · simp [hi]

theorem field_eq_zero_iff {word : BitVec w} {pos n : Nat} :
    field word pos n = 0#n ↔ ∀ i < n, word.getLsbD (pos + i) = false := by
  refine ⟨fun h i hi => ?_, fun h => BitVec.eq_of_getLsbD_eq fun i hi => ?_⟩
  · have hbit := congrArg (fun x => x.getLsbD i) h
    simpa only [BitVec.getLsbD_extractLsb', hi, decide_true, Bool.true_and, BitVec.getLsbD_zero] using hbit
  · rw [BitVec.getLsbD_extractLsb', h i hi, Bool.and_false, BitVec.getLsbD_zero]

theorem field_place {pos : Nat} (h : pos + n ≤ w) (v : BitVec n) : field (place w pos v) pos n = v := by
  apply BitVec.eq_of_getLsbD_eq
  intro i hi
  rw [BitVec.getLsbD_extractLsb', getLsbD_place]
  simp [hi, show pos + i < w by omega]

theorem holds_place {pos : Nat} (h : pos + n ≤ w) (v : BitVec n) : Holds (place w pos v) pos v := by
  refine ⟨field_place h v, fun i hi => ?_⟩
  rw [getLsbD_place]
  rcases hi with hi | hi
  · simp [Nat.not_le.2 hi]
  · simp [BitVec.getLsbD_of_ge v (i - pos) (by omega)]

theorem Holds.eq_place {word : BitVec w} {pos : Nat} {v : BitVec n} (h : Holds word pos v) :
    word = place w pos v := by
  apply BitVec.eq_of_getLsbD_eq
  intro i hi
  rw [getLsbD_place]
  by_cases hin : pos ≤ i ∧ i < pos + n
  · have hv : v.getLsbD (i - pos) = word.getLsbD i := by
      rw [← h.field, BitVec.getLsbD_extractLsb', Nat.add_sub_cancel' hin.1]
      simp [show i - pos < n by omega]
    simp [hi, hin.1, hv]
  · rw [h.zero i (by omega)]
    by_cases hp : pos ≤ i
    · simp [BitVec.getLsbD_of_ge v (i - pos) (by omega)]
    · simp [hp]

theorem holds_iff {word : BitVec w} {pos : Nat} (h : pos + n ≤ w) {v : BitVec n} :
    Holds word pos v ↔ word = place w pos v :=
  ⟨Holds.eq_place, fun he => he ▸ holds_place h v⟩

theorem place_inj {pos : Nat} (h : pos + n ≤ w) {v v' : BitVec n} : place w pos v = place w pos v' ↔ v = v' :=
  ⟨fun he => by rw [← field_place h v, he, field_place h v'], fun he => he ▸ rfl⟩

/-- A mask picks its field. -/
theorem and_place_allOnes (word : BitVec w) (pos n : Nat) :
    word &&& place w pos (BitVec.allOnes n) = place w pos (field word pos n) := by
  apply BitVec.eq_of_getLsbD_eq
  intro i hi
  rw [BitVec.getLsbD_and, getLsbD_place, getLsbD_place, BitVec.getLsbD_extractLsb']
  by_cases hp : pos ≤ i
  · simp [hi, hp, Bool.and_comm]
  · simp [hp]

/-- The bits of a word outside of the fields it holds are zero. -/
theorem Holds.field_of_disjoint {word : BitVec w} {pos pos' : Nat} {v : BitVec n} (h : Holds word pos v)
    (hd : Disjoint pos n pos' m) : BitField.field word pos' m = 0#m := by
  apply BitVec.eq_of_getLsbD_eq
  intro i hi
  rw [BitVec.getLsbD_extractLsb', h.zero (pos' + i) (by unfold Disjoint at hd; omega)]
  simp

theorem field_or (a b : BitVec w) (pos n : Nat) : field (a ||| b) pos n = field a pos n ||| field b pos n :=
  BitVec.extractLsb'_or

/-- One of the fields that a word is made of. -/
structure Piece where
  pos : Nat
  n : Nat
  v : BitVec n

/-- The word that is made of those fields. -/
def word (w : Nat) : List Piece → BitVec w
  | [] => 0#w
  | p :: ps => place w p.pos p.v ||| word w ps

theorem field_word_of_disjoint {ps : List Piece} {pos m : Nat} (hw : ∀ p ∈ ps, p.pos + p.n ≤ w)
    (hd : ∀ p ∈ ps, Disjoint p.pos p.n pos m) : field (word w ps) pos m = 0#m := by
  induction ps with
  | nil => exact BitVec.extractLsb'_zero
  | cons p ps ih =>
    rw [word, field_or, (holds_place (hw p (by simp)) p.v).field_of_disjoint (hd p (by simp)),
      ih (fun p' hp => hw p' (by simp [hp])) fun p' hp => hd p' (by simp [hp]), BitVec.or_zero]

/-- Fields that do not overlap are read back from their word. -/
theorem field_word {ps : List Piece} {x : BitVec w} (hx : x = word w ps) (hw : ∀ p ∈ ps, p.pos + p.n ≤ w)
    (hd : ps.Pairwise fun p p' => Disjoint p.pos p.n p'.pos p'.n) : ∀ p ∈ ps, field x p.pos p.n = p.v := by
  subst hx
  induction ps with
  | nil => simp
  | cons q ps ih =>
    obtain ⟨hq, hd'⟩ := List.pairwise_cons.1 hd
    have hw' : ∀ p ∈ ps, p.pos + p.n ≤ w := fun p hp => hw p (by simp [hp])
    intro p hp
    rw [word, field_or]
    rcases List.mem_cons.1 hp with rfl | hp
    · rw [field_place (hw p (by simp)), field_word_of_disjoint hw' fun p' hp' => (hq p' hp').symm, BitVec.or_zero]
    · rw [(holds_place (hw q (by simp)) q.v).field_of_disjoint (hq p hp), ih hw' hd' p hp, BitVec.zero_or]

theorem field_update_same {pos : Nat} (h : pos + n ≤ w) (word : BitVec w) (v : BitVec n) :
    field (update word pos v) pos n = v := by
  have hclear : field (word &&& ~~~place w pos (BitVec.allOnes n)) pos n = 0#n := by
    apply BitVec.eq_of_getLsbD_eq
    intro i hi
    simp [getLsbD_place, hi]
  rw [update, field_or, hclear, field_place h, BitVec.zero_or]

theorem field_update_of_disjoint {pos pos' : Nat} (hd : Disjoint pos n pos' m) (word : BitVec w) (v : BitVec n) :
    field (update word pos v) pos' m = field word pos' m := by
  apply BitVec.eq_of_getLsbD_eq
  intro i hi
  have hout : ∀ u : BitVec n, (place w pos u).getLsbD (pos' + i) = false := by
    intro u
    rw [getLsbD_place]
    rcases hd with hd | hd
    · simp [BitVec.getLsbD_of_ge u (pos' + i - pos) (by omega)]
    · simp [show ¬pos ≤ pos' + i by omega]
  rw [BitVec.getLsbD_extractLsb', BitVec.getLsbD_extractLsb', update, BitVec.getLsbD_or, BitVec.getLsbD_and,
    BitVec.getLsbD_not, hout, hout]
  by_cases hw : pos' + i < w
  · simp [hi, hw]
  · simp [hw, BitVec.getLsbD_of_ge word (pos' + i) (by omega)]

end BitField
