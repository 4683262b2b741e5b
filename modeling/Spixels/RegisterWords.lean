import Spixels.BitField
import Spixels.RpiDma

/-!
# The fields of the DMA registers

By their names and shifts the macros of `rpi-dma.h` build words of one field each: the two lengths of a transfer,
its two strides, and the two priorities of the channel.  The lengths in `x` direction and the strides are such
words.  The mask of the `y` length has two of its 14 bits missing and one too many, and the priorities cut their
field out of the argument instead of shifting it into place; `registerWords_iff` says for which arguments that
makes no difference.
-/

namespace Spixels

open BitField (Holds field place)

/-- A flag that is set or not. -/
def flag (set : Bool) (mask : BitVec 32) : BitVec 32 := if set then mask else 0#32

/-- The control word of a channel, with those flags of `SendBuffers` that are set. -/
def csWord (p q : BitVec 32) (disdebug active ended : Bool) : BitVec 32 :=
  dmaCsPriority p ||| dmaCsPanicPriority q |||
    (flag disdebug dmaCsDisdebug ||| flag active dmaCsActive ||| flag ended dmaCsEnd)

/-- The range of the signed 16 bit strides. -/
def InStride (x : BitVec 32) : Prop := -2 ^ 15 ≤ x.toInt ∧ x.toInt < 2 ^ 15

/-- Each macro yields a word of its field, and words that are put together decode to the arguments they were built
from, if these are in range. -/
structure RegisterWords (y x d s p q : BitVec 32) (disdebug active ended : Bool) : Prop where
  ylength : Holds (dmaCbTxfrLenYlength y) 16 ((y - 1#32).setWidth 14)
  xlength : Holds (dmaCbTxfrLenXlength x) 0 (x.setWidth 16)
  dStride : Holds (dmaCbStrideDStride d) 16 (d.setWidth 16)
  sStride : Holds (dmaCbStrideSStride s) 0 (s.setWidth 16)
  priority : Holds (dmaCsPriority p) 16 (p.setWidth 4)
  panicPriority : Holds (dmaCsPanicPriority q) 20 (q.setWidth 4)
  length : 1 ≤ y.toNat → y.toNat ≤ 2 ^ 14 → x.toNat < 2 ^ 16 →
    (field (dmaCbTxfrLenYlength y ||| dmaCbTxfrLenXlength x) 16 14).toNat + 1 = y.toNat ∧
      (field (dmaCbTxfrLenYlength y ||| dmaCbTxfrLenXlength x) 0 16).toNat = x.toNat
  stride : InStride d → InStride s →
    (field (dmaCbStrideDStride d ||| dmaCbStrideSStride s) 16 16).toInt = d.toInt ∧
      (field (dmaCbStrideDStride d ||| dmaCbStrideSStride s) 0 16).toInt = s.toInt
  cs : p.toNat < 2 ^ 4 → q.toNat < 2 ^ 4 →
    (field (csWord p q disdebug active ended) 16 4).toNat = p.toNat ∧
      (field (csWord p q disdebug active ended) 20 4).toNat = q.toNat ∧
      field (csWord p q disdebug active ended) 28 1 = BitVec.ofBool disdebug ∧
      field (csWord p q disdebug active ended) 0 1 = BitVec.ofBool active ∧
      field (csWord p q disdebug active ended) 1 1 = BitVec.ofBool ended

/-! ### Words of one field -/

theorem holds_xlength (x : BitVec 32) : Holds (dmaCbTxfrLenXlength x) 0 (x.setWidth 16) := by
  refine (BitField.holds_iff (by decide)).2 ?_
  have := BitField.and_place_allOnes x 0 16
  rw [dmaCbTxfrLenXlength, BitVec.setWidth_eq_extractLsb' (by decide)]
  exact this

theorem holds_sStride (x : BitVec 32) : Holds (dmaCbStrideSStride x) 0 (x.setWidth 16) := holds_xlength x

/-- The same field, shifted into place. -/
theorem holds_dStride (x : BitVec 32) : Holds (dmaCbStrideDStride x) 16 (x.setWidth 16) := by
  refine (BitField.holds_iff (by decide)).2 ?_
  change dmaCbTxfrLenXlength x <<< 16 = _
  rw [(holds_xlength x).eq_place]
  simp [place]

/-- A field that is cut out where it is to stand. -/
theorem holds_and_mask_iff (x : BitVec 32) {pos : Nat} (hpos : pos + 4 ≤ 32) :
    Holds (x &&& place 32 pos (BitVec.allOnes 4)) pos (x.setWidth 4) ↔ field x pos 4 = field x 0 4 := by
  rw [BitField.holds_iff hpos, BitField.and_place_allOnes, BitField.place_inj hpos,
    BitVec.setWidth_eq_extractLsb' (by decide)]

theorem holds_priority_iff (p : BitVec 32) :
    Holds (dmaCsPriority p) 16 (p.setWidth 4) ↔ field p 16 4 = field p 0 4 :=
  holds_and_mask_iff p (by decide)

theorem holds_panicPriority_iff (q : BitVec 32) :
    Holds (dmaCsPanicPriority q) 20 (q.setWidth 4) ↔ field q 20 4 = field q 0 4 :=
  holds_and_mask_iff q (by decide)

/-- The mask `0x4fff` keeps the bits 0..11 and 14. -/
theorem getLsbD_ylength (y : BitVec 32) {i : Nat} (hi : i < 16) :
    (dmaCbTxfrLenYlength y).getLsbD (16 + i) = ((y - 1#32).getLsbD i && (decide (i < 12) || decide (i = 14))) := by
  have hmask : ∀ i < 16, (0x4fff#32).getLsbD i = (decide (i < 12) || decide (i = 14)) := by decide
  rw [dmaCbTxfrLenYlength, BitVec.getLsbD_shiftLeft, BitVec.getLsbD_and, Nat.add_sub_cancel_left, hmask i hi]
  simp [show 16 + i < 32 by omega]

/-- So the two bits that it lacks and the one that it has too many have to be zero. -/
theorem holds_ylength_iff (y : BitVec 32) :
    Holds (dmaCbTxfrLenYlength y) 16 ((y - 1#32).setWidth 14) ↔ field (y - 1#32) 12 3 = 0#3 := by
  rw [BitField.field_eq_zero_iff]
  constructor
  · intro h i hi
    rcases Nat.lt_or_ge i 2 with hlack | hmany
    · have hbit := congrArg (fun x => x.getLsbD (12 + i)) h.field
      simp only [BitVec.getLsbD_extractLsb', getLsbD_ylength y (show 12 + i < 16 by omega),
        BitVec.getLsbD_setWidth] at hbit
      simpa [show 12 + i < 14 by omega, show ¬12 + i < 12 by omega, show 12 + i ≠ 14 by omega] using hbit
    · obtain rfl : i = 2 := by omega
      have hbit := h.zero 30 (by omega)
      rw [getLsbD_ylength y (show 14 < 16 by omega)] at hbit
      simpa using hbit
  · intro h
    refine ⟨BitVec.eq_of_getLsbD_eq fun i hi => ?_, fun i hi => ?_⟩
    · rw [BitVec.getLsbD_extractLsb', getLsbD_ylength y (by omega), BitVec.getLsbD_setWidth]
      by_cases hlack : i < 12
      · simp [hi, hlack]
      · have hz := h (i - 12) (by omega)
        rw [Nat.add_sub_cancel' (by omega)] at hz
        simp [hz]
    · rcases Nat.lt_or_ge i 16 with hlow | hhigh
      · simp [dmaCbTxfrLenYlength, hlow]
      · rcases Nat.lt_or_ge i 32 with hlt | hge
        · obtain ⟨j, rfl⟩ : ∃ j, i = 16 + j := ⟨i - 16, by omega⟩
          rw [getLsbD_ylength y (by omega)]
          have h14 : (y - 1#32).getLsbD 14 = false := h 2 (by omega)
          rcases (by omega : j = 14 ∨ j = 15) with rfl | rfl
          · rw [h14, Bool.false_and]
          · simp
        · exact BitVec.getLsbD_of_ge _ _ hge

/-! ### Words of several fields -/

theorem eq_place_flag (set : Bool) (pos : Nat) : flag set (1#32 <<< pos) = place 32 pos (BitVec.ofBool set) := by
  cases set <;> simp [flag, place]

/-- The signed value of a field that is wide enough for it. -/
theorem toInt_setWidth {x : BitVec 32} (hx : InStride x) : (x.setWidth 16).toInt = x.toInt := by
  obtain ⟨hlo, hhi⟩ := hx
  have hlt := x.isLt
  rw [BitVec.toInt_setWidth]
  rw [BitVec.toInt_eq_toNat_cond, Int.bmod_def] at *
  split_ifs at * <;> omega

theorem field_csWord {p q : BitVec 32} (hp : Holds (dmaCsPriority p) 16 (p.setWidth 4))
    (hq : Holds (dmaCsPanicPriority q) 20 (q.setWidth 4)) (disdebug active ended : Bool) :
    field (csWord p q disdebug active ended) 16 4 = p.setWidth 4 ∧
      field (csWord p q disdebug active ended) 20 4 = q.setWidth 4 ∧
      field (csWord p q disdebug active ended) 28 1 = BitVec.ofBool disdebug ∧
      field (csWord p q disdebug active ended) 0 1 = BitVec.ofBool active ∧
      field (csWord p q disdebug active ended) 1 1 = BitVec.ofBool ended := by
  have hword : csWord p q disdebug active ended = BitField.word 32 [⟨16, 4, p.setWidth 4⟩, ⟨20, 4, q.setWidth 4⟩,
      ⟨28, 1, BitVec.ofBool disdebug⟩, ⟨0, 1, BitVec.ofBool active⟩, ⟨1, 1, BitVec.ofBool ended⟩] := by
    simp only [csWord, hp.eq_place, hq.eq_place, dmaCsDisdebug, dmaCsActive, dmaCsEnd, eq_place_flag,
      BitField.word, BitVec.or_zero, BitVec.or_assoc]
  simpa only [List.forall_mem_cons, List.not_mem_nil, false_imp_iff, implies_true, and_true] using
    BitField.field_word hword (by simp) (by simp [BitField.Disjoint])

theorem field_length {y x : BitVec 32} (hy : Holds (dmaCbTxfrLenYlength y) 16 ((y - 1#32).setWidth 14)) :
    field (dmaCbTxfrLenYlength y ||| dmaCbTxfrLenXlength x) 16 14 = (y - 1#32).setWidth 14 ∧
      field (dmaCbTxfrLenYlength y ||| dmaCbTxfrLenXlength x) 0 16 = x.setWidth 16 := by
  have hword : dmaCbTxfrLenYlength y ||| dmaCbTxfrLenXlength x =
      BitField.word 32 [⟨16, 14, (y - 1#32).setWidth 14⟩, ⟨0, 16, x.setWidth 16⟩] := by
    simp only [hy.eq_place, (holds_xlength x).eq_place, BitField.word, BitVec.or_zero]
  simpa only [List.forall_mem_cons, List.not_mem_nil, false_imp_iff, implies_true, and_true] using
    BitField.field_word hword (by simp) (by simp [BitField.Disjoint])

theorem field_stride (d s : BitVec 32) :
    field (dmaCbStrideDStride d ||| dmaCbStrideSStride s) 16 16 = d.setWidth 16 ∧
      field (dmaCbStrideDStride d ||| dmaCbStrideSStride s) 0 16 = s.setWidth 16 := by
  have hword : dmaCbStrideDStride d ||| dmaCbStrideSStride s =
      BitField.word 32 [⟨16, 16, d.setWidth 16⟩, ⟨0, 16, s.setWidth 16⟩] := by
    simp only [(holds_dStride d).eq_place, (holds_sStride s).eq_place, BitField.word, BitVec.or_zero]
  simpa only [List.forall_mem_cons, List.not_mem_nil, false_imp_iff, implies_true, and_true] using
    BitField.field_word hword (by simp) (by simp [BitField.Disjoint])

/-- The words decode to their arguments exactly if the `y` length, counted from zero, has the bits 12..14 zero, and
the priorities have their low four bits also at the place of their field. -/
theorem registerWords_iff (y x d s p q : BitVec 32) (disdebug active ended : Bool) :
    RegisterWords y x d s p q disdebug active ended ↔
      field (y - 1#32) 12 3 = 0#3 ∧ field p 16 4 = field p 0 4 ∧ field q 20 4 = field q 0 4 := by
  rw [← holds_ylength_iff, ← holds_priority_iff, ← holds_panicPriority_iff]
  refine ⟨fun h => ⟨h.ylength, h.priority, h.panicPriority⟩, fun ⟨hy, hp, hq⟩ =>
    ⟨hy, holds_xlength x, holds_dStride d, holds_sStride s, hp, hq, fun hy1 hy14 hx16 => ?_, fun hd hs => ?_,
      fun hp4 hq4 => ?_⟩⟩
  · obtain ⟨h1, h2⟩ := field_length (x := x) hy
    rw [h1, h2, BitVec.toNat_setWidth, BitVec.toNat_setWidth, BitVec.toNat_sub, Nat.mod_eq_of_lt hx16]
    exact ⟨by have : (1#32).toNat = 1 := rfl; omega, rfl⟩
  · obtain ⟨h1, h2⟩ := field_stride d s
    rw [h1, h2, toInt_setWidth hd, toInt_setWidth hs]
    exact ⟨rfl, rfl⟩
  · obtain ⟨h1, h2, h3⟩ := field_csWord hp hq disdebug active ended
    rw [h1, h2, BitVec.toNat_setWidth, BitVec.toNat_setWidth, Nat.mod_eq_of_lt hp4, Nat.mod_eq_of_lt hq4]
    exact ⟨rfl, rfl, h3⟩

/-- A priority that `SendBuffers` asks for. -/
theorem not_registerWords_priority : ¬RegisterWords 1#32 16#32 0#32 0#32 7#32 0#32 true true true := by
  intro h
  exact absurd h.priority.field (by decide)

end Spixels
