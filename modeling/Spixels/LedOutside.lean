import Spixels.LedOverflow

/-!
# Positions outside of a strip

`SetPixel` ignores a position that is not one of the strip's pixels; `SetLinearValues` does not look at it.  Such a
call fails the assertion of the backend, or it sets bytes in front of or behind the pixels.  These are the start
frame, the trailer and the bytes that the strip shares with longer ones, so the stream is left as it was if and
only if the bytes set are the ones that are there: `keepsStream_iff`.  That never happens on an LPD6803 or
LPD8806, whose pixels have a bit set that no other byte has, and on the others for few values: `Harmless`.
-/

namespace Spixels

open Frame (Format)
open Run (run)

namespace StripType

/-- The public call `SetLinearValues`, made on the streams of a `MultiSPI` with any position. -/
def setLinearValuesAt (type : StripType) (gpio pos : Int) (v : Rgb16) (σ : Streams) : Except Fault Streams :=
  if type.FitsInt pos then run Streams.call σ (type.setLinearValues gpio pos v) else .error .intRange

/-- The call is accepted and leaves every byte of the pin as it was; a byte that has never been set is zero. -/
def KeepsStream (type : StripType) (gpio pos : Int) (v : Rgb16) (σ : Streams) : Prop :=
  ∃ σ', type.setLinearValuesAt gpio pos v σ = .ok σ' ∧
    ∀ p, (σ'.byte gpio p).getD 0#8 = (σ.byte gpio p).getD 0#8

/-- When a call for a position outside of a strip of `count` pixels does nothing, with streams of `size` bytes. -/
def Harmless (count size : Nat) (pos : Int) (v : Rgb16) : StripType → Prop
  -- zeros are written over zeros
  | ws2801 =>
    (sizeT (3 * pos + 0) < size ∧ sizeT (3 * pos + 1) < size ∧ sizeT (3 * pos + 2) < size) ∧
      v.r.toNat < 2 ^ 8 ∧ v.g.toNat < 2 ^ 8 ∧ v.b.toNat < 2 ^ 8
  | lpd6803 => False
  | lpd8806 => False
  -- the first byte falls on the end frame, the others on the end frame or on the zeros behind it
  | apa102 =>
    let tail := (count + 15) / 16
    let off := 4 * (pos - count)
    let expected (j : Int) := if off + j < tail then 255 else 0
    (count ≤ pos ∧ off < tail ∧ 4 * pos + 7 < size) ∧ 2 ^ 11 ≤ max v.r.toNat (max v.g.toNat v.b.toNat) ∧
      v.b.toNat / 2 ^ 8 = expected 1 ∧ v.g.toNat / 2 ^ 8 = expected 2 ∧ v.r.toNat / 2 ^ 8 = expected 3

instance (count size : Nat) (pos : Int) (v : Rgb16) :
    ∀ type : StripType, Decidable (type.Harmless count size pos v)
  | ws2801 => inferInstanceAs (Decidable ((_ ∧ _ ∧ _) ∧ _ ∧ _ ∧ _))
  | lpd6803 => inferInstanceAs (Decidable False)
  | lpd8806 => inferInstanceAs (Decidable False)
  | apa102 => inferInstanceAs (Decidable ((_ ∧ _ ∧ _) ∧ _ ∧ _ ∧ _ ∧ _))

end StripType

/-! ### Bytes that are set one after the other -/

/-- Setting bytes at pairwise different positions changes nothing exactly if they are there already. -/
theorem keeps_sets_iff {σ : Streams} {g : Int} {ws : List (Nat × BitVec 8)}
    (hd : ws.Pairwise fun w w' => w.1 ≠ w'.1) :
    (∃ σ', run Streams.call σ (ws.map fun w => .setBufferedByte g w.1 w.2) = .ok σ' ∧
        ∀ p, (σ'.byte g p).getD 0#8 = (σ.byte g p).getD 0#8) ↔
      ∀ w ∈ ws, w.1 < σ.size ∧ (σ.byte g w.1).getD 0#8 = w.2 := by
  rw [run_sets]
  constructor
  · rintro ⟨σ', hrun, hkeep⟩ w hw
    split at hrun
    · rename_i hsize
      cases hrun
      refine ⟨hsize w hw, ?_⟩
      rw [← hkeep, byte_setAll_of_mem hd hw]; rfl
    · cases hrun
  · intro h
    refine ⟨_, if_pos fun w hw => (h w hw).1, fun p => ?_⟩
    by_cases hp : ∀ w ∈ ws, p ≠ w.1
    · rw [byte_setAll_of_notMem hp]
    · push Not at hp
      obtain ⟨w, hw, rfl⟩ := hp
      rw [byte_setAll_of_mem hd hw, (h w hw).2]; rfl

/-! ### Bytes outside of the pixels -/

/-- The byte in front of or behind the pixels. -/
def StripType.outer (type : StripType) (count p : Nat) : BitVec 8 :=
  if p < type.format.header.length then type.format.header.getD p 0#8
  else (type.format.trailer count).getD (p - type.format.start count) 0#8

/-- The position is not one of a byte of a pixel. -/
def StripType.Outside (type : StripType) (count p : Nat) : Prop :=
  p < type.format.header.length ∨ type.format.start count ≤ p

theorem byteAt_outside {type : StripType} {count p : Nat} (hp : type.Outside count p)
    (group : Nat → List (BitVec 8)) : type.format.byteAt count 0#8 group p = type.outer count p := by
  unfold Frame.Format.byteAt StripType.outer
  split
  · rfl
  · rename_i hh
    rw [if_neg (by rcases hp with hp | hp <;> omega)]

/-- No byte is set in front of or behind the pixels. -/
theorem outer_eq_zero {type : StripType} (htype : type ≠ .apa102) (count p : Nat) : type.outer count p = 0#8 := by
  have hzeros : ∀ n i : Nat, (List.replicate n 0#8).getD i 0#8 = 0#8 := by
    intro n i
    rw [List.getD_eq_getElem?_getD, List.getElem?_getD_replicate_default_eq]
  unfold StripType.outer
  cases type with
  | apa102 => exact absurd rfl htype
  | ws2801 => simp [StripType.format]
  | lpd6803 | lpd8806 => simp only [StripType.format, hzeros, List.getD_nil, ite_self]

/-- But for the end frame of an APA102. -/
theorem outer_apa102 (count : Nat) {p : Nat} (hp : 4 + 4 * count ≤ p) :
    StripType.apa102.outer count p = if p - (4 + 4 * count) < (count + 15) / 16 then 0xFF#8 else 0#8 := by
  unfold StripType.outer
  simp only [StripType.format, Frame.Format.start, List.length_replicate]
  rw [if_neg (by omega), List.getD_eq_getElem?_getD, List.getElem?_replicate]
  split <;> rfl

/-- The byte position that goes with a value of `int` outside of the pixels. -/
theorem outside_sizeT {type : StripType} {count : Nat} {x : Int} (hcount : count < 2 ^ 31) (hx : InInt x)
    (h : x < type.format.header.length ∨ type.format.start count ≤ x) : type.Outside count (sizeT x) := by
  have hstart : type.format.start count ≤ 4 + 4 * count := by
    cases type <;> simp only [StripType.format, Format.start, List.length_nil, List.length_replicate] <;> omega
  unfold InInt at hx
  unfold StripType.Outside sizeT
  rcases Int.lt_or_le x 0 with hneg | hneg
  · right; omega
  · have hmod : x % 2 ^ 64 = x := Int.emod_eq_of_lt hneg (by omega)
    rw [hmod]; omega

/-- The bytes in front of and behind the pixels are there. -/
def Intact (type : StripType) (gpio : Int) (count : Nat) (σ : Streams) : Prop :=
  ∀ p, type.Outside count p → (σ.byte gpio p).getD 0#8 = type.outer count p

/-! ### The bytes of the call -/

namespace StripType

/-- The `int` from which the position of byte `j` of a pixel is computed. -/
def intPos (type : StripType) (pos : Int) (j : Nat) : Int := type.format.header.length + type.format.size * pos + j

/-- The bytes that a call sets, with their positions. -/
def writes (type : StripType) (pos : Int) (v : Rgb16) : List (Nat × BitVec 8) :=
  (type.group v).mapIdx fun j b => (sizeT (type.intPos pos j), b)

end StripType

theorem setLinearValues_eq_map (type : StripType) (gpio pos : Int) (v : Rgb16) :
    type.setLinearValues gpio pos v = (type.writes pos v).map fun w => .setBufferedByte gpio w.1 w.2 := by
  cases type <;>
    simp [StripType.setLinearValues, StripType.writes, StripType.group, StripType.intPos, StripType.format,
      Call.data?, WS2801LedStrip.setLinearValues, LPD6803LedStrip.setLinearValues, LPD8806LedStrip.setLinearValues,
      APA102LedStrip.setLinearValues, Int.add_comm, Int.add_left_comm]

section Writes

variable {type : StripType} {gpio pos : Int} {count : Nat} {v : Rgb16} {σ : Streams}

theorem pairwise_writes (type : StripType) (pos : Int) (v : Rgb16) :
    (type.writes pos v).Pairwise fun w w' => w.1 ≠ w'.1 := by
  rw [List.pairwise_iff_getElem]
  intro i j hi hj hij
  have hlen : (type.writes pos v).length ≤ 4 := by
    rw [StripType.writes, List.length_mapIdx, length_group]
    cases type <;> decide
  simp only [StripType.writes, List.getElem_mapIdx, StripType.intPos, sizeT]
  omega

theorem inInt_intPos (hfit : type.FitsInt pos) {j : Nat} (hj : j < type.format.size) :
    InInt (type.intPos pos j) := by
  refine hfit _ ?_
  cases type <;> simp only [StripType.format] at hj <;>
    simp only [StripType.intPos, StripType.intTerms, StripType.format, List.length_nil, List.length_replicate,
      List.mem_cons, List.not_mem_nil, or_false] <;>
    omega

theorem outside_intPos (hcount : count < 2 ^ 31) (hpos : pos < 0 ∨ (count : Int) ≤ pos) (hfit : type.FitsInt pos)
    {j : Nat} (hj : j < type.format.size) : type.Outside count (sizeT (type.intPos pos j)) := by
  refine outside_sizeT hcount (inInt_intPos hfit hj) ?_
  cases type <;> simp only [StripType.format] at hj <;>
    simp only [StripType.intPos, StripType.format, Format.start, List.length_nil, List.length_replicate] <;> omega

/-- On a stream with all its framing bytes, the call is harmless if it sets just these. -/
theorem keepsStream_iff_writes (hcount : count < 2 ^ 31) (hi : Intact type gpio count σ)
    (hpos : pos < 0 ∨ (count : Int) ≤ pos) (hfit : type.FitsInt pos) :
    type.KeepsStream gpio pos v σ ↔ ∀ w ∈ type.writes pos v, w.1 < σ.size ∧ type.outer count w.1 = w.2 := by
  rw [StripType.KeepsStream, StripType.setLinearValuesAt, if_pos hfit, setLinearValues_eq_map,
    keeps_sets_iff (pairwise_writes type pos v)]
  refine forall₂_congr fun w hw => ?_
  obtain ⟨j, hj, rfl⟩ := List.mem_mapIdx.1 hw
  rw [length_group] at hj
  rw [hi _ (outside_intPos hcount hpos hfit hj)]

end Writes

/-! ### The four chips -/

section Chips

variable {pos : Int} {count size : Nat} {v : Rgb16}

private theorem top_eq_zero (x : BitVec 16) : (x >>> 8).setWidth 8 = 0#8 ↔ x.toNat < 2 ^ 8 := by
  have hx := x.isLt
  rw [← BitVec.toNat_inj, BitVec.toNat_setWidth, BitVec.toNat_ushiftRight, Nat.shiftRight_eq_div_pow]
  change x.toNat / 2 ^ 8 % 2 ^ 8 = 0 ↔ _
  omega

theorem harmless_ws2801 :
    (∀ w ∈ StripType.ws2801.writes pos v, w.1 < size ∧ StripType.ws2801.outer count w.1 = w.2) ↔
      StripType.ws2801.Harmless count size pos v := by
  have hwrites : StripType.ws2801.writes pos v = [(sizeT (3 * pos + 0), (v.r >>> 8).setWidth 8),
      (sizeT (3 * pos + 1), (v.g >>> 8).setWidth 8), (sizeT (3 * pos + 2), (v.b >>> 8).setWidth 8)] := by
    simp [StripType.writes, StripType.group, StripType.intPos, StripType.format, Call.data?,
      StripType.setLinearValues, WS2801LedStrip.setLinearValues]
  simp only [hwrites, outer_eq_zero (by decide : StripType.ws2801 ≠ .apa102), List.forall_mem_cons,
    List.not_mem_nil, false_imp_iff, implies_true, and_true, eq_comm (a := 0#8), top_eq_zero, StripType.Harmless]
  tauto

/-- The first byte of a pixel has its top bit set, but for a WS2801. -/
theorem getLsbD_group {type : StripType} (htype : type ≠ .ws2801) (v : Rgb16) :
    ((type.group v).getD 0 0#8).getLsbD 7 = true := by
  cases type with
  | ws2801 => exact absurd rfl htype
  | lpd6803 =>
    simp [StripType.group, StripType.setLinearValues, LPD6803LedStrip.setLinearValues, Call.data?]
  | lpd8806 =>
    simp [StripType.group, StripType.setLinearValues, LPD8806LedStrip.setLinearValues, Call.data?]
  | apa102 =>
    simp [StripType.group, StripType.setLinearValues, APA102LedStrip.setLinearValues, Call.data?, scale_eq,
      globalByte]

/-- It does not fit into a place that is zero. -/
theorem not_writes_of_zero {type : StripType} (htype : type ≠ .ws2801)
    (hzero : type.outer count (sizeT (type.intPos pos 0)) = 0#8) :
    ¬∀ w ∈ type.writes pos v, w.1 < size ∧ type.outer count w.1 = w.2 := by
  intro h
  have hlen : 0 < (type.group v).length := by rw [length_group]; cases type <;> decide
  have hw : type.outer count (sizeT (type.intPos pos 0)) = (type.group v)[0] :=
    (h (sizeT (type.intPos pos 0), (type.group v)[0]) (List.mem_mapIdx.2 ⟨0, hlen, rfl⟩)).2
  have htop := getLsbD_group htype v
  rw [List.getD_eq_getElem?_getD, List.getElem?_eq_getElem hlen, Option.getD_some, ← hw, hzero] at htop
  cases htop

/-- In front of the pixels, and where a negative position ends up, all bytes are zero. -/
private theorem outer_apa102_neg (hcount : count < 2 ^ 31) (hfit : StripType.apa102.FitsInt pos) (hpos : pos < 0) :
    StripType.apa102.outer count (sizeT (StripType.apa102.intPos pos 0)) = 0#8 := by
  have hint := inInt_intPos hfit (j := 0) (by decide)
  have hx : StripType.apa102.intPos pos 0 = 4 + 4 * pos := by simp [StripType.intPos, StripType.format]
  rw [hx] at hint ⊢
  unfold InInt at hint
  rcases Int.lt_or_le (4 + 4 * pos) 0 with hneg | hneg
  · have hbig : 2 ^ 63 ≤ sizeT (4 + 4 * pos) := by unfold sizeT; omega
    rw [outer_apa102 count (by omega), if_neg (by omega)]
  · have hzero : 4 + 4 * pos = 0 := by omega
    rw [hzero]; rfl

private theorem globalByte_eq (c : Prop) [Decidable c] {k : Nat} (hk : k < 5) :
    (if c then 0xFF#8 else 0#8) = globalByte k ↔ c ∧ k = 4 := by
  have htop : ∀ k < 5, (0xFF#8 = globalByte k ↔ k = 4) ∧ 0#8 ≠ globalByte k := by decide
  obtain ⟨h1, h2⟩ := htop k hk
  split <;> simp [*]

private theorem channel_eq (c : Prop) [Decidable c] (x : BitVec 16) :
    (if c then 0xFF#8 else 0#8) = (x >>> 4 >>> 4).setWidth 8 ↔ x.toNat / 2 ^ 8 = if c then 255 else 0 := by
  have hx := x.isLt
  rw [← BitVec.toNat_inj, setWidth_shift x (by omega), eq_comm]
  split <;> rfl

/-- The bytes of a pixel behind the last one. -/
private theorem writes_apa102 {d : Nat} (hint : InInt (4 + 4 * (count + d) + 3)) :
    StripType.apa102.writes (count + d) v =
      [(4 + 4 * count + (4 * d + 0), globalByte (leastGlobal v)),
        (4 + 4 * count + (4 * d + 1), (v.b >>> 4 >>> leastGlobal v).setWidth 8),
        (4 + 4 * count + (4 * d + 2), (v.g >>> 4 >>> leastGlobal v).setWidth 8),
        (4 + 4 * count + (4 * d + 3), (v.r >>> 4 >>> leastGlobal v).setWidth 8)] := by
  unfold InInt at hint
  have hp : ∀ j < 4, sizeT (StripType.apa102.intPos (count + d) j) = 4 + 4 * count + (4 * d + j) := by
    intro j hj
    refine sizeT_eq ?_ (by omega)
    simp [StripType.intPos, StripType.format]; omega
  simp [StripType.writes, StripType.group, Call.data?, StripType.setLinearValues,
    APA102LedStrip.setLinearValues, scale_eq, hp]

theorem harmless_apa102 (hcount : count < 2 ^ 31) (hpos : pos < 0 ∨ (count : Int) ≤ pos)
    (hfit : StripType.apa102.FitsInt pos) :
    (∀ w ∈ StripType.apa102.writes pos v, w.1 < size ∧ StripType.apa102.outer count w.1 = w.2) ↔
      StripType.apa102.Harmless count size pos v := by
  rcases Int.lt_or_le pos 0 with hneg | hnonneg
  · refine iff_of_false (not_writes_of_zero (by decide) (outer_apa102_neg hcount hfit hneg)) fun h => ?_
    have := h.1.1
    omega
  · obtain ⟨d, rfl⟩ : ∃ d : Nat, pos = count + d := ⟨(pos - count).toNat, by omega⟩
    have hint : InInt (4 + 4 * (count + d) + 3) := hfit _ (by simp [StripType.intTerms])
    have hwrites := writes_apa102 (v := v) hint
    have houter : ∀ j, StripType.apa102.outer count (4 + 4 * count + (4 * d + j)) =
        if 4 * d + j < (count + 15) / 16 then 0xFF#8 else 0#8 := by
      intro j
      rw [outer_apa102 count (by omega), Nat.add_sub_cancel_left]
    simp only [hwrites, houter, List.forall_mem_cons, List.not_mem_nil, false_imp_iff, implies_true, and_true,
      globalByte_eq _ (leastGlobal_lt v), StripType.Harmless, ← leastGlobal_eq_four]
    by_cases hk : leastGlobal v = 4
    · have hlt : ∀ j : Nat, 4 * ((count : Int) + d - count) + j < ((count + 15) / 16 : Nat) ↔
          4 * d + j < (count + 15) / 16 := by intro j; omega
      have h0 := hlt 0
      have h1 := hlt 1
      have h2 := hlt 2
      have h3 := hlt 3
      simp only [Nat.cast_zero, Nat.cast_one, Nat.cast_ofNat, Int.add_zero, Nat.add_zero] at h0 h1 h2 h3
      simp only [hk, channel_eq, h0, h1, h2, h3, and_true]
      constructor
      · rintro ⟨⟨-, htail⟩, ⟨-, hb⟩, ⟨-, hg⟩, hsize, hr⟩
        exact ⟨⟨by omega, by omega, by omega⟩, trivial, hb, hg, hr⟩
      · rintro ⟨⟨-, htail, hsize⟩, -, hb, hg, hr⟩
        exact ⟨⟨by omega, by omega⟩, ⟨by omega, hb⟩, ⟨by omega, hg⟩, by omega, hr⟩
    · simp only [hk, and_false, false_and]

/-- White on the end frame of a long strip. -/
example : StripType.apa102.Harmless 64 264 64 ⟨0xFFFF#16, 0xFFFF#16, 0xFFFF#16⟩ := by decide

theorem harmless_iff {type : StripType} (hcount : count < 2 ^ 31) (hpos : pos < 0 ∨ (count : Int) ≤ pos)
    (hfit : type.FitsInt pos) :
    (∀ w ∈ type.writes pos v, w.1 < size ∧ type.outer count w.1 = w.2) ↔ type.Harmless count size pos v := by
  cases type with
  | ws2801 => exact harmless_ws2801
  | lpd6803 =>
    exact iff_of_false (not_writes_of_zero (by decide) (outer_eq_zero (by decide) ..)) id
  | lpd8806 =>
    exact iff_of_false (not_writes_of_zero (by decide) (outer_eq_zero (by decide) ..)) id
  | apa102 => exact harmless_apa102 hcount hpos hfit

end Chips

/-! ### The public call -/

section Public

variable {type : StripType} {lum : Luminance} {gpio pos : Int} {count : Nat} {v : Rgb16}

/-- On a stream with all its framing bytes, exactly the harmless calls leave the stream as it was. -/
theorem keepsStream_iff {σ : Streams} (hcount : count < 2 ^ 31) (hi : Intact type gpio count σ)
    (hpos : pos < 0 ∨ (count : Int) ≤ pos) :
    type.KeepsStream gpio pos v σ ↔ type.FitsInt pos ∧ type.Harmless count σ.size pos v := by
  by_cases hfit : type.FitsInt pos
  · rw [keepsStream_iff_writes hcount hi hpos hfit, harmless_iff hcount hpos hfit, and_iff_right hfit]
  · refine iff_of_false (fun ⟨σ', hcall, _⟩ => ?_) fun h => hfit h.1
    rw [StripType.setLinearValuesAt, if_neg hfit] at hcall
    cases hcall

/-- The calls of a strip leave all framing bytes in place, whatever the other strips do. -/
theorem intact_of_session (hlum : ∀ b, lum 0#8 b = 0#16) (hcount : count < 2 ^ 31) {h : List StripCall}
    (hh : ∀ pos v, StripCall.setLinearValues pos v ∈ h → 0 ≤ pos ∧ pos < count) {calls : List Call}
    (hcalls : callsFor gpio calls = (type.session lum gpio count h).calls) :
    Intact type gpio count (streams calls) := by
  intro p hp
  rw [← byte_callsFor, hcalls]
  exact (stored_session hlum hcount hh p).trans (byteAt_outside hp _)

/-- At any time in the life of a strip, on a `MultiSPI` that it shares with others: a call of `SetLinearValues` for
a position outside of the strip is accepted and leaves the stream as it was if and only if it sets just the bytes
that are there. -/
theorem keepsStream_session_iff (hlum : ∀ b, lum 0#8 b = 0#16) (hcount : count < 2 ^ 31) {h : List StripCall}
    (hh : ∀ pos v, StripCall.setLinearValues pos v ∈ h → 0 ≤ pos ∧ pos < count) {calls : List Call}
    (hcalls : callsFor gpio calls = (type.session lum gpio count h).calls) (hpos : pos < 0 ∨ (count : Int) ≤ pos) :
    type.KeepsStream gpio pos v (streams calls) ↔
      type.FitsInt pos ∧ type.Harmless count (streams calls).size pos v :=
  keepsStream_iff hcount (intact_of_session hlum hcount hh hcalls) hpos

/-- Black behind a strip of one WS2801 pixel that shares its clock with a longer stream. -/
theorem keepsStream_session_ws2801 :
    StripType.ws2801.KeepsStream 18 1 ⟨255#16, 0#16, 0#16⟩
      (streams ((StripType.ws2801.session (fun _ _ => 0#16) 18 1 []).calls ++ [.registerDataGpio 23 9])) :=
  have hcalls : callsFor 18
      ((StripType.ws2801.session (fun _ _ => 0#16) 18 1 []).calls ++ [.registerDataGpio 23 9]) =
      (StripType.ws2801.session (fun _ _ => 0#16) 18 1 []).calls := by decide
  (keepsStream_session_iff (fun _ => rfl) (by decide) (by simp) hcalls (by decide)).2 ⟨by decide, by decide⟩

/-- The pixel in front of the first one of an APA102 lies on its start frame. -/
theorem not_keepsStream_apa102 :
    ¬StripType.apa102.KeepsStream 18 (-1) Rgb16.zero
      (streams (StripType.apa102.session (fun _ _ => 0#16) 18 1 []).calls) := by
  rintro ⟨σ', hcall, hkeep⟩
  cases hcall
  exact absurd (hkeep 0) (by decide)

end Public

end Spixels
