import Spixels.LedChip

/-!
# Frames under the calls of a strip

A strip owns one stream of bytes, which holds a frame of its chip (`Framed`): `SetLinearValues` rewrites the
group of one pixel (`framed_setLinearValues`), and the byte that the stream has at a position, `stored`, is the
last one set.
-/

namespace Spixels

open Frame (Format)

/-- The byte of the pin at that position, zero if it has never been set. -/
def stored (gpio : Int) (h : List Call) (p : Nat) : BitVec 8 := ((streams h).byte gpio p).getD 0#8

/-- What has been passed to `SetLinearValues` for pixel `i` last. -/
def latest? (ls : List Linear) (i : Nat) : Option Rgb16 :=
  (ls.reverse.find? fun l => decide (l.pos = (i : Int))).map Linear.value

/-- The same, zero if there has been no call for the pixel. -/
def latest (ls : List Linear) (i : Nat) : Rgb16 := (latest? ls i).getD Rgb16.zero

/-- One call for each of `n` pixels, in order. -/
def forPixels (n : Nat) (f : Nat → Rgb16) : List Linear :=
  (List.range n).map fun k : Nat => { pos := k, value := f k }

theorem forPixels_succ (n : Nat) (f : Nat → Rgb16) :
    forPixels (n + 1) f = forPixels n f ++ [{ pos := n, value := f n }] := by
  simp [forPixels, List.range_succ]

/-- All calls are for pixels of the strip. -/
def OnStrip (count : Nat) (ls : List Linear) : Prop := ∀ l ∈ ls, 0 ≤ l.pos ∧ l.pos < count

/-- All calls set bytes of the pin below position `n`. -/
def Within (gpio : Int) (n : Nat) (calls : List Call) : Prop :=
  ∀ c ∈ calls, ∃ p b, c = .setBufferedByte gpio p b ∧ p < n

/-! ### Pixels -/

theorem latest?_append (ls ls' : List Linear) (i : Nat) :
    latest? (ls ++ ls') i = (latest? ls' i).or (latest? ls i) := by
  simp only [latest?, List.reverse_append, List.find?_append]
  cases ls'.reverse.find? fun l => decide (l.pos = (i : Int)) <;> rfl

theorem latest?_snoc (ls : List Linear) (l : Linear) (i : Nat) :
    latest? (ls ++ [l]) i = if l.pos = i then some l.value else latest? ls i := by
  rw [latest?_append]
  by_cases h : l.pos = i <;> simp [latest?, h]

theorem latest?_forPixels (f : Nat → Rgb16) (n i : Nat) :
    latest? (forPixels n f) i = if i < n then some (f i) else none := by
  induction n with
  | zero => rfl
  | succ n ih =>
    rw [forPixels_succ, latest?_snoc, ih]
    by_cases h : n = i
    · subst h; simp
    · have hint : ¬((n : Int) = i) := by omega
      have hiff : i < n + 1 ↔ i < n := by omega
      simp only [hint, hiff, ↓reduceIte]

theorem OnStrip.append {count : Nat} {ls ls' : List Linear} (h : OnStrip count ls) (h' : OnStrip count ls') :
    OnStrip count (ls ++ ls') :=
  fun l hl => (List.mem_append.1 hl).elim (h l) (h' l)

theorem onStrip_forPixels (count : Nat) (f : Nat → Rgb16) : OnStrip count (forPixels count f) := by
  intro l hl
  obtain ⟨k, hk, rfl⟩ := List.mem_map.1 hl
  have := List.mem_range.1 hk
  exact ⟨by simp, by simpa using this⟩

/-! ### Bytes -/

theorem Within.append {gpio : Int} {n : Nat} {cs cs' : List Call} (h : Within gpio n cs) (h' : Within gpio n cs') :
    Within gpio n (cs ++ cs') :=
  fun c hc => (List.mem_append.1 hc).elim (h c) (h' c)

theorem within_setBytes (gpio : Int) {n a : Nat} {bs : List (BitVec 8)} (h : a + bs.length ≤ n) :
    Within gpio n (setBytes gpio a bs) := by
  intro c hc
  obtain ⟨i, hi, rfl⟩ := List.mem_mapIdx.1 hc
  exact ⟨_, _, rfl, by omega⟩

theorem stored_setBytes (gpio : Int) (h : List Call) (a : Nat) (bs : List (BitVec 8)) (p : Nat) :
    stored gpio (h ++ setBytes gpio a bs) p =
      if a ≤ p ∧ p < a + bs.length then bs.getD (p - a) 0#8 else stored gpio h p := by
  induction bs using List.reverseRecOn with
  | nil => simp [setBytes]
  | append_singleton bs b ih =>
    rw [setBytes, List.mapIdx_concat, ← List.append_assoc, stored, streams_snoc, Streams.step, Streams.byte_set]
    change (if gpio = gpio ∧ p = a + bs.length then some b
      else (streams (h ++ setBytes gpio a bs)).byte gpio p).getD 0#8 = _
    rw [List.length_append, List.length_singleton]
    by_cases hp : p = a + bs.length
    · rw [if_pos ⟨rfl, hp⟩, if_pos (by omega), List.getD_eq_getElem?_getD, show p - a = bs.length by omega]
      simp
    · rw [if_neg (by simp [hp])]
      refine ih.trans ?_
      by_cases hin : a ≤ p ∧ p < a + bs.length
      · rw [if_pos hin, if_pos (by omega), List.getD_append _ _ _ _ (by omega)]
      · rw [if_neg hin, if_neg (by omega)]

/-- Zeros change nothing. -/
theorem stored_of_zero {gpio : Int} {h : List Call} (hz : ∀ g p b, Call.setBufferedByte g p b ∈ h → b = 0#8)
    (p : Nat) :
    stored gpio h p = 0#8 := by
  unfold stored
  cases hb : (streams h).byte gpio p with
  | none => rfl
  | some b => exact hz _ _ _ (mem_of_byte_streams hb)

/-! ### Frames -/

/-- The stream holds the frame of the pixels `ls` and the trailer; pixels without a value are blank. -/
def Framed (type : StripType) (trailer : Nat → List (BitVec 8)) (gpio : Int) (count : Nat) (calls : List Call)
    (ls : List Linear) : Prop :=
  ∀ p, stored gpio calls p = (type.format.withTrailer trailer).byteAt count 0#8
    (fun i => ((latest? ls i).map type.group).getD []) p

section Framed

variable {type : StripType} {trailer : Nat → List (BitVec 8)} {gpio : Int} {count : Nat} {calls : List Call}
  {ls : List Linear}

/-- A stream of zeros. -/
theorem framed_blank (gpio : Int) (trailer : Nat → List (BitVec 8))
    (hheader : ∀ b ∈ type.format.header, b = 0#8) (htrailer : ∀ b ∈ trailer count, b = 0#8)
    (hz : ∀ g p b, Call.setBufferedByte g p b ∈ calls → b = 0#8) :
    Framed type trailer gpio count calls [] := fun p =>
  (stored_of_zero hz p).trans (Frame.byteAt_pad (F := type.format.withTrailer trailer) hheader
    (fun i _ b hb => (by cases hb)) htrailer p).symm

theorem framed_setLinearValues (hcount : count < 2 ^ 31) (hf : Framed type trailer gpio count calls ls)
    {l : Linear} (h0 : 0 ≤ l.pos) (hl : l.pos < count) :
    Framed type trailer gpio count (calls ++ type.setLinearValues gpio l.pos l.value) (ls ++ [l]) := by
  obtain ⟨i, hi⟩ : ∃ i : Nat, l.pos = i := ⟨l.pos.toNat, by omega⟩
  have hic : i < count := by omega
  have hgroup : ((latest? (ls ++ [l]) i).map type.group).getD [] = type.group l.value := by
    rw [latest?_snoc, if_pos hi]; rfl
  have hother : ∀ k < count, k ≠ i →
      ((latest? (ls ++ [l]) k).map type.group).getD [] = ((latest? ls k).map type.group).getD [] :=
    fun k _ hk => by rw [latest?_snoc, if_neg (by omega)]
  intro p
  have hupdate := Frame.byteAt_update (F := type.format.withTrailer trailer) 0#8 hic hother p
  rw [hupdate, hgroup, hi, setLinearValues_eq type gpio (by omega), stored_setBytes, length_group, hf p]
  rfl

theorem framed_flatMap (hcount : count < 2 ^ 31) (hf : Framed type trailer gpio count calls ls) {ls' : List Linear}
    (hs : OnStrip count ls') :
    Framed type trailer gpio count (calls ++ ls'.flatMap fun l => type.setLinearValues gpio l.pos l.value)
      (ls ++ ls') := by
  induction ls' using List.reverseRecOn with
  | nil => simpa using hf
  | append_singleton ls' l ih =>
    obtain ⟨h0, hl⟩ := hs l (by simp)
    have := framed_setLinearValues hcount (ih fun l hl => hs l (by simp [hl])) h0 hl
    rw [List.flatMap_append, List.flatMap_singleton, ← List.append_assoc, ← List.append_assoc]
    exact this

/-- Writing the trailer behind a frame without one. -/
theorem framed_trailer (hf : Framed type (fun _ => []) gpio count calls ls) :
    Framed type type.format.trailer gpio count
      (calls ++ setBytes gpio (type.format.start count) (type.format.trailer count)) ls := by
  intro p
  have hset := Frame.byteAt_setTrailer (F := type.format.withTrailer type.format.trailer) count 0#8
    (fun k => ((latest? ls k).map type.group).getD []) p
  rw [hset, stored_setBytes, hf p]
  rfl

theorem within_flatMap (hcount : count < 2 ^ 31) (hs : OnStrip count ls) :
    Within gpio (type.format.length count) (ls.flatMap fun l => type.setLinearValues gpio l.pos l.value) := by
  intro c hc
  obtain ⟨l, hl, hc⟩ := List.mem_flatMap.1 hc
  obtain ⟨h0, hlt⟩ := hs l hl
  obtain ⟨i, hi⟩ : ∃ i : Nat, l.pos = i := ⟨l.pos.toNat, by omega⟩
  rw [hi, setLinearValues_eq type gpio (by omega)] at hc
  refine within_setBytes gpio ?_ c hc
  have hstart : type.format.start i + type.format.size ≤ type.format.start count := by
    have : type.format.size * i + type.format.size ≤ type.format.size * count := by
      rw [← Nat.mul_succ]; exact Nat.mul_le_mul_left _ (by omega)
    unfold Format.start; omega
  rw [length_group]
  exact hstart.trans (Nat.le_add_right ..)

end Framed

end Spixels
