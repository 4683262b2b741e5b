import Mathlib.Data.List.GetD
import Spixels.LedFrame

/-!
# Strips keep their frames

After the constructor the stream of a strip holds a frame of its chip, all pixels dark (`framed_create`), and
every call keeps it: only the groups of the pixels it concerns are rewritten.  So the bytes are, at all times,
the frame of the values passed to `SetLinearValues` last (`stored_session`), and the chip parses them to just
these values, reduced to its depth: `session_parses`.
-/

namespace Spixels

/-! ### Pixels and brightness -/

section Pixels

variable {lum : Luminance} {count : Nat}

theorem setPixel_of_lt (s : LEDStrip count) {i : Nat} (hi : i < count) (c : RGBc) :
    s.setPixel lum i c = ({ values := s.values.set i c hi, brightness := s.brightness },
      [{ pos := i, value := LEDStrip.linear lum c s.brightness }]) := by
  unfold LEDStrip.setPixel
  rw [dif_neg (by omega)]
  rfl

theorem setPixel_of_not (s : LEDStrip count) {pos : Int} (hpos : ¬(0 ≤ pos ∧ pos < count)) (c : RGBc) :
    s.setPixel lum pos c = (s, []) :=
  dif_pos (by omega)

/-- Setting every pixel to the color it has. -/
theorem repaint (lum : Luminance) (s : LEDStrip count) (color : LEDStrip count → Nat → RGBc)
    (hcolor : ∀ i (hi : i < count), color s i = s.values[i]) :
    Run.trace (fun t (i : Nat) => t.setPixel lum i (color t i)) s (List.range count) =
      (s, forPixels count fun i => LEDStrip.linear lum (color s i) s.brightness) := by
  have h := Run.trace_range (f := fun t (i : Nat) => t.setPixel lum i (color t i)) (s := s) (n := count)
    (fun i t out => t = s ∧ out = forPixels i fun k => LEDStrip.linear lum (color s k) s.brightness)
    ⟨rfl, rfl⟩ (by
      rintro i t out hi ⟨rfl, rfl⟩
      have hset : t.values.set i (color t i) hi = t.values := by rw [hcolor i hi, Vector.set_getElem_self]
      rw [setPixel_of_lt t hi, hset, forPixels_succ]
      exact ⟨rfl, rfl⟩)
  exact Prod.ext h.1 h.2

theorem setBrightness_of_ne (s : LEDStrip count) {b : BitVec 8} (hb : b ≠ s.brightness) :
    s.setBrightness lum b = ({ values := s.values, brightness := b },
      forPixels count fun i => LEDStrip.linear lum (s.values[i]?.getD RGBc.black) b) := by
  rw [LEDStrip.setBrightness, if_neg hb]
  exact repaint lum { values := s.values, brightness := b } (fun t i => t.values[i]?.getD RGBc.black)
    fun i hi => by simp [hi]

/-- The calls that a strip makes are for its own pixels, if those made from outside are. -/
theorem onStrip_call (s : LEDStrip count) {c : StripCall}
    (hc : ∀ pos v, c = .setLinearValues pos v → 0 ≤ pos ∧ pos < count) : OnStrip count (s.call lum c).2 := by
  cases c with
  | setPixel pos c =>
    by_cases hpos : 0 ≤ pos ∧ pos < count
    · obtain ⟨i, rfl⟩ : ∃ i : Nat, pos = i := ⟨pos.toNat, by omega⟩
      rw [LEDStrip.call, setPixel_of_lt s (by omega)]
      exact fun l hl => List.mem_singleton.1 hl ▸ hpos
    · rw [LEDStrip.call, setPixel_of_not s hpos]
      exact fun l hl => (by cases hl)
  | setBrightness b =>
    by_cases hb : b = s.brightness
    · rw [LEDStrip.call, LEDStrip.setBrightness, if_pos hb]
      exact fun l hl => (by cases hl)
    · rw [LEDStrip.call, setBrightness_of_ne s hb]
      exact onStrip_forPixels count _
  | setLinearValues pos v => exact fun l hl => List.mem_singleton.1 hl ▸ hc pos v rfl

theorem onStrip_trace (lum : Luminance) (s : LEDStrip count) {h : List StripCall}
    (hh : ∀ pos v, StripCall.setLinearValues pos v ∈ h → 0 ≤ pos ∧ pos < count) :
    OnStrip count (Run.trace (LEDStrip.call lum) s h).2 :=
  Run.trace_induct (f := LEDStrip.call lum) (fun _ _ out => OnStrip count out) (fun l hl => (by cases hl))
    fun pre t out c hpre hout => hout.append (onStrip_call t fun pos v he =>
      hh pos v (hpre.subset (by simp [he])))

end Pixels

/-! ### Constructors -/

/-- The number of bytes that the constructor sets to zero before it paints the pixels. -/
def StripType.zeros (type : StripType) (count : Nat) : Nat :=
  match type with
  | ws2801 => 0
  | lpd6803 => 4
  | lpd8806 => type.format.length count
  | apa102 => 4

/-- The bytes that the constructor sets behind the pixels. -/
def StripType.tail (type : StripType) (count : Nat) : List (BitVec 8) :=
  if type = apa102 then type.format.trailer count else []

@[simp] theorem setBytes_nil (gpio : Int) (a : Nat) : setBytes gpio a [] = [] := rfl

/-- A run of equal bytes. -/
theorem setBytes_replicate (gpio : Int) (a n : Nat) (b : BitVec 8) :
    setBytes gpio a (List.replicate n b) = (List.range' a n).map fun i => .setBufferedByte gpio i b := by
  apply List.ext_getElem <;> simp [setBytes]

section Create

variable {lum : Luminance} {count : Nat}

theorem setBlack_create (hlum : ∀ b, lum 0#8 b = 0#16) :
    setBlack lum (LEDStrip.create count) = (LEDStrip.create count, forPixels count fun _ => Rgb16.zero) := by
  have h := repaint lum (LEDStrip.create count) (fun _ _ => RGBc.ofHex 0x000000#32)
    fun i hi => by simp [LEDStrip.create]; rfl
  have hzero : ∀ b, LEDStrip.linear lum (RGBc.ofHex 0x000000#32) b = Rgb16.zero := by
    intro b
    change Rgb16.mk (lum 0#8 b) (lum 0#8 b) (lum 0#8 b) = _
    rw [hlum]; rfl
  rw [setBlack, h]
  simp only [hzero]

theorem create_strip (hlum : ∀ b, lum 0#8 b = 0#16) (type : StripType) (gpio : Int) :
    (type.create lum gpio count).strip = LEDStrip.create count := by
  cases type <;>
    simp only [StripType.create, WS2801LedStrip.create, LPD6803LedStrip.create, LPD8806LedStrip.create,
      APA102LedStrip.create, setBlack_create hlum]

/-- All constructors but one paint the pixels. -/
theorem create_linears (hlum : ∀ b, lum 0#8 b = 0#16) (type : StripType) (gpio : Int) :
    (type.create lum gpio count).linears = if type = .ws2801 then [] else forPixels count fun _ => Rgb16.zero := by
  cases type <;>
    simp [StripType.create, WS2801LedStrip.create, LPD6803LedStrip.create, LPD8806LedStrip.create,
      APA102LedStrip.create, setBlack_create hlum]

theorem onStrip_create (hlum : ∀ b, lum 0#8 b = 0#16) (type : StripType) (gpio : Int) :
    OnStrip count (type.create lum gpio count).linears := by
  rw [create_linears hlum]
  split
  · exact fun l hl => (by cases hl)
  · exact onStrip_forPixels count _

/-- Every constructor registers a frame, sets zeros, paints the pixels and sets what comes behind them. -/
theorem create_calls (hcount : count < 2 ^ 31) (type : StripType) (gpio : Int) :
    (type.create lum gpio count).calls = .registerDataGpio gpio (type.format.length count) ::
      (setBytes gpio 0 (List.replicate (type.zeros count) 0#8) ++
        ((type.create lum gpio count).linears.flatMap fun l => type.setLinearValues gpio l.pos l.value) ++
        setBytes gpio (type.format.start count) (type.tail count)) := by
  cases type with
  | ws2801 =>
    have hlen : sizeT ((count : Int) * 3) = StripType.ws2801.format.length count :=
      sizeT_eq (by simp [Frame.Format.length, Frame.Format.start, StripType.format]; omega)
        (by simp [Frame.Format.length, Frame.Format.start, StripType.format]; omega)
    simp only [StripType.create, WS2801LedStrip.create, hlen]
    rfl
  | lpd6803 =>
    have hlen : sizeT (4 + 2 * (count : Int) + 4) = StripType.lpd6803.format.length count :=
      sizeT_eq (by simp [Frame.Format.length, Frame.Format.start, StripType.format])
        (by simp [Frame.Format.length, Frame.Format.start, StripType.format]; omega)
    simp only [StripType.create, LPD6803LedStrip.create, hlen]
    simp [StripType.zeros, StripType.tail, StripType.setLinearValues]
    rfl
  | lpd8806 =>
    have hlen : sizeT (3 * (count : Int)) + sizeT (((count : Int) + 31) / 32) =
        StripType.lpd8806.format.length count := by
      rw [sizeT_eq (n := 3 * count) (by omega) (by omega), sizeT_eq (n := (count + 31) / 32) (by omega) (by omega)]
      simp [Frame.Format.length, Frame.Format.start, StripType.format]
    simp only [StripType.create, LPD8806LedStrip.create, hlen]
    simp [setBytes_replicate, StripType.zeros, StripType.tail, StripType.setLinearValues, List.range_eq_range']
  | apa102 =>
    have hpixels : sizeT (4 * (count : Int)) = 4 * count := sizeT_eq (by omega) (by omega)
    have hend : sizeT (((count : Int) + 15) / 16) = (count + 15) / 16 := sizeT_eq (by omega) (by omega)
    have hstart : sizeT (4 + 4 * (count : Int)) = 4 + 4 * count := sizeT_eq (by omega) (by omega)
    simp only [StripType.create, APA102LedStrip.create, hpixels, hend, hstart, Nat.add_sub_cancel_left]
    simp [setBytes_replicate, StripType.zeros, StripType.tail, StripType.setLinearValues, StripType.format,
      Frame.Format.length, Frame.Format.start]
    rfl

theorem within_create (hlum : ∀ b, lum 0#8 b = 0#16) (hcount : count < 2 ^ 31) (type : StripType) (gpio : Int) :
    ∃ rest, (type.create lum gpio count).calls = .registerDataGpio gpio (type.format.length count) :: rest ∧
      Within gpio (type.format.length count) rest := by
  refine ⟨_, create_calls hcount type gpio, ?_⟩
  have hzeros : type.zeros count ≤ type.format.length count := by
    cases type with
    | lpd8806 => exact le_rfl
    | _ => simp [StripType.zeros, StripType.format, Frame.Format.length, Frame.Format.start]; try omega
  have htail : (type.tail count).length ≤ (type.format.trailer count).length := by
    unfold StripType.tail
    split <;> simp
  refine ((within_setBytes gpio ?_).append (within_flatMap hcount (onStrip_create hlum type gpio))).append
    (within_setBytes gpio ?_)
  · simpa using hzeros
  · exact Nat.add_le_add_left htail _

/-- The constructor leaves a frame. -/
theorem framed_create (hlum : ∀ b, lum 0#8 b = 0#16) (hcount : count < 2 ^ 31) (type : StripType) (gpio : Int) :
    Framed type type.format.trailer gpio count (type.create lum gpio count).calls
      (type.create lum gpio count).linears := by
  have hheader : ∀ b ∈ type.format.header, b = 0#8 := by
    cases type <;> simp [StripType.format]
  -- The trailer before the constructor has written it.
  have htrailer : ∀ b ∈ (if type = .apa102 then [] else type.format.trailer count), b = 0#8 := by
    cases type <;> simp [StripType.format]
  have hzeros : ∀ g p b, Call.setBufferedByte g p b ∈ .registerDataGpio gpio (type.format.length count) ::
      setBytes gpio 0 (List.replicate (type.zeros count) 0#8) → b = 0#8 := by
    intro g p b hb
    rw [setBytes_replicate] at hb
    obtain ⟨i, -, hi⟩ := List.mem_map.1 ((List.mem_cons.1 hb).resolve_left (by simp))
    cases hi; rfl
  have hpainted := framed_flatMap hcount
    (framed_blank gpio (fun n => if type = .apa102 then [] else type.format.trailer n) hheader htrailer hzeros)
    (onStrip_create hlum type gpio)
  rw [create_calls hcount]
  by_cases htype : type = .apa102
  · simp only [if_pos htype] at hpainted
    rw [StripType.tail, if_pos htype]
    exact framed_trailer hpainted
  · simp only [if_neg htype] at hpainted
    rw [StripType.tail, if_neg htype, setBytes_nil, List.append_nil]
    exact hpainted

end Create

/-! ### Sessions -/

section Session

variable {lum : Luminance} {gpio : Int} {count : Nat} {type : StripType} {h : List StripCall}

theorem framed_session (hlum : ∀ b, lum 0#8 b = 0#16) (hcount : count < 2 ^ 31)
    (hh : ∀ pos v, StripCall.setLinearValues pos v ∈ h → 0 ≤ pos ∧ pos < count) :
    Framed type type.format.trailer gpio count (type.session lum gpio count h).calls
      (type.session lum gpio count h).linears :=
  framed_flatMap hcount (framed_create hlum hcount type gpio) (onStrip_trace lum _ hh)

theorem within_session (type : StripType) (gpio : Int) (hlum : ∀ b, lum 0#8 b = 0#16) (hcount : count < 2 ^ 31)
    (hh : ∀ pos v, StripCall.setLinearValues pos v ∈ h → 0 ≤ pos ∧ pos < count) :
    ∃ rest, (type.session lum gpio count h).calls = .registerDataGpio gpio (type.format.length count) :: rest ∧
      Within gpio (type.format.length count) rest := by
  obtain ⟨rest, hrest, hwithin⟩ := within_create hlum hcount type gpio
  have hs := onStrip_trace lum (type.create lum gpio count).strip hh
  refine ⟨_, ?_, hwithin.append (within_flatMap hcount hs)⟩
  rw [StripType.session, hrest]
  rfl

/-- A pixel without a value reads zero, painted or not. -/
theorem group_latest (hlum : ∀ b, lum 0#8 b = 0#16) (ls : List Linear) {i : Nat} (hi : i < count) (j : Nat) :
    (((latest? ((type.create lum gpio count).linears ++ ls) i).map type.group).getD []).getD j 0#8 =
      (type.group (latest ((type.create lum gpio count).linears ++ ls) i)).getD j 0#8 := by
  unfold latest
  cases hl : latest? ((type.create lum gpio count).linears ++ ls) i with
  | some v => rfl
  | none =>
    have hnone := (Option.or_eq_none_iff.1 ((latest?_append _ _ _).symm.trans hl)).2
    rw [create_linears hlum] at hnone
    by_cases htype : type = .ws2801
    · subst htype
      have hgroup : StripType.ws2801.group Rgb16.zero = List.replicate 3 0#8 := by decide
      have hzero := List.getElem?_getD_replicate_default_eq (d := 0#8) 3 j
      rw [← List.getD_eq_getElem?_getD, ← hgroup] at hzero
      exact hzero.symm
    · rw [if_neg htype, latest?_forPixels, if_pos hi] at hnone
      cases hnone

/-- The bytes of a strip are the frame of the values passed to `SetLinearValues` last. -/
theorem stored_session (hlum : ∀ b, lum 0#8 b = 0#16) (hcount : count < 2 ^ 31)
    (hh : ∀ pos v, StripCall.setLinearValues pos v ∈ h → 0 ≤ pos ∧ pos < count) (p : Nat) :
    stored gpio (type.session lum gpio count h).calls p = type.format.byteAt count 0#8
      (fun i => type.group (latest (type.session lum gpio count h).linears i)) p := by
  rw [framed_session hlum hcount hh p]
  exact Frame.byteAt_congr (fun i hi j _ => group_latest hlum _ hi j) p

/-- A strip never sets a byte outside the stream it has registered, and the bytes of the stream always form a
frame of its chip: one pixel for each LED, showing what has been passed to `SetLinearValues` for it last. -/
theorem session_parses (hlum : ∀ b, lum 0#8 b = 0#16) (hlength : type.format.length count < 2 ^ 31)
    (hh : ∀ pos v, StripCall.setLinearValues pos v ∈ h → 0 ≤ pos ∧ pos < count) :
    ∃ n rest, (type.session lum gpio count h).calls = .registerDataGpio gpio n :: rest ∧ Within gpio n rest ∧
      type.parse count ((List.range n).map (stored gpio (type.session lum gpio count h).calls)) =
        some ((List.range count).map fun i => type.reduce (latest (type.session lum gpio count h).linears i)) := by
  have hcount : count < 2 ^ 31 := by
    refine lt_of_le_of_lt ?_ hlength
    cases type <;> simp [StripType.format, Frame.Format.length, Frame.Format.start] <;> omega
  obtain ⟨rest, hrest, hwithin⟩ := within_session type gpio hlum hcount hh
  refine ⟨_, rest, hrest, hwithin, ?_⟩
  exact Frame.parse_byteAt (fun i _ => length_group type _) (fun i _ => decode_group type _)
    fun p _ => stored_session hlum hcount hh p

end Session

theorem session_parses_apa102 :
    let lum : Luminance := fun value brightness => value.setWidth 16 * brightness.setWidth 16
    let h : List StripCall := [.setPixel 1 ⟨255#8, 16#8, 0#8⟩, .setBrightness 128#8,
      .setLinearValues 0 ⟨0x1234#16, 0#16, 0xFF#16⟩, .setPixel (-1) ⟨1#8, 1#8, 1#8⟩]
    ∃ n rest, (StripType.apa102.session lum 18 2 h).calls = .registerDataGpio 18 n :: rest ∧ Within 18 n rest ∧
      StripType.apa102.parse 2 ((List.range n).map (stored 18 (StripType.apa102.session lum 18 2 h).calls)) =
        some [⟨4, 18, 0, 0⟩, ⟨4, 127, 8, 0⟩] := by
  intro lum h
  have hlast : (List.range 2).map (fun i => StripType.apa102.reduce
      (latest (StripType.apa102.session lum 18 2 h).linears i)) = [⟨4, 18, 0, 0⟩, ⟨4, 127, 8, 0⟩] := by decide
  rw [← hlast]
  refine session_parses (fun b => ?_) (by decide) (fun pos v hmem => ?_)
  · simp [lum]
  · obtain ⟨rfl, -⟩ : pos = 0 ∧ v = ⟨0x1234#16, 0#16, 0xFF#16⟩ := by simpa [h] using hmem
    decide

end Spixels
