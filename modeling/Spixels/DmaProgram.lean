import Spixels.DmaSend
import Spixels.DmaWave
import Spixels.LedProgram

/-!
# Programs on the DMA backend

The DMA backend leaves a pin alone where no byte has been set for it, so what the chips read there is the last bit
before it: `received`.  All strips set the bytes of their frames when they are created, but for the LPD6803, which
does not set its trailer, and the WS2801, which sets the bytes of an LED when the LED is set first.

So a send shows every strip what it displays, whatever the pins were before, and an unset LED of a WS2801 strip the
last bit of the LED in front of it: `plays_program`.
-/

namespace Spixels

open Frame (Format)
open Waveform (samples received spread tailLevel)
open Run (run map_eq_ok)

/-! ### Bytes that have been set -/

theorem latest?_ne_none {ls : List Linear} {i : Nat} : latest? ls i ≠ none ↔ ∃ l ∈ ls, l.pos = i := by
  rw [latest?, ne_eq, Option.map_eq_none_iff, List.find?_eq_none]
  simp

theorem mem_setBytes (gpio : Int) (a : Nat) (bs : List (BitVec 8)) (p : Nat) :
    (∃ b, Call.setBufferedByte gpio p b ∈ setBytes gpio a bs) ↔ a ≤ p ∧ p < a + bs.length := by
  constructor
  · rintro ⟨b, hb⟩
    obtain ⟨j, hj, he⟩ := List.mem_mapIdx.1 hb
    cases he
    omega
  · rintro ⟨ha, hp⟩
    exact ⟨bs[p - a], List.mem_mapIdx.2 ⟨p - a, by omega, by rw [Nat.add_sub_cancel' ha]⟩⟩

section Session

variable {lum : Luminance} {gpio : Int} {count : Nat} {type : StripType} {h : List StripCall} {ls : List Linear}

theorem mem_flatMap_setLinearValues (type : StripType) (gpio : Int) (hcount : count < 2 ^ 31)
    (hs : OnStrip count ls) (p : Nat) :
    (∃ b, Call.setBufferedByte gpio p b ∈ ls.flatMap fun l => type.setLinearValues gpio l.pos l.value) ↔
      ∃ i < count, latest? ls i ≠ none ∧ type.format.start i ≤ p ∧ p < type.format.start i + type.format.size := by
  constructor
  · rintro ⟨b, hb⟩
    obtain ⟨l, hl, hb⟩ := List.mem_flatMap.1 hb
    obtain ⟨h0, hlt⟩ := hs l hl
    obtain ⟨i, hi⟩ : ∃ i : Nat, l.pos = i := ⟨l.pos.toNat, by omega⟩
    rw [hi, setLinearValues_eq type gpio (by omega)] at hb
    have hp := (mem_setBytes gpio _ _ p).1 ⟨b, hb⟩
    rw [length_group] at hp
    exact ⟨i, by omega, latest?_ne_none.2 ⟨l, hl, hi⟩, hp⟩
  · rintro ⟨i, hi, hne, hp⟩
    obtain ⟨l, hl, hpos⟩ := latest?_ne_none.1 hne
    rw [← length_group type l.value] at hp
    obtain ⟨b, hb⟩ := (mem_setBytes gpio _ _ p).2 hp
    refine ⟨b, List.mem_flatMap.2 ⟨l, hl, ?_⟩⟩
    rw [hpos, setLinearValues_eq type gpio (by omega)]
    exact hb

/-- A strip sets the bytes that its constructor clears, those of the LEDs that have a value, and those that its
constructor sets behind them. -/
theorem byte_session_ne_none (type : StripType) (gpio : Int) (hlum : ∀ b, lum 0#8 b = 0#16)
    (hcount : count < 2 ^ 31) (hh : ∀ pos v, StripCall.setLinearValues pos v ∈ h → 0 ≤ pos ∧ pos < count) (p : Nat) :
    (streams (type.session lum gpio count h).calls).byte gpio p ≠ none ↔
      p < type.zeros count ∨
      (∃ i < count, latest? (type.session lum gpio count h).linears i ≠ none ∧
        type.format.start i ≤ p ∧ p < type.format.start i + type.format.size) ∨
      type.format.start count ≤ p ∧ p < type.format.start count + (type.tail count).length := by
  have hcalls : (type.session lum gpio count h).calls = (type.create lum gpio count).calls ++
      (Run.trace (LEDStrip.call lum) (type.create lum gpio count).strip h).2.flatMap fun l =>
        type.setLinearValues gpio l.pos l.value := rfl
  have hs := onStrip_trace lum (type.create lum gpio count).strip hh
  have hs₀ : OnStrip count (type.create lum gpio count).linears := onStrip_create hlum type gpio
  have hlinears : _ ↔ ∃ i < count, latest? (type.session lum gpio count h).linears i ≠ none ∧ _ :=
    mem_flatMap_setLinearValues type gpio hcount (hs₀.append hs) p
  have hzeros := mem_setBytes gpio 0 (List.replicate (type.zeros count) 0#8) p
  have htail := mem_setBytes gpio (type.format.start count) (type.tail count) p
  rw [List.length_replicate] at hzeros
  rw [byte_streams_ne_none, hcalls, create_calls hcount, ← hlinears, ← htail, List.flatMap_append]
  simp only [List.mem_append, List.mem_cons, reduceCtorEq, false_or, exists_or]
  rw [hzeros]
  constructor
  · rintro (((⟨-, hz⟩ | hf) | ht) | hf)
    · exact .inl (by omega)
    · exact .inr (.inl (.inl hf))
    · exact .inr (.inr ht)
    · exact .inr (.inl (.inr hf))
  · rintro (hz | (hf | hf) | ht)
    · exact .inl (.inl (.inl ⟨by omega, by omega⟩))
    · exact .inl (.inl (.inr hf))
    · exact .inr hf
    · exact .inl (.inr ht)

/-- All constructors but one give every LED a value. -/
theorem latest?_session_ne_none (hlum : ∀ b, lum 0#8 b = 0#16) (htype : type ≠ .ws2801) (gpio : Int)
    (h : List StripCall) {i : Nat} (hi : i < count) :
    latest? (type.session lum gpio count h).linears i ≠ none := by
  have hlinears : (type.session lum gpio count h).linears = (type.create lum gpio count).linears ++
      (Run.trace (LEDStrip.call lum) (type.create lum gpio count).strip h).2 := rfl
  rw [hlinears, latest?_append, ne_eq, Option.or_eq_none_iff, create_linears hlum, if_neg htype,
    latest?_forPixels, if_pos hi]
  simp

end Session

namespace StripType

/-- The part of a frame that the strip sets itself. -/
def sent (type : StripType) : Format (BitVec 8) :=
  if type = lpd6803 then type.format.withTrailer fun _ => [] else type.format

theorem length_sent_le (type : StripType) (count : Nat) : type.sent.length count ≤ type.format.length count := by
  cases type <;> simp [sent, format, Format.length, Format.withTrailer, Format.start]

theorem size_sent (type : StripType) : type.sent.size = type.format.size := by
  cases type <;> rfl

theorem byteAt_sent (type : StripType) {count p : Nat} (hp : p < type.sent.length count)
    (group : Nat → List (BitVec 8)) :
    type.sent.byteAt count 0#8 group p = type.format.byteAt count 0#8 group p := by
  unfold sent at *
  split
  · rename_i htype
    rw [if_pos htype] at hp
    by_cases hheader : p < type.format.header.length
    · rw [Frame.byteAt_header hheader]
      exact Frame.byteAt_header (F := type.format.withTrailer _) hheader
    · obtain ⟨hi, hpos, hj⟩ : (p - type.format.header.length) / type.format.size < count ∧ _ :=
        Frame.group_index_lt hheader hp
      rw [hpos, Frame.byteAt_group 0#8 group hi hj]
      exact Frame.byteAt_group (F := type.format.withTrailer _) 0#8 group hi hj
  · rfl

end StripType

/-- A value with all bits the same. -/
def Rgb16.whole (v : Bool) : Rgb16 := if v then ⟨0xFFFF#16, 0xFFFF#16, 0xFFFF#16⟩ else Rgb16.zero

/-- The value that an LED shows: the one it has been given, or the last bit of the LEDs in front of it, where the
pin starts with the given level. -/
def shownValue (value : Nat → Option Rgb16) (level : Bool) (i : Nat) : Rgb16 :=
  (value i).getD (Rgb16.whole (tailLevel (fun k => (value k).map fun v : Rgb16 => (v.b >>> 8).setWidth 8) level i))

theorem group_whole (v : Bool) {j : Nat} (hj : j < 3) :
    (StripType.ws2801.group (Rgb16.whole v)).getD j 0#8 = spread v := by
  have hgroup : ∀ v, StripType.ws2801.group (Rgb16.whole v) = List.replicate 3 (spread v) := by decide
  rw [hgroup, List.getD_eq_getElem?_getD, List.getElem?_replicate, if_pos hj]
  rfl

section Received

variable {lum : Luminance} {gpio : Int} {count : Nat} {type : StripType} {h : List StripCall} {level : Bool}

/-- All strips but one set all bytes of their part of the frame. -/
theorem byte_session_of_sent (gpio : Int) (hlum : ∀ b, lum 0#8 b = 0#16) (hcount : count < 2 ^ 31)
    (hh : ∀ pos v, StripCall.setLinearValues pos v ∈ h → 0 ≤ pos ∧ pos < count) (htype : type ≠ .ws2801) {p : Nat}
    (hp : p < type.sent.length count) : (streams (type.session lum gpio count h).calls).byte gpio p ≠ none := by
  rw [byte_session_ne_none type gpio hlum hcount hh]
  by_cases hheader : p < type.format.header.length
  · left
    cases type <;> simp only [StripType.format, StripType.zeros, List.length_nil, List.length_replicate] at * <;>
      omega
  · by_cases hstart : p < type.format.start count
    · obtain ⟨hi, hpos, hj⟩ := Frame.group_index_lt hheader hstart
      exact .inr (.inl ⟨_, hi, latest?_session_ne_none hlum htype gpio h hi, by omega, by omega⟩)
    · cases type with
      | ws2801 => exact absurd rfl htype
      | lpd6803 => exact absurd hp hstart
      | lpd8806 => exact .inl hp
      | apa102 => exact .inr (.inr ⟨by omega, hp⟩)

/-- The bytes of the LEDs in front of LED `i` of a WS2801 strip leave the pin at the last bit of their blue. -/
theorem tailLevel_ws2801 {byte : Nat → Option (BitVec 8)} {value : Nat → Option Rgb16} (level : Bool)
    (hunset : ∀ i < count, value i = none → ∀ j < 3, byte (3 * i + j) = none)
    (hset : ∀ i < count, ∀ v, value i = some v → byte (3 * i + 2) = some ((v.b >>> 8).setWidth 8)) :
    ∀ {i : Nat}, i ≤ count → tailLevel byte level (3 * i) =
      tailLevel (fun k => (value k).map fun v : Rgb16 => (v.b >>> 8).setWidth 8) level i
  | 0, _ => rfl
  | i + 1, hi => by
    have ih := tailLevel_ws2801 level hunset hset (show i ≤ count by omega)
    rw [tailLevel]
    cases hv : value i with
    | some v => rw [show 3 * (i + 1) = 3 * i + 2 + 1 by omega, tailLevel, hset i hi v hv, Option.map_some]
    | none =>
      rw [Nat.mul_succ, Waveform.tailLevel_add (hunset i hi hv), ih]
      rfl

theorem shownValue_of_ne_none {ls : List Linear} {i : Nat} (hi : latest? ls i ≠ none) (level : Bool) :
    shownValue (latest? ls) level i = latest ls i := by
  obtain ⟨v, hv⟩ := Option.ne_none_iff_exists'.1 hi
  rw [shownValue, latest, hv]
  rfl

/-- The bytes of a WS2801 strip are those of its LEDs that have a value. -/
theorem byte_session_ws2801 (gpio : Int) (hlum : ∀ b, lum 0#8 b = 0#16) (hcount : count < 2 ^ 31)
    (hh : ∀ pos v, StripCall.setLinearValues pos v ∈ h → 0 ≤ pos ∧ pos < count) {i j : Nat} (hi : i < count)
    (hj : j < 3) :
    (streams (StripType.ws2801.session lum gpio count h).calls).byte gpio (3 * i + j) =
      (latest? (StripType.ws2801.session lum gpio count h).linears i).map fun v =>
        (StripType.ws2801.group v).getD j 0#8 := by
  have hset := byte_session_ne_none .ws2801 gpio hlum hcount hh (3 * i + j)
  have hpos : StripType.ws2801.format.start i = 3 * i := Nat.zero_add _
  cases hv : latest? (StripType.ws2801.session lum gpio count h).linears i with
  | none =>
    by_contra hne
    rcases hset.1 hne with hz | ⟨k, hk, hgiven, hlo, hhi⟩ | ⟨hlo, hhi⟩
    · exact absurd hz (by simp [StripType.zeros])
    · obtain rfl : k = i := by
        simp only [Format.start, StripType.format, List.length_nil] at hlo hhi
        omega
      exact hgiven hv
    · have hstart : StripType.ws2801.format.start count = 3 * count := Nat.zero_add _
      omega
  | some v =>
    obtain ⟨b, hb⟩ := Option.ne_none_iff_exists'.1 (hset.2 (.inr (.inl ⟨i, hi, by rw [hv]; simp, by omega, by
      rw [hpos]; exact Nat.add_lt_add_left hj _⟩)))
    have hstored : stored gpio (StripType.ws2801.session lum gpio count h).calls (3 * i + j) = _ :=
      stored_session hlum hcount hh _
    rw [stored, hb, ← hpos, Frame.byteAt_group _ _ hi hj, latest, hv] at hstored
    rw [hb, Option.map_some]
    exact congrArg some hstored

/-- Behind its part of the frame a strip sets nothing. -/
theorem byte_session_behind (gpio : Int) (hlum : ∀ b, lum 0#8 b = 0#16) (hcount : count < 2 ^ 31)
    (hh : ∀ pos v, StripCall.setLinearValues pos v ∈ h → 0 ≤ pos ∧ pos < count) {p : Nat}
    (hp : type.sent.length count ≤ p) : (streams (type.session lum gpio count h).calls).byte gpio p = none := by
  have hzeros : type.zeros count ≤ type.sent.length count := by
    cases type with
    | lpd8806 => exact le_rfl
    | _ => simp [StripType.zeros, StripType.sent, StripType.format, Format.length, Format.withTrailer, Format.start]
           try omega
  have hstart : type.format.start count ≤ type.sent.length count := by
    cases type <;> exact Nat.le_add_right _ _
  have htail : type.format.start count + (type.tail count).length ≤ type.sent.length count := by
    cases type with
    | lpd6803 => exact le_rfl
    | _ => simp [StripType.tail, StripType.sent, StripType.format, Format.length]
  by_contra hne
  rcases (byte_session_ne_none type gpio hlum hcount hh p).1 hne with hz | ⟨i, hi, -, hlo, hhi⟩ | ⟨-, hhi⟩
  · omega
  · have hsucc : type.format.start i + type.format.size ≤ type.format.start count := by
      have : type.format.size * i + type.format.size ≤ type.format.size * count := by
        rw [← Nat.mul_succ]; exact Nat.mul_le_mul_left _ (by omega)
      unfold Format.start; omega
    omega
  · omega

/-- What the chips make of the bytes of a strip. -/
theorem received_session (hlum : ∀ b, lum 0#8 b = 0#16) (hcount : count < 2 ^ 31)
    (hh : ∀ pos v, StripCall.setLinearValues pos v ∈ h → 0 ≤ pos ∧ pos < count) (level : Bool) {p : Nat}
    (hp : p < type.sent.length count) :
    received ((streams (type.session lum gpio count h).calls).byte gpio) level p = type.sent.byteAt count 0#8
      (fun i => type.group (shownValue (latest? (type.session lum gpio count h).linears) level i)) p := by
  rw [StripType.byteAt_sent type hp]
  by_cases htype : type = .ws2801
  · subst htype
    have hbyte := fun i hi j hj => byte_session_ws2801 gpio hlum hcount hh (i := i) (j := j) hi hj
    obtain ⟨hi, hpos, hj⟩ := Frame.group_index_lt (F := StripType.ws2801.format) (Nat.not_lt_zero p) hp
    generalize (p - StripType.ws2801.format.header.length) / StripType.ws2801.format.size = i at *
    generalize (p - StripType.ws2801.format.header.length) % StripType.ws2801.format.size = j at *
    have hstart : StripType.ws2801.format.start i = 3 * i := Nat.zero_add _
    have hj3 : j < 3 := hj
    rw [hpos, Frame.byteAt_group _ _ hi hj, hstart, received, hbyte i hi j hj, shownValue]
    cases hv : latest? (StripType.ws2801.session lum gpio count h).linears i with
    | some v => rfl
    | none =>
      have hunset : ∀ k < count, latest? (StripType.ws2801.session lum gpio count h).linears k = none →
          ∀ j < 3, (streams (StripType.ws2801.session lum gpio count h).calls).byte gpio (3 * k + j) = none :=
        fun k hk hnone j hj => by rw [hbyte k hk j hj, hnone]; rfl
      have hlevel := tailLevel_ws2801 level hunset
        (fun k hk v hsome => by rw [hbyte k hk 2 (by omega), hsome]; rfl) hi.le
      rw [Waveform.tailLevel_add fun k hk => hunset i hi hv k (by omega), hlevel]
      exact (group_whole _ hj3).symm
  · obtain ⟨b, hb⟩ := Option.ne_none_iff_exists'.1 (byte_session_of_sent gpio hlum hcount hh htype hp)
    have hstored : stored gpio (type.session lum gpio count h).calls p = _ := stored_session hlum hcount hh p
    rw [stored, hb] at hstored
    rw [received, hb]
    refine hstored.trans (Frame.byteAt_congr (fun i hi j _ => ?_) p)
    rw [shownValue_of_ne_none (latest?_session_ne_none hlum htype gpio h hi)]

end Received

/-- What the chips of the strip show, where the pin starts with the given level. -/
def Connected.shown (lum : Luminance) (c : Connected) (level : Bool) : List Pixel :=
  (List.range c.count).map fun i => c.type.reduce (shownValue (latest? (c.session lum).linears) level i)

/-- The LEDs of the strip have all been given a value. -/
def Connected.Given (lum : Luminance) (c : Connected) : Prop :=
  c.type = .ws2801 → ∀ i < c.count, latest? (c.session lum).linears i ≠ none

theorem shown_eq_pixels {lum : Luminance} (hlum : ∀ b, lum 0#8 b = 0#16) {c : Connected} (hgiven : c.Given lum)
    (level : Bool) : c.shown lum level = c.pixels lum := by
  rw [pixels_eq hlum, Connected.shown]
  refine List.map_congr_left fun i hi => congrArg c.type.reduce (shownValue_of_ne_none ?_ level)
  by_cases htype : c.type = .ws2801
  · exact hgiven htype i (List.mem_range.1 hi)
  · exact latest?_session_ne_none hlum htype c.gpio c.history (List.mem_range.1 hi)

/-- What the chips of the strip read: their part of a frame, and then the last bit of it.  The pixels are those that
the strip displays, but for LEDs that have never been given a value. -/
def Connected.Sees (lum : Luminance) (c : Connected) (level : Bool) (bytes : List (BitVec 8)) : Prop :=
  ∃ frame rest, bytes = frame ++ rest ∧ c.type.sent.parse c.type.decode c.count frame = some (c.shown lum level) ∧
    (c.Given lum → c.shown lum level = c.pixels lum) ∧
      ∀ b ∈ rest, b = spread ((frame.getLast?.map fun b => b.getLsbD 0).getD level)

/-! ### Sends of the backend -/

namespace DMAMultiSPI

/-- No registration comes after a send. -/
def RegistersFirst (h : List Call) : Prop :=
  Run.Each (fun pre c => c.OnRegister fun _ _ => Call.sendBuffers ∉ pre) h

instance (h : List Call) : Decidable (RegistersFirst h) :=
  inferInstanceAs (Decidable (Run.Each (fun pre c => c.OnRegister fun _ _ => Call.sendBuffers ∉ pre) h))

section Sends

variable {clk : Int} {garbage : Nat} {env : Env} {h pre : List Call} {s t : DMAMultiSPI}

/-- After the first send the length stays. -/
theorem size_streams_sent (hfirst : RegistersFirst h) (hsend : Call.sendBuffers ∈ pre) (hpre : pre <+: h) :
    (streams h).size = (streams pre).size := by
  obtain ⟨post, rfl⟩ := hpre
  induction post using List.reverseRecOn with
  | nil => rw [List.append_nil]
  | append_singleton post c ih =>
    rw [← List.append_assoc] at hfirst ⊢
    obtain ⟨hinit, hlast⟩ := Run.each_snoc.1 hfirst
    rw [streams_snoc, ← ih hinit]
    cases c with
    | registerDataGpio g n => exact absurd (List.mem_append_left _ hsend) hlast
    | setBufferedByte | sendBuffers => rfl

/-- Calls that register first, fit and set bytes in range are all accepted, sends included. -/
theorem run_ok {port : Nat → BitVec 32} {startGarbage : Nat} (env : Env) (hc : IsPin clk)
    (hs : create port clk garbage startGarbage = .ok s) (hp : PinsOnly h) (hin : InRange h)
    (hfirst : RegistersFirst h) (hpos : 0 < (streams h).size) (hsize : allocSize (streams h).size < 2 ^ 31)
    {blk : UncachedMemBlock} (hblk : uncachedMemBlockAlloc env.mbox (allocSize (streams h).size) = .ok blk) :
    ∃ t, run (step env) s h = .ok t ∧ Represents clk garbage h t := by
  refine Run.run_total _ (create_spec hs) fun pre m c hpre hr => ?_
  have hmem : c ∈ h := hpre.subset (by simp)
  cases c with
  | registerDataGpio g n =>
    have hn := le_size_streams hmem
    obtain ⟨t, ht, hrep⟩ := registerDataGpio_spec env hc hr (hfirst pre _ hpre) g (n := n)
      (by unfold allocSize gpioOps at *; omega)
    exact ⟨t, map_eq_ok.2 ⟨_, map_eq_ok.2 ⟨_, ht, rfl⟩, rfl⟩, hrep⟩
  | setBufferedByte g p b =>
    obtain ⟨t, ht, hrep⟩ := setBufferedByte_spec hr (hp g p b hmem) (hin pre _ hpre) b
    exact ⟨t, map_eq_ok.2 ⟨_, map_eq_ok.2 ⟨_, ht, rfl⟩, rfl⟩, hrep⟩
  | sendBuffers =>
    have hsame := size_streams_sent hfirst (by simp) hpre
    rw [streams_snoc, Streams.step] at hsame
    rw [hsame] at hpos hsize hblk
    obtain ⟨t, tr, ht⟩ := sendBuffers_ok env hr hpos hsize hblk
    exact ⟨t, map_eq_ok.2 ⟨_, map_eq_ok.2 ⟨_, ht, rfl⟩, rfl⟩, (sendBuffers_spec hr ht).1⟩

/-- What a receiver makes of a send. -/
theorem bytes_send (hc : IsPin clk) (hr : Represents clk garbage h s) (hk : ClockFree clk h)
    (hpos : 0 < (streams h).size) {tr : Transfer} (ht : s.sendBuffers env = .ok (t, tr)) {g : Int} (hg : IsPin g)
    (hne : g ≠ clk) (pins : BitVec 32) :
    Waveform.bytes (samples clk.toNat g.toNat pins (writes tr.entries)) =
      (List.range (streams h).size).map (received ((streams h).byte g) (pins.getLsbD g.toNat)) := by
  have hne' : g.toNat ≠ clk.toNat := fun he => hne (by rw [← hg.natCast_toNat, he, hc.natCast_toNat])
  rw [(sendBuffers_spec hr ht).2, if_neg (by omega), samples_render hc hk.byte_eq_none _ hg.toNat_lt hne',
    Waveform.bytes_held, hg.natCast_toNat]

end Sends

/-! ### Programs -/

/-- All strips are created before the first send. -/
def ConnectsFirst (ops : List Op) : Prop := Run.Each (fun pre op => op.creates = true → Op.sendBuffers ∉ pre) ops

instance (ops : List Op) : Decidable (ConnectsFirst ops) :=
  inferInstanceAs (Decidable (Run.Each (fun pre op => op.creates = true → Op.sendBuffers ∉ pre) ops))

section Programs

variable {clk : Int} {lum : Luminance} {ops : List Op}

theorem mem_sendBuffers_programCalls (hlum : ∀ b, lum 0#8 b = 0#16) (hp : Proper clk (connected ops)) :
    Call.sendBuffers ∈ programCalls lum ops ↔ Op.sendBuffers ∈ ops := by
  induction ops using List.reverseRecOn with
  | nil => simp [programCalls, Run.trace]
  | append_singleton ops op ih =>
    obtain ⟨sets, hsets, hcalls⟩ := programCalls_snoc hlum hp
    have hno : Call.sendBuffers ∉ sets := fun hm => by
      obtain ⟨g, p, b, he⟩ := hsets _ hm
      cases he
    rw [hcalls, List.mem_append, List.mem_append, ih hp.of_snoc, List.mem_append]
    cases op <;> simp [Op.control, hno]

theorem registersFirst_programCalls (hlum : ∀ b, lum 0#8 b = 0#16) (hp : Proper clk (connected ops))
    (hfirst : ConnectsFirst ops) : RegistersFirst (programCalls lum ops) := by
  induction ops using List.reverseRecOn with
  | nil => exact (by decide : RegistersFirst [])
  | append_singleton ops op ih =>
    obtain ⟨sets, hsets, hcalls⟩ := programCalls_snoc hlum hp
    obtain ⟨hinit, hlast⟩ := Run.each_snoc.1 hfirst
    have hreg := ih hp.of_snoc hinit
    rw [hcalls]
    refine Run.Each.append ?_ fun c hc pre => ?_
    · cases op with
      | createStrip type g n =>
        refine Run.each_snoc.2 ⟨hreg, ?_⟩
        exact mt (mem_sendBuffers_programCalls hlum hp.of_snoc).1 (hlast rfl)
      | onStrip i k => rw [Op.control, List.append_nil]; exact hreg
      | sendBuffers => exact Run.each_snoc.2 ⟨hreg, trivial⟩
    · obtain ⟨g, p, b, rfl⟩ := hsets c hc
      trivial

/-- Whatever the pins were, the chips of each strip see their own strip. -/
theorem sees_of_send {garbage : Nat} {env : Env} {m t : DMAMultiSPI} {tr : Transfer} (hc : IsPin clk)
    (hlum : ∀ b, lum 0#8 b = 0#16) (hp : Proper clk (connected ops)) (hpos : 0 < longest (connected ops))
    (hr : Represents clk garbage (programCalls lum ops) m) (ht : m.sendBuffers env = .ok (t, tr)) {c : Connected}
    (hmem : c ∈ connected ops) (pins : BitVec 32) :
    c.Sees lum (pins.getLsbD c.gpio.toNat)
      (Waveform.bytes (samples clk.toNat c.gpio.toNat pins (writes tr.entries))) := by
  rw [← size_programCalls hlum hp] at hpos
  obtain ⟨hpin, hne⟩ := hp.pin c hmem
  have hcount : c.count < 2 ^ 31 := lt_of_le_of_lt (count_le_length c) (hp.short c hmem)
  have hbyte := funext (byte_programCalls hlum hp hmem)
  have hle : c.type.sent.length c.count ≤ (streams (programCalls lum ops)).size :=
    (c.type.length_sent_le c.count).trans (le_size_streams (registered_programCalls hlum hp hmem))
  obtain ⟨k, hksize⟩ := Nat.exists_eq_add_of_le hle
  have hbytes := bytes_send hc hr (clockFree_programCalls hlum hp) hpos ht hpin hne pins
  rw [hbyte, hksize, List.range_add, List.map_append, List.map_map] at hbytes
  refine ⟨_, _, hbytes, ?_, fun hgiven => shown_eq_pixels hlum hgiven _, fun b hb => ?_⟩
  · exact Frame.parse_byteAt (fun i _ => (length_group c.type _).trans c.type.size_sent.symm)
      (fun i _ => decode_group c.type _) fun p hlt => received_session hlum hcount (hp.inside c hmem) _ hlt
  · obtain ⟨j, -, rfl⟩ := List.mem_map.1 hb
    exact Waveform.received_behind (fun p => byte_session_behind c.gpio hlum hcount (hp.inside c hmem)) _
      (Nat.le_add_right _ j)

end Programs

/-- The calls of a program that creates its strips before it sends are all accepted. -/
theorem run_program {clk : Int} (hc : IsPin clk) {port : Nat → BitVec 32} {garbage startGarbage : Nat} (env : Env)
    {s : DMAMultiSPI} (hs : create port clk garbage startGarbage = .ok s) {lum : Luminance}
    (hlum : ∀ b, lum 0#8 b = 0#16) {ops : List Op} (hp : Proper clk (connected ops)) (hfirst : ConnectsFirst ops)
    (hpos : 0 < longest (connected ops)) (hsize : allocSize (longest (connected ops)) < 2 ^ 31)
    {blk : UncachedMemBlock}
    (hblk : uncachedMemBlockAlloc env.mbox (allocSize (longest (connected ops))) = .ok blk) :
    ∃ m, run (step env) s (programCalls lum ops) = .ok m ∧ Represents clk garbage (programCalls lum ops) m := by
  rw [← size_programCalls hlum hp] at hpos hsize hblk
  exact run_ok env hc hs (pinsOnly_programCalls hlum hp) (programInv hlum hp).inRange
    (registersFirst_programCalls hlum hp hfirst) hpos hsize hblk

/-- From every program that creates its strips before it sends, a send at its end shows all strips. -/
theorem plays_program {clk : Int} (hc : IsPin clk) {port : Nat → BitVec 32} {garbage startGarbage : Nat} (env : Env)
    {s : DMAMultiSPI} (hs : create port clk garbage startGarbage = .ok s) {lum : Luminance}
    (hlum : ∀ b, lum 0#8 b = 0#16) {ops : List Op} (hp : Proper clk (connected ops)) (hfirst : ConnectsFirst ops)
    (hpos : 0 < longest (connected ops)) (hsize : allocSize (longest (connected ops)) < 2 ^ 31)
    {blk : UncachedMemBlock}
    (hblk : uncachedMemBlockAlloc env.mbox (allocSize (longest (connected ops))) = .ok blk) :
    ∃ m t tr, run (step env) s (programCalls lum ops) = .ok m ∧ m.sendBuffers env = .ok (t, tr) ∧
      ∀ c ∈ connected ops, Gpio.accepts c.gpio = true → ∀ pins, c.Sees lum (pins.getLsbD c.gpio.toNat)
        (Waveform.bytes (samples clk.toNat c.gpio.toNat pins (writes tr.entries))) := by
  have hlen := size_programCalls hlum hp
  obtain ⟨m, hm, hr⟩ := run_program hc env hs hlum hp hfirst hpos hsize hblk
  obtain ⟨t, tr, ht⟩ := sendBuffers_ok env hr (by rw [hlen]; exact hpos) (by rw [hlen]; exact hsize)
    (by rw [hlen]; exact hblk)
  exact ⟨m, t, tr, hm, ht, fun c hmem _ pins => sees_of_send hc hlum hp hpos hr ht hmem pins⟩

/-- A WS2801 strip whose second LED is not set, and a longer LPD6803 strip. -/
theorem plays_program_two_strips :
    let lum : Luminance := fun value brightness => value.setWidth 16 * brightness.setWidth 16
    let ops : List Op := [.createStrip .ws2801 18 3, .createStrip .lpd6803 23 2,
      .onStrip 0 (.setPixel 0 ⟨0#8, 0#8, 255#8⟩), .onStrip 1 (.setBrightness 128#8), .sendBuffers,
      .onStrip 0 (.setLinearValues 2 ⟨0x1234#16, 0#16, 0#16⟩)]
    ∃ s m t tr, create (fun _ => 0#32) 27 0 0 = .ok s ∧
      run (step (Env.replying 0xC0001000#32)) s (programCalls lum ops) = .ok m ∧
      m.sendBuffers (Env.replying 0xC0001000#32) = .ok (t, tr) ∧
      ∀ c ∈ connected ops, Gpio.accepts c.gpio = true → ∀ pins, c.Sees lum (pins.getLsbD c.gpio.toNat)
        (Waveform.bytes (samples 27 c.gpio.toNat pins (writes tr.entries))) := by
  intro lum ops
  have hlum : ∀ b, lum 0#8 b = 0#16 := fun b => by simp [lum]
  have hproper : Proper 27 (connected ops) := by
    refine ⟨by decide, by decide, by decide, ?_⟩
    simp [ops, connected, connectStep, Connected.call]
  obtain ⟨s, hs⟩ := create_ok (fun _ => 0#32) 0 0 (show Gpio.accepts 27 = true by decide)
  obtain ⟨m, t, tr, hm, ht, hsees⟩ := plays_program (by decide) (Env.replying 0xC0001000#32) hs hlum hproper
    (by decide) (by decide) (by decide) (uncachedMemBlockAlloc_const (by decide) (by decide))
  exact ⟨s, m, t, tr, hs, hm, ht, hsees⟩

end DMAMultiSPI

end Spixels
