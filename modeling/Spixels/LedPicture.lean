import Mathlib.Data.List.FinRange
import Spixels.LedOverflow

/-!
# Strips show pictures

A `Picture` is what a strip is for: a color for each LED, and a brightness.  Calls change it independently of
what the strip has written so far.  The strip keeps its colors, its brightness and the bytes of its stream in
step with the picture (`Shows`), whatever the order of the calls: its bytes are those of a new strip on which
the picture has been written once, `session_eq_encode`.  In `int` arithmetic both come to an end for just the numbers
of LEDs in `CountFits`: `isPainted_iff`.
-/

namespace Spixels

/-- The linear values of a color in a brightness. -/
def shade (lum : Luminance) (c : RGBc) (brightness : BitVec 8) : Rgb16 :=
  { r := lum c.r brightness, g := lum c.g brightness, b := lum c.b brightness }

theorem linear_eq_shade (lum : Luminance) (c : RGBc) (b : BitVec 8) : LEDStrip.linear lum c b = shade lum c b := rfl

structure Picture (count : Nat) where
  color : Fin count → RGBc
  brightness : BitVec 8

namespace Picture

variable {count : Nat}

def dark (count : Nat) : Picture count := { color := fun _ => RGBc.black, brightness := 255#8 }

def call (p : Picture count) : StripCall → Picture count
  | .setPixel pos c => { color := fun i => if pos = i then c else p.color i, brightness := p.brightness }
  | .setBrightness brightness => { color := p.color, brightness }
  | .setLinearValues _ _ => p

def linear (lum : Luminance) (p : Picture count) (i : Fin count) : Rgb16 :=
  shade lum (p.color i) p.brightness

/-- One call of `SetLinearValues` for each LED. -/
def linears (lum : Luminance) (p : Picture count) : List Linear :=
  (List.finRange count).map fun i : Fin count => { pos := i, value := p.linear lum i }

/-- The calls of a new strip on which the picture is written. -/
def encode (type : StripType) (lum : Luminance) (gpio : Int) (p : Picture count) : List Call :=
  (type.create lum gpio count).calls ++
    (p.linears lum).flatMap fun l => type.setLinearValues gpio l.pos l.value

/-- The same in `int` arithmetic. -/
def encodeInt (type : StripType) (lum : Luminance) (gpio : Int) (p : Picture count) : Except Fault (List Call) := do
  let made ← type.createInt lum gpio count
  let calls ← type.setAllInt gpio (p.linears lum)
  return made.calls ++ calls

end Picture

/-- A strip and a new one on which the picture is written come to their ends with the same bytes. -/
def StripType.IsPainted (type : StripType) (lum : Luminance) (gpio : Int) (count : Nat) (h : List StripCall) :
    Prop :=
  ∃ made calls, type.sessionInt lum gpio count h = .ok made ∧
    (h.foldl Picture.call (Picture.dark count)).encodeInt type lum gpio = .ok calls ∧
      ∀ a, stored gpio made.calls a = stored gpio calls a

theorem latest_append (ls ls' : List Linear) (i : Nat) :
    latest (ls ++ ls') i = (latest? ls' i).getD (latest ls i) := by
  rw [latest, latest?_append, Option.getD_or]; rfl

section Picture

variable {lum : Luminance} {count : Nat} {p : Picture count} {s : LEDStrip count} {ls : List Linear}

theorem onStrip_linears (lum : Luminance) (p : Picture count) : OnStrip count (p.linears lum) := by
  intro l hl
  obtain ⟨i, -, rfl⟩ := List.mem_map.1 hl
  exact ⟨by simp, by simp⟩

theorem latest?_linears (p : Picture count) (i : Fin count) :
    latest? (p.linears lum) i = some (p.linear lum i) := by
  unfold latest?
  cases hf : (p.linears lum).reverse.find? fun l => decide (l.pos = ((i : Nat) : Int)) with
  | none =>
    have hmem : { pos := i, value := p.linear lum i } ∈ p.linears lum := List.mem_map_of_mem (List.mem_finRange i)
    have := List.find?_eq_none.1 hf _ (List.mem_reverse.2 hmem)
    simp at this
  | some l =>
    have hpos := List.find?_some hf
    obtain ⟨k, -, rfl⟩ := List.mem_map.1 (List.mem_reverse.1 (List.mem_of_find?_eq_some hf))
    obtain rfl : k = i := by simpa [Fin.ext_iff] using hpos
    rfl

/-- The strip has the colors and the brightness of the picture, and has passed on their linear values. -/
structure Shows (lum : Luminance) (p : Picture count) (s : LEDStrip count) (ls : List Linear) : Prop where
  brightness : s.brightness = p.brightness
  color : ∀ i : Fin count, s.values[i] = p.color i
  linear : ∀ i : Fin count, latest ls i = p.linear lum i

theorem Shows.setPixel (hs : Shows lum p s ls) (pos : Int) (c : RGBc) :
    Shows lum (p.call (.setPixel pos c)) (s.setPixel lum pos c).1 (ls ++ (s.setPixel lum pos c).2) := by
  by_cases hpos : 0 ≤ pos ∧ pos < count
  · obtain ⟨k, rfl⟩ : ∃ k : Nat, pos = k := ⟨pos.toNat, by omega⟩
    rw [setPixel_of_lt s (by omega)]
    refine ⟨hs.brightness, fun i => ?_, fun i => ?_⟩
    · have := hs.color i
      simp only [Fin.getElem_fin] at this ⊢
      rw [Vector.getElem_set, this]
      simp [Picture.call]
    · rw [latest, latest?_snoc]
      by_cases hk : k = i
      · simp [hk, Picture.linear, Picture.call, linear_eq_shade, hs.brightness]
      · have hint : ¬((k : Int) = ((i : Nat) : Int)) := by omega
        rw [if_neg hint]
        refine (hs.linear i).trans ?_
        simp only [Picture.linear, Picture.call, if_neg hint]
  · rw [setPixel_of_not s hpos, List.append_nil]
    have hcolor : (p.call (.setPixel pos c)).color = p.color := by
      funext i
      exact if_neg (by omega)
    refine ⟨hs.brightness, fun i => ?_, fun i => ?_⟩
    · rw [hcolor]; exact hs.color i
    · rw [Picture.linear, hcolor]; exact hs.linear i

theorem Shows.setBrightness (hs : Shows lum p s ls) (b : BitVec 8) :
    Shows lum (p.call (.setBrightness b)) (s.setBrightness lum b).1 (ls ++ (s.setBrightness lum b).2) := by
  by_cases hb : b = s.brightness
  · -- The early return: nothing changes in the picture either.
    have hcall : p.call (.setBrightness b) = p := by rw [hb, hs.brightness]; rfl
    rw [LEDStrip.setBrightness, if_pos hb, List.append_nil, hcall]
    exact hs
  · rw [setBrightness_of_ne s hb]
    refine ⟨rfl, hs.color, fun i => ?_⟩
    have hcolor := hs.color i
    rw [latest_append, latest?_forPixels, if_pos i.2]
    simp only [Fin.getElem_fin] at hcolor
    simp [Picture.linear, Picture.call, linear_eq_shade, hcolor]

theorem shows_create (hlum : ∀ b, lum 0#8 b = 0#16) (type : StripType) (gpio : Int) :
    Shows lum (Picture.dark count) (type.create lum gpio count).strip (type.create lum gpio count).linears := by
  rw [create_strip hlum, create_linears hlum]
  refine ⟨rfl, fun i => by simp [LEDStrip.create, Picture.dark], fun i => ?_⟩
  have hzero : (Picture.dark count).linear lum i = Rgb16.zero := by
    change Rgb16.mk (lum 0#8 255#8) (lum 0#8 255#8) (lum 0#8 255#8) = _
    rw [hlum]; rfl
  rw [hzero]
  split
  · rfl
  · rw [latest, latest?_forPixels, if_pos i.2]; rfl

theorem shows_session (count : Nat) (hlum : ∀ b, lum 0#8 b = 0#16) (type : StripType) (gpio : Int)
    {h : List StripCall} (hh : ∀ pos v, StripCall.setLinearValues pos v ∉ h) :
    Shows lum (h.foldl Picture.call (Picture.dark count)) (type.session lum gpio count h).strip
      (type.session lum gpio count h).linears := by
  refine Run.trace_induct (f := LEDStrip.call lum)
    (fun h s out => Shows lum (h.foldl Picture.call (Picture.dark count)) s
      ((type.create lum gpio count).linears ++ out)) ?_ ?_
  · rw [List.append_nil]; exact shows_create hlum type gpio
  · intro pre t out c hpre hs
    rw [List.foldl_append, ← List.append_assoc]
    cases c with
    | setPixel pos c => exact hs.setPixel pos c
    | setBrightness b => exact hs.setBrightness b
    | setLinearValues pos v => exact absurd (hpre.subset (by simp)) (hh pos v)

/-- The bytes of a strip are those of a new strip on which the picture is written, whatever calls have led to
it. -/
theorem session_eq_encode (hlum : ∀ b, lum 0#8 b = 0#16) (hcount : count < 2 ^ 31) (type : StripType) (gpio : Int)
    {h : List StripCall} (hh : ∀ pos v, StripCall.setLinearValues pos v ∉ h) (a : Nat) :
    stored gpio (type.session lum gpio count h).calls a =
      stored gpio ((h.foldl Picture.call (Picture.dark count)).encode type lum gpio) a := by
  have hshows := shows_session count hlum type gpio hh
  have hencode := framed_flatMap hcount (framed_create hlum hcount type gpio)
    (onStrip_linears lum (h.foldl Picture.call (Picture.dark count))) a
  rw [stored_session hlum hcount (fun pos v hmem => absurd hmem (hh pos v)), Picture.encode, hencode]
  refine Frame.byteAt_congr (fun i hi j _ => ?_) a
  rw [group_latest hlum _ hi, latest_append, latest?_linears _ ⟨i, hi⟩, hshows.linear ⟨i, hi⟩]
  rfl

theorem encodeInt_eq (hlum : ∀ b, lum 0#8 b = 0#16) (type : StripType) (gpio : Int) (p : Picture count) :
    p.encodeInt type lum gpio =
      if type.CountFits count then .ok (p.encode type lum gpio) else .error .intRange := by
  rw [Picture.encodeInt, createInt_eq hlum]
  by_cases hfit : type.CountFits count
  · have hcalls := setAllInt_of_fits type gpio fun l hl =>
      fitsInt_of_countFits hfit (onStrip_linears lum p l hl)
    rw [if_pos hfit, if_pos hfit]
    change (type.setAllInt gpio (p.linears lum)).bind _ = _
    rw [hcalls]
    rfl
  · rw [if_neg hfit, if_neg hfit]
    rfl

/-- The bytes of a strip depend on its picture only, whatever calls have led to it, if and only if the `int`
arithmetic of the source is up to its number of LEDs. -/
theorem isPainted_iff (hlum : ∀ b, lum 0#8 b = 0#16) (type : StripType) (gpio : Int) (count : Nat)
    {h : List StripCall} (hh : ∀ pos v, StripCall.setLinearValues pos v ∉ h) :
    type.IsPainted lum gpio count h ↔ type.CountFits count := by
  have hsession := sessionInt_eq hlum type gpio count fun pos v hmem => absurd hmem (hh pos v)
  constructor
  · rintro ⟨made, -, hmade, -⟩
    by_contra hfit
    rw [hsession, if_neg hfit] at hmade
    cases hmade
  · intro hfit
    rw [if_pos hfit] at hsession
    refine ⟨_, _, hsession, (encodeInt_eq hlum type gpio _).trans (if_pos hfit), fun a => ?_⟩
    exact session_eq_encode hlum (lt_of_countFits hfit) type gpio hh a

end Picture

/-- Brightness going to zero and back. -/
theorem isPainted_two_pixels :
    StripType.lpd8806.IsPainted (fun value brightness => value.setWidth 16 * brightness.setWidth 16) 18 2
      [.setPixel 1 ⟨255#8, 16#8, 0#8⟩, .setBrightness 0#8, .setPixel 2 ⟨1#8, 1#8, 1#8⟩,
        .setPixel 0 ⟨0#8, 0#8, 9#8⟩, .setBrightness 255#8] :=
  (isPainted_iff (fun b => by simp) .lpd8806 18 2 (by simp)).2 (by decide)

/-- An APA102 strip of `2 ^ 29` LEDs needs more bytes than an `int` can count. -/
theorem not_isPainted_apa102 : ¬StripType.apa102.IsPainted (fun _ _ => 0#16) 18 (2 ^ 29) [] := by
  rintro ⟨made, calls, hmade, -⟩
  have hstop : StripType.apa102.createInt (fun _ _ => 0#16) 18 (2 ^ 29) = .error .intRange := by
    rw [StripType.createInt, checkInt_of_not (by decide)]
    rfl
  rw [StripType.sessionInt, hstop] at hmade
  cases hmade

end Spixels
