import Spixels.LedPicture

/-!
# What a strip displays

A `Picture` leaves out the raw values that a program can pass to `SetLinearValues`.  A `Display` has them: next to
the colors and the brightness, the value that each LED has been given last, by whichever call.  A raw value stays
until the pixel is set again or the brightness changes; setting the brightness that the strip has leaves it alone.

`Displays` relates a strip to its display, and every call keeps it: `displays_session`.
-/

namespace Spixels

structure Display (count : Nat) where
  color : Fin count → RGBc
  brightness : BitVec 8
  value : Fin count → Rgb16

namespace Display

variable {count : Nat}

def dark (count : Nat) : Display count :=
  { color := fun _ => RGBc.black, brightness := 255#8, value := fun _ => Rgb16.zero }

def call (lum : Luminance) (d : Display count) : StripCall → Display count
  | .setPixel pos c =>
    { d with
      color := fun i => if pos = i then c else d.color i
      value := fun i => if pos = i then shade lum c d.brightness else d.value i }
  | .setBrightness b =>
    if b = d.brightness then d
    else { d with brightness := b, value := fun i => shade lum (d.color i) b }
  | .setLinearValues pos v => { d with value := fun i => if pos = i then v else d.value i }

end Display

section Display

variable {lum : Luminance} {count : Nat} {d : Display count} {s : LEDStrip count} {ls : List Linear}

/-- The strip has the colors and the brightness of the display, and has passed on its values. -/
structure Displays (d : Display count) (s : LEDStrip count) (ls : List Linear) : Prop where
  brightness : s.brightness = d.brightness
  color : ∀ i (hi : i < count), s.values[i] = d.color ⟨i, hi⟩
  value : ∀ i : Fin count, latest ls i = d.value i

theorem latest_snoc (ls : List Linear) (l : Linear) (i : Nat) :
    latest (ls ++ [l]) i = if l.pos = i then l.value else latest ls i := by
  rw [latest, latest?_snoc]
  split <;> rfl

theorem Displays.setPixel (hd : Displays d s ls) (pos : Int) (c : RGBc) :
    Displays (d.call lum (.setPixel pos c)) (s.setPixel lum pos c).1 (ls ++ (s.setPixel lum pos c).2) := by
  by_cases hpos : 0 ≤ pos ∧ pos < count
  · obtain ⟨k, rfl⟩ : ∃ k : Nat, pos = k := ⟨pos.toNat, by omega⟩
    rw [setPixel_of_lt s (by omega)]
    refine ⟨hd.brightness, fun i hi => ?_, fun i => ?_⟩
    · rw [Vector.getElem_set, hd.color i hi]
      simp [Display.call]
    · rw [latest_snoc, hd.value i, hd.brightness]
      rfl
  · -- no LED has this position
    have hne : ∀ i : Fin count, ¬pos = i := fun i => by omega
    rw [setPixel_of_not s hpos, List.append_nil]
    refine ⟨hd.brightness, fun i hi => ?_, fun i => ?_⟩
    · simp only [Display.call, if_neg (hne ⟨i, hi⟩)]; exact hd.color i hi
    · simp only [Display.call, if_neg (hne i)]; exact hd.value i

theorem Displays.setBrightness (hd : Displays d s ls) (b : BitVec 8) :
    Displays (d.call lum (.setBrightness b)) (s.setBrightness lum b).1 (ls ++ (s.setBrightness lum b).2) := by
  by_cases hb : b = s.brightness
  · rw [Display.call, if_pos (hb.trans hd.brightness), LEDStrip.setBrightness, if_pos hb, List.append_nil]
    exact hd
  · rw [Display.call, if_neg (by rw [← hd.brightness]; exact hb), setBrightness_of_ne s hb]
    refine ⟨rfl, hd.color, fun i => ?_⟩
    have hcolor := hd.color i i.2
    rw [latest_append, latest?_forPixels, if_pos i.2]
    simp [linear_eq_shade, hcolor]

theorem Displays.setLinearValues (hd : Displays d s ls) (lum : Luminance) (pos : Int) (v : Rgb16) :
    Displays (d.call lum (.setLinearValues pos v)) s (ls ++ [{ pos, value := v }]) :=
  ⟨hd.brightness, hd.color, fun i => by rw [latest_snoc, hd.value i]; rfl⟩

theorem displays_create (hlum : ∀ b, lum 0#8 b = 0#16) (type : StripType) (gpio : Int) :
    Displays (Display.dark count) (type.create lum gpio count).strip (type.create lum gpio count).linears := by
  have hshows : Shows lum (Picture.dark count) _ _ := shows_create hlum type gpio
  refine ⟨hshows.brightness, fun i hi => hshows.color ⟨i, hi⟩, fun i => (hshows.linear i).trans ?_⟩
  change Rgb16.mk (lum 0#8 255#8) (lum 0#8 255#8) (lum 0#8 255#8) = _
  rw [hlum]; rfl

theorem displays_session (count : Nat) (hlum : ∀ b, lum 0#8 b = 0#16) (type : StripType) (gpio : Int)
    (h : List StripCall) :
    Displays (h.foldl (Display.call lum) (Display.dark count)) (type.session lum gpio count h).strip
      (type.session lum gpio count h).linears := by
  refine Run.trace_induct (f := LEDStrip.call lum)
    (fun h s out => Displays (h.foldl (Display.call lum) (Display.dark count)) s
      ((type.create lum gpio count).linears ++ out)) ?_ ?_
  · rw [List.append_nil]; exact displays_create hlum type gpio
  · intro pre t out c _ hd
    rw [List.foldl_append, ← List.append_assoc]
    cases c with
    | setPixel pos c => exact hd.setPixel pos c
    | setBrightness b => exact hd.setBrightness b
    | setLinearValues pos v => exact hd.setLinearValues lum pos v

end Display

end Spixels
