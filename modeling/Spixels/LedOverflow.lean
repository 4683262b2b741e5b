import Spixels.LedSession

/-!
# The `int` arithmetic of the strips

The constructors compute the lengths of the streams in `int`, and `SetLinearValues` the positions of the bytes.
`StripType.create` and `StripType.session` calculate with integers instead.  `createInt` and `sessionInt` make the
same calls and check every value on the way: where one does not fit `int` the source has no defined behaviour, and
they stop.  As long as a strip only paints its own LEDs, this depends on their number alone, so a session is what the
source does for the numbers in `CountFits`, and the constructor stops for all others: `sessionInt_eq`.
-/

namespace Spixels

/-- The range of `int`. -/
def InInt (n : Int) : Prop := -2 ^ 31 ≤ n ∧ n < 2 ^ 31

instance (n : Int) : Decidable (InInt n) := inferInstanceAs (Decidable (_ ∧ _))

/-- All values on the way are in the range of `int`. -/
def checkInt (ns : List Int) : Except Fault Unit := if ∀ n ∈ ns, InInt n then .ok () else .error .intRange

namespace StripType

/-- The values that the `int` arithmetic of `SetLinearValues` takes. -/
def intTerms : StripType → Int → List Int
  | ws2801, pos => [3 * pos, 3 * pos + 0, 3 * pos + 1, 3 * pos + 2]
  | lpd6803, pos => [2 * pos, 2 * pos + 4, 2 * pos + 4 + 0, 2 * pos + 4 + 1]
  | lpd8806, pos => [3 * pos, 3 * pos + 0, 3 * pos + 1, 3 * pos + 2]
  | apa102, pos => [4 * pos, 4 + 4 * pos, 4 + 4 * pos + 0, 4 + 4 * pos + 1, 4 + 4 * pos + 2, 4 + 4 * pos + 3]

/-- No `int` overflows on the way to the positions of the bytes. -/
def FitsInt (type : StripType) (pos : Int) : Prop := ∀ n ∈ type.intTerms pos, InInt n

instance (type : StripType) (pos : Int) : Decidable (type.FitsInt pos) :=
  inferInstanceAs (Decidable (∀ n ∈ type.intTerms pos, InInt n))

/-- The values that the `int` arithmetic of the constructor takes, beside the calls it makes. -/
def createTerms : StripType → Nat → List Int
  | ws2801, count => [count * 3]
  | lpd6803, count => [2 * count, 4 + 2 * count, 4 + 2 * count + 4]
  | lpd8806, count => [3 * count, count + 31, (count + 31) / 32]
  | apa102, count => [count + 15, (count + 15) / 16, 4 * count, 4 + 4 * count]

/-- `SetLinearValues` -/
def setLinearValuesInt (type : StripType) (gpio pos : Int) (v : Rgb16) : Except Fault (List Call) := do
  checkInt (type.intTerms pos)
  return type.setLinearValues gpio pos v

def setAllInt (type : StripType) (gpio : Int) (ls : List Linear) : Except Fault (List Call) := do
  return (← ls.mapM fun l => type.setLinearValuesInt gpio l.pos l.value).flatten

/-- The constructors. -/
def createInt (type : StripType) (lum : Luminance) (gpio : Int) (count : Nat) : Except Fault (Strip count) := do
  checkInt (type.createTerms count)
  let made := type.create lum gpio count
  let _ ← type.setAllInt gpio made.linears
  return made

/-- A strip after a history of calls. -/
def sessionInt (type : StripType) (lum : Luminance) (gpio : Int) (count : Nat) (h : List StripCall) :
    Except Fault (Strip count) := do
  let made ← type.createInt lum gpio count
  let (strip, linears) := Run.trace (LEDStrip.call lum) made.strip h
  let calls ← type.setAllInt gpio linears
  return { strip, linears := made.linears ++ linears, calls := made.calls ++ calls }

/-- The numbers of LEDs that no `int` is too small for. -/
def CountFits (count : Nat) : StripType → Prop
  | ws2801 => 3 * count < 2 ^ 31
  | lpd6803 => 2 * count + 8 < 2 ^ 31
  | lpd8806 => 3 * count < 2 ^ 31
  | apa102 => 4 * count + 4 < 2 ^ 31

instance (count : Nat) : ∀ type : StripType, Decidable (type.CountFits count)
  | ws2801 => inferInstanceAs (Decidable (3 * count < 2 ^ 31))
  | lpd6803 => inferInstanceAs (Decidable (2 * count + 8 < 2 ^ 31))
  | lpd8806 => inferInstanceAs (Decidable (3 * count < 2 ^ 31))
  | apa102 => inferInstanceAs (Decidable (4 * count + 4 < 2 ^ 31))

end StripType

/-! ### The values that fit -/

theorem checkInt_of_forall {ns : List Int} (h : ∀ n ∈ ns, InInt n) : checkInt ns = .ok () := if_pos h

theorem checkInt_of_not {ns : List Int} (h : ¬∀ n ∈ ns, InInt n) : checkInt ns = .error .intRange := if_neg h

theorem createTerms_iff (type : StripType) (count : Nat) :
    (∀ n ∈ type.createTerms count, InInt n) ↔ type.CountFits count := by
  cases type <;>
    simp only [StripType.createTerms, StripType.CountFits, InInt, List.forall_mem_cons, List.not_mem_nil,
      false_imp_iff, implies_true, and_true] <;>
    omega

/-- The positions of the bytes of its own pixels are no larger than the lengths that the constructor computes. -/
theorem fitsInt_of_countFits {type : StripType} {count : Nat} (hfit : type.CountFits count) {pos : Int}
    (hpos : 0 ≤ pos ∧ pos < count) : type.FitsInt pos := by
  cases type <;> simp only [StripType.CountFits] at hfit <;>
    simp only [StripType.FitsInt, StripType.intTerms, InInt, List.forall_mem_cons, List.not_mem_nil,
      false_imp_iff, implies_true, and_true] <;>
    omega

theorem lt_of_countFits {type : StripType} {count : Nat} (hfit : type.CountFits count) : count < 2 ^ 31 := by
  cases type <;> simp only [StripType.CountFits] at hfit <;> omega

/-- Streams below `2^31` bytes. -/
theorem countFits_of_length {type : StripType} {count : Nat} (hlength : type.format.length count < 2 ^ 31) :
    type.CountFits count := by
  cases type <;> simp [StripType.format, Frame.Format.length, Frame.Format.start] at hlength <;>
    simp only [StripType.CountFits] <;> omega

theorem setLinearValuesInt_eq (type : StripType) (gpio pos : Int) (v : Rgb16) :
    type.setLinearValuesInt gpio pos v =
      if type.FitsInt pos then .ok (type.setLinearValues gpio pos v) else .error .intRange := by
  by_cases hfit : type.FitsInt pos
  · rw [StripType.setLinearValuesInt, checkInt_of_forall hfit, if_pos hfit]; rfl
  · rw [StripType.setLinearValuesInt, checkInt_of_not hfit, if_neg hfit]; rfl

/-! ### Calls, constructors and sessions -/

section Sessions

variable {type : StripType} {lum : Luminance} {gpio : Int} {count : Nat} {h : List StripCall}

theorem setAllInt_of_fits (type : StripType) (gpio : Int) {ls : List Linear} (hls : ∀ l ∈ ls, type.FitsInt l.pos) :
    type.setAllInt gpio ls = .ok (ls.flatMap fun l => type.setLinearValues gpio l.pos l.value) := by
  have hall : ls.mapM (fun l => type.setLinearValuesInt gpio l.pos l.value) =
      .ok (ls.map fun l => type.setLinearValues gpio l.pos l.value) := by
    induction ls with
    | nil => rfl
    | cons l ls ih =>
      rw [List.mapM_cons, ih fun l' hl' => hls l' (List.mem_cons_of_mem _ hl'), setLinearValuesInt_eq,
        if_pos (hls l List.mem_cons_self)]
      rfl
  rw [StripType.setAllInt, hall, List.flatMap_def]
  rfl

/-- A constructor stops exactly if its own arithmetic does not fit; then it has not painted a pixel yet. -/
theorem createInt_eq (hlum : ∀ b, lum 0#8 b = 0#16) (type : StripType) (gpio : Int) (count : Nat) :
    type.createInt lum gpio count =
      if type.CountFits count then .ok (type.create lum gpio count) else .error .intRange := by
  by_cases hfit : type.CountFits count
  · have hpaint := setAllInt_of_fits type gpio fun l hl =>
      fitsInt_of_countFits hfit (onStrip_create hlum type gpio l hl)
    rw [StripType.createInt, checkInt_of_forall ((createTerms_iff type count).2 hfit), if_pos hfit]
    change (type.setAllInt gpio (type.create lum gpio count).linears).bind _ = _
    rw [hpaint]
    rfl
  · rw [StripType.createInt, checkInt_of_not (mt (createTerms_iff type count).1 hfit), if_neg hfit]
    rfl

/-- The session is what the source does, if and only if the number of LEDs fits. -/
theorem sessionInt_eq (hlum : ∀ b, lum 0#8 b = 0#16) (type : StripType) (gpio : Int) (count : Nat)
    (hh : ∀ pos v, StripCall.setLinearValues pos v ∈ h → 0 ≤ pos ∧ pos < count) :
    type.sessionInt lum gpio count h =
      if type.CountFits count then .ok (type.session lum gpio count h) else .error .intRange := by
  rw [StripType.sessionInt, createInt_eq hlum]
  by_cases hfit : type.CountFits count
  · have hcalls := setAllInt_of_fits type gpio fun l hl =>
      fitsInt_of_countFits hfit (onStrip_trace lum (type.create lum gpio count).strip hh l hl)
    rw [if_pos hfit, if_pos hfit]
    change (type.setAllInt gpio (Run.trace (LEDStrip.call lum) (type.create lum gpio count).strip h).2).bind _ = _
    rw [hcalls]
    rfl
  · rw [if_neg hfit, if_neg hfit]
    rfl

/-- In particular for streams below `2^31` bytes. -/
theorem sessionInt_of_length (hlum : ∀ b, lum 0#8 b = 0#16) (gpio : Int)
    (hlength : type.format.length count < 2 ^ 31)
    (hh : ∀ pos v, StripCall.setLinearValues pos v ∈ h → 0 ≤ pos ∧ pos < count) :
    type.sessionInt lum gpio count h = .ok (type.session lum gpio count h) := by
  rw [sessionInt_eq hlum type gpio count hh, if_pos (countFits_of_length hlength)]

end Sessions

end Spixels
