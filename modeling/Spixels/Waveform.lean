import Mathlib.Data.BitVec
import Mathlib.Data.List.Basic

/-!
# Waveforms of a set/clear port

A port of `w` pins is driven through two write-only registers: a write to one raises the pins of its mask, a write
to the other lowers them, and pins outside the mask keep their level.  A receiver samples the data pins at the
rising edges of a clock pin `clk`.

* `levels` and `edges`: the pins after a sequence of writes, and the rising clock edges met on the way, both
  compatible with concatenation;
* `Settled`: the pins stay as they are for some writes before and after each rising edge;
* `Slot`: a group of writes that clocks out one level of every data pin.  A slot either drives a pin or leaves
  it alone, so what a pin shows at slot `k` is `held`: the last level it was driven to;
* `Slot.of_phases`: how a slot is made of a phase with the clock low and a phase that raises it;
* `edges_slots`, `samples_slots`, `levels_slots`: a sequence of slots has one clean edge per slot and shows
  `held`.
-/

namespace Waveform

variable {w : Nat}

/-- One write to the port. -/
inductive RegWrite (w : Nat)
  | raise (mask : BitVec w)
  | lower (mask : BitVec w)
deriving DecidableEq, Repr

def RegWrite.mask : RegWrite w → BitVec w
  | raise m => m
  | lower m => m

def RegWrite.apply (pins : BitVec w) : RegWrite w → BitVec w
  | raise m => pins ||| m
  | lower m => pins &&& ~~~m

/-- The pins after the writes `ws`. -/
def levels (pins : BitVec w) (ws : List (RegWrite w)) : BitVec w := ws.foldl RegWrite.apply pins

/-- The pins just before and just after a write that raises the clock. -/
structure Edge (w : Nat) where
  before : BitVec w
  after : BitVec w
deriving DecidableEq, Repr

/-- The rising edges of the pin `clk`, in order. -/
def edges (clk : Nat) (pins : BitVec w) : List (RegWrite w) → List (Edge w)
  | [] => []
  | x :: ws =>
    if !pins.getLsbD clk && (x.apply pins).getLsbD clk then ⟨pins, x.apply pins⟩ :: edges clk (x.apply pins) ws
    else edges clk (x.apply pins) ws

/-- The level of the pin `i` at each rising edge of `clk`. -/
def samples (clk i : Nat) (pins : BitVec w) (ws : List (RegWrite w)) : List Bool :=
  (edges clk pins ws).map fun e => e.after.getLsbD i

/-- At the edge nothing but the clock moves. -/
def Edge.Clean (clk : Nat) (e : Edge w) : Prop := ∀ i, i ≠ clk → e.after.getLsbD i = e.before.getLsbD i

/-! ### Concatenation -/

@[simp] theorem levels_nil (pins : BitVec w) : levels pins [] = pins := rfl

@[simp] theorem levels_cons (pins : BitVec w) (x : RegWrite w) (ws : List (RegWrite w)) :
    levels pins (x :: ws) = levels (x.apply pins) ws := rfl

theorem levels_append (pins : BitVec w) (ws ws' : List (RegWrite w)) :
    levels pins (ws ++ ws') = levels (levels pins ws) ws' := List.foldl_append

@[simp] theorem edges_nil (clk : Nat) (pins : BitVec w) : edges clk pins [] = [] := rfl

theorem edges_append (clk : Nat) (pins : BitVec w) (ws ws' : List (RegWrite w)) :
    edges clk pins (ws ++ ws') = edges clk pins ws ++ edges clk (levels pins ws) ws' := by
  induction ws generalizing pins with
  | nil => rfl
  | cons x ws ih =>
    simp only [List.cons_append, edges, levels_cons, ih]
    split <;> rfl

theorem samples_append (clk i : Nat) (pins : BitVec w) (ws ws' : List (RegWrite w)) :
    samples clk i pins (ws ++ ws') = samples clk i pins ws ++ samples clk i (levels pins ws) ws' := by
  simp [samples, edges_append]

/-! ### Quiet writes -/

/-- A group of writes that never raises the clock has no edge. -/
theorem edges_eq_nil {clk : Nat} {pins : BitVec w} {ws : List (RegWrite w)}
    (h : ∀ m, RegWrite.raise m ∈ ws → m.getLsbD clk = false) : edges clk pins ws = [] := by
  induction ws generalizing pins with
  | nil => rfl
  | cons x ws ih =>
    have hx : ((!pins.getLsbD clk) && (x.apply pins).getLsbD clk) = false := by
      cases x with
      | raise m => simp [RegWrite.apply, h m (by simp)]
      | lower m => cases hp : pins.getLsbD clk <;> simp [RegWrite.apply, hp]
    simp only [edges, hx, Bool.false_eq_true, ↓reduceIte]
    exact ih fun m hm => h m (List.mem_cons_of_mem _ hm)

/-- Repeating a group of writes that has no effect. -/
theorem levels_replicate {pins : BitVec w} {ws : List (RegWrite w)} (n : Nat) (hl : levels pins ws = pins) :
    levels pins (List.replicate n ws).flatten = pins := by
  induction n with
  | zero => rfl
  | succ n ih => rw [List.replicate_succ, List.flatten_cons, levels_append, hl, ih]

/-- Repeating a group of writes that has no edge and no effect. -/
theorem edges_replicate {clk : Nat} {pins : BitVec w} {ws : List (RegWrite w)} (n : Nat)
    (he : edges clk pins ws = []) (hl : levels pins ws = pins) :
    edges clk pins (List.replicate n ws).flatten = [] := by
  induction n with
  | zero => rfl
  | succ n ih => rw [List.replicate_succ, List.flatten_cons, edges_append, he, hl, ih, List.append_nil]

/-! ### Setup and hold -/

/-- None of the writes moves a pin. -/
def Idle (pins : BitVec w) (ws : List (RegWrite w)) : Prop := ∀ x ∈ ws, x.apply pins = pins

theorem levels_of_idle {pins : BitVec w} {ws : List (RegWrite w)} (h : Idle pins ws) : levels pins ws = pins := by
  induction ws with
  | nil => rfl
  | cons x ws ih =>
    rw [levels_cons, h x (by simp)]
    exact ih fun y hy => h y (List.mem_cons_of_mem _ hy)

/-- No pin moves in the `n` writes before a rising edge of the clock, and in the `n` writes after it. -/
def Settled (clk n : Nat) (pins : BitVec w) (ws : List (RegWrite w)) : Prop :=
  ∀ pre x post, ws = pre ++ x :: post → (levels pins pre).getLsbD clk = false →
    (x.apply (levels pins pre)).getLsbD clk = true →
      (∃ first before, pre = first ++ before ∧ n ≤ before.length ∧ Idle (levels pins first) before) ∧
        ∃ after last, post = after ++ last ∧ n ≤ after.length ∧ Idle (x.apply (levels pins pre)) after

section Settled

variable {clk n : Nat} {pins : BitVec w} {ws ws' : List (RegWrite w)}

theorem Settled.append (h : Settled clk n pins ws) (h' : Settled clk n (levels pins ws) ws') :
    Settled clk n pins (ws ++ ws') := by
  intro pre x post heq hlow hhigh
  -- the edge is in the second part
  have second : ∀ as, pre = ws ++ as → ws' = as ++ x :: post →
      (∃ first before, pre = first ++ before ∧ n ≤ before.length ∧ Idle (levels pins first) before) ∧
        ∃ after last, post = after ++ last ∧ n ≤ after.length ∧ Idle (x.apply (levels pins pre)) after := by
    rintro as rfl has
    rw [levels_append] at hlow hhigh
    obtain ⟨⟨first, before, rfl, hn, hidle⟩, hafter⟩ := h' as x post has hlow hhigh
    rw [levels_append]
    exact ⟨⟨ws ++ first, before, by rw [List.append_assoc], hn, by rw [levels_append]; exact hidle⟩, hafter⟩
  rcases List.append_eq_append_iff.1 heq with ⟨as, hpre, has⟩ | ⟨bs, hws, hbs⟩
  · exact second as hpre has
  · cases bs with
    | nil => exact second [] (by rw [hws, List.append_nil, List.append_nil]) hbs.symm
    | cons y bs =>
      cases hbs
      obtain ⟨hbefore, after, last, rfl, hn, hidle⟩ := h pre x bs hws hlow hhigh
      exact ⟨hbefore, after, last ++ ws', List.append_assoc .., hn, hidle⟩

/-- Without an edge there is nothing to say. -/
theorem settled_of_quiet (h : ∀ m, RegWrite.raise m ∈ ws → m.getLsbD clk = false) : Settled clk n pins ws := by
  rintro pre x post rfl hlow hhigh
  cases x with
  | raise m => simp [RegWrite.apply, hlow, h m (by simp)] at hhigh
  | lower m => simp [RegWrite.apply, hlow] at hhigh

/-- An edge among writes that do not move a pin. -/
theorem settled_edge {before after : List (RegWrite w)} {x : RegWrite w} (hb : Idle pins before)
    (hbn : n ≤ before.length) (ha : Idle (x.apply pins) after) (han : n ≤ after.length) :
    Settled clk n pins (before ++ x :: after) := by
  intro pre y post heq hlow hhigh
  rcases List.append_eq_append_iff.1 heq with ⟨as, rfl, has⟩ | ⟨bs, rfl, hbs⟩
  · cases as with
    | nil =>
      cases has
      rw [List.append_nil, levels_of_idle hb]
      exact ⟨⟨[], before, rfl, hbn, hb⟩, after, [], (List.append_nil _).symm, han, ha⟩
    | cons z as =>
      -- behind the edge the clock stays as it is
      obtain ⟨rfl, rfl⟩ := List.cons.inj has
      have hsame : levels pins (before ++ x :: as) = x.apply pins := by
        rw [levels_append, levels_of_idle hb, levels_cons]
        exact levels_of_idle fun z hz => ha z (List.mem_append_left _ hz)
      rw [hsame] at hlow hhigh
      rw [ha y (by simp), hlow] at hhigh
      cases hhigh
  · have hpre : Idle pins pre := fun z hz => hb z (List.mem_append_left _ hz)
    cases bs with
    | nil =>
      cases hbs
      rw [List.append_nil] at hbn
      rw [levels_of_idle hpre]
      exact ⟨⟨[], pre, rfl, hbn, hpre⟩, after, [], (List.append_nil _).symm, han, ha⟩
    | cons z bs =>
      cases hbs
      rw [levels_of_idle hpre] at hlow hhigh
      rw [hb y (by simp), hlow] at hhigh
      cases hhigh

theorem settled_flatMap {α : Type*} {f : α → List (RegWrite w)} {l : List α}
    (h : ∀ a ∈ l, ∀ pins, Settled clk n pins (f a)) (pins : BitVec w) : Settled clk n pins (l.flatMap f) := by
  induction l generalizing pins with
  | nil => exact settled_of_quiet fun m hm => (by cases hm)
  | cons a l ih =>
    rw [List.flatMap_cons]
    exact (h a (by simp) pins).append (ih (fun b hb => h b (List.mem_cons_of_mem _ hb)) _)

end Settled

/-! ### Slots -/

/-- The level a pin holds after `k` slots when slot `j` drives it to `drive j`, or leaves it alone. -/
def held (drive : Nat → Option Bool) (start : Bool) : Nat → Bool
  | 0 => start
  | k + 1 => (drive k).getD (held drive start k)

@[simp] theorem held_zero (drive : Nat → Option Bool) (start : Bool) : held drive start 0 = start := rfl

theorem held_succ (drive : Nat → Option Bool) (start : Bool) (k : Nat) :
    held drive start (k + 1) = (drive k).getD (held drive start k) := rfl

/-- A group of writes that, from any pins, has one clean rising edge, shows the driven levels at it and keeps them
until its end. -/
structure Slot (clk : Nat) (drive : Nat → Option Bool) (ws : List (RegWrite w)) : Prop where
  edge : ∀ pins, ∃ e, edges clk pins ws = [e] ∧ e.Clean clk ∧
    ∀ i < w, i ≠ clk → e.after.getLsbD i = (drive i).getD (pins.getLsbD i)
  level : ∀ pins, ∀ i < w, i ≠ clk → (levels pins ws).getLsbD i = (drive i).getD (pins.getLsbD i)

/-- A slot in two phases: the first one drives the data pins with the clock low, the second one raises the
clock. -/
theorem Slot.of_phases {clk : Nat} {drive : Nat → Option Bool} {low high : List (RegWrite w)}
    (hquiet : ∀ m, RegWrite.raise m ∈ low → m.getLsbD clk = false)
    (hlow : ∀ pins, ∀ i < w, i ≠ clk → (levels pins low).getLsbD i = (drive i).getD (pins.getLsbD i))
    (hhigh : ∀ pins, ∃ e, edges clk (levels pins low) high = [e] ∧ ∀ i, i ≠ clk →
      e.before.getLsbD i = (levels pins low).getLsbD i ∧ e.after.getLsbD i = (levels pins low).getLsbD i ∧
        (levels (levels pins low) high).getLsbD i = (levels pins low).getLsbD i) :
    Slot clk drive (low ++ high) where
  edge pins := by
    obtain ⟨e, he, hkeep⟩ := hhigh pins
    refine ⟨e, by rw [edges_append, edges_eq_nil hquiet, he, List.nil_append], fun i hi => ?_, fun i hi hc => ?_⟩
    · rw [(hkeep i hi).2.1, (hkeep i hi).1]
    · rw [(hkeep i hc).2.1, hlow pins i hi hc]
  level pins i hi hc := by
    obtain ⟨e, -, hkeep⟩ := hhigh pins
    rw [levels_append, (hkeep i hc).2.2, hlow pins i hi hc]

section Slots

variable {clk n : Nat} {drive : Nat → Nat → Option Bool} {slot : Nat → List (RegWrite w)}

theorem levels_slots (h : ∀ k < n, Slot clk (drive k) (slot k)) (pins : BitVec w) {i : Nat} (hi : i < w)
    (hc : i ≠ clk) :
    (levels pins ((List.range n).flatMap slot)).getLsbD i = held (fun k => drive k i) (pins.getLsbD i) n := by
  induction n with
  | zero => rfl
  | succ n ih =>
    rw [List.range_succ, List.flatMap_append, levels_append, List.flatMap_singleton,
      (h n (by omega)).level _ i hi hc, ih fun k hk => h k (by omega)]
    rfl

/-- One rising edge per slot, and at each of them only the clock moves. -/
theorem edges_slots (h : ∀ k < n, Slot clk (drive k) (slot k)) (pins : BitVec w) :
    (edges clk pins ((List.range n).flatMap slot)).length = n ∧
      ∀ e ∈ edges clk pins ((List.range n).flatMap slot), e.Clean clk := by
  induction n with
  | zero => simp
  | succ n ih =>
    obtain ⟨hlen, hclean⟩ := ih fun k hk => h k (by omega)
    obtain ⟨e, he, hce, -⟩ := (h n (by omega)).edge (levels pins ((List.range n).flatMap slot))
    rw [List.range_succ, List.flatMap_append, edges_append, List.flatMap_singleton, he]
    refine ⟨by simp [hlen], fun e' he' => ?_⟩
    rcases List.mem_append.1 he' with h' | h'
    · exact hclean e' h'
    · rw [List.mem_singleton.1 h']; exact hce

/-- What a receiver reads from the pin `i`. -/
theorem samples_slots (h : ∀ k < n, Slot clk (drive k) (slot k)) (pins : BitVec w) {i : Nat} (hi : i < w)
    (hc : i ≠ clk) :
    samples clk i pins ((List.range n).flatMap slot) =
      (List.range n).map fun k => held (fun k => drive k i) (pins.getLsbD i) (k + 1) := by
  induction n with
  | zero => rfl
  | succ n ih =>
    have h' : ∀ k < n, Slot clk (drive k) (slot k) := fun k hk => h k (by omega)
    obtain ⟨e, he, -, hlev⟩ := (h n (by omega)).edge (levels pins ((List.range n).flatMap slot))
    rw [List.range_succ, List.flatMap_append, samples_append, ih h', List.flatMap_singleton, List.map_append]
    congr 1
    simp only [samples, he, List.map_cons, List.map_nil, hlev i hi hc, levels_slots h' pins hi hc, held_succ]

end Slots

/-! ### Lanes fed with bytes -/

/-- The levels of a lane that sends the byte `byte p` in the slots `8p, …, 8p+7`, most significant bit first, and
is left alone where there is no byte. -/
def byteDrive (byte : Nat → Option (BitVec 8)) (k : Nat) : Option Bool :=
  (byte (k / 8)).map fun b => b.getMsbD (k % 8)

/-- The level in which the bytes below `p` leave the lane: the last bit of the nearest byte, or `start`. -/
def tailLevel (byte : Nat → Option (BitVec 8)) (start : Bool) : Nat → Bool
  | 0 => start
  | p + 1 => match byte p with
    | some b => b.getLsbD 0
    | none => tailLevel byte start p

theorem byteDrive_of_lt (byte : Nat → Option (BitVec 8)) (p : Nat) {j : Nat} (hj : j < 8) :
    byteDrive byte (8 * p + j) = (byte p).map fun b => b.getMsbD j := by
  simp only [byteDrive, show (8 * p + j) / 8 = p by omega, show (8 * p + j) % 8 = j by omega]

/-- The bits of a byte that is sent. -/
theorem held_byte {byte : Nat → Option (BitVec 8)} {p : Nat} {b : BitVec 8} (hb : byte p = some b) (start : Bool)
    {j : Nat} (hj : j < 8) : held (byteDrive byte) start (8 * p + j + 1) = b.getMsbD j := by
  rw [held_succ, byteDrive_of_lt byte p hj, hb]; rfl

/-- A position without a byte repeats the level it finds. -/
theorem held_skip {byte : Nat → Option (BitVec 8)} {p : Nat} (hb : byte p = none) (start : Bool) :
    ∀ {j : Nat}, j ≤ 8 → held (byteDrive byte) start (8 * p + j) = held (byteDrive byte) start (8 * p)
  | 0, _ => rfl
  | j + 1, hj => by
    rw [← Nat.add_assoc, held_succ, byteDrive_of_lt byte p (by omega), hb]
    exact held_skip hb start (by omega)

theorem held_eq_tailLevel (byte : Nat → Option (BitVec 8)) (start : Bool) (p : Nat) :
    held (byteDrive byte) start (8 * p) = tailLevel byte start p := by
  induction p with
  | zero => rfl
  | succ p ih =>
    rw [tailLevel]
    cases hb : byte p with
    | some b => rw [show 8 * (p + 1) = 8 * p + 7 + 1 by omega, held_byte hb start (by omega)]; rfl
    | none => rw [show 8 * (p + 1) = 8 * p + 8 by omega, held_skip hb start (by omega), ih]

/-- At a position without a byte the lane shows the level the bytes below it left. -/
theorem held_tail {byte : Nat → Option (BitVec 8)} {p : Nat} (hb : byte p = none) (start : Bool) {j : Nat}
    (hj : j < 8) : held (byteDrive byte) start (8 * p + j + 1) = tailLevel byte start p := by
  rw [Nat.add_assoc, held_skip hb start (by omega), held_eq_tailLevel]

/-- The bytes that a receiver makes of its bits, the most significant bit first. -/
def bytes (bits : List Bool) : List (BitVec 8) :=
  (List.range (bits.length / 8)).map fun p =>
    (BitVec.ofBoolListBE ((List.range 8).map fun k => bits.getD (8 * p + k) false)).setWidth 8

theorem bytes_eq_map {bits : List Bool} {n : Nat} {b : Nat → BitVec 8} (hlen : bits.length = 8 * n)
    (h : ∀ p < n, ∀ k < 8, bits[8 * p + k]? = some ((b p).getMsbD k)) : bytes bits = (List.range n).map b := by
  rw [bytes, hlen, Nat.mul_div_cancel_left n (by decide)]
  refine List.map_congr_left fun p hp => BitVec.eq_of_getMsbD_eq fun k hk => ?_
  have hbit := h p (List.mem_range.1 hp) k hk
  rw [BitVec.getMsbD_setWidth, BitVec.getMsbD_ofBoolListBE]
  simp [hk, hbit]

/-- Eight times the same bit. -/
def spread (v : Bool) : BitVec 8 := if v then 255#8 else 0#8

theorem getMsbD_spread (v : Bool) {k : Nat} (hk : k < 8) : (spread v).getMsbD k = v := by
  cases v
  · simp [spread]
  · exact (by decide : ∀ k < 8, (spread true).getMsbD k = true) k hk

theorem getLsbD_spread (v : Bool) : (spread v).getLsbD 0 = v := by
  cases v <;> rfl

/-- What a receiver makes of the slots of a position: the byte that is sent, or eight times the level of the lane. -/
def received (byte : Nat → Option (BitVec 8)) (start : Bool) (p : Nat) : BitVec 8 :=
  (byte p).getD (spread (tailLevel byte start p))

theorem bytes_held (byte : Nat → Option (BitVec 8)) (start : Bool) (n : Nat) :
    bytes ((List.range (8 * n)).map fun k => held (byteDrive byte) start (k + 1)) =
      (List.range n).map (received byte start) := by
  refine bytes_eq_map (by simp) fun p hp k hk => ?_
  rw [List.getElem?_map, List.getElem?_range (by omega), Option.map_some, received]
  cases hb : byte p with
  | some b => rw [held_byte hb start hk]; rfl
  | none => rw [held_tail hb start hk, Option.getD_none, getMsbD_spread _ hk]

/-- The lane keeps the last bit of what has been received. -/
theorem tailLevel_succ (byte : Nat → Option (BitVec 8)) (start : Bool) (p : Nat) :
    tailLevel byte start (p + 1) = (received byte start p).getLsbD 0 := by
  rw [tailLevel, received]
  cases byte p with
  | some b => rfl
  | none => exact (getLsbD_spread _).symm

/-- Where there are no bytes, the lane keeps its level. -/
theorem tailLevel_add {byte : Nat → Option (BitVec 8)} {start : Bool} {p : Nat} :
    ∀ {j : Nat}, (∀ i < j, byte (p + i) = none) → tailLevel byte start (p + j) = tailLevel byte start p
  | 0, _ => rfl
  | j + 1, h => by
    rw [← Nat.add_assoc, tailLevel, h j (by omega)]
    exact tailLevel_add fun i hi => h i (by omega)

/-- Bytes that have not been set are received as zero if and only if the lane is low in front of them. -/
theorem received_eq_getD_iff {byte : Nat → Option (BitVec 8)} {start : Bool} {p : Nat} :
    received byte start p = (byte p).getD 0#8 ↔ (byte p = none → tailLevel byte start p = false) := by
  rw [received]
  cases byte p with
  | some b => exact iff_of_true rfl fun h => (by cases h)
  | none => cases tailLevel byte start p <;> simp [spread]

/-- Behind the last byte, the last bit that has been received is repeated. -/
theorem received_behind {byte : Nat → Option (BitVec 8)} {n : Nat} (h : ∀ p, n ≤ p → byte p = none) (start : Bool)
    {p : Nat} (hp : n ≤ p) : received byte start p =
      spread ((((List.range n).map (received byte start)).getLast?.map fun b => b.getLsbD 0).getD start) := by
  obtain ⟨j, rfl⟩ := Nat.exists_eq_add_of_le hp
  rw [received, h _ hp, Option.getD_none, tailLevel_add fun i _ => h _ (Nat.le_add_right n i)]
  cases n with
  | zero => rfl
  | succ n =>
    rw [tailLevel_succ, List.range_succ, List.map_append, List.map_singleton, List.getLast?_concat]
    rfl

end Waveform
