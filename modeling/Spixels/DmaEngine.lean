import Mathlib.Data.BitVec
import Mathlib.Data.List.Basic

/-!
# A scatter/gather DMA engine in 2D mode

The engine reads a control block of six words from the bus, moves its rows one after the other, and goes on with
the block at `next` until that address is zero.  A block has `yLength + 1` rows of `xLength` bytes; inside a row
the addresses advance if the block says so, and after each row the signed strides are added.

`follow` walks a chain with fuel; a walk that visits the blocks of a list in order is recognised by `follow_eq`.
What is assumed of the controller beyond that is listed in `DmaChannel`.
-/

namespace DmaEngine

structure ControlBlock where
  ti : BitVec 32
  src : BitVec 32
  dst : BitVec 32
  length : BitVec 32
  stride : BitVec 32
  next : BitVec 32
deriving DecidableEq, Repr

namespace ControlBlock

def twoD (cb : ControlBlock) : Bool := cb.ti.getLsbD 1

def destInc (cb : ControlBlock) : Bool := cb.ti.getLsbD 4

def srcInc (cb : ControlBlock) : Bool := cb.ti.getLsbD 8

def xLength (cb : ControlBlock) : Nat := (cb.length.extractLsb' 0 16).toNat

def yLength (cb : ControlBlock) : Nat := (cb.length.extractLsb' 16 14).toNat

def srcStride (cb : ControlBlock) : BitVec 32 := (cb.stride.extractLsb' 0 16).signExtend 32

def dstStride (cb : ControlBlock) : BitVec 32 := (cb.stride.extractLsb' 16 16).signExtend 32

end ControlBlock

/-- One row: `len` bytes from `src` to `dst`. -/
structure Row where
  src : BitVec 32
  dst : BitVec 32
  len : Nat
deriving DecidableEq, Repr

/-- How far an address moves over a row. -/
def advance (inc : Bool) (len : Nat) (stride : BitVec 32) : BitVec 32 :=
  (if inc then BitVec.ofNat 32 len else 0#32) + stride

def rowsFrom (cb : ControlBlock) : Nat → BitVec 32 → BitVec 32 → List Row
  | 0, _, _ => []
  | n + 1, src, dst =>
    ⟨src, dst, cb.xLength⟩ ::
      rowsFrom cb n (src + advance cb.srcInc cb.xLength cb.srcStride)
        (dst + advance cb.destInc cb.xLength cb.dstStride)

/-- The rows of a block in 2D mode. -/
def rows (cb : ControlBlock) : List Row := rowsFrom cb (cb.yLength + 1) cb.src cb.dst

/-- The words a row moves, as pairs of source and destination address. -/
def Row.words (cb : ControlBlock) (r : Row) : List (BitVec 32 × BitVec 32) :=
  (List.range (r.len / 4)).map fun k =>
    (r.src + (if cb.srcInc then BitVec.ofNat 32 (4 * k) else 0#32),
      r.dst + (if cb.destInc then BitVec.ofNat 32 (4 * k) else 0#32))

/-- The control block at the bus address `a`. -/
def fetch (read : BitVec 32 → BitVec 32) (a : BitVec 32) : ControlBlock :=
  { ti := read a, src := read (a + 4#32), dst := read (a + 8#32), length := read (a + 12#32)
    stride := read (a + 16#32), next := read (a + 20#32) }

/-- The addresses of the blocks of the chain that starts at `a`; `none` if there are more than `fuel`. -/
def follow (read : BitVec 32 → BitVec 32) : Nat → BitVec 32 → Option (List (BitVec 32))
  | 0, a => if a = 0#32 then some [] else none
  | fuel + 1, a => if a = 0#32 then some [] else (follow read fuel (fetch read a).next).map (a :: ·)

/-- Rows whose addresses move by fixed steps. -/
theorem rowsFrom_eq {cb : ControlBlock} {s d : BitVec 32} (hs : advance cb.srcInc cb.xLength cb.srcStride = s)
    (hd : advance cb.destInc cb.xLength cb.dstStride = d) (n : Nat) (src dst : BitVec 32) :
    rowsFrom cb n src dst =
      (List.range n).map fun k =>
        ⟨src + BitVec.ofNat 32 k * s, dst + BitVec.ofNat 32 k * d, cb.xLength⟩ := by
  induction n generalizing src dst with
  | zero => rfl
  | succ n ih =>
    rw [rowsFrom, ih, hs, hd, List.range_succ_eq_map, List.map_cons, List.map_map]
    congr 1
    · simp
    · apply List.map_congr_left
      intro k _
      have step : ∀ a x : BitVec 32, a + x + BitVec.ofNat 32 k * x = a + BitVec.ofNat 32 (k + 1) * x := by
        intro a x
        rw [BitVec.ofNat_add, BitVec.add_mul, BitVec.one_mul, BitVec.add_comm (_ * x) x, BitVec.add_assoc]
      simp only [Function.comp_apply, Nat.succ_eq_add_one, step]

/-- A chain whose blocks sit at the nonzero addresses `addr 0, …, addr (n - 1)` and are linked in this order. -/
theorem follow_eq (read : BitVec 32 → BitVec 32) (addr : Nat → BitVec 32) {n : Nat}
    (hne : ∀ i < n, addr i ≠ 0#32)
    (hnext : ∀ i < n, (fetch read (addr i)).next = if i + 1 < n then addr (i + 1) else 0#32) {fuel : Nat}
    (hf : n ≤ fuel) (hn : 0 < n) : follow read fuel (addr 0) = some ((List.range n).map addr) := by
  have walk : ∀ (m i fuel : Nat), i + m = n → m ≤ fuel →
      follow read fuel (if i < n then addr i else 0#32) = some ((List.range' i m).map addr) := by
    intro m
    induction m with
    | zero =>
      intro i fuel hi _
      rw [if_neg (by omega)]
      cases fuel <;> simp [follow]
    | succ m ih =>
      intro i fuel hi hm
      obtain ⟨fuel, rfl⟩ : ∃ f, fuel = f + 1 := ⟨fuel - 1, by omega⟩
      rw [if_pos (by omega), follow, if_neg (hne i (by omega)), hnext i (by omega),
        ih (i + 1) fuel (by omega) (by omega), List.range'_succ]
      rfl
  have := walk n 0 fuel (by omega) hf
  rwa [if_pos hn, ← List.range_eq_range'] at this

/-- Blocks of at most `m` items cover a range of `n` items, each once and in order. -/
theorem flatMap_chunks {β : Type*} (f : Nat → β) (m n c : Nat) :
    ((List.range c).flatMap fun j => (List.range (min m (n - m * j))).map fun k => f (m * j + k)) =
      (List.range (min n (m * c))).map f := by
  induction c with
  | zero => simp
  | succ c ih =>
    rw [List.range_succ, List.flatMap_append, ih, List.flatMap_singleton]
    have hsplit : min n (m * (c + 1)) = min n (m * c) + min m (n - m * c) := by rw [Nat.mul_succ]; omega
    rw [hsplit, List.range_add, List.map_append, List.map_map]
    congr 1
    by_cases h : m * c ≤ n
    · rw [Nat.min_eq_right h]; rfl
    · rw [show n - m * c = 0 by omega, Nat.min_zero]; rfl

end DmaEngine
