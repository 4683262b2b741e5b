import Mathlib.Order.Bounds.Basic
import Spixels.RpiDma

/-!
# What the mailbox has granted

`UncachedMemBlock_alloc` asks the driver for memory and then for the bus address of that memory.  A request that
fails leaves its argument in the reply slot, so a failed allocation goes on with the size for a handle and a failed
lock with the handle for an address; the assertion at the end only sees whether the last word is zero.  The driver
is told the size in a word of 32 bits, and a larger block is mapped and locked only in part.  The call is right about
all this for just the sizes and answers in `Checked`: `grantedOnly_iff`.
-/

namespace Spixels

/-- The message of `mem_alloc`. -/
def memAllocRequest (size align flags : BitVec 32) : List (BitVec 32) :=
  [36#32, 0#32, 0x3000c#32, 12#32, 12#32, size, align, flags, 0#32]

/-- The message of `mem_lock`. -/
def memLockRequest (handle : BitVec 32) : List (BitVec 32) :=
  [28#32, 0#32, 0x3000d#32, 4#32, 4#32, handle, 0#32]

/-- A failed request is answered by its own argument. -/
theorem getD_mboxProperty (mbox : Mbox) {p : List (BitVec 32)} (hp : 5 < p.length) :
    (mboxProperty mbox p).getD 5 0#32 = (mbox p).getD (p.getD 5 0#32) := by
  unfold mboxProperty
  cases mbox p with
  | none => rfl
  | some reply => simp [List.getD_eq_getElem?_getD, hp]

theorem memAlloc_eq (mbox : Mbox) (size align flags : BitVec 32) :
    memAlloc mbox size align flags = (mbox (memAllocRequest size align flags)).getD size :=
  getD_mboxProperty mbox (by decide : 5 < 9)

theorem memLock_eq (mbox : Mbox) (handle : BitVec 32) :
    memLock mbox handle = (mbox (memLockRequest handle)).getD handle :=
  getD_mboxProperty mbox (by decide : 5 < 7)

/-- The word in which the driver is told the size. -/
def askedFor (size : Nat) : BitVec 32 := BitVec.ofNat 32 (roundUpToPage size)

def allocAnswer (mbox : Mbox) (size : Nat) : Option (BitVec 32) :=
  mbox (memAllocRequest (askedFor size) (BitVec.ofNat 32 pageSize) memFlagL1Nonallocating)

def lockAnswer (mbox : Mbox) (handle : BitVec 32) : Option (BitVec 32) := mbox (memLockRequest handle)

/-- The block is one that the driver has allocated and locked, of the size asked for in whole pages, and that is
the size that the driver has been told. -/
structure Granted (mbox : Mbox) (size : Nat) (blk : UncachedMemBlock) : Prop where
  asked : (askedFor size).toNat = blk.size
  alloc : allocAnswer mbox size = some blk.memHandle
  handle : blk.memHandle ≠ 0#32
  lock : lockAnswer mbox blk.memHandle = some blk.busAddr
  busAddr : blk.busAddr ≠ 0#32
  size : IsLeast {n | size ≤ n ∧ pageSize ∣ n} blk.size

/-- Only blocks that have been granted are returned, after their memory has been zeroed; without one the call stops
at an assertion and zeroes nothing. -/
structure GrantedOnly (mbox : Mbox) (size : Nat) : Prop where
  returns : ∀ blk, (uncachedMemBlockAllocTrace mbox size).2 = .ok blk → Granted mbox size blk
  zeroes : ∀ base n, .memset base n ∈ (uncachedMemBlockAllocTrace mbox size).1 →
    ∃ blk, (uncachedMemBlockAllocTrace mbox size).2 = .ok blk
  stops : ∀ e, (uncachedMemBlockAllocTrace mbox size).2 = .error e → e = .assertion

/-- The answers for which the check of the last word is enough. -/
def Checked (mbox : Mbox) (size : Nat) : Prop :=
  match allocAnswer mbox size with
  | none =>
    match lockAnswer mbox (askedFor size) with
    | none => askedFor size = 0#32
    | some a => a = 0#32
  | some h =>
    if h = 0#32 then lockAnswer mbox h = none ∨ lockAnswer mbox h = some 0#32
    else ∃ a, lockAnswer mbox h = some a ∧ (a = 0#32 ∨ size + pageSize ≤ 2 ^ 32)

/-! ### Rounding -/

/-- Up to the last whole page below `2^32` the size is the least that will do, and the driver is told it. -/
theorem isLeast_roundUpToPage {size : Nat} (hsize : size + pageSize ≤ 2 ^ 32) :
    roundUpToPage size < 2 ^ 32 ∧ IsLeast {n | size ≤ n ∧ pageSize ∣ n} (roundUpToPage size) := by
  unfold pageSize at *
  have hle : size ≤ roundUpToPage size ∧ roundUpToPage size % 4096 = 0 ∧ roundUpToPage size < size + 4096 := by
    unfold roundUpToPage pageSize
    split <;> omega
  refine ⟨by omega, ⟨hle.1, Nat.dvd_of_mod_eq_zero hle.2.1⟩, fun n ⟨hn, hdvd⟩ => ?_⟩
  have := Nat.mod_eq_zero_of_dvd hdvd
  omega

/-- Beyond it the rounded size does not fit the word, or, at the end of `size_t`, has wrapped around. -/
theorem not_isLeast_roundUpToPage {size : Nat} (hbig : ¬size + pageSize ≤ 2 ^ 32) (hsize : size < 2 ^ 64)
    (hword : roundUpToPage size < 2 ^ 32) : ¬IsLeast {n | size ≤ n ∧ pageSize ∣ n} (roundUpToPage size) := by
  intro h
  have hle := h.1.1
  unfold roundUpToPage pageSize at hle hword
  unfold pageSize at hbig
  split at hle <;> rename_i hmod <;> simp only [hmod, ↓reduceIte] at hword <;> omega

theorem toNat_askedFor (size : Nat) : (askedFor size).toNat = roundUpToPage size % 2 ^ 32 := BitVec.toNat_ofNat ..

/-! ### The answers -/

section Answers

variable {mbox : Mbox} {size : Nat}

/-- The call, with the word `h` it takes for the handle and the word `a` it takes for the bus address. -/
theorem trace_eq {h a : BitVec 32} (hh : (allocAnswer mbox size).getD (askedFor size) = h)
    (ha : (lockAnswer mbox h).getD h = a) :
    uncachedMemBlockAllocTrace mbox size =
      if a = 0#32 then ([.mapmem (busToPhys a) (askedFor size)], .error .assertion)
      else ([.mapmem (busToPhys a) (askedFor size), .memset (busToPhys a) (roundUpToPage size)],
        if roundUpToPage size ≤ (askedFor size).toNat then
          .ok { busAddr := a, memHandle := h, size := roundUpToPage size }
        else .error .outOfBounds) := by
  have hh' : memAlloc mbox (BitVec.ofNat 32 (roundUpToPage size)) (BitVec.ofNat 32 pageSize)
      memFlagL1Nonallocating = h := (memAlloc_eq ..).trans hh
  have ha' : memLock mbox h = a := (memLock_eq ..).trans ha
  simp only [uncachedMemBlockAllocTrace, hh', ha']
  rfl

/-- A call that stops at the assertion is in order, and one that goes on is if it returns a block that has been
granted. -/
theorem grantedOnly_iff_of_eq {h a : BitVec 32} (hh : (allocAnswer mbox size).getD (askedFor size) = h)
    (ha : (lockAnswer mbox h).getD h = a) :
    GrantedOnly mbox size ↔
      a = 0#32 ∨ Granted mbox size { busAddr := a, memHandle := h, size := roundUpToPage size } := by
  have htrace := trace_eq hh ha
  by_cases ha0 : a = 0#32
  · rw [if_pos ha0] at htrace
    refine iff_of_true ⟨fun blk hblk => ?_, fun base n hmem => ?_, fun e he => ?_⟩ (.inl ha0)
    · rw [htrace] at hblk; cases hblk
    · rw [htrace] at hmem; simp at hmem
    · rw [htrace] at he; cases he; rfl
  · rw [if_neg ha0] at htrace
    rw [or_iff_right ha0]
    by_cases hword : roundUpToPage size ≤ (askedFor size).toNat
    · rw [if_pos hword] at htrace
      refine ⟨fun hg => hg.returns _ (by rw [htrace]), fun hg =>
        ⟨fun blk hblk => ?_, fun base n _ => ?_, fun e he => ?_⟩⟩
      · rw [htrace] at hblk; cases hblk; exact hg
      · exact ⟨_, by rw [htrace]⟩
      · rw [htrace] at he; cases he
    · -- the memory behind the mapping is zeroed too
      rw [if_neg hword] at htrace
      refine iff_of_false (fun hg => ?_) fun hg => hword hg.asked.ge
      obtain ⟨blk, hblk⟩ := hg.zeroes (busToPhys a) (roundUpToPage size) (by rw [htrace]; simp)
      rw [htrace] at hblk; cases hblk

/-- A block of the rounded size has been granted if both requests have, and the rounded size fits their word. -/
theorem granted_iff (hsize : size < 2 ^ 64) {h a : BitVec 32} :
    Granted mbox size { busAddr := a, memHandle := h, size := roundUpToPage size } ↔
      (allocAnswer mbox size = some h ∧ h ≠ 0#32) ∧ (lockAnswer mbox h = some a ∧ a ≠ 0#32) ∧
        size + pageSize ≤ 2 ^ 32 := by
  constructor
  · rintro ⟨hasked, halloc, h0, hlock, ha0, hleast⟩
    have hmod : roundUpToPage size % 2 ^ 32 = roundUpToPage size := (toNat_askedFor size).symm.trans hasked
    have hword : roundUpToPage size < 2 ^ 32 := by omega
    exact ⟨⟨halloc, h0⟩, ⟨hlock, ha0⟩, by_contra fun hbig => not_isLeast_roundUpToPage hbig hsize hword hleast⟩
  · rintro ⟨⟨halloc, h0⟩, ⟨hlock, ha0⟩, hle⟩
    obtain ⟨hword, hleast⟩ := isLeast_roundUpToPage hle
    exact ⟨by rw [toNat_askedFor, Nat.mod_eq_of_lt hword], halloc, h0, hlock, ha0, hleast⟩

/-- Whatever the driver answers, no memory but that of a granted block is handed out or zeroed if and only if the
size and the answers are such that the check sees every failure. -/
theorem grantedOnly_iff (mbox : Mbox) {size : Nat} (hsize : size < 2 ^ 64) :
    GrantedOnly mbox size ↔ Checked mbox size := by
  rcases halloc : allocAnswer mbox size with _ | h
  · rw [grantedOnly_iff_of_eq (h := askedFor size) (by rw [halloc]; rfl) rfl, granted_iff hsize, Checked, halloc]
    rcases lockAnswer mbox (askedFor size) with _ | a <;> simp
  · rw [grantedOnly_iff_of_eq (h := h) (by rw [halloc]; rfl) rfl, granted_iff hsize, Checked, halloc]
    by_cases h0 : h = 0#32
    · subst h0
      rcases hlock : lockAnswer mbox 0#32 with _ | a <;> simp [hlock]
    · rcases hlock : lockAnswer mbox h with _ | a
      · simp [h0, hlock]
      · by_cases ha0 : a = 0#32 <;> simp [h0, hlock, ha0]

/-- A driver that grants everything. -/
theorem grantedOnly_granting : GrantedOnly (fun _ => some 0xC0001000#32) 5000 :=
  (grantedOnly_iff (fun _ => some 0xC0001000#32) (by decide)).2 ⟨0xC0001000#32, rfl, .inr (by decide)⟩

/-- A driver that refuses everything: the size is taken for an address, and a page of foreign memory is zeroed. -/
theorem not_grantedOnly_refusing :
    ¬GrantedOnly (fun _ => none) 4096 ∧
      (uncachedMemBlockAllocTrace (fun _ => none) 4096).1 = [.mapmem 4096#32 4096#32, .memset 4096#32 4096] := by
  refine ⟨fun h => ?_, by decide⟩
  have := (h.returns ⟨4096#32, 4096#32, 4096⟩ (by decide)).alloc
  cases this

/-- A driver that grants everything is asked for one page only, but zeroed are `2^32` bytes more. -/
example : ¬GrantedOnly (fun _ => some 0xC0001000#32) (2 ^ 32 + 4096) := by
  intro h
  cases h.stops .outOfBounds (by decide)

end Answers

end Spixels
