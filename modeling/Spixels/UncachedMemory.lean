import Spixels.SystemCalls
import Spixels.UncachedAlloc

/-!
# Uncached blocks and the system (`rpi-dma.c`, `mailbox.c`)

A block is memory that the firmware has allocated and locked, and a mapping of it.  `UncachedMemBlock_alloc` takes
all three, `UncachedMemBlock_free` gives them back, the mapping by the address and the length it has been made with:
`uncachedMemBlockAlloc_spec`, `uncachedMemBlockFree_spec`.
-/

namespace Spixels

/-- The message of `mem_free`. -/
def memFreeRequest (handle : BitVec 32) : List (BitVec 32) :=
  [28#32, 0#32, 0x3000f#32, 4#32, 4#32, handle, 0#32]

/-- The message of `mem_unlock`. -/
def memUnlockRequest (handle : BitVec 32) : List (BitVec 32) :=
  [28#32, 0#32, 0x3000e#32, 4#32, 4#32, handle, 0#32]

namespace Os

variable (os : Os)

def mboxOpen : Action Nat := do
  match ← os.openFile .vcio with
  | none => throw .exit
  | some fileDesc => return fileDesc

/-- The message buffer after the call. -/
def mboxProperty (fileDesc : Nat) (p : List (BitVec 32)) : Action (List (BitVec 32)) := do
  let reply ← os.ioctl fileDesc p
  return Spixels.mboxProperty (fun _ => reply) p

def memAlloc (fileDesc : Nat) (size align flags : BitVec 32) : Action (BitVec 32) := do
  return (← os.mboxProperty fileDesc (memAllocRequest size align flags)).getD 5 0#32

def memFree (fileDesc : Nat) (handle : BitVec 32) : Action (BitVec 32) := do
  return (← os.mboxProperty fileDesc (memFreeRequest handle)).getD 5 0#32

def memLock (fileDesc : Nat) (handle : BitVec 32) : Action (BitVec 32) := do
  return (← os.mboxProperty fileDesc (memLockRequest handle)).getD 5 0#32

def memUnlock (fileDesc : Nat) (handle : BitVec 32) : Action (BitVec 32) := do
  return (← os.mboxProperty fileDesc (memUnlockRequest handle)).getD 5 0#32

def mapmem (base size : BitVec 32) : Action Nat := do
  let offset := base.toNat % pageSize
  let base := base.toNat - offset
  let size := (size + BitVec.ofNat 32 offset).toNat
  match ← os.openFile .mem with
  | none => throw .exit
  | some memFd =>
    match ← os.mmap size memFd base with
    | none => throw .exit
    | some mem =>
      close memFd
      return mem + offset

/-- Addresses of a process are not negative as an `intptr_t`. -/
def unmapmem (addr : Nat) (size : BitVec 32) : Action Unit := do
  let offset := addr % pageSize
  let addr := addr - offset
  let size := (size + BitVec.ofNat 32 offset).toNat
  match ← os.munmap addr size with
  | true => return ()
  | false => throw .exit

/-- The first lines of `UncachedMemBlock_alloc`. -/
def ensureMbox : Action Nat := do
  match (← get).mboxFd with
  | some fd => return fd
  | none =>
    let fd ← os.mboxOpen
    modify fun s => { s with mboxFd := some fd }
    return fd

/-- The block, and its `mem`. -/
def uncachedMemBlockAlloc (size : Nat) : Action (UncachedMemBlock × Nat) := do
  let fd ← os.ensureMbox
  let size := roundUpToPage size
  let size32 := BitVec.ofNat 32 size
  let memHandle ← os.memAlloc fd size32 (BitVec.ofNat 32 pageSize) memFlagL1Nonallocating
  let busAddr ← os.memLock fd memHandle
  let mem ← os.mapmem (busToPhys busAddr) size32
  if busAddr = 0#32 then throw (.fault .assertion)
  else if size ≤ size32.toNat then return ({ busAddr, memHandle, size }, mem)
  else throw (.fault .outOfBounds)

/-- `none` stands for a block whose `mem` is `NULL`. -/
def uncachedMemBlockFree : Option (UncachedMemBlock × Nat) → Action Unit
  | none => return ()
  | some (blk, mem) => do
    match (← get).mboxFd with
    | none => throw (.fault .assertion)
    | some fd =>
      os.unmapmem mem (BitVec.ofNat 32 blk.size)
      let _ ← os.memUnlock fd blk.memHandle
      let _ ← os.memFree fd blk.memHandle
      return ()

end Os

/-! ### What is behind a block -/

/-- The mapping that `unmapmem` gives back. -/
def mappingOf (mem : Nat) (size : BitVec 32) : Resource :=
  .mapping (mem - mem % pageSize) (size + BitVec.ofNat 32 (mem % pageSize)).toNat

def UncachedMemBlock.resources (blk : UncachedMemBlock) (mem : Nat) : Multiset Resource :=
  {mappingOf mem (BitVec.ofNat 32 blk.size), .lock blk.memHandle, .memory blk.memHandle}

/-- The open mailbox. -/
def Sys.mboxResources (s : Sys) : Multiset Resource := s.mboxFd.elim 0 fun fd => {.fd fd}

/-- Only memory that has been allocated is locked. -/
def LocksMemory (H : Multiset Resource) : Prop := ∀ handle, .lock handle ∈ H → .memory handle ∈ H

section Messages

variable {reply : Option (BitVec 32)} {handle : BitVec 32}

theorem mailboxMove_alloc {size align flags : BitVec 32}
    (h : mailboxMove (memAllocRequest size align flags) reply ≠ none) :
    mailboxMove (memAllocRequest size align flags) reply = some (.take (.memory (reply.getD size))) := by
  cases reply with
  | none => exact absurd rfl h
  | some w => by_cases hw : w = 0#32 <;> simp_all [mailboxMove, memAllocRequest]

theorem mailboxMove_lock (h : mailboxMove (memLockRequest handle) reply ≠ none) :
    mailboxMove (memLockRequest handle) reply = some (.take (.lock handle)) := by
  cases reply with
  | none => exact absurd rfl h
  | some w => by_cases hw : w = 0#32 <;> simp_all [mailboxMove, memLockRequest]

theorem mailboxMove_unlock (h : mailboxMove (memUnlockRequest handle) reply ≠ none) :
    mailboxMove (memUnlockRequest handle) reply = some (.give (.lock handle)) := by
  cases reply with
  | none => exact absurd rfl h
  | some w => by_cases hw : w = 0#32 <;> simp_all [mailboxMove, memUnlockRequest]

theorem mailboxMove_free (h : mailboxMove (memFreeRequest handle) reply ≠ none) :
    mailboxMove (memFreeRequest handle) reply = some (.give (.memory handle)) := by
  cases reply with
  | none => exact absurd rfl h
  | some w => by_cases hw : w = 0#32 <;> simp_all [mailboxMove, memFreeRequest]

end Messages

namespace Os

open Spixels.Action (bind_eq_ok pure_eq_ok)

variable {os : Os} {s t : Sys} {H : Multiset Resource} {fd : Nat} {r handle : BitVec 32}

/-- What a function of the mailbox returns: the reply, or its argument if there is none. -/
theorem mboxWord_spec {p : List (BitVec 32)} (hp : 5 < p.length)
    (h : (do return (← os.mboxProperty fd p).getD 5 0#32 : Action (BitVec 32)) s = .ok (r, t)) :
    r = (os.answers s.log fd p).getD (p.getD 5 0#32) ∧ t = s.record (.ioctl fd p (os.answers s.log fd p)) := by
  rw [← getD_mboxProperty (fun _ => os.answers s.log fd p) hp]
  cases h
  exact ⟨rfl, rfl⟩

theorem memAlloc_spec (hos : os.Fresh) (hs : s.Holds H) {size align flags : BitVec 32}
    (h : os.memAlloc fd size align flags s = .ok (r, t)) : t.Holds (.memory r ::ₘ H) ∧ s.Asks t := by
  obtain ⟨rfl, rfl⟩ := mboxWord_spec (p := memAllocRequest size align flags) (by decide : 5 < 9) h
  exact ⟨hs.take mailboxMove_alloc fun hgranted he _ => he ▸ hos.answers _ _ _ _ (mailboxMove_alloc hgranted),
    s.asks_record _⟩

theorem memLock_spec (hs : s.Holds H) (hlock : H.Nodup → .lock handle ∉ H)
    (h : os.memLock fd handle s = .ok (r, t)) : t.Holds (.lock handle ::ₘ H) ∧ s.Asks t := by
  obtain ⟨-, rfl⟩ := mboxWord_spec (p := memLockRequest handle) (by decide : 5 < 7) h
  exact ⟨hs.take mailboxMove_lock fun _ _ => hlock, s.asks_record _⟩

theorem memUnlock_spec (hs : s.Holds (.lock handle ::ₘ H)) (h : os.memUnlock fd handle s = .ok (r, t)) :
    t.Holds H ∧ s.Asks t := by
  obtain ⟨-, rfl⟩ := mboxWord_spec (p := memUnlockRequest handle) (by decide : 5 < 7) h
  exact ⟨hs.give mailboxMove_unlock, s.asks_record _⟩

theorem memFree_spec (hs : s.Holds (.memory handle ::ₘ H)) (h : os.memFree fd handle s = .ok (r, t)) :
    t.Holds H ∧ s.Asks t := by
  obtain ⟨-, rfl⟩ := mboxWord_spec (p := memFreeRequest handle) (by decide : 5 < 7) h
  exact ⟨hs.give mailboxMove_free, s.asks_record _⟩

/-- Wherever in a page the memory begins, `unmapmem` finds the mapping again. -/
theorem mapmem_spec (hos : os.Fresh) (hs : s.Holds H) {base size : BitVec 32} {mem : Nat}
    (h : os.mapmem base size s = .ok (mem, t)) : t.Holds (mappingOf mem size ::ₘ H) ∧ s.Asks t := by
  obtain ⟨memFd, s₁, hopen, h⟩ := bind_eq_ok.1 h
  obtain ⟨hs₁, hasks₁⟩ := openFile_spec hos hs hopen
  cases memFd with
  | none => cases h
  | some memFd =>
    obtain ⟨addr, s₂, hmap, h⟩ := bind_eq_ok.1 h
    obtain ⟨hs₂, hpage, hasks₂⟩ := mmap_spec hos hs₁ hmap
    cases addr with
    | none => cases h
    | some addr =>
      obtain ⟨u, s₃, hclose, h⟩ := bind_eq_ok.1 h
      obtain ⟨hs₃, hasks₃⟩ := close_spec ((congrArg s₂.Holds (Multiset.cons_swap _ _ _)).mpr hs₂) hclose
      cases pure_eq_ok.1 h
      have hoff : (addr + base.toNat % pageSize) % pageSize = base.toNat % pageSize := by
        rw [Nat.add_mod, hpage addr rfl, Nat.zero_add, Nat.mod_mod, Nat.mod_mod]
      refine ⟨?_, (hasks₁.trans hasks₂).trans hasks₃⟩
      rw [mappingOf, hoff, Nat.add_sub_cancel]
      exact hs₃

theorem unmapmem_spec {mem : Nat} {size : BitVec 32} (hs : s.Holds (mappingOf mem size ::ₘ H)) {u : Unit}
    (h : os.unmapmem mem size s = .ok (u, t)) : t.Holds H ∧ s.Asks t := by
  obtain ⟨done, s₁, hunmap, h⟩ := bind_eq_ok.1 h
  cases done with
  | false => cases h
  | true =>
    cases pure_eq_ok.1 h
    exact munmap_spec hs hunmap rfl

/-- The mailbox is opened once. -/
theorem ensureMbox_spec (hos : os.Fresh) (hs : s.Holds (s.mboxResources + H)) (h : os.ensureMbox s = .ok (fd, t)) :
    t.Holds (t.mboxResources + H) ∧ t.mboxFd = some fd ∧ s.log <+: t.log ∧ t.piModel = s.piModel ∧
      t.gpio = s.gpio := by
  obtain ⟨_, _, hget, h⟩ := bind_eq_ok.1 h
  cases hget
  cases hfd : s.mboxFd with
  | some fd' =>
    simp only [hfd] at h
    cases pure_eq_ok.1 h
    exact ⟨hs, hfd, List.prefix_refl _, rfl, rfl⟩
  | none =>
    simp only [hfd] at h
    obtain ⟨fd', s₁, hmbox, h⟩ := bind_eq_ok.1 h
    obtain ⟨r, s₂, hopen, hmbox⟩ := bind_eq_ok.1 hmbox
    rw [Sys.mboxResources, hfd, Option.elim_none, Multiset.zero_add] at hs
    obtain ⟨hs₂, hasks⟩ := openFile_spec hos hs hopen
    cases r with
    | none => cases hmbox
    | some r =>
      cases pure_eq_ok.1 hmbox
      obtain ⟨_, _, hmod, h⟩ := bind_eq_ok.1 h
      cases hmod
      cases pure_eq_ok.1 h
      exact ⟨hs₂, rfl, hasks.log, hasks.piModel, hasks.gpio⟩

theorem add_resources (M H : Multiset Resource) (blk : UncachedMemBlock) (mem : Nat) :
    M + (blk.resources mem + H) =
      mappingOf mem (BitVec.ofNat 32 blk.size) ::ₘ .lock blk.memHandle ::ₘ .memory blk.memHandle ::ₘ (M + H) := by
  rw [← Multiset.add_assoc, Multiset.add_comm M, Multiset.add_assoc, UncachedMemBlock.resources,
    Multiset.insert_eq_cons, Multiset.insert_eq_cons, Multiset.cons_add, Multiset.cons_add, Multiset.singleton_add]

/-- A block that is returned has been allocated, locked and mapped. -/
theorem uncachedMemBlockAlloc_spec (hos : os.Fresh) (hs : s.Holds (s.mboxResources + H)) (hlocks : LocksMemory H)
    {size mem : Nat} {blk : UncachedMemBlock} (h : os.uncachedMemBlockAlloc size s = .ok ((blk, mem), t)) :
    t.Holds (t.mboxResources + (blk.resources mem + H)) ∧ t.mboxFd.isSome ∧ s.log <+: t.log ∧
      t.piModel = s.piModel ∧ t.gpio = s.gpio ∧ ∃ mbox, Spixels.uncachedMemBlockAlloc mbox size = .ok blk := by
  obtain ⟨fd, s₁, hmbox, h⟩ := bind_eq_ok.1 h
  obtain ⟨hs₁, hfd, hlog₁, hpi, hgpio⟩ := ensureMbox_spec hos hs hmbox
  obtain ⟨handle, s₂, halloc, h⟩ := bind_eq_ok.1 h
  obtain ⟨hs₂, hasks₂⟩ := memAlloc_spec hos hs₁ halloc
  obtain ⟨busAddr, s₃, hlock, h⟩ := bind_eq_ok.1 h
  -- the handle is new, so there is no lock on it
  have hnew : (Resource.memory handle ::ₘ (s₁.mboxResources + H)).Nodup →
      .lock handle ∉ Resource.memory handle ::ₘ (s₁.mboxResources + H) := by
    intro hnodup hmem
    rw [Multiset.nodup_cons] at hnodup
    rw [Sys.mboxResources, hfd] at hmem hnodup
    simp only [Option.elim_some, Multiset.mem_cons, reduceCtorEq, Multiset.mem_add, Multiset.mem_singleton,
      false_or] at hmem hnodup
    exact hnodup.1 (hlocks _ hmem)
  obtain ⟨hs₃, hasks₃⟩ := memLock_spec hs₂ hnew hlock
  obtain ⟨mem', s₄, hmap, h⟩ := bind_eq_ok.1 h
  obtain ⟨hs₄, hasks₄⟩ := mapmem_spec hos hs₃ hmap
  have hasks := (hasks₂.trans hasks₃).trans hasks₄
  by_cases hzero : busAddr = 0#32
  · rw [if_pos hzero] at h; cases h
  · rw [if_neg hzero] at h
    have hfits : roundUpToPage size ≤ (BitVec.ofNat 32 (roundUpToPage size)).toNat := by
      by_contra hfits
      rw [if_neg hfits] at h; cases h
    rw [if_pos hfits] at h
    cases pure_eq_ok.1 h
    refine ⟨?_, by rw [hasks.mboxFd, hfd]; rfl, hlog₁.trans hasks.log, hasks.piModel.trans hpi,
      hasks.gpio.trans hgpio, ?_⟩
    · rw [add_resources, Sys.mboxResources, hasks.mboxFd]
      exact hs₄
    · obtain ⟨halloc, -⟩ := mboxWord_spec (p := memAllocRequest _ _ _) (by decide : 5 < 9) halloc
      obtain ⟨hlock, -⟩ := mboxWord_spec (p := memLockRequest _) (by decide : 5 < 7) hlock
      let mbox : Mbox := fun msg => if msg = memLockRequest handle then os.answers s₂.log fd (memLockRequest handle)
        else os.answers s₁.log fd msg
      have hhandle : Spixels.memAlloc mbox (BitVec.ofNat 32 (roundUpToPage size)) (BitVec.ofNat 32 pageSize)
          memFlagL1Nonallocating = handle := by
        rw [memAlloc_eq, show mbox (memAllocRequest ..) = _ from if_neg (by simp [memAllocRequest, memLockRequest])]
        exact halloc.symm
      have hbus : Spixels.memLock mbox handle = busAddr := by
        rw [memLock_eq, show mbox (memLockRequest handle) = _ from if_pos rfl]
        exact hlock.symm
      refine ⟨mbox, ?_⟩
      simp only [Spixels.uncachedMemBlockAlloc, uncachedMemBlockAllocTrace, hhandle, hbus, if_neg hzero, if_pos hfits]

/-- What is behind a block is given back. -/
theorem uncachedMemBlockFree_spec {block : Option (UncachedMemBlock × Nat)}
    (hs : s.Holds (s.mboxResources + ((block.elim 0 fun b => b.1.resources b.2) + H))) {u : Unit}
    (h : os.uncachedMemBlockFree block s = .ok (u, t)) : t.Holds (t.mboxResources + H) ∧ s.Asks t := by
  cases block with
  | none =>
    cases pure_eq_ok.1 h
    rw [Option.elim_none, Multiset.zero_add] at hs
    exact ⟨hs, List.prefix_refl _, rfl, rfl, rfl⟩
  | some block =>
    obtain ⟨blk, mem⟩ := block
    obtain ⟨_, _, hget, h⟩ := bind_eq_ok.1 h
    cases hget
    cases hfd : s.mboxFd with
    | none => simp only [hfd] at h; cases h
    | some fd =>
      simp only [hfd] at h
      rw [Option.elim_some, add_resources] at hs
      obtain ⟨_, s₁, hunmap, h⟩ := bind_eq_ok.1 h
      obtain ⟨hs₁, hasks₁⟩ := unmapmem_spec hs hunmap
      obtain ⟨_, s₂, hunlock, h⟩ := bind_eq_ok.1 h
      obtain ⟨hs₂, hasks₂⟩ := memUnlock_spec hs₁ hunlock
      obtain ⟨_, s₃, hfree, h⟩ := bind_eq_ok.1 h
      obtain ⟨hs₃, hasks₃⟩ := memFree_spec hs₂ hfree
      cases pure_eq_ok.1 h
      have hasks := (hasks₁.trans hasks₂).trans hasks₃
      refine ⟨?_, hasks⟩
      rw [Sys.mboxResources, hasks.mboxFd]
      exact hs₃

end Os

end Spixels
