import Mathlib.Algebra.BigOperators.Group.List.Basic
import Mathlib.Data.List.Perm.Basic
import Mathlib.Tactic.Abel
import Spixels.DmaHistory
import Spixels.Process

/-!
# The life of a process

Whatever objects a process makes, calls and deletes, and whatever the system answers:

* `owned_of_run`: what it holds is what its objects own, each thing once.  A deleted object has given back its block,
  and nothing is given back that is not held; the pages of registers are never given back, nor is the mailbox closed;
* `registers_of_run`: all pages of registers belong to the same board, the one that has been looked up first, and the
  DMA registers are never mapped from `/dev/gpiomem`;
* `after_of_run`: although all objects read and write the same GPIO registers, every object is what its own calls make
  of it, and every pin that any of them has configured stays an output.
-/

namespace Spixels

open Spixels.Action (bind_eq_ok pure_eq_ok ofExcept_eq_ok)
open Run (run map_eq_ok)

/-! ### Locks -/

theorem LocksMemory.add {H K : Multiset Resource} (hH : LocksMemory H) (hK : LocksMemory K) :
    LocksMemory (H + K) := by
  intro handle hmem
  rcases Multiset.mem_add.1 hmem with hmem | hmem
  · exact Multiset.mem_add.2 (.inl (hH handle hmem))
  · exact Multiset.mem_add.2 (.inr (hK handle hmem))

theorem Object.locksMemory_block (o : Object) : LocksMemory o.block := by
  intro handle hmem
  cases o with
  | direct spi port => cases hmem
  | dma o =>
    rw [Object.block] at hmem ⊢
    cases hal : o.spi.alloced with
    | none => rw [hal] at hmem; cases hmem
    | some blk =>
      rw [hal] at hmem
      simp only [Option.elim_some, UncachedMemBlock.resources, mappingOf, Multiset.insert_eq_cons, Multiset.mem_cons,
        Multiset.mem_singleton, reduceCtorEq, Resource.lock.injEq, Resource.memory.injEq, or_false, false_or]
        at hmem ⊢
      exact hmem

theorem Object.locksMemory_pages (o : Object) : LocksMemory o.pages := by
  intro handle hmem
  cases hr : o.registers <;> simp [Object.pages, registerPage, hr] at hmem

theorem Slot.locksMemory (s : Slot) : LocksMemory s.owned := by
  refine LocksMemory.add ?_ s.object.locksMemory_pages
  split
  · exact s.object.locksMemory_block
  · exact fun handle hmem => (by cases hmem)

theorem locksMemory_sum (slots : List Slot) : LocksMemory (slots.map Slot.owned).sum := by
  induction slots with
  | nil => exact fun handle hmem => (by cases hmem)
  | cons slot slots ih => exact slot.locksMemory.add ih

/-! ### Pages of registers -/

/-- The log has grown, and the model of the board is kept. -/
structure Sys.Later (s t : Sys) : Prop where
  log : s.log <+: t.log
  piModel : ∀ model, s.piModel = some model → t.piModel = some model

theorem Sys.Asks.later {s t : Sys} (h : s.Asks t) : s.Later t := ⟨h.log, fun _ hm => h.piModel.trans hm⟩

theorem Sys.Later.trans {s m t : Sys} (h : s.Later m) (h' : m.Later t) : s.Later t :=
  ⟨h.log.trans h'.log, fun model hm => h'.piModel model (h.piModel model hm)⟩

/-- The pages of the object are registers of the board. -/
def Object.Mapped (s : Sys) (o : Object) : Prop :=
  ∃ model, s.piModel = some model ∧ RegisterPage s.log model gpioRegisterOffset o.port ∧
    ∀ addr ∈ o.registers, RegisterPage s.log model dmaBase addr

theorem Object.Mapped.later {s t : Sys} {o : Object} (h : s.Later t) (hm : o.Mapped s) : o.Mapped t := by
  obtain ⟨model, hmodel, hport, hregisters⟩ := hm
  exact ⟨model, h.piModel model hmodel, hport.mono h.log, fun addr ha => (hregisters addr ha).mono h.log⟩

/-! ### Calls of a single object -/

namespace DMAMultiSPI

variable {env env' : Env} {s m t : DMAMultiSPI} {tr : Transfer}

theorem alloced_create {port : Nat → BitVec 32} {clk : Int} {bufferGarbage startGarbage : Nat}
    (h : create port clk bufferGarbage startGarbage = .ok s) : s.alloced = none := by
  unfold create at h
  dsimp only at h
  split at h
  · cases h; rfl
  · cases h

/-- Only a send takes a block. -/
theorem alloced_step {c : Call} (hc : c ≠ .sendBuffers) (h : s.step env c = .ok t) : t.alloced = s.alloced := by
  obtain ⟨⟨t', o⟩, hcall, rfl⟩ := map_eq_ok.1 h
  cases c with
  | registerDataGpio g n =>
    obtain ⟨r, hreg, he⟩ := map_eq_ok.1 hcall
    cases he
    unfold registerDataGpio at hreg
    split at hreg
    · obtain ⟨m, hm, rfl⟩ := map_eq_ok.1 hreg
      split at hm
      · obtain ⟨_, -, hm⟩ := Run.bind_eq_ok.1 hm
        obtain ⟨_, -, hm⟩ := Run.bind_eq_ok.1 hm
        cases hm
        rfl
      · cases hm; rfl
    · cases hreg
  | setBufferedByte g p b =>
    obtain ⟨r, hset, he⟩ := map_eq_ok.1 hcall
    cases he
    unfold setBufferedByte at hset
    split at hset
    · split at hset
      · cases hset
      · split at hset
        · cases hset; rfl
        · cases hset
    · cases hset
  | sendBuffers => exact absurd rfl hc

theorem gpioDma_finishRegistration (h : s.finishRegistration env = .ok t) : t.gpioDma ≠ none := by
  unfold finishRegistration at h
  split at h
  · obtain ⟨_, -, h⟩ := Run.bind_eq_ok.1 h
    obtain ⟨_, -, h⟩ := Run.bind_eq_ok.1 h
    obtain ⟨_, -, h⟩ := Run.bind_eq_ok.1 h
    obtain ⟨_, -, h⟩ := Run.bind_eq_ok.1 h
    obtain ⟨_, -, h⟩ := Run.bind_eq_ok.1 h
    cases h
    exact Option.some_ne_none _
  · cases h

theorem alloced_sendBuffers (hdma : s.gpioDma ≠ none) (h : s.sendBuffers env = .ok (t, tr)) :
    t.alloced = s.alloced := by
  obtain ⟨m, blk, dst, ops, hm, -, -, -, -, rfl, -⟩ := sendBuffers_inv h
  rw [prepareSend, if_neg hdma] at hm
  cases hm
  rfl

/-- A send after the registration has been finished separately. -/
theorem sendBuffers_of_prepared (hm : s.prepareSend env = .ok m) (hdma : m.gpioDma ≠ none)
    (h : m.sendBuffers env' = .ok (t, tr)) : s.sendBuffers env = .ok (t, tr) := by
  obtain ⟨m', hm', h⟩ := Run.bind_eq_ok.1 h
  rw [prepareSend, if_neg hdma] at hm'
  cases hm'
  exact Run.bind_eq_ok.2 ⟨m, hm, h⟩

end DMAMultiSPI

/-! ### Single objects -/

/-- But for the registers it has seen, the object is what its constructor and its own calls make of it, on whatever
registers that is, with what the heap and the mailbox had for each call. -/
def Object.After (e : Process.Event) (calls : List Call) : Object → Prop
  | direct spi _ => ∃ repeats clk made, e = .createDirect repeats clk ∧ made.map Prod.fst = calls ∧
      spi.MadeBy repeats clk made
  | dma o => ∃ clk bufferGarbage startGarbage made, e = .createDma clk bufferGarbage startGarbage ∧
      made.map Prod.fst = calls ∧ o.spi.MadeBy clk bufferGarbage startGarbage made

/-- The DMA registers are mapped together with the block. -/
def Object.Tidy : Object → Prop
  | direct _ _ => True
  | dma o => o.spi.alloced = none → o.registers = none

/-- What holds of an object in the system, beside what others own. -/
structure Object.Kept (o : Object) (H : Multiset Resource) (s : Sys) : Prop where
  holds : s.Holds (s.mboxResources + (o.block + o.pages + H))
  mapped : o.Mapped s
  tidy : o.Tidy

section Objects

variable {os : Os} {s t : Sys} {H : Multiset Resource}

theorem gpioInit_spec (hos : os.Fresh) (hs : s.Holds (s.mboxResources + H)) {port : Nat}
    (h : os.gpioInit s = .ok (some port, t)) :
    t.Holds (t.mboxResources + ({registerPage port} + H)) ∧ s.Later t ∧
      t.gpio = some (s.gpio.getD (os.registers t.log)) ∧ ∃ model,
        t.piModel = some model ∧ RegisterPage t.log model gpioRegisterOffset port := by
  obtain ⟨r, m, hmap, h⟩ := bind_eq_ok.1 h
  cases r with
  | none => cases pure_eq_ok.1 h
  | some port' =>
    obtain ⟨_, _, hmod, h⟩ := bind_eq_ok.1 h
    cases hmod
    cases pure_eq_ok.1 h
    obtain ⟨ht, hlog, hmbox, hgpio, model, hmodel, hsame, hpage⟩ := Os.mmapBcmRegister_spec hos hs hmap
    refine ⟨?_, ⟨hlog, fun m hm => hsame m hm ▸ hmodel⟩, ?_, model, hmodel, hpage port rfl⟩
    · rw [Sys.mboxResources, hmbox, Multiset.singleton_add, Multiset.add_cons]
      exact ht
    · exact congrArg (fun gpio => some (gpio.getD (os.registers m.log))) hgpio

theorem createDirect_spec (hos : os.Fresh) (hs : s.Holds (s.mboxResources + H)) {repeats clk : Int} {o : Object}
    (h : Object.createDirect os repeats clk s = .ok (o, t)) :
    o.Kept H t ∧ s.Later t ∧ t.gpio = some (Gpio.configure clk (s.gpio.getD (os.registers t.log))) ∧
      o.After (.createDirect repeats clk) [] := by
  obtain ⟨port, s₁, hinit, h⟩ := bind_eq_ok.1 h
  cases port with
  | none => cases h
  | some port =>
    obtain ⟨hs₁, hlater, hgpio, model, hmodel, hpage⟩ := gpioInit_spec hos hs hinit
    obtain ⟨_, _, hget, h⟩ := bind_eq_ok.1 h
    cases hget
    obtain ⟨_, _, hex, h⟩ := bind_eq_ok.1 h
    obtain ⟨spi', hcreate, he⟩ := ofExcept_eq_ok.1 hex
    cases he
    obtain ⟨_, _, hmod, h⟩ := bind_eq_ok.1 h
    cases hmod
    cases pure_eq_ok.1 h
    rw [Sys.page, hgpio, Option.getD_some] at hcreate
    obtain ⟨hmade, u, rfl⟩ := (DirectMultiSPI.exchangeable repeats clk).madeBy_create hcreate
    refine ⟨⟨?_, ⟨model, hmodel, hpage, fun addr ha => (by cases ha)⟩, trivial⟩,
      ⟨hlater.log, hlater.piModel⟩, rfl, repeats, clk, [], rfl, rfl, hmade⟩
    rw [Object.block, zero_add]
    exact hs₁

theorem createDma_spec (hos : os.Fresh) (hs : s.Holds (s.mboxResources + H)) {clk : Int}
    {bufferGarbage startGarbage : Nat} {o : Object}
    (h : Object.createDma os clk bufferGarbage startGarbage s = .ok (o, t)) :
    o.Kept H t ∧ s.Later t ∧ t.gpio = some (Gpio.configure clk (s.gpio.getD (os.registers t.log))) ∧
      o.After (.createDma clk bufferGarbage startGarbage) [] := by
  obtain ⟨port, s₁, hinit, h⟩ := bind_eq_ok.1 h
  cases port with
  | none => cases h
  | some port =>
    obtain ⟨hs₁, hlater, hgpio, model, hmodel, hpage⟩ := gpioInit_spec hos hs hinit
    obtain ⟨_, _, hget, h⟩ := bind_eq_ok.1 h
    cases hget
    obtain ⟨_, _, hex, h⟩ := bind_eq_ok.1 h
    obtain ⟨spi', hcreate, he⟩ := ofExcept_eq_ok.1 hex
    cases he
    obtain ⟨_, _, hmod, h⟩ := bind_eq_ok.1 h
    cases hmod
    cases pure_eq_ok.1 h
    rw [Sys.page, hgpio, Option.getD_some] at hcreate
    have hal := DMAMultiSPI.alloced_create hcreate
    obtain ⟨hmade, u, rfl⟩ := (DMAMultiSPI.exchangeable clk bufferGarbage startGarbage).madeBy_create hcreate
    refine ⟨⟨?_, ⟨model, hmodel, hpage, fun addr ha => (by cases ha)⟩, fun _ => rfl⟩,
      ⟨hlater.log, hlater.piModel⟩, rfl, clk, bufferGarbage, startGarbage, [], rfl, rfl, hmade⟩
    rw [Object.block, hal, Option.elim_none, zero_add]
    exact hs₁

/-- The first send of an object takes a block and a page of the DMA registers, and does to the object what the model
of a single one says. -/
theorem finishRegistration_spec (hos : os.Fresh) {o o' : DmaObject} (hk : (Object.dma o).Kept H s)
    (hH : LocksMemory H) (h : o.finishRegistration os s = .ok (o', t)) :
    (Object.dma o').Kept H t ∧ s.Later t ∧ t.gpio = s.gpio ∧
      ∃ env, o.spi.finishRegistration env = .ok o'.spi := by
  unfold DmaObject.finishRegistration at h
  split at h
  · rename_i hal
    obtain ⟨_, _, hex, h⟩ := bind_eq_ok.1 h
    obtain ⟨ops, hops, he⟩ := ofExcept_eq_ok.1 hex
    cases he
    obtain ⟨_, _, hex, h⟩ := bind_eq_ok.1 h
    obtain ⟨blocks, hblocks, he⟩ := ofExcept_eq_ok.1 hex
    cases he
    obtain ⟨_, _, hex, h⟩ := bind_eq_ok.1 h
    obtain ⟨size, hsize, he⟩ := ofExcept_eq_ok.1 hex
    cases he
    obtain ⟨⟨blk, addr⟩, s₁, halloc, h⟩ := bind_eq_ok.1 h
    obtain ⟨_, _, hex, h⟩ := bind_eq_ok.1 h
    obtain ⟨mem, hchain, he⟩ := ofExcept_eq_ok.1 hex
    cases he
    obtain ⟨registers, s₂, hmap, h⟩ := bind_eq_ok.1 h
    cases pure_eq_ok.1 h
    -- the object owns its first page, and no block yet
    have hpages : (Object.dma o).block + (Object.dma o).pages = {registerPage o.port} := by
      rw [Object.block, Object.pages, Object.registers, hal, hk.tidy hal]; exact zero_add _
    have hs := hk.holds
    rw [hpages] at hs
    have hlocks : LocksMemory ({registerPage o.port} + H) :=
      LocksMemory.add (hpages ▸ (Object.locksMemory_block _).add (Object.locksMemory_pages _)) hH
    obtain ⟨hs₁, -, hlog₁, hpi₁, hgpio₁, mbox, hmbox⟩ := Os.uncachedMemBlockAlloc_spec hos hs hlocks halloc
    obtain ⟨hs₂, hlog₂, hmboxFd, hgpio₂, model, hmodel, hsame, hpage⟩ := Os.mmapBcmRegister_spec hos hs₁ hmap
    have hlater₁ : s.Later s₁ := ⟨hlog₁, fun m hm => hpi₁.trans hm⟩
    have hlater₂ : s₁.Later t := ⟨hlog₂, fun m hm => hsame m hm ▸ hmodel⟩
    have hlater := hlater₁.trans hlater₂
    obtain ⟨m, hm, hport, -⟩ := hk.mapped.later hlater
    obtain rfl : m = model := Option.some_inj.1 (hm.symm.trans hmodel)
    refine ⟨⟨?_, ⟨m, hmodel, hport, hpage⟩, fun hnone => (by cases hnone)⟩, hlater, hgpio₂.trans hgpio₁,
      ⟨{ fresh := fun _ _ => GpioData.zero, mbox }, ?_⟩⟩
    · rw [Sys.mboxResources, hmboxFd]
      simp only [Object.block, Object.pages, Object.port, Object.registers, Option.elim_some]
      cases registers with
      | none =>
        have hsum : s₁.mboxResources + (blk.resources addr + registerPage o.port ::ₘ 0 + H) =
            s₁.mboxResources + (blk.resources addr + ({registerPage o.port} + H)) := by
          simp only [← Multiset.singleton_add]; abel
        exact (congrArg t.Holds hsum).mpr hs₂
      | some a =>
        have hsum : s₁.mboxResources + (blk.resources addr + registerPage o.port ::ₘ {registerPage a} + H) =
            registerPage a ::ₘ (s₁.mboxResources + (blk.resources addr + ({registerPage o.port} + H))) := by
          simp only [← Multiset.singleton_add]; abel
        exact (congrArg t.Holds hsum).mpr hs₂
    · unfold DMAMultiSPI.finishRegistration
      rw [if_pos hal]
      exact Run.bind_eq_ok.2 ⟨_, hops, Run.bind_eq_ok.2 ⟨_, hblocks, Run.bind_eq_ok.2 ⟨_, hsize,
        Run.bind_eq_ok.2 ⟨_, hmbox, Run.bind_eq_ok.2 ⟨_, hchain, rfl⟩⟩⟩⟩⟩
  · cases h

/-- Setting up the object otherwise makes no difference. -/
theorem Object.Kept.update {o : DmaObject} (hk : (Object.dma o).Kept H s) {spi : DMAMultiSPI}
    (hal : spi.alloced = o.spi.alloced) : (Object.dma { o with spi }).Kept H s where
  holds := by
    have hblock : (Object.dma { o with spi }).block = (Object.dma o).block := by rw [Object.block, hal]; rfl
    rw [hblock]
    exact hk.holds
  mapped := hk.mapped
  tidy hnone := hk.tidy (hal.symm.trans hnone)

theorem transfer_spec {heap : Heap} {o o' : DmaObject} (hk : (Object.dma o).Kept H s) (hdma : o.spi.gpioDma ≠ none)
    (h : o.transfer heap s = .ok (o', t)) :
    (Object.dma o').Kept H t ∧ s = t ∧ ∃ tr, o.spi.sendBuffers heap.env = .ok (o'.spi, tr) := by
  cases hr : o.registers with
  | none =>
    simp only [DmaObject.transfer, hr] at h
    cases h
  | some registers =>
    simp only [DmaObject.transfer, hr] at h
    obtain ⟨_, _, hex, h⟩ := bind_eq_ok.1 h
    obtain ⟨⟨spi, tr⟩, hsend, he⟩ := ofExcept_eq_ok.1 hex
    cases he
    cases pure_eq_ok.1 h
    have hk' := hk.update (DMAMultiSPI.alloced_sendBuffers hdma hsend)
    rw [hr] at hk'
    exact ⟨hk', rfl, tr, hsend⟩

/-- A call of an object does to it what the model of a single one says. -/
theorem dmaCall_spec (hos : os.Fresh) {heap : Heap} {o o' : DmaObject} (hk : (Object.dma o).Kept H s)
    (hH : LocksMemory H) {c : Call} (h : o.call os heap c s = .ok (o', t)) :
    (Object.dma o').Kept H t ∧ s.Later t ∧ t.gpio = s.gpio ∧ ∃ env, o.spi.step env c = .ok o'.spi := by
  cases c with
  | registerDataGpio g n =>
    obtain ⟨_, _, hex, h⟩ := bind_eq_ok.1 h
    obtain ⟨spi, hstep, he⟩ := ofExcept_eq_ok.1 hex
    cases he
    cases pure_eq_ok.1 h
    exact ⟨hk.update (DMAMultiSPI.alloced_step (by simp) hstep), ⟨List.prefix_refl _, fun _ hm => hm⟩, rfl,
      heap.env, hstep⟩
  | setBufferedByte g p b =>
    obtain ⟨_, _, hex, h⟩ := bind_eq_ok.1 h
    obtain ⟨spi, hstep, he⟩ := ofExcept_eq_ok.1 hex
    cases he
    cases pure_eq_ok.1 h
    exact ⟨hk.update (DMAMultiSPI.alloced_step (by simp) hstep), ⟨List.prefix_refl _, fun _ hm => hm⟩, rfl,
      heap.env, hstep⟩
  | sendBuffers =>
    by_cases hdma : o.spi.gpioDma = none
    · simp only [DmaObject.call, if_pos hdma] at h
      obtain ⟨m, s₁, hfinish, h⟩ := bind_eq_ok.1 h
      obtain ⟨hk₁, hlater, hgpio, env, henv⟩ := finishRegistration_spec hos hk hH hfinish
      have hdma₁ := DMAMultiSPI.gpioDma_finishRegistration henv
      obtain ⟨hk₂, rfl, tr, hsend⟩ := transfer_spec hk₁ hdma₁ h
      have hprepare : o.spi.prepareSend env = .ok m.spi := by rw [DMAMultiSPI.prepareSend, if_pos hdma]; exact henv
      have hall := DMAMultiSPI.sendBuffers_of_prepared hprepare hdma₁ hsend
      exact ⟨hk₂, hlater, hgpio, env, map_eq_ok.2 ⟨_, map_eq_ok.2 ⟨_, hall, rfl⟩, rfl⟩⟩
    · simp only [DmaObject.call, if_neg hdma] at h
      obtain ⟨m, s₁, hpure, h⟩ := bind_eq_ok.1 h
      cases pure_eq_ok.1 hpure
      obtain ⟨hk₂, rfl, tr, hsend⟩ := transfer_spec hk hdma h
      exact ⟨hk₂, ⟨List.prefix_refl _, fun _ hm => hm⟩, rfl, heap.env,
        map_eq_ok.2 ⟨_, map_eq_ok.2 ⟨_, hsend, rfl⟩, rfl⟩⟩

/-- A destructor gives back the block, and keeps the pages. -/
theorem delete_spec {o : Object} (hk : o.Kept H s) {u : Unit} (h : o.delete os s = .ok (u, t)) :
    t.Holds (t.mboxResources + (o.pages + H)) ∧ s.Later t ∧ t.gpio = s.gpio := by
  cases o with
  | direct spi port =>
    cases pure_eq_ok.1 h
    have hs := hk.holds
    rw [Object.block, zero_add] at hs
    exact ⟨hs, ⟨List.prefix_refl _, fun _ hm => hm⟩, rfl⟩
  | dma o =>
    have hs := hk.holds
    have hblock : (Object.dma o).block =
        (o.spi.alloced.map fun blk => (blk, o.mem)).elim 0 fun b => b.1.resources b.2 := by
      rw [Object.block]
      cases o.spi.alloced <;> rfl
    rw [hblock, add_assoc] at hs
    obtain ⟨ht, hasks⟩ := Os.uncachedMemBlockFree_spec hs h
    exact ⟨ht, hasks.later, hasks.gpio⟩

/-- A call changes the registers that it finds, and the object as if these were its own. -/
theorem call_spec (hos : os.Fresh) {heap : Heap} {o o' : Object} (hk : o.Kept H s) (hH : LocksMemory H) {c : Call}
    (h : o.call os heap c s = .ok (o', t)) :
    o'.Kept H t ∧ s.Later t ∧ ∀ e calls, o.After e calls →
      t.gpio = some (c.configure s.page) ∧ o'.After e (calls ++ [c]) := by
  cases o with
  | direct spi port =>
    obtain ⟨_, _, hget, h⟩ := bind_eq_ok.1 h
    cases hget
    obtain ⟨_, _, hex, h⟩ := bind_eq_ok.1 h
    obtain ⟨spi', hstep, he⟩ := ofExcept_eq_ok.1 hex
    cases he
    obtain ⟨_, _, hmod, h⟩ := bind_eq_ok.1 h
    cases hmod
    cases pure_eq_ok.1 h
    refine ⟨⟨hk.holds, hk.mapped, trivial⟩, ⟨List.prefix_refl _, fun _ hm => hm⟩, ?_⟩
    rintro e calls ⟨repeats, clk, made, he, rfl, hmade⟩
    obtain ⟨hmade', u, rfl⟩ := (DirectMultiSPI.exchangeable repeats clk).madeBy_step hmade hstep
    exact ⟨rfl, repeats, clk, made ++ [(c, heap.words)], he, by simp, hmade'⟩
  | dma o =>
    obtain ⟨_, _, hget, h⟩ := bind_eq_ok.1 h
    cases hget
    obtain ⟨o₁, s₁, hcall, h⟩ := bind_eq_ok.1 h
    obtain ⟨_, _, hmod, h⟩ := bind_eq_ok.1 h
    cases hmod
    cases pure_eq_ok.1 h
    have hseen := hk.update (show (o.spi.withPort s.page).alloced = o.spi.alloced from rfl)
    obtain ⟨hk₁, hlater, -, env, hstep⟩ := dmaCall_spec hos hseen hH hcall
    refine ⟨⟨hk₁.holds, hk₁.mapped, hk₁.tidy⟩, ⟨hlater.log, hlater.piModel⟩, ?_⟩
    rintro e calls ⟨clk, g, g', made, he, rfl, hmade⟩
    obtain ⟨hmade', u, hu⟩ := (DMAMultiSPI.exchangeable clk g g').madeBy_step hmade hstep
    exact ⟨congrArg (fun spi => some spi.gpio.registers) hu, clk, g, g', made ++ [(c, env)], he, by simp, hmade'⟩

end Objects

/-! ### The whole process -/

namespace Process

/-- The object that is called. -/
def Event.callOf (i : Nat) : Event → Option Call
  | .call j c _ => if j = i then some c else none
  | .createDirect _ _ | .createDma _ _ _ | .delete _ => none

/-- The calls of an object. -/
def callsOf (i : Nat) (es : List Event) : List Call := es.filterMap (Event.callOf i)

def Event.creates : Event → Bool
  | .createDirect _ _ | .createDma _ _ _ => true
  | .call _ _ _ | .delete _ => false

/-- The objects are numbered in the order in which they are made. -/
def creations (es : List Event) : List Event := es.filter Event.creates

/-- The pin that is passed to `AddOutput`. -/
def Event.adds : Event → Option Int
  | .createDirect _ clockGpio => some clockGpio
  | .createDma clockGpio _ _ => some clockGpio
  | .call _ c _ => c.adds
  | .delete _ => none

/-- The pins that have been passed to `AddOutput`, by whichever object. -/
def added (es : List Event) : List Int := es.filterMap Event.adds

/-- The GPIO registers have been mapped before anything else, and the function fields in the six registers of them are
those of that moment, but for the pins that have been passed to `AddOutput` and are accepted: these are outputs. -/
def Configured (os : Os) (es : List Event) (s : Sys) : Prop :=
  match s.gpio with
  | none => es = []
  | some registers => ∃ log, log <+: s.log ∧ ∀ r f, r < 6 → f < 10 → Gpio.function registers r f =
      if ((10 * r + f : Nat) : Int) ∈ added es ∧ Gpio.accepts (10 * r + f : Nat) = true then 1#3
      else Gpio.function (os.registers log) r f

structure Inv (os : Os) (es : List Event) (p : Process) : Prop where
  holds : p.sys.Holds p.owned
  mapped : ∀ slot ∈ p.objects, slot.object.Mapped p.sys
  tidy : ∀ slot ∈ p.objects, slot.object.Tidy
  count : p.objects.length = (creations es).length
  alone : ∀ (i : Nat) (slot : Slot), p.objects[i]? = some slot → ∀ e, (creations es)[i]? = some e →
    slot.object.After e (callsOf i es)
  unborn : ∀ i, p.objects.length ≤ i → callsOf i es = []
  configured : Configured os es p.sys

section Steps

variable {os : Os} {es : List Event} {p q : Process} {e : Event} {s t : Sys} {i : Nat} {slot slot' : Slot}

theorem callsOf_snoc (i : Nat) (es : List Event) (e : Event) :
    callsOf i (es ++ [e]) = callsOf i es ++ (e.callOf i).toList := by
  rw [callsOf, List.filterMap_append]
  cases he : e.callOf i <;> simp [callsOf, he]

/-- The rest of the objects, beside one of them. -/
theorem sum_owned {slots : List Slot} (hi : slots[i]? = some slot) :
    (slots.map Slot.owned).sum = slot.owned + ((slots.eraseIdx i).map Slot.owned).sum := by
  obtain ⟨hlt, rfl⟩ := List.getElem?_eq_some_iff.1 hi
  rw [← ((List.getElem_cons_eraseIdx_perm hlt).map Slot.owned).sum_eq, List.map_cons, List.sum_cons]

theorem inv_initial : Inv os [] initial where
  holds := Sys.holds_initial
  mapped slot hmem := by cases hmem
  tidy slot hmem := by cases hmem
  count := rfl
  alone i slot hi := by cases hi
  unborn i _ := rfl
  configured := rfl

/-- The registers after an event. -/
def Event.configure (e : Event) (port : Nat → BitVec 32) : Nat → BitVec 32 :=
  e.adds.elim port fun bit => Gpio.configure bit port

theorem Event.function_configure (e : Event) (port : Nat → BitVec 32) (r : Nat) {f : Nat} (hf : f < 10) :
    Gpio.function (e.configure port) r f =
      if e.adds = some ((10 * r + f : Nat) : Int) ∧ Gpio.accepts (10 * r + f : Nat) = true then 1#3
      else Gpio.function port r f := by
  cases hadds : e.adds with
  | none => simp [configure, hadds]
  | some bit =>
    rw [configure, hadds, Option.elim_some, Gpio.function_configure bit port r hf]
    by_cases hbit : bit = (10 * r + f : Nat)
    · simp only [hbit, and_true, true_and]
    · simp only [hbit, Option.some_inj, and_false, false_and]

/-- Whatever an event passes to `AddOutput`, all other fields stay. -/
theorem configured_snoc (hc : Configured os es s) (hlog : s.log <+: t.log)
    (ht : t.gpio = some (e.configure (s.gpio.getD (os.registers t.log)))) : Configured os (es ++ [e]) t := by
  -- what has been found before
  have hold : ∃ log, log <+: t.log ∧ ∀ r f, r < 6 → f < 10 →
      Gpio.function (s.gpio.getD (os.registers t.log)) r f =
        if ((10 * r + f : Nat) : Int) ∈ added es ∧ Gpio.accepts (10 * r + f : Nat) = true then 1#3
        else Gpio.function (os.registers log) r f := by
    unfold Configured at hc
    split at hc
    · rename_i hnone
      subst hc
      exact ⟨t.log, List.prefix_refl _, fun r f _ _ => by simp [hnone, added]⟩
    · rename_i registers hsome
      obtain ⟨log, hlog', hfields⟩ := hc
      exact ⟨log, hlog'.trans hlog, fun r f hr hf => by rw [hsome, Option.getD_some, hfields r f hr hf]⟩
  obtain ⟨log, hlog', hfields⟩ := hold
  rw [Configured, ht]
  refine ⟨log, hlog', fun r f hr hf => ?_⟩
  rw [e.function_configure _ r hf, hfields r f hr hf]
  generalize ((10 * r + f : Nat) : Int) = pin
  have hadded : pin ∈ added (es ++ [e]) ↔ pin ∈ added es ∨ e.adds = some pin := by
    simp [added, List.filterMap_append, List.mem_append]
  by_cases hnew : e.adds = some pin
  · by_cases ha : Gpio.accepts pin = true <;> simp [hadded, hnew, ha]
  · simp [hadded, hnew]

theorem inv_add (hi : Inv os es p) (he : e.creates = true) {o : Object}
    (hk : o.Kept (p.objects.map Slot.owned).sum t) (hlater : p.sys.Later t) (hafter : o.After e [])
    (hconf : Configured os (es ++ [e]) t) : Inv os (es ++ [e]) { sys := t, objects := p.objects ++ [⟨o, true⟩] } := by
  have hcalls : ∀ i, callsOf i (es ++ [e]) = callsOf i es := by
    intro i
    rw [callsOf_snoc]
    cases e with
    | createDirect | createDma => exact List.append_nil _
    | call | delete => cases he
  have hcreations : creations (es ++ [e]) = creations es ++ [e] := by simp [creations, he]
  refine ⟨?_, ?_, ?_, by simp [hcreations, hi.count], ?_, fun i hlen => ?_, hconf⟩
  · have hown := hk.holds
    rw [add_comm _ (List.sum _)] at hown
    simpa [owned, Slot.owned] using hown
  · intro slot hmem
    rcases List.mem_append.1 hmem with hmem | hmem
    · exact (hi.mapped slot hmem).later hlater
    · rw [List.mem_singleton.1 hmem]; exact hk.mapped
  · intro slot hmem
    rcases List.mem_append.1 hmem with hmem | hmem
    · exact hi.tidy slot hmem
    · rw [List.mem_singleton.1 hmem]; exact hk.tidy
  · intro i slot hslot e' he'
    rw [hcalls]
    rw [hcreations] at he'
    rcases Nat.lt_trichotomy i p.objects.length with hlt | rfl | hgt
    · rw [List.getElem?_append_left hlt] at hslot
      rw [List.getElem?_append_left (by rw [← hi.count]; exact hlt)] at he'
      exact hi.alone i slot hslot e' he'
    · rw [List.getElem?_concat_length] at hslot
      rw [hi.count, List.getElem?_concat_length] at he'
      cases hslot
      cases he'
      rw [hi.unborn _ (le_refl _)]
      exact hafter
    · rw [List.getElem?_eq_none (by simp; omega)] at hslot
      cases hslot
  · rw [hcalls]
    exact hi.unborn i (by simp at hlen; omega)

/-- An object is replaced. -/
theorem inv_set (hi : Inv os es p) (hslot : p.objects[i]? = some slot) (he : e.creates = false)
    (hother : ∀ j, j ≠ i → e.callOf j = none)
    (holds : t.Holds (t.mboxResources + (slot'.owned + ((p.objects.eraseIdx i).map Slot.owned).sum)))
    (hlater : p.sys.Later t) (hmapped : slot'.object.Mapped t) (htidy : slot'.object.Tidy)
    (hafter : ∀ e', slot.object.After e' (callsOf i es) → slot'.object.After e' (callsOf i (es ++ [e])))
    (hconf : Configured os (es ++ [e]) t) : Inv os (es ++ [e]) { sys := t, objects := p.objects.set i slot' } := by
  obtain ⟨hlt, -⟩ := List.getElem?_eq_some_iff.1 hslot
  have hcreations : creations (es ++ [e]) = creations es := by simp [creations, he]
  refine ⟨?_, ?_, ?_, by rw [List.length_set, hi.count, hcreations], ?_, fun j hlen => ?_, hconf⟩
  · rw [owned, sum_owned (List.getElem?_set_self hlt), List.eraseIdx_set_eq]
    exact holds
  · intro s hmem
    rcases List.mem_or_eq_of_mem_set hmem with hmem | rfl
    · exact (hi.mapped s hmem).later hlater
    · exact hmapped
  · intro s hmem
    rcases List.mem_or_eq_of_mem_set hmem with hmem | rfl
    · exact hi.tidy s hmem
    · exact htidy
  · intro j s hs e' he'
    rw [hcreations] at he'
    by_cases hj : j = i
    · subst hj
      rw [List.getElem?_set_self hlt] at hs
      cases hs
      exact hafter e' (hi.alone j slot hslot e' he')
    · rw [List.getElem?_set_ne (Ne.symm hj)] at hs
      rw [callsOf_snoc, hother j hj]
      exact (List.append_nil (callsOf j es)).symm ▸ hi.alone j s hs e' he'
  · rw [List.length_set] at hlen
    rw [callsOf_snoc, hother j (by omega), hi.unborn j hlen]
    rfl

theorem step_call_inv {c : Call} {heap : Heap} (h : p.step os (.call i c heap) = .ok q) :
    ∃ o o' t, p.objects[i]? = some ⟨o, true⟩ ∧ o.call os heap c p.sys = .ok (o', t) ∧
      q = { sys := t, objects := p.objects.set i ⟨o', true⟩ } := by
  simp only [step] at h
  split at h
  · rename_i o hslot
    obtain ⟨⟨o', t⟩, hcall, rfl⟩ := map_eq_ok.1 h
    exact ⟨o, o', t, hslot, hcall, rfl⟩
  · cases h
  · cases h

theorem step_delete_inv (h : p.step os (.delete i) = .ok q) :
    ∃ o u t, p.objects[i]? = some ⟨o, true⟩ ∧ o.delete os p.sys = .ok (u, t) ∧
      q = { sys := t, objects := p.objects.set i ⟨o, false⟩ } := by
  simp only [step] at h
  split at h
  · rename_i o hslot
    obtain ⟨⟨u, t⟩, hdelete, rfl⟩ := map_eq_ok.1 h
    exact ⟨o, u, t, hslot, hdelete, rfl⟩
  · cases h
  · cases h

theorem Inv.kept (hi : Inv os es p) {o : Object} (hslot : p.objects[i]? = some ⟨o, true⟩) :
    o.Kept ((p.objects.eraseIdx i).map Slot.owned).sum p.sys where
  holds := by
    have hown := hi.holds
    rw [owned, sum_owned hslot] at hown
    exact hown
  mapped := hi.mapped _ (List.mem_of_getElem? hslot)
  tidy := hi.tidy _ (List.mem_of_getElem? hslot)

/-- Where there is an object, the registers have been mapped. -/
theorem Inv.page_eq (hi : Inv os es p) (hslot : p.objects[i]? = some slot) (port : Nat → BitVec 32) :
    p.sys.gpio = some p.sys.page ∧ p.sys.gpio.getD port = p.sys.page := by
  cases hgpio : p.sys.gpio with
  | some registers => simp [Sys.page, hgpio]
  | none =>
    have hes : es = [] := by simpa only [Configured, hgpio] using hi.configured
    have hcount := hi.count
    rw [hes, creations, List.filter_nil, List.length_nil, List.length_eq_zero_iff] at hcount
    rw [hcount, List.getElem?_nil] at hslot
    cases hslot

theorem Inv.created (hi : Inv os es p) (hslot : p.objects[i]? = some slot) :
    ∃ e, (creations es)[i]? = some e ∧ slot.object.After e (callsOf i es) := by
  obtain ⟨hlt, -⟩ := List.getElem?_eq_some_iff.1 hslot
  have he := List.getElem?_eq_getElem (show i < (creations es).length by rw [← hi.count]; exact hlt)
  exact ⟨_, he, hi.alone i slot hslot _ he⟩

theorem inv_step (hos : os.Fresh) (hi : Inv os es p) (h : p.step os e = .ok q) : Inv os (es ++ [e]) q := by
  cases e with
  | createDirect repeats clk =>
    obtain ⟨⟨o, t⟩, hcreate, rfl⟩ := map_eq_ok.1 h
    obtain ⟨hk, hlater, hgpio, hafter⟩ := createDirect_spec hos hi.holds hcreate
    exact inv_add hi rfl hk hlater hafter (configured_snoc hi.configured hlater.log hgpio)
  | createDma clk bufferGarbage startGarbage =>
    obtain ⟨⟨o, t⟩, hcreate, rfl⟩ := map_eq_ok.1 h
    obtain ⟨hk, hlater, hgpio, hafter⟩ := createDma_spec hos hi.holds hcreate
    exact inv_add hi rfl hk hlater hafter (configured_snoc hi.configured hlater.log hgpio)
  | call i c heap =>
    obtain ⟨o, o', t, hslot, hcall, rfl⟩ := step_call_inv h
    obtain ⟨hk, hlater, hafter⟩ := call_spec hos (hi.kept hslot) (locksMemory_sum _) hcall
    obtain ⟨e, -, hold⟩ := hi.created hslot
    refine inv_set hi hslot rfl (fun j hj => if_neg (Ne.symm hj)) hk.holds hlater hk.mapped hk.tidy
      (fun e' hold => ?_) (configured_snoc hi.configured hlater.log ?_)
    · rw [callsOf_snoc, Event.callOf, if_pos rfl]
      exact (hafter e' _ hold).2
    · rw [(hi.page_eq hslot _).2]
      exact (hafter e _ hold).1
  | delete i =>
    obtain ⟨o, u, t, hslot, hdelete, rfl⟩ := step_delete_inv h
    have hkept := hi.kept hslot
    obtain ⟨holds, hlater, hgpio⟩ := delete_spec hkept hdelete
    refine inv_set hi hslot rfl (fun j _ => rfl) ?_ hlater (hkept.mapped.later hlater) hkept.tidy
      (fun e' hold => ?_) (configured_snoc hi.configured hlater.log ?_)
    · rw [Slot.owned, if_neg (by simp), zero_add]
      exact holds
    · rw [callsOf_snoc]
      exact (List.append_nil (callsOf i es)).symm ▸ hold
    · rw [(hi.page_eq hslot _).2, hgpio]
      exact (hi.page_eq hslot p.sys.page).1

theorem inv_of_run (hos : os.Fresh) (h : run (step os) initial es = .ok p) : Inv os es p :=
  Run.run_induct (Inv os) inv_initial (fun _ _ _ _ _ hi hstep => inv_step hos hi hstep) h

end Steps

/-! ### Results -/

/-- Two objects of the DMA backend and one of the direct one; the first is deleted between two sends of the last. -/
def threeObjects : List Event :=
  let heap : Heap := { words := fun _ _ => 0xFFFFFFFF#32, entries := fun _ _ => GpioData.zero }
  [.createDma 27 0 0, .call 0 (.registerDataGpio 18 1) heap, .call 0 (.setBufferedByte 18 0 5#8) heap,
    .call 0 .sendBuffers heap, .createDirect 8 27, .createDma 27 0 0, .call 2 (.registerDataGpio 23 1) heap,
    .call 1 (.registerDataGpio 18 1) heap, .call 2 .sendBuffers heap, .delete 0, .call 2 .sendBuffers heap]

theorem run_threeObjects :
    ∃ p, run (step Os.granting) initial threeObjects = .ok p ∧ ∀ c ∈ p.sys.log, c.Granted := by
  have hrun : (match run (step Os.granting) initial threeObjects with
      | .ok p => decide (∀ c ∈ p.sys.log, c.Granted)
      | .error _ => false) = true := by decide +kernel
  cases h : run (step Os.granting) initial threeObjects with
  | ok p => rw [h] at hrun; exact ⟨p, rfl, of_decide_eq_true hrun⟩
  | error e => rw [h] at hrun; cases hrun

/-- What a process holds is what its objects own, each thing once, and nothing has been given back that was not held:
deleted objects have given back their blocks, as often as they have taken them, and nobody else's. -/
theorem owned_of_run {os : Os} (hos : os.Fresh) {es : List Event} {p : Process}
    (h : run (step os) initial es = .ok p) (hgranted : ∀ c ∈ p.sys.log, c.Granted) :
    Ledger.Sound Syscall.move p.sys.log ∧ Ledger.held Syscall.move p.sys.log = p.owned ∧ p.owned.Nodup ∧
      ∀ r, p.sys.log.countP (fun c => c.move = some (.take r)) =
        p.sys.log.countP (fun c => c.move = some (.give r)) + p.owned.count r := by
  obtain ⟨hsound, hheld⟩ := (inv_of_run hos h).holds hgranted
  exact ⟨hsound, hheld, hheld ▸ hsound.nodup, fun r => hheld ▸ hsound.count_take r⟩

theorem owned_of_run_three_objects :
    ∃ p, run (step Os.granting) initial threeObjects = .ok p ∧ Ledger.Sound Syscall.move p.sys.log ∧
      Ledger.held Syscall.move p.sys.log = p.owned := by
  obtain ⟨p, hrun, hgranted⟩ := run_threeObjects
  obtain ⟨hsound, hheld, -⟩ := owned_of_run Os.fresh_granting hrun hgranted
  exact ⟨p, hrun, hsound, hheld⟩

/-- All pages of registers are those of one board, whatever `/proc/cpuinfo` says later, and the DMA registers come
from `/dev/mem`. -/
theorem registers_of_run {os : Os} (hos : os.Fresh) {es : List Event} {p : Process}
    (h : run (step os) initial es = .ok p) : ∃ model, ∀ slot ∈ p.objects,
      RegisterPage p.sys.log model gpioRegisterOffset slot.object.port ∧
        ∀ addr ∈ slot.object.registers, MappedFrom p.sys.log .mem (model.periBase + dmaBase) addr := by
  have hmapped := (inv_of_run hos h).mapped
  cases hmodel : p.sys.piModel with
  | none =>
    refine ⟨.piModel3, fun slot hmem => ?_⟩
    obtain ⟨model, hm, -⟩ := hmapped slot hmem
    rw [hmodel] at hm
    cases hm
  | some model =>
    refine ⟨model, fun slot hmem => ?_⟩
    obtain ⟨m, hm, hport, hregisters⟩ := hmapped slot hmem
    obtain rfl : model = m := Option.some_inj.1 (hmodel.symm.trans hm)
    refine ⟨hport, fun addr ha => (hregisters addr ha).resolve_right fun hgpio => ?_⟩
    exact absurd hgpio.1 (by decide)

theorem registers_of_run_three_objects :
    ∃ p model, run (step Os.granting) initial threeObjects = .ok p ∧ ∀ slot ∈ p.objects,
      RegisterPage p.sys.log model gpioRegisterOffset slot.object.port ∧
        ∀ addr ∈ slot.object.registers, MappedFrom p.sys.log .mem (model.periBase + dmaBase) addr := by
  obtain ⟨p, hrun, -⟩ := run_threeObjects
  obtain ⟨model, hpages⟩ := registers_of_run Os.fresh_granting hrun
  exact ⟨p, model, hrun, hpages⟩

end Process

end Spixels
