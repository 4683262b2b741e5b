import Spixels.SystemCalls

/-!
# Mapping the registers (`ft-gpio.cc`)

`mmap_bcm_register` maps a page of registers.  Where they are depends on the board; the board is looked up when the
first page is mapped, and never again.  Without `/dev/mem` there is `/dev/gpiomem`, which gives the GPIO registers
whatever it is asked for, and is asked for nothing else: `mmapBcmRegister_spec`.
-/

namespace Spixels

def bcm2708PeriBase : Nat := 0x20000000
def bcm2709PeriBase : Nat := 0x3F000000
def bcm2711PeriBase : Nat := 0xFE000000

def gpioRegisterOffset : Nat := 0x200000

def registerBlockSize : Nat := 4 * 1024

/-- The `switch` over the model. -/
def RaspberryPiModel.periBase : RaspberryPiModel → Nat
  | piModel1 => bcm2708PeriBase
  | piModel2 => bcm2709PeriBase
  | piModel3 => bcm2709PeriBase
  | piModel4 => bcm2711PeriBase

namespace Os

variable (os : Os)

/-- The system's part of `ReadFileToBuffer`. -/
def readFile (device : Device) : Action ReadResult := do
  match ← os.openFile device with
  | none => return .openFails
  | some fd =>
    let r ← os.read fd
    close fd
    return r.elim .readFails .delivers

def determineRaspberryModel : Action RaspberryPiModel := do
  let log := (← get).log
  let res ← os.readFile .cpuinfo
  let (model, _) ← Action.ofExcept (Spixels.determineRaspberryModel (os.stack log) (os.cpuinfo log) res)
  return model

def getPiModel : Action RaspberryPiModel := do
  match (← get).piModel with
  | some model => return model
  | none =>
    let model ← os.determineRaspberryModel
    modify fun s => { s with piModel := some model }
    return model

def mmapBcmRegister (registerOffset : Nat) : Action (Option Nat) := do
  let base := (← os.getPiModel).periBase
  let memFd ← match ← os.openFile .mem with
    | some fd => pure (some fd)
    | none => if registerOffset ≠ gpioRegisterOffset then pure none else os.openFile .gpiomem
  match memFd with
  | none => return none
  | some fd =>
    let result ← os.mmap registerBlockSize fd (base + registerOffset)
    close fd
    return result

/-- `GPIO::Init`, with the address it keeps as `gpio_port_`.  The first mapping shows what the registers hold; later
ones are of the same page, see `ProcessLife`. -/
def gpioInit : Action (Option Nat) := do
  match ← os.mmapBcmRegister gpioRegisterOffset with
  | none => return none
  | some port =>
    modify fun s => { s with gpio := some (s.gpio.getD (os.registers s.log)) }
    return some port

end Os

/-- The page at `addr` is one of the device, at that offset. -/
def MappedFrom (log : List Syscall) (device : Device) (offset addr : Nat) : Prop :=
  ∃ pre post fd, log = pre ++ [.openFile device (some fd), .mmap registerBlockSize fd offset (some addr)] ++ post

theorem MappedFrom.mono {log log' : List Syscall} {device : Device} {offset addr : Nat} (h : log <+: log')
    (hm : MappedFrom log device offset addr) : MappedFrom log' device offset addr := by
  obtain ⟨rest, rfl⟩ := h
  obtain ⟨pre, post, fd, rfl⟩ := hm
  exact ⟨pre, post ++ rest, fd, by simp⟩

/-- A page of registers of a board: from `/dev/mem`, or the GPIO registers from `/dev/gpiomem`. -/
def RegisterPage (log : List Syscall) (model : RaspberryPiModel) (offset addr : Nat) : Prop :=
  MappedFrom log .mem (model.periBase + offset) addr ∨
    offset = gpioRegisterOffset ∧ MappedFrom log .gpiomem (model.periBase + offset) addr

theorem RegisterPage.mono {log log' : List Syscall} {model : RaspberryPiModel} {offset addr : Nat}
    (h : log <+: log') (hp : RegisterPage log model offset addr) : RegisterPage log' model offset addr :=
  hp.imp (MappedFrom.mono h) (And.imp_right (MappedFrom.mono h))

namespace Os

open Spixels.Action (bind_eq_ok pure_eq_ok ofExcept_eq_ok)

variable {os : Os} {s t : Sys} {H : Multiset Resource}

/-- Whatever comes of reading a file, it is closed afterwards. -/
theorem readFile_spec (hos : os.Fresh) (hs : s.Holds H) {d : Device} {r : ReadResult}
    (h : os.readFile d s = .ok (r, t)) : t.Holds H ∧ s.Asks t := by
  obtain ⟨fd, s₁, hopen, h⟩ := bind_eq_ok.1 h
  obtain ⟨hs₁, hasks₁⟩ := openFile_spec hos hs hopen
  cases fd with
  | none =>
    cases pure_eq_ok.1 h
    exact ⟨hs₁, hasks₁⟩
  | some fd =>
    obtain ⟨n, s₂, hread, h⟩ := bind_eq_ok.1 h
    obtain ⟨hs₂, hasks₂⟩ := read_spec hs₁ hread
    obtain ⟨u, s₃, hclose, h⟩ := bind_eq_ok.1 h
    obtain ⟨hs₃, hasks₃⟩ := close_spec hs₂ hclose
    cases pure_eq_ok.1 h
    exact ⟨hs₃, (hasks₁.trans hasks₂).trans hasks₃⟩

/-- The model is looked up once. -/
theorem getPiModel_spec (hos : os.Fresh) (hs : s.Holds H) {model : RaspberryPiModel}
    (h : os.getPiModel s = .ok (model, t)) :
    t.Holds H ∧ s.log <+: t.log ∧ t.mboxFd = s.mboxFd ∧ t.gpio = s.gpio ∧ t.piModel = some model ∧
      ∀ m, s.piModel = some m → m = model := by
  obtain ⟨_, _, hget, h⟩ := bind_eq_ok.1 h
  cases hget
  cases hmodel : s.piModel with
  | some m =>
    simp only [hmodel] at h
    cases pure_eq_ok.1 h
    exact ⟨hs, List.prefix_refl _, rfl, rfl, hmodel, fun m' hm' => (Option.some_inj.1 hm').symm⟩
  | none =>
    simp only [hmodel] at h
    obtain ⟨m, s₁, hdet, h⟩ := bind_eq_ok.1 h
    obtain ⟨_, _, hget, hdet⟩ := bind_eq_ok.1 hdet
    cases hget
    obtain ⟨res, s₂, hread, hdet⟩ := bind_eq_ok.1 hdet
    obtain ⟨hs₂, hasks⟩ := readFile_spec hos hs hread
    obtain ⟨⟨m', msg⟩, s₃, hex, hdet⟩ := bind_eq_ok.1 hdet
    obtain ⟨_, -, hex⟩ := ofExcept_eq_ok.1 hex
    cases hex
    cases pure_eq_ok.1 hdet
    obtain ⟨_, _, hmod, h⟩ := bind_eq_ok.1 h
    cases hmod
    cases pure_eq_ok.1 h
    exact ⟨hs₂, hasks.log, hasks.mboxFd, hasks.gpio, rfl, fun m' hm' => (by cases hm')⟩

/-- The page is mapped through the open file, which is closed afterwards. -/
theorem mapPage_spec (hos : os.Fresh) {fd off : Nat} (hs : s.Holds (.fd fd ::ₘ H)) {r : Option Nat}
    (h : (do let result ← os.mmap registerBlockSize fd off
             close fd
             return result : Action (Option Nat)) s = .ok (r, t)) :
    t.Holds (r.elim H fun a => .mapping a registerBlockSize ::ₘ H) ∧ s.Asks t ∧
      ∀ a ∈ r, ∃ post, t.log = s.log ++ .mmap registerBlockSize fd off (some a) :: post := by
  obtain ⟨result, s₁, hmap, h⟩ := bind_eq_ok.1 h
  obtain ⟨hs₁, -, hasks₁⟩ := mmap_spec hos hs hmap
  have hlog : s₁.log = s.log ++ [.mmap registerBlockSize fd off result] := by cases hmap; rfl
  obtain ⟨u, s₂, hclose, h⟩ := bind_eq_ok.1 h
  have hs₁' : s₁.Holds (.fd fd ::ₘ result.elim H fun a => .mapping a registerBlockSize ::ₘ H) := by
    cases result with
    | none => exact hs₁
    | some a => exact (congrArg s₁.Holds (Multiset.cons_swap _ _ _)).mpr hs₁
  obtain ⟨hs₂, hasks₂⟩ := close_spec hs₁' hclose
  cases pure_eq_ok.1 h
  refine ⟨hs₂, hasks₁.trans hasks₂, fun a ha => ?_⟩
  obtain ⟨post, hpost⟩ := hasks₂.log
  cases ha
  exact ⟨post, by rw [← hpost, hlog, List.append_assoc]; rfl⟩

/-- A page of registers has been mapped, at the base of the board that has been looked up first of all; or nothing
has been. -/
theorem mmapBcmRegister_spec (hos : os.Fresh) (hs : s.Holds H) {off : Nat} {r : Option Nat}
    (h : os.mmapBcmRegister off s = .ok (r, t)) :
    t.Holds (r.elim H fun a => .mapping a registerBlockSize ::ₘ H) ∧ s.log <+: t.log ∧ t.mboxFd = s.mboxFd ∧
      t.gpio = s.gpio ∧ ∃ model, t.piModel = some model ∧ (∀ m, s.piModel = some m → m = model) ∧
        ∀ a ∈ r, RegisterPage t.log model off a := by
  obtain ⟨model, s₁, hmodel, h⟩ := bind_eq_ok.1 h
  obtain ⟨hs₁, hlog₁, hmbox₁, hgpio₁, hpi, hsame⟩ := getPiModel_spec hos hs hmodel
  obtain ⟨fd, s₂, hmem, h⟩ := bind_eq_ok.1 h
  obtain ⟨hs₂, hasks₂⟩ := openFile_spec hos hs₁ hmem
  have hlog₂ : s₂.log = s₁.log ++ [.openFile .mem fd] := by cases hmem; rfl
  cases fd with
  | some fd =>
    obtain ⟨_, _, hpure, h⟩ := bind_eq_ok.1 h
    cases pure_eq_ok.1 hpure
    obtain ⟨hs₄, hasks₄, hpage⟩ := mapPage_spec hos hs₂ h
    have hasks := hasks₂.trans hasks₄
    refine ⟨hs₄, hlog₁.trans hasks.log, hasks.mboxFd.trans hmbox₁, hasks.gpio.trans hgpio₁, model,
      hasks.piModel.trans hpi, hsame, fun a ha => .inl ?_⟩
    obtain ⟨post, hpost⟩ := hpage a ha
    exact ⟨s₁.log, post, fd, by rw [hpost, hlog₂]; simp⟩
  | none =>
    by_cases hoff : off ≠ gpioRegisterOffset
    · simp only [if_pos hoff] at h
      obtain ⟨_, _, hpure, h⟩ := bind_eq_ok.1 h
      cases pure_eq_ok.1 hpure
      cases pure_eq_ok.1 h
      exact ⟨hs₂, hlog₁.trans hasks₂.log, hasks₂.mboxFd.trans hmbox₁, hasks₂.gpio.trans hgpio₁, model,
        hasks₂.piModel.trans hpi, hsame, fun a ha => (by cases ha)⟩
    · simp only [if_neg hoff] at h
      obtain ⟨memFd, s₃, hopen, h⟩ := bind_eq_ok.1 h
      obtain ⟨hs₃, hasks₃⟩ := openFile_spec hos hs₂ hopen
      have hlog₃ : s₃.log = s₂.log ++ [.openFile .gpiomem memFd] := by cases hopen; rfl
      have hasks := hasks₂.trans hasks₃
      cases memFd with
      | none =>
        cases pure_eq_ok.1 h
        exact ⟨hs₃, hlog₁.trans hasks.log, hasks.mboxFd.trans hmbox₁, hasks.gpio.trans hgpio₁, model,
          hasks.piModel.trans hpi, hsame, fun a ha => (by cases ha)⟩
      | some fd =>
        obtain ⟨hs₄, hasks₄, hpage⟩ := mapPage_spec hos hs₃ h
        have hasks := hasks.trans hasks₄
        refine ⟨hs₄, hlog₁.trans hasks.log, hasks.mboxFd.trans hmbox₁, hasks.gpio.trans hgpio₁, model,
          hasks.piModel.trans hpi, hsame, fun a ha => .inr ⟨not_not.1 hoff, ?_⟩⟩
        obtain ⟨post, hpost⟩ := hpage a ha
        exact ⟨s₂.log, post, fd, by rw [hpost, hlog₃]; simp⟩

end Os

end Spixels
