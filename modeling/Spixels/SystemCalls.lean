import Spixels.BoardModel
import Spixels.Ledger
import Spixels.RpiDma

/-!
# What the library asks of the operating system

The system is an arbitrary function `Os` from what has been asked so far to its answers.  Everything that is asked is
recorded in the log of `Sys`, beside the static variables of the library.  An `Action` is a piece of code that runs on
it and may stop, at a fault or by `exit`.

`Sys.Holds` tells what the process has from the system: open files, mappings, memory of the firmware and locks on it.
Each call has a rule for it.
-/

namespace Spixels

open CString (Byte)
open Ledger (Move held)

/-- The files that are opened. -/
inductive Device
  /-- `/dev/mem` -/
  | mem
  /-- `/dev/gpiomem` -/
  | gpiomem
  /-- `/dev/vcio` -/
  | vcio
  /-- `/proc/cpuinfo` -/
  | cpuinfo
deriving DecidableEq, Repr

/-- A system call with its answer, `none` where it has failed. -/
inductive Syscall
  | openFile (device : Device) (fd : Option Nat)
  | read (fd : Nat) (n : Option Nat)
  | close (fd : Nat)
  | mmap (length fd offset : Nat) (addr : Option Nat)
  | munmap (addr length : Nat) (done : Bool)
  | ioctl (fd : Nat) (msg : List (BitVec 32)) (reply : Option (BitVec 32))
deriving DecidableEq, Repr

/-- The operating system, and what is found in memory that it or the allocator hands out. -/
structure Os where
  opens : List Syscall → Device → Option Nat
  reads : List Syscall → Nat → Option Nat
  maps : List Syscall → Nat → Nat → Nat → Option Nat
  unmaps : List Syscall → Nat → Nat → Bool
  answers : List Syscall → Nat → List (BitVec 32) → Option (BitVec 32)
  /-- The text of `/proc/cpuinfo`. -/
  cpuinfo : List Syscall → List Byte
  /-- What a buffer on the stack holds. -/
  stack : List Syscall → Vector Byte 4096
  /-- What the GPIO registers hold when they are mapped. -/
  registers : List Syscall → Nat → BitVec 32

/-- Why the process stops. -/
inductive Stop
  | fault (f : Fault)
  | exit
deriving DecidableEq, Repr

structure Sys where
  log : List Syscall
  /-- `mbox_fd`, `none` while it is negative. -/
  mboxFd : Option Nat
  /-- The model that `GetPiModel` keeps, once it has been called. -/
  piModel : Option RaspberryPiModel
  /-- The GPIO registers, once they have been mapped.  There is one page of them, which all mappings share. -/
  gpio : Option (Nat → BitVec 32)

/-- The process at its start. -/
def Sys.initial : Sys := { log := [], mboxFd := none, piModel := none, gpio := none }

/-- What is found at `gpio_port_`, whichever mapping it is. -/
def Sys.page (s : Sys) : Nat → BitVec 32 := s.gpio.getD fun _ => 0#32

def Sys.record (s : Sys) (c : Syscall) : Sys := { s with log := s.log ++ [c] }

abbrev Action (α : Type) := StateT Sys (Except Stop) α

def Action.ofExcept {α : Type} (x : Except Fault α) : Action α := fun s =>
  match x with
  | .ok a => .ok (a, s)
  | .error f => .error (.fault f)

namespace Action

variable {α β : Type}

theorem bind_eq_ok {x : Action α} {f : α → Action β} {s : Sys} {r : β × Sys} :
    (x >>= f) s = .ok r ↔ ∃ a m, x s = .ok (a, m) ∧ f a m = .ok r := by
  change (x s).bind (fun p => f p.1 p.2) = .ok r ↔ _
  rw [Run.bind_eq_ok, Prod.exists]

theorem pure_eq_ok {a : α} {s : Sys} {r : α × Sys} : (pure a : Action α) s = .ok r ↔ (a, s) = r :=
  ⟨fun h => by cases h; rfl, fun h => by cases h; rfl⟩

theorem ofExcept_eq_ok {x : Except Fault α} {s : Sys} {r : α × Sys} :
    ofExcept x s = .ok r ↔ ∃ a, x = .ok a ∧ (a, s) = r := by
  cases x with
  | ok a => exact ⟨fun h => by cases h; exact ⟨a, rfl, rfl⟩, fun ⟨b, hb, h⟩ => by cases hb; cases h; rfl⟩
  | error f => exact ⟨fun h => (by cases h), fun ⟨b, hb, _⟩ => (by cases hb)⟩

end Action

namespace Os

variable (os : Os)

def openFile (device : Device) : Action (Option Nat) := fun s =>
  .ok (os.opens s.log device, s.record (.openFile device (os.opens s.log device)))

def read (fd : Nat) : Action (Option Nat) := fun s =>
  .ok (os.reads s.log fd, s.record (.read fd (os.reads s.log fd)))

def close (fd : Nat) : Action Unit := fun s => .ok ((), s.record (.close fd))

def mmap (length fd offset : Nat) : Action (Option Nat) := fun s =>
  .ok (os.maps s.log length fd offset, s.record (.mmap length fd offset (os.maps s.log length fd offset)))

def munmap (addr length : Nat) : Action Bool := fun s =>
  .ok (os.unmaps s.log addr length, s.record (.munmap addr length (os.unmaps s.log addr length)))

def ioctl (fd : Nat) (msg : List (BitVec 32)) : Action (Option (BitVec 32)) := fun s =>
  .ok (os.answers s.log fd msg, s.record (.ioctl fd msg (os.answers s.log fd msg)))

end Os

/-! ### What a process holds -/

inductive Resource
  | fd (fd : Nat)
  | mapping (addr length : Nat)
  /-- memory that the firmware has allocated -/
  | memory (handle : BitVec 32)
  /-- the lock that keeps such memory at its bus address -/
  | lock (handle : BitVec 32)
deriving DecidableEq, Repr

/-- What a message to the firmware does, by its tag and its first argument: 0x3000c allocates, 0x3000d locks, 0x3000e
unlocks and 0x3000f frees.  The first two answer with a handle and a bus address, which are not zero, and the others
with a status, which is. -/
def mailboxMove (msg : List (BitVec 32)) : Option (BitVec 32) → Option (Move Resource)
  | none => none
  | some word =>
    let tag := msg.getD 2 0#32
    let arg := msg.getD 5 0#32
    if tag = 0x3000c#32 then if word ≠ 0#32 then some (.take (.memory word)) else none
    else if tag = 0x3000d#32 then if word ≠ 0#32 then some (.take (.lock arg)) else none
    else if tag = 0x3000e#32 then if word = 0#32 then some (.give (.lock arg)) else none
    else if tag = 0x3000f#32 then if word = 0#32 then some (.give (.memory arg)) else none
    else none

def Syscall.move : Syscall → Option (Move Resource)
  | .openFile _ fd => fd.map fun fd => .take (.fd fd)
  | .read _ _ => none
  | .close fd => some (.give (.fd fd))
  | .mmap length _ _ addr => addr.map fun a => .take (.mapping a length)
  | .munmap addr length done => if done then some (.give (.mapping addr length)) else none
  | .ioctl _ msg reply => mailboxMove msg reply

/-- The firmware has not refused a message. -/
def Syscall.Granted : Syscall → Prop
  | .ioctl _ msg reply => mailboxMove msg reply ≠ none
  | .openFile _ _ | .read _ _ | .close _ | .mmap _ _ _ _ | .munmap _ _ _ => True

instance : ∀ c : Syscall, Decidable c.Granted
  | .ioctl _ msg reply => inferInstanceAs (Decidable (mailboxMove msg reply ≠ none))
  | .openFile _ _ | .read _ _ | .close _ | .mmap _ _ _ _ | .munmap _ _ _ => inferInstanceAs (Decidable True)

/-- As long as the firmware refuses nothing, `H` is what the process holds. -/
def Sys.Holds (s : Sys) (H : Multiset Resource) : Prop := Ledger.Holds Syscall.move Syscall.Granted s.log H

/-- The system hands out nothing twice: neither numbers of open files, nor addresses that are mapped, nor handles of
memory that has been allocated.  Mappings start at a page. -/
structure Os.Fresh (os : Os) : Prop where
  opens : ∀ log d fd, os.opens log d = some fd → .fd fd ∉ held Syscall.move log
  maps : ∀ log n fd off a, os.maps log n fd off = some a → .mapping a n ∉ held Syscall.move log
  page : ∀ log n fd off a, os.maps log n fd off = some a → a % pageSize = 0
  answers : ∀ log fd msg h, mailboxMove msg (os.answers log fd msg) = some (.take (.memory h)) →
    .memory h ∉ held Syscall.move log

/-- A system that grants everything, but for what is still taken, and knows nothing of the board. -/
def Os.granting : Os where
  opens log _ := if .fd log.length ∈ held Syscall.move log then none else some log.length
  reads _ _ := none
  maps log n _ _ :=
    let addr := pageSize * (log.length + 1)
    if .mapping addr n ∈ held Syscall.move log then none else some addr
  unmaps _ _ _ := true
  answers log _ msg :=
    let word := if msg.getD 2 0#32 = 0x3000c#32 ∨ msg.getD 2 0#32 = 0x3000d#32 then BitVec.ofNat 32 (32 * log.length)
      else 0#32
    if .memory word ∈ held Syscall.move log then none else some word
  cpuinfo _ := []
  stack _ := Vector.replicate 4096 0#8
  registers _ _ := 0#32

theorem Os.fresh_granting : Os.granting.Fresh where
  opens log d fd h := by
    simp only [granting, Option.ite_none_left_eq_some, Option.some.injEq] at h
    rw [← h.2]; exact h.1
  maps log n fd off a h := by
    simp only [granting, Option.ite_none_left_eq_some, Option.some.injEq] at h
    rw [← h.2]; exact h.1
  page log n fd off a h := by
    simp only [granting, Option.ite_none_left_eq_some, Option.some.injEq] at h
    rw [← h.2]; exact Nat.mul_mod_right _ _
  answers log fd msg handle h := by
    simp only [granting] at h
    generalize (if msg.getD 2 0#32 = 0x3000c#32 ∨ msg.getD 2 0#32 = 0x3000d#32 then BitVec.ofNat 32 (32 * log.length)
      else 0#32) = word at h
    split at h
    · cases h
    · rename_i hfree
      unfold mailboxMove at h
      dsimp only at h
      split at h
      · split at h
        · cases h; exact hfree
        · cases h
      · split at h
        · split at h <;> cases h
        · split at h
          · split at h <;> cases h
          · split at h
            · split at h <;> cases h
            · cases h

/-- On the way something has been asked of the system; the static variables and the GPIO registers have been left
alone. -/
structure Sys.Asks (s t : Sys) : Prop where
  log : s.log <+: t.log
  mboxFd : t.mboxFd = s.mboxFd
  piModel : t.piModel = s.piModel
  gpio : t.gpio = s.gpio

theorem Sys.Asks.trans {s m t : Sys} (h : s.Asks m) (h' : m.Asks t) : s.Asks t :=
  ⟨h.log.trans h'.log, h'.mboxFd.trans h.mboxFd, h'.piModel.trans h.piModel, h'.gpio.trans h.gpio⟩

theorem Sys.asks_record (s : Sys) (c : Syscall) : s.Asks (s.record c) :=
  ⟨List.prefix_append _ _, rfl, rfl, rfl⟩

theorem Sys.holds_initial : Sys.initial.Holds 0 := Ledger.holds_nil

namespace Os

variable {os : Os} {s t : Sys} {H : Multiset Resource}

theorem openFile_spec (hos : os.Fresh) (hs : s.Holds H) {d : Device} {r : Option Nat}
    (h : os.openFile d s = .ok (r, t)) :
    t.Holds (r.elim H fun fd => .fd fd ::ₘ H) ∧ s.Asks t := by
  cases h
  refine ⟨?_, s.asks_record _⟩
  cases hr : os.opens s.log d with
  | none => exact hs.keep fun _ => rfl
  | some fd => exact hs.take (fun _ => rfl) fun _ he _ => he ▸ hos.opens _ _ _ hr

theorem read_spec (hs : s.Holds H) {fd : Nat} {r : Option Nat} (h : os.read fd s = .ok (r, t)) :
    t.Holds H ∧ s.Asks t := by
  cases h
  exact ⟨hs.keep fun _ => rfl, s.asks_record _⟩

theorem close_spec {fd : Nat} (hs : s.Holds (.fd fd ::ₘ H)) {r : Unit} (h : close fd s = .ok (r, t)) :
    t.Holds H ∧ s.Asks t := by
  cases h
  exact ⟨hs.give fun _ => rfl, s.asks_record _⟩

theorem mmap_spec (hos : os.Fresh) (hs : s.Holds H) {n fd off : Nat} {r : Option Nat}
    (h : os.mmap n fd off s = .ok (r, t)) :
    t.Holds (r.elim H fun a => .mapping a n ::ₘ H) ∧ (∀ a ∈ r, a % pageSize = 0) ∧ s.Asks t := by
  cases h
  refine ⟨?_, fun a ha => hos.page _ _ _ _ _ ha, s.asks_record _⟩
  cases hr : os.maps s.log n fd off with
  | none => exact hs.keep fun _ => by rw [Syscall.move, Option.map_none]
  | some a => exact hs.take (fun _ => by rw [Syscall.move, Option.map_some]) fun _ he _ => he ▸ hos.maps _ _ _ _ _ hr

/-- A mapping that is given back as it has been taken. -/
theorem munmap_spec {a n : Nat} (hs : s.Holds (.mapping a n ::ₘ H)) {r : Bool} (h : os.munmap a n s = .ok (r, t))
    (hr : r = true) : t.Holds H ∧ s.Asks t := by
  cases h
  exact ⟨hs.give fun _ => if_pos hr, s.asks_record _⟩

end Os

end Spixels
