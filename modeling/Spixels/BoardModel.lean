import Spixels.BitField
import Spixels.CString
import Spixels.Gpio

/-!
# Which board it is (`ft-gpio.cc`)

`DetermineRaspberryModel` reads the beginning of `/proc/cpuinfo` into a buffer and looks there for the tag
`Revision`, for the colon behind it and for the number behind that.  On the text in the buffer these are `find` and
`scanHex` (`determineRaspberryModel_eq`).  The results of reading, of `strstr` and of `sscanf` are checked but not
that of `index`, so the model is determined if and only if the tag does not come without a colon:
`detectsBoard_iff`.
-/

namespace Spixels

open BitField (field)
open CString

inductive RaspberryPiModel
  | piModel1
  | piModel2
  | piModel3
  | piModel4
deriving DecidableEq, Repr

/-- How reading a file goes. -/
inductive ReadResult
  | openFails
  | readFails
  /-- `read` delivers as many bytes, if there are and it may. -/
  | delivers (n : Nat)

/-- The buffer afterwards, and what is returned. -/
def readFileToBuffer (buffer content : List Byte) : ReadResult → List Byte × Int
  | .openFails => (buffer, -1)
  | .readFails => (buffer.set 0 0#8, -1)
  | .delivers n =>
    let data := content.take (min n (buffer.length - 1))
    (data ++ 0#8 :: buffer.drop (data.length + 1), data.length)

def revisionTag : List Byte := ['R', 'e', 'v', 'i', 's', 'i', 'o', 'n'].map ascii

/-- The `switch` over `pi_type`. -/
def modelOfType (piType : BitVec 32) : RaspberryPiModel :=
  if piType ∈ [0x00#32, 0x01#32, 0x02#32, 0x03#32, 0x05#32, 0x06#32, 0x09#32, 0x0c#32] then .piModel1
  else if piType = 0x04#32 then .piModel2
  else if piType = 0x11#32 then .piModel4
  else .piModel3

/-- What becomes of the number that `sscanf` has read or not. -/
def modelOfRevision : Option Int → Except Fault (RaspberryPiModel × String)
  | none => .ok (.piModel3, "Unknown Revision: Could not determine Pi model\n")
  | some n =>
    if n.natAbs < 2 ^ 32 then .ok (modelOfType (BitVec.ofInt 32 n >>> 4 &&& 0xff#32), "") else .error .intRange

/-- The model, and what has been written to `stderr`. -/
def determineRaspberryModel (buffer : Vector Byte 4096) (content : List Byte) (res : ReadResult) :
    Except Fault (RaspberryPiModel × String) :=
  let (buffer, r) := readFileToBuffer buffer.toList content res
  if r < 0 then .ok (.piModel3, "Reading cpuinfo: Could not determine Pi model\n")
  else
    match strstr buffer (some 0) revisionTag with
    | none => .error .outOfBounds
    | some none => .ok (.piModel3, "non-existent Revision: Could not determine Pi model\n")
    | some revisionKey =>
      match index buffer revisionKey (ascii ':') with
      | none => .error .outOfBounds
      | some colon =>
        match sscanfHex buffer (colon.map (· + 1)) with
        | none => .error .outOfBounds
        | some number => modelOfRevision number

/-! ### What it is for -/

/-- The text that has been read, if it could be. -/
def cpuinfo (content : List Byte) : ReadResult → Option (List Byte)
  | .openFails | .readFails => none
  | .delivers n => some ((content.take (min n 4095)).takeWhile (· ≠ 0#8))

/-- The number that follows the first colon after the first tag. -/
def RevisionNumber (s : List Byte) (n : Int) : Prop :=
  ∃ i j, FirstAt revisionTag s i ∧ FirstAt [ascii ':'] (s.drop i) j ∧ HexNumber (s.drop (i + j + 1)) n

/-- The model is that of the number, and the fallback if there is none. -/
structure DetectsBoard (buffer : Vector Byte 4096) (content : List Byte) (res : ReadResult) : Prop where
  number : ∀ s ∈ cpuinfo content res, ∀ n, RevisionNumber s n →
    (determineRaspberryModel buffer content res).map Prod.fst =
      .ok (modelOfType ((field (BitVec.ofInt 32 n) 4 8).setWidth 32))
  fallback : (∀ s ∈ cpuinfo content res, ∀ n, ¬RevisionNumber s n) →
    (determineRaspberryModel buffer content res).map Prod.fst = .ok .piModel3

/-! ### The scan of the text -/

/-- The number, by the three searches.  A bare `0x` is none, see `scanHex`. -/
def scanRevision (s : List Byte) : Option Int :=
  (find revisionTag s).bind fun i => (find [ascii ':'] (s.drop i)).bind fun j => scanHex (s.drop (i + j + 1))

theorem scanRevision_eq_some {s : List Byte} {n : Int} : scanRevision s = some n ↔ RevisionNumber s n := by
  simp only [scanRevision, RevisionNumber, Option.bind_eq_some_iff, find_eq_some, scanHex_eq_some]
  constructor
  · rintro ⟨i, hi, j, hj, hn⟩
    exact ⟨i, j, hi, hj, hn⟩
  · rintro ⟨i, j, hi, hj, hn⟩
    exact ⟨i, hi, j, hj, hn⟩

/-- The number that is stored, by its bits 4..11. -/
theorem modelOfRevision_some {n : Int} (hn : n.natAbs < 2 ^ 32) :
    (modelOfRevision (some n)).map Prod.fst = .ok (modelOfType ((field (BitVec.ofInt 32 n) 4 8).setWidth 32)) := by
  have hfield : ∀ x : BitVec 32, x >>> 4 &&& 0xff#32 = (field x 4 8).setWidth 32 := by
    intro x
    apply BitVec.eq_of_getLsbD_eq
    intro i hi
    have hmask : ∀ i < 32, (0xff#32).getLsbD i = decide (i < 8) := by decide
    simp only [BitVec.getLsbD_and, BitVec.getLsbD_ushiftRight, hmask i hi, BitVec.getLsbD_setWidth,
      BitVec.getLsbD_extractLsb', hi, decide_true, Bool.true_and]
    rw [Bool.and_comm]
  rw [modelOfRevision, if_pos hn, hfield]
  rfl

section Text

variable (buffer : Vector Byte 4096) {content s : List Byte} {res : ReadResult}

theorem determineRaspberryModel_unread (h : cpuinfo content res = none) :
    determineRaspberryModel buffer content res =
      .ok (.piModel3, "Reading cpuinfo: Could not determine Pi model\n") := by
  cases res with
  | openFails => rfl
  | readFails => rfl
  | delivers n => cases h

/-- What has been read is a string. -/
theorem exists_readFileToBuffer (h : cpuinfo content res = some s) : 0#8 ∉ s ∧ ∃ (junk : List Byte) (r : Nat),
    readFileToBuffer buffer.toList content res = (s ++ 0#8 :: junk, (r : Int)) := by
  cases res with
  | openFails => cases h
  | readFails => cases h
  | delivers n =>
    simp only [cpuinfo, Option.some.injEq] at h
    simp only [readFileToBuffer, Vector.length_toList]
    obtain ⟨s', junk', he, hs, rfl⟩ := exists_string (content.take (min n 4095))
      (buffer.toList.drop ((content.take (min n 4095)).length + 1))
    rw [h] at hs he
    exact ⟨hs, junk', _, by rw [← he]⟩

/-- On the text: there is no pointer if the tag comes without a colon. -/
theorem determineRaspberryModel_eq (h : cpuinfo content res = some s) :
    determineRaspberryModel buffer content res = match find revisionTag s with
    | none => .ok (.piModel3, "non-existent Revision: Could not determine Pi model\n")
    | some i =>
      match find [ascii ':'] (s.drop i) with
      | none => .error .outOfBounds
      | some j => modelOfRevision (scanHex (s.drop (i + j + 1))) := by
  obtain ⟨hs, junk, r, hread⟩ := exists_readFileToBuffer buffer h
  have hr : ¬(r : Int) < 0 := by omega
  simp only [determineRaspberryModel, hread, hr, if_false, strstr_append hs (Nat.zero_le _), List.drop_zero]
  rcases htag : find revisionTag s with _ | i
  · rfl
  · have hi := (find_eq_some.1 htag).lt_length (by decide)
    simp only [Option.map_some, Nat.zero_add, index_append hs hi.le]
    rcases hcolon : find [ascii ':'] (s.drop i) with _ | j
    · rfl
    · have hj := (find_eq_some.1 hcolon).lt_length (by decide)
      rw [List.length_drop] at hj
      have hij : i + j + 1 ≤ s.length := by omega
      simp only [Option.map_some, sscanfHex_append hs hij]

/-- Without a colon there is nothing to scan, but it is scanned. -/
theorem determineRaspberryModel_of_notMem {i : Nat} (h : cpuinfo content res = some s)
    (hi : FirstAt revisionTag s i) (hcolon : ascii ':' ∉ s.drop i) :
    scanRevision s = none ∧ determineRaspberryModel buffer content res = .error .outOfBounds := by
  have htag := find_eq_some.2 hi
  have hnone := find_singleton_eq_none.2 hcolon
  constructor
  · rw [scanRevision, htag, Option.bind_some, hnone, Option.bind_none]
  · rw [determineRaspberryModel_eq buffer h]
    simp only [htag, hnone]

theorem not_detectsBoard_of_notMem {i : Nat} (h : cpuinfo content res = some s) (hi : FirstAt revisionTag s i)
    (hcolon : ascii ':' ∉ s.drop i) : ¬DetectsBoard buffer content res := by
  intro hd
  obtain ⟨hnone, herror⟩ := determineRaspberryModel_of_notMem buffer h hi hcolon
  have hok := hd.fallback fun s' hs n hn => by
    rw [h, Option.mem_some_iff] at hs
    rw [← scanRevision_eq_some, ← hs, hnone] at hn
    cases hn
  rw [herror] at hok
  cases hok

/-- Otherwise the scan decides. -/
theorem map_determineRaspberryModel (h : cpuinfo content res = some s)
    (hcolon : ∀ i, FirstAt revisionTag s i → ascii ':' ∈ s.drop i)
    (hfit : ∀ n, scanRevision s = some n → n.natAbs < 2 ^ 32) :
    (determineRaspberryModel buffer content res).map Prod.fst = .ok ((scanRevision s).elim .piModel3 fun n =>
      modelOfType ((field (BitVec.ofInt 32 n) 4 8).setWidth 32)) := by
  rw [determineRaspberryModel_eq buffer h]
  unfold scanRevision at hfit ⊢
  rcases htag : find revisionTag s with _ | i
  · rfl
  · rcases hj : find [ascii ':'] (s.drop i) with _ | j
    · exact absurd (hcolon i (find_eq_some.1 htag)) (find_singleton_eq_none.1 hj)
    · simp only [htag, hj, Option.bind_some] at hfit ⊢
      rcases hn : scanHex (s.drop (i + j + 1)) with _ | n
      · rfl
      · exact modelOfRevision_some (hfit n hn)

end Text

/-- If the number fits 32 bits then the board is detected exactly if reading fails or the tag does not come without
a colon behind it. -/
theorem detectsBoard_iff (buffer : Vector Byte 4096) (content : List Byte) (res : ReadResult)
    (hfit : ∀ s ∈ cpuinfo content res, ∀ n, RevisionNumber s n → n.natAbs < 2 ^ 32) :
    DetectsBoard buffer content res ↔
      ∀ s ∈ cpuinfo content res, ∀ i, FirstAt revisionTag s i → ascii ':' ∈ s.drop i := by
  rcases hread : cpuinfo content res with _ | s
  · refine ⟨fun _ s hs => ?_, fun _ => ⟨fun s hs => ?_, fun _ => ?_⟩⟩
    · cases hs
    · rw [hread] at hs; cases hs
    · rw [determineRaspberryModel_unread buffer hread]; rfl
  · simp only [hread, Option.mem_some_iff, forall_eq', ← scanRevision_eq_some] at hfit ⊢
    constructor
    · intro h i hi
      by_contra hcolon
      exact not_detectsBoard_of_notMem buffer hread hi hcolon h
    · intro hcolon
      have hmap := map_determineRaspberryModel buffer hread hcolon hfit
      refine ⟨fun s' hs' n hn => ?_, fun hnone => ?_⟩
      · rw [hread, Option.mem_some_iff] at hs'
        rw [← scanRevision_eq_some, ← hs'] at hn
        rw [hmap, hn, Option.elim_some]
      · have hs : scanRevision s = none := by
          rw [Option.eq_none_iff_forall_ne_some]
          exact fun n hn => hnone s hread n (scanRevision_eq_some.1 hn)
        rw [hmap, hs, Option.elim_none]

/-- A text that ends within the line of the tag. -/
theorem not_detectsBoard_truncated : ¬DetectsBoard (Vector.replicate 4096 0#8) revisionTag (.delivers 8) := by
  have hread : cpuinfo revisionTag (.delivers 8) = some revisionTag := by decide
  exact not_detectsBoard_of_notMem _ hread (find_eq_some.1 (show find revisionTag revisionTag = some 0 by decide))
    (by decide)

/-- A board of revision `a02082`, type 8. -/
theorem detectsBoard_a02082 :
    let content := revisionTag ++ [':', ' ', 'a', '0', '2', '0', '8', '2'].map ascii
    (∀ s ∈ cpuinfo content (.delivers 4095), ∀ n, RevisionNumber s n → n.natAbs < 2 ^ 32) ∧
      DetectsBoard (Vector.replicate 4096 0#8) content (.delivers 4095) := by
  intro content
  have hread : cpuinfo content (.delivers 4095) = some content := by decide
  have hscan : scanRevision content = some 0xa02082 := by decide
  have hfit : ∀ s ∈ cpuinfo content (.delivers 4095), ∀ n, RevisionNumber s n → n.natAbs < 2 ^ 32 := by
    intro s hs n hn
    rw [hread, Option.mem_some_iff] at hs
    rw [← scanRevision_eq_some, ← hs, hscan, Option.some.injEq] at hn
    subst hn
    decide
  refine ⟨hfit, (detectsBoard_iff _ _ _ hfit).2 fun s hs i hi => ?_⟩
  rw [hread, Option.mem_some_iff] at hs
  rw [← find_eq_some, ← hs] at hi
  obtain rfl : 0 = i := Option.some.inj ((show find revisionTag content = some 0 by decide).symm.trans hi)
  rw [← hs]
  decide

end Spixels
