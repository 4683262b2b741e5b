import Mathlib.Data.BitVec
import Mathlib.Data.List.TakeWhile

/-!
# Strings in C memory

A buffer is a list of bytes and a pointer into it an offset.  `stringAt` is the string at a pointer, if there is
one: the functions of the C library are defined on it and have no result for any other pointer.  `strstr` and
`index` find first occurrences (`find_eq_some`), and the conversion `%x` of `sscanf` reads an optionally signed
hexadecimal number (`scanHex_eq_some`).
-/

namespace CString

abbrev Byte := BitVec 8

/-- `none` is `NULL`, or anything else that does not point into the buffer. -/
abbrev Ptr := Option Nat

def ascii (c : Char) : Byte := BitVec.ofNat 8 c.toNat

/-- The bytes before the first NUL; `none` if the buffer ends before one. -/
def stringAt (buf : List Byte) : Ptr → Option (List Byte)
  | none => none
  | some p => if 0#8 ∈ buf.drop p then some ((buf.drop p).takeWhile (· ≠ 0#8)) else none

section Find

variable {α : Type*}

/-- At `i` is the first occurrence of `needle`. -/
def FirstAt (needle s : List α) (i : Nat) : Prop := needle <+: s.drop i ∧ ∀ j < i, ¬needle <+: s.drop j

theorem FirstAt.lt_length {needle s : List α} {i : Nat} (h : FirstAt needle s i) (hn : needle ≠ []) :
    i < s.length := by
  have hlen := h.1.length_le
  rw [List.length_drop] at hlen
  have hpos := List.length_pos_of_ne_nil hn
  omega

variable [DecidableEq α]

def find (needle : List α) : List α → Option Nat
  | [] => if needle = [] then some 0 else none
  | b :: s => if needle <+: b :: s then some 0 else (find needle s).map (· + 1)

theorem find_eq_some {needle s : List α} {i : Nat} : find needle s = some i ↔ FirstAt needle s i := by
  induction s generalizing i with
  | nil =>
    unfold find FirstAt
    by_cases hn : needle = []
    · subst hn
      cases i with
      | zero => simp
      | succ i => simp; exact ⟨0, by omega⟩
    · simp [hn]
  | cons b s ih =>
    unfold find
    by_cases hp : needle <+: b :: s
    · rw [if_pos hp]
      cases i with
      | zero => simp [FirstAt, hp]
      | succ i =>
        simp only [Option.some.injEq, FirstAt]
        exact iff_of_false (by omega) fun h => h.2 0 (by omega) hp
    · rw [if_neg hp]
      cases i with
      | zero => simp [FirstAt, hp]
      | succ i =>
        rw [Option.map_eq_some_iff]
        simp only [Nat.add_right_cancel_iff, exists_eq_right, ih, FirstAt, List.drop_succ_cons]
        refine and_congr_right fun _ => ⟨fun h j hj => ?_, fun h j hj => h (j + 1) (by omega)⟩
        cases j with
        | zero => exact hp
        | succ j => exact h j (by omega)

theorem find_singleton_eq_none {c : α} {s : List α} : find [c] s = none ↔ c ∉ s := by
  induction s with
  | nil => simp [find]
  | cons b s ih =>
    by_cases hb : c = b
    · simp [find, hb]
    · simp [find, hb, ih]

end Find

/-! ### Functions on strings -/

def strstr (buf : List Byte) (haystack : Ptr) (needle : List Byte) : Option Ptr :=
  (stringAt buf haystack).map fun s => (find needle s).map (haystack.getD 0 + ·)

def index (buf : List Byte) (p : Ptr) (c : Byte) : Option Ptr :=
  (stringAt buf p).map fun s => (find [c] s).map (p.getD 0 + ·)

def isSpace (b : Byte) : Bool :=
  b ∈ [0x20#8, 0x09#8, 0x0A#8, 0x0B#8, 0x0C#8, 0x0D#8]

/-- The value of a hexadecimal digit. -/
def hexDigit? (b : Byte) : Option Nat :=
  if ascii '0' ≤ b ∧ b ≤ ascii '9' then some (b.toNat - 48)
  else if ascii 'a' ≤ b ∧ b ≤ ascii 'f' then some (b.toNat - 87)
  else if ascii 'A' ≤ b ∧ b ≤ ascii 'F' then some (b.toNat - 55)
  else none

def isHexDigit (b : Byte) : Bool := (hexDigit? b).isSome

/-- Is there a minus sign, and what follows the sign. -/
def scanSign : List Byte → Bool × List Byte
  | [] => (false, [])
  | b :: s => if b = ascii '-' then (true, s) else if b = ascii '+' then (false, s) else (false, b :: s)

/-- What may stand before the digits. -/
def markers : List (List Byte) := [[ascii '0', ascii 'x'], [ascii '0', ascii 'X']]

/-- What follows `0x`, if that is there. -/
def skipMarker (s : List Byte) : List Byte := if ∃ m ∈ markers, m <+: s then s.drop 2 else s

def hexValue (digits : List Byte) : Nat := digits.foldl (fun n b => 16 * n + (hexDigit? b).getD 0) 0

/-- The conversion `%x`.  As in ISO C, `0x` without a digit behind it is a matching failure; glibc reads it as 0. -/
def scanHex (s : List Byte) : Option Int :=
  let (minus, s) := scanSign (s.dropWhile isSpace)
  let digits := (skipMarker s).takeWhile isHexDigit
  if digits = [] then none else some (if minus then -(hexValue digits : Int) else hexValue digits)

/-- `sscanf(p, "%x", ..)`: what is read, if anything is. -/
def sscanfHex (buf : List Byte) (p : Ptr) : Option (Option Int) := (stringAt buf p).map scanHex

/-! ### The string in a buffer -/

/-- A buffer that holds the string `s`. -/
theorem stringAt_append {s : List Byte} (hs : 0#8 ∉ s) (junk : List Byte) {p : Nat} (hp : p ≤ s.length) :
    stringAt (s ++ 0#8 :: junk) (some p) = some (s.drop p) := by
  have hdrop : (s ++ 0#8 :: junk).drop p = s.drop p ++ 0#8 :: junk := List.drop_append_of_le_length hp
  have hne : ∀ b ∈ s.drop p, decide (b ≠ 0#8) = true := by
    intro b hb
    rw [decide_eq_true_eq]
    rintro rfl
    exact hs (List.mem_of_mem_drop hb)
  rw [stringAt, hdrop, if_pos (by simp), List.takeWhile_append_of_pos hne]
  simp

section String

variable {s junk : List Byte} {p : Nat} (hs : 0#8 ∉ s) (hp : p ≤ s.length)
include hs hp

theorem strstr_append (needle : List Byte) :
    strstr (s ++ 0#8 :: junk) (some p) needle = some ((find needle (s.drop p)).map (p + ·)) := by
  rw [strstr, stringAt_append hs junk hp]
  rfl

theorem index_append (c : Byte) :
    index (s ++ 0#8 :: junk) (some p) c = some ((find [c] (s.drop p)).map (p + ·)) := by
  rw [index, stringAt_append hs junk hp]
  rfl

theorem sscanfHex_append : sscanfHex (s ++ 0#8 :: junk) (some p) = some (scanHex (s.drop p)) := by
  rw [sscanfHex, stringAt_append hs junk hp]
  rfl

end String

/-- Whatever has been read, the NUL behind it ends a string. -/
theorem exists_string (data junk : List Byte) :
    ∃ s junk', data ++ 0#8 :: junk = s ++ 0#8 :: junk' ∧ 0#8 ∉ s ∧ s = data.takeWhile (· ≠ 0#8) := by
  induction data with
  | nil => exact ⟨[], junk, rfl, by simp, rfl⟩
  | cons b data ih =>
    by_cases hb : b = 0#8
    · subst hb
      exact ⟨[], data ++ 0#8 :: junk, rfl, by simp, rfl⟩
    · obtain ⟨s, junk', he, hs, rfl⟩ := ih
      refine ⟨b :: data.takeWhile (· ≠ 0#8), junk', by rw [List.cons_append, he, List.cons_append], ?_, ?_⟩
      · rw [List.mem_cons, not_or]
        exact ⟨Ne.symm hb, hs⟩
      · simp [hb]

/-! ### Runs of characters -/

section Span

variable {α : Type*} {p : α → Bool} {body rest : List α}

theorem takeWhile_append_eq (hbody : ∀ b ∈ body, p b = true) (hrest : ∀ b ∈ rest.head?, p b = false) :
    (body ++ rest).takeWhile p = body := by
  rw [List.takeWhile_append_of_pos hbody]
  cases rest with
  | nil => simp
  | cons b rest => simp [hrest b rfl]

theorem dropWhile_append_eq (hbody : ∀ b ∈ body, p b = true) (hrest : ∀ b ∈ rest.head?, p b = false) :
    (body ++ rest).dropWhile p = rest := by
  rw [List.dropWhile_append_of_pos hbody]
  cases rest with
  | nil => rfl
  | cons b rest => simp [hrest b rfl]

theorem head_dropWhile {s : List α} : ∀ b ∈ (s.dropWhile p).head?, p b = false := by
  intro b hb
  have h := List.head?_dropWhile_not p s
  rw [Option.mem_def.1 hb] at h
  exact h

end Span

/-! ### Numbers -/

/-- A signed hexadecimal number as it is written. -/
structure HexLiteral where
  space : List Byte
  sign : List Byte
  marker : List Byte
  digits : List Byte
  space_isSpace : ∀ b ∈ space, isSpace b = true
  sign_mem : sign ∈ [[], [ascii '+'], [ascii '-']]
  marker_mem : marker = [] ∨ marker ∈ markers
  digits_ne_nil : digits ≠ []
  digits_isHexDigit : ∀ b ∈ digits, isHexDigit b = true

namespace HexLiteral

def bytes (l : HexLiteral) : List Byte := l.space ++ (l.sign ++ (l.marker ++ l.digits))

def value (l : HexLiteral) : Int :=
  if l.sign = [ascii '-'] then -(hexValue l.digits : Int) else hexValue l.digits

/-- It does not go on in `rest`: no digit follows, and what follows does not make a marker of its digits. -/
structure EndsBefore (l : HexLiteral) (rest : List Byte) : Prop where
  digit : ∀ b ∈ rest.head?, isHexDigit b = false
  marker : l.marker = [] → ∀ m ∈ markers, ¬m <+: l.digits ++ rest

end HexLiteral

/-- The text `s` begins with the hexadecimal number `n`. -/
def HexNumber (s : List Byte) (n : Int) : Prop :=
  ∃ (l : HexLiteral) (rest : List Byte), s = l.bytes ++ rest ∧ l.EndsBefore rest ∧ l.value = n

theorem isHexDigit_ne {b : Byte} : isHexDigit b = true → isSpace b = false ∧ b ≠ ascii '+' ∧ b ≠ ascii '-' := by
  have key : ∀ b : Byte, isHexDigit b = true → isSpace b = false ∧ b ≠ ascii '+' ∧ b ≠ ascii '-' := by
    decide +kernel
  exact key b

theorem exists_scanSign (s : List Byte) : ∃ sign ∈ [[], [ascii '+'], [ascii '-']],
    s = sign ++ (scanSign s).2 ∧ (scanSign s).1 = decide (sign = [ascii '-']) := by
  cases s with
  | nil => exact ⟨[], by simp, rfl, rfl⟩
  | cons b s =>
    by_cases hminus : b = ascii '-'
    · subst hminus
      exact ⟨[ascii '-'], by simp, rfl, rfl⟩
    · by_cases hplus : b = ascii '+'
      · subst hplus
        exact ⟨[ascii '+'], by simp, rfl, rfl⟩
      · refine ⟨[], by simp, ?_, ?_⟩ <;> simp [scanSign, hminus, hplus]

theorem scanSign_append {sign s : List Byte} (hsign : sign ∈ [[], [ascii '+'], [ascii '-']])
    (hs : ∀ b ∈ s.head?, isHexDigit b = true) : scanSign (sign ++ s) = (decide (sign = [ascii '-']), s) := by
  simp only [List.mem_cons, List.not_mem_nil, or_false] at hsign
  rcases hsign with rfl | rfl | rfl
  · cases s with
    | nil => rfl
    | cons b s =>
      obtain ⟨-, hplus, hminus⟩ := isHexDigit_ne (hs b rfl)
      simp [scanSign, hplus, hminus]
  · rfl
  · rfl

theorem length_of_mem_markers : ∀ m ∈ markers, m.length = 2 := by decide

theorem exists_skipMarker (s : List Byte) : ∃ marker, (marker = [] ∨ marker ∈ markers) ∧
    s = marker ++ skipMarker s ∧ (marker = [] → ∀ m ∈ markers, ¬m <+: s) := by
  by_cases h : ∃ m ∈ markers, m <+: s
  · obtain ⟨m, hm, rest, rfl⟩ := h
    have hlen := length_of_mem_markers m hm
    refine ⟨m, .inr hm, ?_, fun he => ?_⟩
    · rw [skipMarker, if_pos ⟨m, hm, rest, rfl⟩, ← hlen, List.drop_left]
    · simp [he] at hlen
  · refine ⟨[], .inl rfl, ?_, fun _ m hm hp => h ⟨m, hm, hp⟩⟩
    rw [skipMarker, if_neg h, List.nil_append]

theorem skipMarker_append {marker s : List Byte} (hmarker : marker = [] ∨ marker ∈ markers)
    (hs : marker = [] → ∀ m ∈ markers, ¬m <+: s) : skipMarker (marker ++ s) = s := by
  unfold skipMarker
  rcases hmarker with rfl | hm
  · exact if_neg fun ⟨m, hm, hp⟩ => hs rfl m hm hp
  · rw [if_pos ⟨marker, hm, s, rfl⟩, ← length_of_mem_markers marker hm, List.drop_left]

namespace HexLiteral

theorem isHexDigit_head (l : HexLiteral) (rest : List Byte) :
    ∀ b ∈ (l.marker ++ (l.digits ++ rest)).head?, isHexDigit b = true := by
  obtain ⟨d, ds, hds⟩ := List.exists_cons_of_ne_nil l.digits_ne_nil
  rcases l.marker_mem with hnil | hm
  · rw [hnil, hds]
    rintro _ ⟨⟩
    exact l.digits_isHexDigit d (by simp [hds])
  · have hzero : ∀ m ∈ markers, m.head? = some (ascii '0') := by decide
    rw [List.head?_append, hzero _ hm]
    rintro _ ⟨⟩
    decide

theorem isSpace_head (l : HexLiteral) (rest : List Byte) :
    ∀ b ∈ (l.sign ++ (l.marker ++ (l.digits ++ rest))).head?, isSpace b = false := by
  have hsign := l.sign_mem
  simp only [List.mem_cons, List.not_mem_nil, or_false] at hsign
  rcases hsign with hs | hs | hs <;> rw [hs]
  · exact fun b hb => (isHexDigit_ne (l.isHexDigit_head rest b hb)).1
  · rintro _ ⟨⟩
    decide
  · rintro _ ⟨⟩
    decide

theorem scanHex_append (l : HexLiteral) {rest : List Byte} (hend : l.EndsBefore rest) :
    scanHex (l.bytes ++ rest) = some l.value := by
  have hbytes : l.bytes ++ rest = l.space ++ (l.sign ++ (l.marker ++ (l.digits ++ rest))) := by
    simp only [bytes, List.append_assoc]
  have hspace := dropWhile_append_eq l.space_isSpace (l.isSpace_head rest)
  have hsign := scanSign_append l.sign_mem (l.isHexDigit_head rest)
  have hmarker : skipMarker (l.marker ++ (l.digits ++ rest)) = l.digits ++ rest :=
    skipMarker_append l.marker_mem hend.marker
  have hdigits := takeWhile_append_eq l.digits_isHexDigit hend.digit
  simp only [scanHex, hbytes, hspace, hsign, hmarker, hdigits, l.digits_ne_nil, if_false, value, decide_eq_true_eq]

end HexLiteral

/-- The conversion reads a hexadecimal number if there is one. -/
theorem scanHex_eq_some {s : List Byte} {n : Int} : scanHex s = some n ↔ HexNumber s n := by
  constructor
  · intro h
    obtain ⟨sign, hsign, hspace, hminus⟩ := exists_scanSign (s.dropWhile isSpace)
    obtain ⟨marker, hmarker, hrest, hnone⟩ := exists_skipMarker (scanSign (s.dropWhile isSpace)).2
    simp only [scanHex, hminus] at h
    generalize skipMarker (scanSign (s.dropWhile isSpace)).2 = t at h hrest
    split at h
    · cases h
    · rename_i hdigits
      let l : HexLiteral :=
        { space := s.takeWhile isSpace, sign, marker, digits := t.takeWhile isHexDigit
          space_isSpace := fun b hb => List.mem_takeWhile_imp hb
          sign_mem := hsign, marker_mem := hmarker, digits_ne_nil := hdigits
          digits_isHexDigit := fun b hb => List.mem_takeWhile_imp hb }
      have hl : l.bytes ++ t.dropWhile isHexDigit = s := by
        simp only [HexLiteral.bytes, l, List.append_assoc, List.takeWhile_append_dropWhile]
        rw [← hrest, ← hspace, List.takeWhile_append_dropWhile]
      refine ⟨l, t.dropWhile isHexDigit, hl.symm, ⟨head_dropWhile, fun he m hm hp => ?_⟩, ?_⟩
      · have he' : marker = [] := he
        have hp' : m <+: t := by simpa only [l, List.takeWhile_append_dropWhile] using hp
        rw [hrest, he', List.nil_append] at hnone
        exact hnone rfl m hm hp'
      · simpa [HexLiteral.value, l] using h
  · rintro ⟨l, rest, rfl, hend, rfl⟩
    exact l.scanHex_append hend

end CString
