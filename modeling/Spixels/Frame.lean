import Mathlib.Data.List.Basic

/-!
# Frames of groups

A frame is a fixed header, one group of bytes for each of a number of items, all of the same size, and a trailer
that depends on their number.  `Format.parse` is its grammar.  A store of bytes by position that holds a frame,
`Format.byteAt`, parses to the items that its groups decode to (`parse_byteAt`), and rewriting one group leaves
all other positions alone (`byteAt_update`).
-/

namespace Frame

variable {α β : Type*}

structure Format (β : Type*) where
  header : List β
  /-- The number of bytes of a group. -/
  size : Nat
  trailer : Nat → List β

namespace Format

/-- Where group `i` starts. -/
def start (F : Format β) (i : Nat) : Nat := F.header.length + F.size * i

def length (F : Format β) (count : Nat) : Nat := F.start count + (F.trailer count).length

/-- The same frames with another trailer. -/
def withTrailer (F : Format β) (trailer : Nat → List β) : Format β :=
  { header := F.header, size := F.size, trailer }

/-- The byte at position `p` of the frame with the given groups, and `pad` behind it. -/
def byteAt (F : Format β) (count : Nat) (pad : β) (group : Nat → List β) (p : Nat) : β :=
  if p < F.header.length then F.header.getD p pad
  else if p < F.start count then (group ((p - F.header.length) / F.size)).getD ((p - F.header.length) % F.size) pad
  else (F.trailer count).getD (p - F.start count) pad

end Format

/-- Reads `count` groups of `size` bytes, and returns what is left. -/
def groups (size : Nat) (decode : List β → Option α) : Nat → List β → Option (List α × List β)
  | 0, bs => some ([], bs)
  | n + 1, bs =>
    match decode (bs.take size), groups size decode n (bs.drop size) with
    | some x, some (xs, rest) => some (x :: xs, rest)
    | _, _ => none

/-- The items of a frame; `none` if the bytes are not a frame of `count` items. -/
def Format.parse [DecidableEq β] (F : Format β) (decode : List β → Option α) (count : Nat) (bs : List β) :
    Option (List α) :=
  if bs.take F.header.length = F.header then
    match groups F.size decode count (bs.drop F.header.length) with
    | some (xs, rest) => if rest = F.trailer count then some xs else none
    | none => none
  else none

/-! ### Positions -/

section Positions

variable {F : Format β} {count : Nat} {pad : β} {group : Nat → List β}

theorem start_lt {i j : Nat} (hi : i < count) (hj : j < F.size) : F.start i + j < F.start count := by
  have h : F.size * i + F.size ≤ F.size * count := by
    rw [← Nat.mul_succ]; exact Nat.mul_le_mul_left _ hi
  unfold Format.start; omega

theorem byteAt_header {p : Nat} (hp : p < F.header.length) : F.byteAt count pad group p = F.header.getD p pad :=
  if_pos hp

theorem byteAt_group (pad : β) (group : Nat → List β) {i j : Nat} (hi : i < count) (hj : j < F.size) :
    F.byteAt count pad group (F.start i + j) = (group i).getD j pad := by
  have hlt := start_lt (F := F) hi hj
  have hsub : F.start i + j - F.header.length = F.size * i + j := by unfold Format.start; omega
  rw [Format.byteAt, if_neg (by unfold Format.start; omega), if_pos hlt, hsub, Nat.mul_add_div (by omega),
    Nat.div_eq_of_lt hj, Nat.mul_add_mod, Nat.mod_eq_of_lt hj, Nat.add_zero]

theorem byteAt_trailer (j : Nat) :
    F.byteAt count pad group (F.start count + j) = (F.trailer count).getD j pad := by
  rw [Format.byteAt, if_neg (by unfold Format.start; omega), if_neg (by omega), Nat.add_sub_cancel_left]

/-- A position of the groups belongs to one of them. -/
theorem group_index_lt {p : Nat} (hh : ¬p < F.header.length) (hp : p < F.start count) :
    (p - F.header.length) / F.size < count ∧
      p = F.start ((p - F.header.length) / F.size) + (p - F.header.length) % F.size ∧
      (p - F.header.length) % F.size < F.size := by
  unfold Format.start at *
  have hsize : 0 < F.size := by
    rcases Nat.eq_zero_or_pos F.size with h0 | h0
    · rw [h0] at hp; omega
    · exact h0
  have hmod := Nat.div_add_mod (p - F.header.length) F.size
  refine ⟨?_, by omega, Nat.mod_lt _ hsize⟩
  rw [Nat.div_lt_iff_lt_mul hsize, Nat.mul_comm]
  omega

/-- Only the bytes of the groups matter. -/
theorem byteAt_congr {group' : Nat → List β}
    (h : ∀ i < count, ∀ j < F.size, (group' i).getD j pad = (group i).getD j pad) (p : Nat) :
    F.byteAt count pad group' p = F.byteAt count pad group p := by
  unfold Format.byteAt
  split
  · rfl
  · split
    · rename_i hh hp
      obtain ⟨hi, -, hj⟩ := group_index_lt hh hp
      exact h _ hi _ hj
    · rfl

/-- Rewriting group `i`. -/
theorem byteAt_update (pad : β) {group group' : Nat → List β} {i : Nat} (hi : i < count)
    (hsame : ∀ k < count, k ≠ i → group' k = group k)
    (p : Nat) :
    F.byteAt count pad group' p =
      if F.start i ≤ p ∧ p < F.start i + F.size then (group' i).getD (p - F.start i) pad
      else F.byteAt count pad group p := by
  split
  · rename_i hp
    obtain ⟨j, rfl⟩ : ∃ j, p = F.start i + j := ⟨p - F.start i, by omega⟩
    rw [byteAt_group _ _ hi (by omega), Nat.add_sub_cancel_left]
  · rename_i hp
    unfold Format.byteAt
    split
    · rfl
    · split
      · rename_i hh ht
        obtain ⟨hk, hpos, hlt⟩ := group_index_lt hh ht
        rw [hsame _ hk]
        intro he
        rw [he] at hpos
        omega
      · rfl

/-- Writing the trailer behind the groups. -/
theorem byteAt_setTrailer (count : Nat) (pad : β) (group : Nat → List β) (p : Nat) :
    F.byteAt count pad group p =
      if F.start count ≤ p ∧ p < F.start count + (F.trailer count).length then
        (F.trailer count).getD (p - F.start count) pad
      else (F.withTrailer fun _ => []).byteAt count pad group p := by
  have hle : F.header.length ≤ F.start count := Nat.le_add_right ..
  split
  · rename_i hp
    obtain ⟨j, rfl⟩ : ∃ j, p = F.start count + j := ⟨p - F.start count, by omega⟩
    rw [byteAt_trailer, Nat.add_sub_cancel_left]
  · rename_i hp
    have hrest : (F.withTrailer fun _ => []).byteAt count pad group p =
        if p < F.header.length then F.header.getD p pad
        else if p < F.start count then
          (group ((p - F.header.length) / F.size)).getD ((p - F.header.length) % F.size) pad
        else pad := rfl
    rw [hrest]
    unfold Format.byteAt
    split
    · rfl
    · split
      · rfl
      · rw [List.getD_eq_getElem?_getD, List.getElem?_eq_none (by omega)]; rfl

/-- A frame of nothing but `pad`. -/
theorem byteAt_pad (hheader : ∀ b ∈ F.header, b = pad) (hgroup : ∀ i < count, ∀ b ∈ group i, b = pad)
    (htrailer : ∀ b ∈ F.trailer count, b = pad) (p : Nat) : F.byteAt count pad group p = pad := by
  have hgetD : ∀ (l : List β), (∀ b ∈ l, b = pad) → ∀ i, l.getD i pad = pad := by
    intro l hl i
    rw [List.getD_eq_getElem?_getD]
    cases h : l[i]? with
    | none => rfl
    | some b => exact hl b (List.mem_of_getElem? h)
  unfold Format.byteAt
  split
  · exact hgetD _ hheader _
  · split
    · rename_i hh hp
      exact hgetD _ (hgroup _ (group_index_lt hh hp).1) _
    · exact hgetD _ htrailer _

end Positions

/-! ### Parsing -/

section Parse

variable {F : Format β} {count : Nat} {pad : β} {group : Nat → List β} {decode : List β → Option α}
    {item : Nat → α}

private theorem take_range'_map (f : Nat → β) (a m n : Nat) :
    ((List.range' a (m + n)).map f).take m = (List.range' a m).map f ∧
      ((List.range' a (m + n)).map f).drop m = (List.range' (a + m) n).map f := by
  rw [← List.range'_append_1, List.map_append]
  constructor
  · rw [List.take_left' (by simp)]
  · rw [List.drop_left' (by simp)]

theorem groups_eq {size t : Nat} {f : Nat → β} : ∀ {count a : Nat} {item : Nat → α},
    (∀ i < count, decode ((List.range' (a + size * i) size).map f) = some (item i)) →
    groups size decode count ((List.range' a (size * count + t)).map f) =
      some ((List.range count).map item, (List.range' (a + size * count) t).map f)
  | 0, a, item, _ => by simp [groups]
  | n + 1, a, item, h => by
    have h0 := h 0 (by omega)
    have hshift : ∀ i < n, decode ((List.range' (a + size + size * i) size).map f) = some (item (i + 1)) := by
      intro i hi
      have := h (i + 1) (by omega)
      rwa [Nat.mul_succ, Nat.add_comm (size * i), ← Nat.add_assoc] at this
    have hrec := groups_eq (t := t) hshift
    have hlen : size * (n + 1) + t = size + (size * n + t) := by rw [Nat.mul_succ]; omega
    obtain ⟨htake, hdrop⟩ := take_range'_map f a size (size * n + t)
    rw [groups, hlen, htake, hdrop, hrec]
    rw [Nat.mul_zero, Nat.add_zero] at h0
    rw [h0, List.range_succ_eq_map, List.map_cons, List.map_map]
    simp only [Nat.mul_succ]
    rw [show a + (size * n + size) = a + size + size * n by omega]
    rfl

private theorem map_range'_getD (pad : β) (a : Nat) {f : Nat → β} {l : List β}
    (h : ∀ j < l.length, f (a + j) = l.getD j pad) :
    (List.range' a l.length).map f = l := by
  apply List.ext_getElem
  · simp
  · intro i h1 h2
    rw [List.getElem_map, List.getElem_range', Nat.one_mul, h i h2]
    simp [h2]

/-- A store that holds a frame parses to the items of its groups. -/
theorem parse_byteAt [DecidableEq β] (hsize : ∀ i < count, (group i).length = F.size)
    (hitem : ∀ i < count, decode (group i) = some (item i)) {f : Nat → β}
    (hf : ∀ p < F.length count, f p = F.byteAt count pad group p) :
    F.parse decode count ((List.range (F.length count)).map f) = some ((List.range count).map item) := by
  have hlen : F.length count = F.header.length + (F.size * count + (F.trailer count).length) := by
    unfold Format.length Format.start; omega
  have hheader : (List.range' 0 F.header.length).map f = F.header :=
    map_range'_getD pad 0 fun j hj => by
      rw [Nat.zero_add, hf j (by omega), byteAt_header hj]
  have hgroup : ∀ i < count, (List.range' (F.header.length + F.size * i) F.size).map f = group i := fun i hi => by
    have hl := hsize i hi
    rw [← hl]
    refine map_range'_getD pad _ fun j hj => ?_
    have hlt := start_lt (F := F) hi (show j < F.size by omega)
    have hp := byteAt_group (F := F) pad group hi (show j < F.size by omega)
    rw [hl]
    exact (hf _ (by unfold Format.length; unfold Format.start at hlt ⊢; omega)).trans hp
  have htrailer : (List.range' (F.header.length + F.size * count) (F.trailer count).length).map f =
      F.trailer count :=
    map_range'_getD pad _ fun j hj =>
      (hf _ (by unfold Format.length Format.start; omega)).trans (byteAt_trailer j)
  obtain ⟨htake, hdrop⟩ := take_range'_map f 0 F.header.length (F.size * count + (F.trailer count).length)
  rw [Format.parse, List.range_eq_range', hlen, htake, hdrop, if_pos hheader, Nat.zero_add,
    groups_eq fun i hi => by rw [hgroup i hi]; exact hitem i hi]
  simp only [htrailer, ↓reduceIte]

end Parse

end Frame
