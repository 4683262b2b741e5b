import Spixels.DirectBuffer

/-!
# Growth of the direct buffer

`Configured` holds after every accepted history; `Holds` says in addition that the buffer is what the streams
ask for.  A first growth establishes it, whatever the new storage holds, and bytes keep it.  A later growth does
not: its `bzero` misses the new words and leaves the buffer.  Hence `cleanGrowth_iff`.
-/

namespace Spixels

open Waveform (byteDrive)
open Run (run bind_eq_ok map_eq_ok)

namespace DirectMultiSPI

/-- The words at `gpio_data_`. -/
def words (s : DirectMultiSPI) : List (BitVec 32) := s.gpioData.getD []

/-- The growth from `m` to `t` clears words of the buffer only, keeps the old words and clears the new ones. -/
structure GrowthOk (m t : DirectMultiSPI) : Prop where
  inside : (growBzero (m.size * 8 * sizeofUint32) (t.size * 8 * sizeofUint32)).off +
    (growBzero (m.size * 8 * sizeofUint32) (t.size * 8 * sizeofUint32)).n ≤ 8 * t.size
  kept : ∀ i < 8 * m.size, t.words[i]? = m.words[i]?
  zero : ∀ i, 8 * m.size ≤ i → i < 8 * t.size → t.words[i]? = some 0#32

/-- Every growth of the history is as it should be. -/
def CleanGrowth (fresh : Nat → Nat → BitVec 32) (s : DirectMultiSPI) (h : List Call) : Prop :=
  Run.Each (fun pre c => ∀ g n, c = .registerDataGpio g n → ∀ m t b, run (step fresh) s pre = .ok m →
    m.registerDataGpio fresh g n = .ok (t, b) → m.size < n → GrowthOk m t) h

/-- In every state of the history, a pin is zero in the bytes that have not been set for it. -/
def UnsetZero (fresh : Nat → Nat → BitVec 32) (s : DirectMultiSPI) (h : List Call) : Prop :=
  ∀ pre, pre <+: h → ∀ m, run (step fresh) s pre = .ok m → ∀ g p, IsPin g → p < m.size →
    (∀ b, Call.setBufferedByte g p b ∉ pre) → ∀ k < 8,
      ∃ w, m.words[8 * p + k]? = some w ∧ w.getLsbD g.toNat = false

/-- No registration asks for more bytes than an earlier one of non-zero length did. -/
def GrowsOnce (h : List Call) : Prop :=
  Run.Each (fun pre c => c.OnRegister fun _ n => (streams pre).size = 0 ∨ n ≤ (streams pre).size) h

instance {h : List Call} : Decidable (GrowsOnce h) :=
  inferInstanceAs (Decidable (Run.Each
    (fun pre c => c.OnRegister fun _ n => (streams pre).size = 0 ∨ n ≤ (streams pre).size) h))

section Steps

variable {clk : Int} {fresh : Nat → Nat → BitVec 32} {h : List Call} {s t : DirectMultiSPI}

/-! ### What a call can do -/

theorem grow_spec {n : Nat} (ht : s.grow fresh n = .ok t) :
    t = { s with
      size := n
      gpioData := some (Storage.fill (Storage.resize (fresh (n * 8 * 4)) s.words (8 * n)) (s.size * 8 * 4)
        (8 * n - 8 * s.size) 0#32) } := by
  obtain ⟨a, ha, ht⟩ := bind_eq_ok.1 ht
  obtain ⟨b, hb, ht⟩ := bind_eq_ok.1 ht
  obtain ⟨-, rfl⟩ := toInt_eq_ok.1 ha
  obtain ⟨-, rfl⟩ := toInt_eq_ok.1 hb
  cases ht
  simp only [growBzero, sizeofUint32, words]
  rw [show n * 8 * 4 / 4 = 8 * n by omega, show (n * 8 * 4 - s.size * 8 * 4) / 4 = 8 * n - 8 * s.size by omega]

theorem registerDataGpio_spec {g : Int} {n : Nat} {b : Bool} (ht : s.registerDataGpio fresh g n = .ok (t, b)) :
    ∃ m, (n > s.size ∧ s.grow fresh n = .ok m ∨ n ≤ s.size ∧ m = s) ∧
      t = { m with gpio := (s.gpio.addOutput g).1 } := by
  obtain ⟨m, hm, he⟩ := map_eq_ok.1 ht
  split at hm
  · rename_i hn
    have hgpio : m.gpio = s.gpio := by rw [grow_spec hm]
    rw [hgpio] at he
    cases he
    exact ⟨m, .inl ⟨hn, hm⟩, rfl⟩
  · cases hm; cases he
    exact ⟨s, .inr ⟨by omega, rfl⟩, rfl⟩

theorem setBufferedByte_spec {g : Int} {p : Nat} {b : BitVec 8} (ht : s.setBufferedByte g p b = .ok t) :
    p < s.size ∧ t = { s with
      gpioData := some (Storage.sweep (fun k => 8 * p + k) (paintBit g b) s.words (List.range 8)) } := by
  unfold setBufferedByte at ht
  split at ht
  · rename_i hp
    split at ht
    · cases ht
    · rename_i buffer hbuf
      split at ht
      · cases ht
        exact ⟨hp, by rw [words, hbuf]; rfl⟩
      · cases ht
  · cases ht

/-! ### Every history -/

/-- The size and the output pins are those asked for, and there are eight words for each byte. -/
structure Configured (clk : Int) (h : List Call) (s : DirectMultiSPI) : Prop where
  clock : s.clockGpio = clk
  size : s.size = (streams h).size
  length : s.words.length = 8 * (streams h).size
  outputs : Outputs clk h s.gpio

theorem create_spec {port : Nat → BitVec 32} {repeats : Int} (hs : create port repeats clk = .ok s) :
    Configured clk [] s ∧ s.gpioData = none ∧ 1 ≤ s.writeRepeat := by
  unfold create at hs
  split at hs
  rename_i gpio success heq
  split at hs
  · rename_i hsucc
    cases hs
    have hout := Outputs.initialised clk port (by rw [heq]; exact hsucc)
    rw [heq] at hout
    exact ⟨⟨rfl, rfl, rfl, hout⟩, rfl, by simp only; omega⟩
  · cases hs

theorem create_ok (port : Nat → BitVec 32) (repeats : Int) (ha : Gpio.accepts clk = true) :
    ∃ s, create port repeats clk = .ok s := by
  have hsucc := (Gpio.addOutput_snd (g := Gpio.initialised port) rfl clk).trans ha
  unfold create
  dsimp only
  rw [if_pos hsucc]
  exact ⟨_, rfl⟩

theorem configured_step (hr : Configured clk h s) {c : Call} (ht : s.step fresh c = .ok t) :
    Configured clk (h ++ [c]) t := by
  obtain ⟨⟨t', ws⟩, hcall, rfl⟩ := map_eq_ok.1 ht
  have hσ := streams_snoc h c
  cases c with
  | registerDataGpio g n =>
    obtain ⟨⟨r, b⟩, hreg, he⟩ := map_eq_ok.1 hcall
    cases he
    obtain ⟨m, hm, rfl⟩ := registerDataGpio_spec hreg
    have hsize := hr.size
    simp only [Streams.step] at hσ
    rcases hm with ⟨hn, hgrow⟩ | ⟨hn, rfl⟩
    · rw [grow_spec hgrow]
      have hmax : max (streams h).size n = n := by omega
      refine ⟨hr.clock, by rw [hσ, Streams.size_register, hmax], ?_, hr.outputs.register g n⟩
      rw [hσ, Streams.size_register, hmax]
      simp [DirectMultiSPI.words]
    · have hmax : max (streams h).size n = (streams h).size := by omega
      exact ⟨hr.clock, by rw [hσ, Streams.size_register, hmax]; exact hsize,
        by rw [hσ, Streams.size_register, hmax]; exact hr.length, hr.outputs.register g n⟩
  | setBufferedByte g p b =>
    obtain ⟨r, hset, he⟩ := map_eq_ok.1 hcall
    cases he
    obtain ⟨-, rfl⟩ := setBufferedByte_spec hset
    refine ⟨hr.clock, by rw [hσ]; exact hr.size, ?_, hr.outputs.keep (by simp)⟩
    rw [hσ]
    exact (Storage.length_sweep _ _).trans hr.length
  | sendBuffers =>
    obtain ⟨ws', -, he⟩ := map_eq_ok.1 hcall
    cases he
    exact ⟨hr.clock, by rw [hσ]; exact hr.size, by rw [hσ]; exact hr.length, hr.outputs.keep (by simp)⟩

theorem configured_of_run {port : Nat → BitVec 32} {repeats : Int} (hs : create port repeats clk = .ok s)
    (ht : run (step fresh) s h = .ok t) : Configured clk h t :=
  Run.run_induct (Configured clk) (create_spec hs).1 (fun _ _ _ _ _ hr hstep => configured_step hr hstep) ht

theorem setBufferedByte_ok (hl : s.words.length = 8 * s.size) (g : Int) {p : Nat} (hp : p < s.size)
    (b : BitVec 8) :
    ∃ t, s.setBufferedByte g p b = .ok t := by
  unfold setBufferedByte
  rw [if_pos hp]
  unfold words at hl
  cases hd : s.gpioData with
  | none => rw [hd] at hl; simp at hl; omega
  | some buffer =>
    rw [hd, Option.getD_some] at hl
    dsimp only
    rw [if_pos (by omega)]
    exact ⟨_, rfl⟩

theorem sendBuffers_ok (hl : s.words.length = 8 * s.size) :
    s.sendBuffers = .ok (s.words.flatMap s.sendWord ++ s.gpio.write 0#32) := by
  unfold words at hl
  rw [sendBuffers, if_pos (by omega), List.take_of_length_le (by omega)]
  rfl

theorem registerDataGpio_ok (fresh : Nat → Nat → BitVec 32) (hs : s.size * 32 < 2 ^ 31) (g : Int) {n : Nat}
    (hn : n * 32 < 2 ^ 31) :
    ∃ r, s.registerDataGpio fresh g n = .ok r := by
  have hgrow : ∃ m, s.grow fresh n = .ok m :=
    ⟨_, bind_eq_ok.2 ⟨_, toInt_eq_ok.2 ⟨by unfold sizeofUint32; omega, rfl⟩,
      bind_eq_ok.2 ⟨_, toInt_eq_ok.2 ⟨by unfold sizeofUint32; omega, rfl⟩, rfl⟩⟩⟩
  unfold registerDataGpio
  split
  · obtain ⟨m, hm⟩ := hgrow
    rw [hm]; exact ⟨_, rfl⟩
  · exact ⟨_, rfl⟩

/-- Calls whose sizes fit and whose bytes are in range are all accepted. -/
theorem run_ok {port : Nat → BitVec 32} {repeats : Int} (fresh : Nat → Nat → BitVec 32)
    (hs : create port repeats clk = .ok s) (hin : InRange h) (hfit : 32 * (streams h).size < 2 ^ 31) :
    ∃ t, run (step fresh) s h = .ok t ∧ Configured clk h t := by
  refine Run.run_total _ (create_spec hs).1 fun pre m c hpre hr => ?_
  have hok : ∃ r, m.call fresh c = .ok r := by
    have hmem : c ∈ h := hpre.subset (by simp)
    have hsz := hr.size
    have hlen : m.words.length = 8 * m.size := by rw [hsz]; exact hr.length
    cases c with
    | registerDataGpio g n =>
      have hle : (streams pre).size ≤ (streams h).size := by
        rcases size_streams_mem pre with h0 | ⟨g', hg'⟩
        · omega
        · exact le_size_streams (hpre.subset (List.mem_append_left _ hg'))
      have hn := le_size_streams hmem
      obtain ⟨r, hr'⟩ := registerDataGpio_ok (s := m) fresh (by omega) g (n := n) (by omega)
      exact ⟨_, map_eq_ok.2 ⟨_, hr', rfl⟩⟩
    | setBufferedByte g p b =>
      have hp : p < (streams pre).size := hin pre _ hpre
      obtain ⟨r, hr'⟩ := setBufferedByte_ok hlen g (p := p) (by omega) b
      exact ⟨_, map_eq_ok.2 ⟨_, hr', rfl⟩⟩
    | sendBuffers => exact ⟨_, map_eq_ok.2 ⟨_, sendBuffers_ok hlen, rfl⟩⟩
  obtain ⟨r, hr'⟩ := hok
  have hstep : m.step fresh c = .ok r.1 := map_eq_ok.2 ⟨r, hr', rfl⟩
  exact ⟨_, hstep, configured_step hr hstep⟩

/-! ### Histories that grow once -/

/-- The buffer is what the streams ask for. -/
structure Holds (h : List Call) (s : DirectMultiSPI) : Prop where
  bounded : (streams h).Bounded
  words : s.words = painted (List.replicate (8 * (streams h).size) 0#32) (streams h)

/-- A growth of an empty buffer clears it. -/
theorem words_grow {n : Nat} (h0 : s.size = 0) (ht : s.grow fresh n = .ok t) :
    t.words = List.replicate (8 * n) 0#32 := by
  rw [grow_spec ht]
  apply List.ext_getElem?
  intro i
  simp only [DirectMultiSPI.words, Option.getD_some, h0]
  by_cases hi : i < 8 * n
  · rw [Storage.getElem?_fill_of_mem (by simpa using hi) (by omega) (by omega), List.getElem?_replicate, if_pos hi]
  · rw [List.getElem?_eq_none (by simp; omega), List.getElem?_eq_none (by simp; omega)]

theorem holds_step (hr : Configured clk h s) (hh : Holds h s) {c : Call} (hp : PinsOnly (h ++ [c]))
    (hone : GrowsOnce (h ++ [c])) (ht : s.step fresh c = .ok t) : Holds (h ++ [c]) t := by
  obtain ⟨⟨t', ws⟩, hcall, rfl⟩ := map_eq_ok.1 ht
  have hσ := streams_snoc h c
  cases c with
  | registerDataGpio g n =>
    obtain ⟨⟨r, b⟩, hreg, he⟩ := map_eq_ok.1 hcall
    cases he
    obtain ⟨m, hm, rfl⟩ := registerDataGpio_spec hreg
    simp only [Streams.step] at hσ
    refine ⟨by rw [hσ]; exact hh.bounded.register n, ?_⟩
    rcases hm with ⟨hn, hgrow⟩ | ⟨hn, rfl⟩
    · have h0 : (streams h).size = 0 := by
        rcases (Run.each_snoc.1 hone).2 with h0 | hle
        · exact h0
        · rw [hr.size] at hn; omega
      have hnone : ∀ g p, (streams h).byte g p = none := fun g p => hh.bounded.byte_eq_none g (by omega)
      have hgrown := words_grow (hr.size.trans h0) hgrow
      rw [hσ, Streams.size_register, painted_of_none (by simpa using hnone), h0, Nat.zero_max]
      exact hgrown
    · have hsize : (streams h).register n = streams h := by
        rw [hr.size] at hn
        rw [Streams.register, Nat.max_eq_left hn]
      rw [hσ, hsize]
      exact hh.words
  | setBufferedByte g p b =>
    obtain ⟨r, hset, he⟩ := map_eq_ok.1 hcall
    cases he
    obtain ⟨hlt, rfl⟩ := setBufferedByte_spec hset
    have hg : IsPin g := hp g p b (by simp)
    simp only [Streams.step] at hσ
    refine ⟨by rw [hσ]; exact hh.bounded.set g (by rw [← hr.size]; exact hlt) b, ?_⟩
    rw [hσ, Streams.size_set, ← paint_painted hg, ← hh.words]
    rfl
  | sendBuffers =>
    obtain ⟨ws', -, he⟩ := map_eq_ok.1 hcall
    cases he
    exact ⟨by rw [hσ]; exact hh.bounded, by rw [hσ]; exact hh.words⟩

theorem holds_of_run {port : Nat → BitVec 32} {repeats : Int} (hs : create port repeats clk = .ok s)
    (hp : PinsOnly h) (hone : GrowsOnce h) (ht : run (step fresh) s h = .ok t) : Holds h t := by
  refine Run.run_induct (fun h t => PinsOnly h → GrowsOnce h → Holds h t) (fun _ _ => ?_) ?_ ht hp hone
  · refine ⟨fun g p b hb => (by cases hb), ?_⟩
    rw [DirectMultiSPI.words, (create_spec hs).2.1]; rfl
  · intro h m c t hm ih hstep hp hone
    exact holds_step (configured_of_run hs hm) (ih hp.of_append hone.of_append) hp hone hstep

/-- A lane without a byte is zero. -/
theorem Holds.unset (hh : Holds h s) {g : Int} (hg : IsPin g) {p : Nat} (hp : p < (streams h).size)
    (hu : ∀ b, Call.setBufferedByte g p b ∉ h) {k : Nat} (hk : k < 8) :
    ∃ w, s.words[8 * p + k]? = some w ∧ w.getLsbD g.toNat = false := by
  have hnone : (streams h).byte g p = none := by
    by_contra hne
    obtain ⟨b, hb⟩ := byte_streams_ne_none.1 hne
    exact hu b hb
  have hlt : 8 * p + k < 8 * (streams h).size := by omega
  refine ⟨_, by rw [hh.words, getElem?_painted, List.getElem?_replicate, if_pos hlt, Option.map_some], ?_⟩
  rw [getLsbD_ofLanes _ hg.toNat_lt, hg.natCast_toNat, Waveform.byteDrive_of_lt _ p hk, hnone]
  simp

/-- A second growth is never clean: it clears `8 n - 8 size` words from word `32 size` on. -/
theorem growsOnce_of_clean {port : Nat → BitVec 32} {repeats : Int} (hs : create port repeats clk = .ok s)
    (ht : run (step fresh) s h = .ok t) (hclean : CleanGrowth fresh s h) : GrowsOnce h := by
  intro pre c hpre
  cases c with
  | setBufferedByte | sendBuffers => trivial
  | registerDataGpio g n =>
    by_contra hcon
    simp only [Call.OnRegister] at hcon
    obtain ⟨m, v, hm, hstep⟩ := Run.run_at ht hpre
    obtain ⟨r, hcall, -⟩ := map_eq_ok.1 hstep
    obtain ⟨⟨u, b⟩, hreg, -⟩ := map_eq_ok.1 hcall
    have hsz := (configured_of_run hs hm).size
    have hok := hclean pre _ hpre g n rfl m u b hm hreg (by omega)
    have hu : u.size = n := by
      obtain ⟨v, hv, rfl⟩ := registerDataGpio_spec hreg
      rcases hv with ⟨-, hgrow⟩ | ⟨hle, -⟩
      · rw [grow_spec hgrow]
      · omega
    have hin := hok.inside
    rw [hu] at hin
    simp only [growBzero, sizeofUint32] at hin
    omega

/-- The only growth is the first one, which starts without words. -/
theorem cleanGrowth_of_growsOnce {port : Nat → BitVec 32} {repeats : Int} (hs : create port repeats clk = .ok s)
    (hone : GrowsOnce h) : CleanGrowth fresh s h := by
  rintro pre c hpre g n rfl m u b hm hreg hlt
  have hsz := (configured_of_run hs hm).size
  have h0 : m.size = 0 := by
    rcases hone pre _ hpre with h0 | hle <;> omega
  obtain ⟨v, ⟨-, hgrow⟩ | ⟨hle, -⟩, rfl⟩ := registerDataGpio_spec hreg
  · have hw : v.words = List.replicate (8 * n) 0#32 := words_grow h0 hgrow
    have hn : v.size = n := by rw [grow_spec hgrow]
    refine ⟨?_, fun i hi => by omega, fun i _ hi => ?_⟩
    · simp only [growBzero, sizeofUint32, h0, hn]; omega
    · exact (congrArg (fun ws => ws[i]?) hw).trans (by simp only [hn] at hi; simp [hi])
  · omega

theorem unsetZero_of_growsOnce {port : Nat → BitVec 32} {repeats : Int} (hs : create port repeats clk = .ok s)
    (hp : PinsOnly h) (hone : GrowsOnce h) : UnsetZero fresh s h := by
  rintro pre ⟨post, rfl⟩ m hm g p hg hpm hu k hk
  have hsz := (configured_of_run hs hm).size
  exact (holds_of_run hs hp.of_append (Run.Each.of_append hone) hm).unset hg (by omega) hu hk

end Steps

/-- In a history whose sizes fit and whose bytes are in range, every growth is clean and every missing byte zero
if and only if the buffer grows at most once. -/
theorem cleanGrowth_iff {clk : Int} {port : Nat → BitVec 32} {repeats : Int} {fresh : Nat → Nat → BitVec 32}
    {s : DirectMultiSPI} (hs : create port repeats clk = .ok s) {h : List Call} (hp : PinsOnly h) (hin : InRange h)
    (hfit : 32 * (streams h).size < 2 ^ 31) :
    (∃ t, run (step fresh) s h = .ok t) ∧ (CleanGrowth fresh s h ∧ UnsetZero fresh s h ↔ GrowsOnce h) := by
  obtain ⟨t, ht, -⟩ := run_ok fresh hs hin hfit
  refine ⟨⟨t, ht⟩, fun ⟨hclean, _⟩ => growsOnce_of_clean hs ht hclean, fun hone => ?_⟩
  exact ⟨cleanGrowth_of_growsOnce hs hone, unsetZero_of_growsOnce hs hp hone⟩

/-- The longest strip first. -/
theorem cleanGrowth_longest_first :
    ∃ s, create (fun _ => 0#32) 8 27 = .ok s ∧
      CleanGrowth (fun _ _ => 0xFFFFFFFF#32) s [.registerDataGpio 23 2, .setBufferedByte 23 0 0xA5#8,
        .registerDataGpio 18 1] ∧
      UnsetZero (fun _ _ => 0xFFFFFFFF#32) s [.registerDataGpio 23 2, .setBufferedByte 23 0 0xA5#8,
        .registerDataGpio 18 1] := by
  obtain ⟨s, hs⟩ := create_ok (fun _ => 0#32) 8 (show Gpio.accepts 27 = true by decide)
  exact ⟨s, hs, (cleanGrowth_iff hs (by decide) (by decide) (by decide)).2.2 (by decide)⟩

/-- The longest strip last: the words of its second byte keep what the new storage held. -/
theorem not_cleanGrowth_longest_last :
    ∃ s t, create (fun _ => 0#32) 8 27 = .ok s ∧
      run (step fun _ _ => 0xFFFFFFFF#32) s [.registerDataGpio 18 1, .registerDataGpio 23 2] = .ok t ∧
      ¬CleanGrowth (fun _ _ => 0xFFFFFFFF#32) s [.registerDataGpio 18 1, .registerDataGpio 23 2] ∧
      ¬UnsetZero (fun _ _ => 0xFFFFFFFF#32) s [.registerDataGpio 18 1, .registerDataGpio 23 2] := by
  obtain ⟨s, hs⟩ := create_ok (fun _ => 0#32) 8 (show Gpio.accepts 27 = true by decide)
  obtain ⟨t, ht, hconf⟩ := run_ok (fun _ _ => 0xFFFFFFFF#32) hs
    (h := [.registerDataGpio 18 1, .registerDataGpio 23 2]) (by decide) (by decide)
  obtain ⟨m, hm, hstep⟩ := (Run.run_snoc_eq_ok (h := [Call.registerDataGpio 18 1])).1 ht
  obtain ⟨r, hcall, rfl⟩ := map_eq_ok.1 hstep
  obtain ⟨⟨u, b⟩, hreg, rfl⟩ := map_eq_ok.1 hcall
  have hsize : m.size = 1 := (configured_of_run hs hm).size
  have hlen : m.words.length = 8 := (configured_of_run hs hm).length
  have hword : u.size = 2 ∧ u.words[8]? = some 0xFFFFFFFF#32 := by
    obtain ⟨v, ⟨-, hgrow⟩ | ⟨hle, -⟩, rfl⟩ := registerDataGpio_spec hreg
    · rw [grow_spec hgrow]
      refine ⟨rfl, ?_⟩
      simp only [words, Option.getD_some]
      rw [Storage.getElem?_fill_of_lt (by omega), Storage.getElem?_resize _ _ (by omega),
        List.getElem?_eq_none (by unfold words at hlen; omega)]
      rfl
    · omega
  refine ⟨s, u, hs, ht, fun hclean => ?_, fun hzero => ?_⟩
  · have hin := (hclean [.registerDataGpio 18 1] _ (List.prefix_refl _) 23 2 rfl m u b hm hreg (by omega)).inside
    rw [hsize, hword.1] at hin
    exact absurd hin (by decide)
  · obtain ⟨w, hw, hlow⟩ := hzero _ (List.prefix_refl _) u ht 18 1 (by decide) (by omega) (by simp) 0 (by omega)
    rw [hword.2] at hw
    cases hw
    exact absurd hlow (by decide)

end DirectMultiSPI

end Spixels
