import Mathlib.Data.List.MinMax
import Mathlib.Order.Nat
import Spixels.LedDisplay
import Spixels.LedOutside

/-!
# Programs with several strips

A program creates strips of any types on the pins of one `MultiSPI`, calls them in any order and sends in between.
`Op.exec` is what the source does: it keeps the strips and makes calls on the `MultiSPI`.  `connected` only
records what has been asked of each strip.

The strips of a program do not get in each other's way: if their pins are different, the calls for each pin are
those of a session with its strip alone, and so is the strip itself: `programInv`.
-/

namespace Spixels

/-- A call of a program. -/
inductive Op
  /-- `CreateWS2801Strip(spi, connector, count)` and so on: the next strip -/
  | createStrip (type : StripType) (connector : Int) (count : Nat)
  /-- a call on the strip that was created as number `i` -/
  | onStrip (i : Nat) (c : StripCall)
  | sendBuffers
deriving DecidableEq, Repr

def Op.creates : Op → Bool
  | .createStrip _ _ _ => true
  | .onStrip _ _ => false
  | .sendBuffers => false

/-- A strip with the members of its class. -/
structure Mounted where
  type : StripType
  gpio : Int
  count : Nat
  strip : LEDStrip count

/-- One call of a program, with the calls it makes on the `MultiSPI`. -/
def Op.exec (lum : Luminance) (strips : List Mounted) : Op → List Mounted × List Call
  | .createStrip type connector count =>
    let made := type.create lum connector count
    (strips ++ [{ type, gpio := connector, count, strip := made.strip }], made.calls)
  | .onStrip i c =>
    match strips[i]? with
    | none => (strips, [])
    | some m =>
      let (strip, linears) := m.strip.call lum c
      (strips.set i { m with strip }, linears.flatMap fun l => m.type.setLinearValues m.gpio l.pos l.value)
  | .sendBuffers => (strips, [.sendBuffers])

/-- The calls that a program makes on its `MultiSPI`. -/
def programCalls (lum : Luminance) (ops : List Op) : List Call := (Run.trace (Op.exec lum) [] ops).2

/-! ### What has been asked of each strip -/

structure Connected where
  type : StripType
  gpio : Int
  count : Nat
  history : List StripCall

namespace Connected

def call (c : Connected) (k : StripCall) : Connected := { c with history := c.history ++ [k] }

/-- The number of bytes of the stream of the strip. -/
def length (c : Connected) : Nat := c.type.format.length c.count

/-- A session with the strip alone. -/
def session (lum : Luminance) (c : Connected) : Strip c.count := c.type.session lum c.gpio c.count c.history

def display (lum : Luminance) (c : Connected) : Display c.count :=
  c.history.foldl (Display.call lum) (Display.dark c.count)

def mounted (lum : Luminance) (c : Connected) : Mounted :=
  { type := c.type, gpio := c.gpio, count := c.count, strip := (c.session lum).strip }

end Connected

def connectStep (cs : List Connected) : Op → List Connected
  | .createStrip type connector count => cs ++ [{ type, gpio := connector, count, history := [] }]
  | .onStrip i k =>
    match cs[i]? with
    | none => cs
    | some c => cs.set i (c.call k)
  | .sendBuffers => cs

/-- The strips of a program, in the order of their creation. -/
def connected (ops : List Op) : List Connected := ops.foldl connectStep []

theorem connected_snoc (ops : List Op) (op : Op) : connected (ops ++ [op]) = connectStep (connected ops) op := by
  simp [connected]

/-- The strips have pins of their own, streams that are not too long, and raw values for their own LEDs only. -/
structure Proper (clk : Int) (cs : List Connected) : Prop where
  pin : ∀ c ∈ cs, IsPin c.gpio ∧ c.gpio ≠ clk
  distinct : (cs.map Connected.gpio).Nodup
  short : ∀ c ∈ cs, c.length < 2 ^ 31
  inside : ∀ c ∈ cs, ∀ pos v, StripCall.setLinearValues pos v ∈ c.history → 0 ≤ pos ∧ pos < c.count

theorem count_le_length (c : Connected) : c.count ≤ c.length := by
  obtain ⟨type, gpio, count, history⟩ := c
  cases type <;>
    simp [Connected.length, StripType.format, Frame.Format.length, Frame.Format.start] <;> omega

section Program

variable {lum : Luminance} {clk : Int} {ops : List Op} {op : Op}

/-- A strip stays, and its history only grows. -/
theorem getElem?_connected_snoc {i : Nat} {c : Connected} (hc : (connected ops)[i]? = some c) (op : Op) :
    ∃ c', (connected (ops ++ [op]))[i]? = some c' ∧
      c' = { c with history := c'.history } ∧ c.history <+: c'.history := by
  rw [connected_snoc]
  cases op with
  | createStrip type g n =>
    exact ⟨c, by rw [connectStep, List.getElem?_append_left (List.getElem?_eq_some_iff.1 hc).1, hc], rfl,
      List.prefix_refl _⟩
  | sendBuffers => exact ⟨c, hc, rfl, List.prefix_refl _⟩
  | onStrip j k =>
    simp only [connectStep]
    split
    · exact ⟨c, hc, rfl, List.prefix_refl _⟩
    · rename_i c₀ hc₀
      by_cases hij : j = i
      · subst hij
        rw [hc] at hc₀
        cases hc₀
        exact ⟨c.call k, by rw [List.getElem?_set_self (List.getElem?_eq_some_iff.1 hc).1], rfl,
          List.prefix_append _ _⟩
      · exact ⟨c, by rw [List.getElem?_set_ne hij, hc], rfl, List.prefix_refl _⟩

/-- What does not depend on the history of a strip. -/
theorem map_connected_onStrip {α : Type*} {f : Connected → α} (hf : ∀ c k, f (Connected.call c k) = f c)
    (ops : List Op) (i : Nat) (k : StripCall) :
    (connected (ops ++ [.onStrip i k])).map f = (connected ops).map f := by
  simp only [connected_snoc, connectStep]
  split
  · rfl
  · rename_i c hc
    apply List.ext_getElem?
    intro j
    rw [List.getElem?_map, List.getElem?_map]
    by_cases hij : i = j
    · subst hij
      rw [List.getElem?_set_self (List.getElem?_eq_some_iff.1 hc).1, hc, Option.map_some, Option.map_some, hf]
    · rw [List.getElem?_set_ne hij]

theorem map_connected_prefix {α : Type*} {f : Connected → α} (hf : ∀ c k, f (Connected.call c k) = f c)
    {pre : List Op} (hpre : pre <+: ops) : (connected pre).map f <+: (connected ops).map f := by
  obtain ⟨post, rfl⟩ := hpre
  induction post using List.reverseRecOn with
  | nil => rw [List.append_nil]
  | append_singleton post op ih =>
    refine ih.trans ?_
    rw [← List.append_assoc]
    cases op with
    | createStrip type g n =>
      rw [connected_snoc _ (.createStrip type g n), connectStep, List.map_append]
      exact List.prefix_append _ _
    | sendBuffers => rw [connected_snoc _ .sendBuffers]; exact List.prefix_refl _
    | onStrip i k => rw [map_connected_onStrip hf]

/-- What is proper at the end of a program was so before. -/
theorem Proper.of_snoc (hp : Proper clk (connected (ops ++ [op]))) : Proper clk (connected ops) := by
  have later : ∀ c ∈ connected ops, ∃ c' ∈ connected (ops ++ [op]),
      c' = { c with history := c'.history } ∧ c.history <+: c'.history := fun c hc => by
    obtain ⟨i, hi⟩ := List.mem_iff_getElem?.1 hc
    obtain ⟨c', hc', hsame, hpre⟩ := getElem?_connected_snoc hi op
    exact ⟨c', List.mem_iff_getElem?.2 ⟨i, hc'⟩, hsame, hpre⟩
  have hgpios := map_connected_prefix (f := Connected.gpio) (fun _ _ => rfl) (List.prefix_append ops [op])
  refine ⟨fun c hc => ?_, hp.distinct.sublist hgpios.sublist, fun c hc => ?_, fun c hc pos v hv => ?_⟩
  · obtain ⟨c', hc', hsame, -⟩ := later c hc
    have := hp.pin c' hc'
    rwa [hsame] at this
  · obtain ⟨c', hc', hsame, -⟩ := later c hc
    have := hp.short c' hc'
    rwa [hsame] at this
  · obtain ⟨c', hc', hsame, hpre⟩ := later c hc
    have := hp.inside c' hc' pos v (hpre.subset hv)
    rwa [hsame] at this

/-! ### Calls for pins -/

theorem callsFor_eq_self {g : Int} {cs : List Call} (h : ∀ k ∈ cs, k.gpio? = some g) : callsFor g cs = cs :=
  List.filter_eq_self.2 fun k hk => by simp [h k hk]

theorem callsFor_eq_nil {g g' : Int} {cs : List Call} (h : ∀ k ∈ cs, k.gpio? = some g) (hne : g ≠ g') :
    callsFor g' cs = [] :=
  List.filter_eq_nil_iff.2 fun k hk => by simp [h k hk, hne]

theorem gpio_setLinearValues (type : StripType) (gpio : Int) (ls : List Linear) :
    ∀ k ∈ ls.flatMap fun l => type.setLinearValues gpio l.pos l.value, k.gpio? = some gpio := by
  intro k hk
  obtain ⟨l, -, hk⟩ := List.mem_flatMap.1 hk
  rw [setLinearValues_eq_map] at hk
  obtain ⟨w, -, rfl⟩ := List.mem_map.1 hk
  rfl

theorem gpio_setBytes (gpio : Int) (a : Nat) (bs : List (BitVec 8)) :
    ∀ k ∈ setBytes gpio a bs, k.gpio? = some gpio := by
  intro k hk
  obtain ⟨i, hi, rfl⟩ := List.mem_mapIdx.1 hk
  rfl

theorem gpio_create {count : Nat} (hcount : count < 2 ^ 31) (type : StripType) (gpio : Int) :
    ∀ k ∈ (type.create lum gpio count).calls, k.gpio? = some gpio := by
  intro k hk
  rw [create_calls hcount, List.mem_cons, List.mem_append, List.mem_append] at hk
  rcases hk with rfl | (hk | hk) | hk
  · rfl
  · exact gpio_setBytes _ _ _ k hk
  · exact gpio_setLinearValues _ _ _ k hk
  · exact gpio_setBytes _ _ _ k hk

/-! ### Bytes in range -/

theorem inRange_snoc {h : List Call} {k : Call} :
    InRange (h ++ [k]) ↔ InRange h ∧ k.OnSet fun _ p _ => p < (streams h).size := Run.each_snoc

/-- Bytes below a length that has been registered. -/
theorem inRange_append {h cs : List Call} {g : Int} {n : Nat} (hin : InRange h)
    (hreg : Call.registerDataGpio g n ∈ h) (hcs : Within g n cs) : InRange (h ++ cs) := by
  induction cs using List.reverseRecOn with
  | nil => rw [List.append_nil]; exact hin
  | append_singleton cs k ih =>
    rw [← List.append_assoc, inRange_snoc]
    refine ⟨ih fun c hc => hcs c (List.mem_append_left _ hc), ?_⟩
    obtain ⟨p, b, rfl, hp⟩ := hcs k (by simp)
    exact lt_of_lt_of_le hp (le_size_streams (List.mem_append_left _ hreg))

/-! ### Strips on their own -/

theorem session_create (lum : Luminance) (type : StripType) (gpio : Int) (count : Nat) :
    (Connected.session lum ⟨type, gpio, count, []⟩) = type.create lum gpio count := by
  simp [Connected.session, StripType.session, Run.trace]

theorem session_call (lum : Luminance) (c : Connected) (k : StripCall) :
    ((c.call k).session lum).strip = ((c.session lum).strip.call lum k).1 ∧
      ((c.call k).session lum).calls = (c.session lum).calls ++
        ((c.session lum).strip.call lum k).2.flatMap fun l => c.type.setLinearValues c.gpio l.pos l.value := by
  simp [Connected.session, Connected.call, StripType.session, Run.trace_snoc]

/-- The strips are those of sessions of their own, and so are the calls for their pins; all bytes are in range. -/
structure ProgramInv (lum : Luminance) (ops : List Op) (strips : List Mounted) (calls : List Call) : Prop where
  strips : strips = (connected ops).map (Connected.mounted lum)
  sessions : ∀ c ∈ connected ops, callsFor c.gpio calls = (c.session lum).calls
  pins : ∀ k ∈ calls, ∀ g, k.gpio? = some g → g ∈ (connected ops).map Connected.gpio
  inRange : InRange calls

section Steps

variable {strips : List Mounted} {calls : List Call}

theorem programInv_createStrip (hlum : ∀ b, lum 0#8 b = 0#16) (hi : ProgramInv lum ops strips calls)
    {type : StripType} {g : Int} {n : Nat}
    (hp : Proper clk (connected (ops ++ [.createStrip type g n]))) :
    ProgramInv lum (ops ++ [.createStrip type g n]) ((Op.createStrip type g n).exec lum strips).1
      (calls ++ ((Op.createStrip type g n).exec lum strips).2) := by
  have hcs := connected_snoc ops (.createStrip type g n)
  rw [connectStep] at hcs
  have hdistinct := hp.distinct
  rw [hcs, List.map_append, List.nodup_append] at hdistinct
  have hnew : ∀ c ∈ connected ops, g ≠ c.gpio := fun c hc he =>
    hdistinct.2.2 c.gpio (List.mem_map_of_mem hc) g (by simp) he.symm
  have hcount : n < 2 ^ 31 := lt_of_le_of_lt (count_le_length ⟨type, g, n, []⟩) (hp.short _ (by rw [hcs]; simp))
  have hself : callsFor g (type.create lum g n).calls = _ := callsFor_eq_self (gpio_create hcount type g)
  refine ⟨?_, ?_, ?_, ?_⟩
  · rw [hcs, List.map_append, ← hi.strips, List.map_singleton, Connected.mounted, session_create]
    rfl
  · intro c hc
    rw [callsFor_append]
    rcases List.mem_append.1 (hcs ▸ hc) with hc | hc
    · rw [hi.sessions c hc, Op.exec, callsFor_eq_nil (gpio_create hcount type g) (hnew c hc), List.append_nil]
    · obtain rfl := List.mem_singleton.1 hc
      -- the pin has not been used before
      have hunused : callsFor g calls = [] := List.filter_eq_nil_iff.2 fun k hk => by
        have hne : k.gpio? ≠ some g := fun he => by
          obtain ⟨c, hc, hgpio⟩ := List.mem_map.1 (hi.pins k hk g he)
          exact hnew c hc hgpio.symm
        simpa using hne
      rw [session_create, hunused]
      exact hself
  · intro k hk g' hg'
    rw [hcs, List.map_append]
    rcases List.mem_append.1 hk with hk | hk
    · exact List.mem_append_left _ (hi.pins k hk g' hg')
    · rw [gpio_create hcount type g k hk] at hg'
      cases hg'
      simp
  · obtain ⟨rest, hrest, hwithin⟩ := within_create hlum hcount type g
    rw [Op.exec, hrest, List.append_cons]
    exact inRange_append (inRange_snoc.2 ⟨hi.inRange, trivial⟩) (by simp) hwithin

theorem programInv_onStrip (hlum : ∀ b, lum 0#8 b = 0#16) (hi : ProgramInv lum ops strips calls) {i : Nat}
    {k : StripCall} (hp : Proper clk (connected (ops ++ [.onStrip i k]))) :
    ProgramInv lum (ops ++ [.onStrip i k]) ((Op.onStrip i k).exec lum strips).1
      (calls ++ ((Op.onStrip i k).exec lum strips).2) := by
  have hget : strips[i]? = (connected ops)[i]?.map (Connected.mounted lum) := by rw [hi.strips, List.getElem?_map]
  cases hc : (connected ops)[i]? with
  | none =>
    -- there is no such strip
    have hcs : connected (ops ++ [.onStrip i k]) = connected ops := by
      simp only [connected_snoc, connectStep, hc]
    rw [hc] at hget
    simp only [Op.exec, hget, Option.map_none, List.append_nil]
    exact ⟨hcs ▸ hi.strips, fun c hm => hi.sessions c (hcs ▸ hm), fun d hd => hcs ▸ hi.pins d hd, hi.inRange⟩
  | some c =>
    have hcs : connected (ops ++ [.onStrip i k]) = (connected ops).set i (c.call k) := by
      simp only [connected_snoc, connectStep, hc]
    have hlt : i < (connected ops).length := (List.getElem?_eq_some_iff.1 hc).1
    have hmem : c ∈ connected ops := List.mem_of_getElem? hc
    have hnew : c.call k ∈ connected (ops ++ [.onStrip i k]) := by
      rw [hcs]; exact List.mem_set hlt _
    have hgpios := map_connected_onStrip (f := Connected.gpio) (fun _ _ => rfl) ops i k
    have hlen := hp.short _ hnew
    have hcount : c.count < 2 ^ 31 := lt_of_le_of_lt (count_le_length (c.call k)) hlen
    obtain ⟨hstrip, hcalls⟩ := session_call lum c k
    rw [hc] at hget
    simp only [Op.exec, hget, Option.map_some]
    have hself := gpio_setLinearValues c.type c.gpio ((c.session lum).strip.call lum k).2
    refine ⟨?_, ?_, ?_, ?_⟩
    · rw [hcs, List.map_set, ← hi.strips]
      exact (congrArg (strips.set i) (congrArg (Mounted.mk c.type c.gpio c.count) hstrip)).symm
    · intro c' hc'
      rw [callsFor_append]
      obtain ⟨j, hj⟩ := List.mem_iff_getElem?.1 hc'
      rw [hcs] at hj
      by_cases hij : i = j
      · subst hij
        rw [List.getElem?_set_self hlt] at hj
        cases hj
        rw [hcalls]
        exact congrArg₂ (· ++ ·) (hi.sessions c hmem) (callsFor_eq_self hself)
      · rw [List.getElem?_set_ne hij] at hj
        -- different strips, different pins
        have hne : c.gpio ≠ c'.gpio := fun he => hij <|
          (List.getElem?_inj (by simpa using hlt) hp.of_snoc.distinct).1
            (by rw [List.getElem?_map, List.getElem?_map, hc, hj, Option.map_some, Option.map_some, he])
        rw [hi.sessions c' (List.mem_of_getElem? hj)]
        exact (congrArg _ (callsFor_eq_nil hself hne)).trans (List.append_nil _)
    · intro d hd g hg
      rw [hgpios]
      rcases List.mem_append.1 hd with hd | hd
      · exact hi.pins d hd g hg
      · rw [hself d hd] at hg
        cases hg
        exact List.mem_map_of_mem hmem
    · -- the strip has registered its stream
      obtain ⟨rest, hrest, -⟩ := within_session c.type c.gpio hlum hcount
        (hp.of_snoc.inside c hmem)
      have hreg : Call.registerDataGpio c.gpio c.length ∈ calls :=
        (mem_callsFor rfl).1 (by rw [hi.sessions c hmem, Connected.session, hrest]; exact List.mem_cons_self)
      refine inRange_append hi.inRange hreg (within_flatMap hcount (onStrip_call _ fun pos v he => ?_))
      exact hp.inside _ hnew pos v (by simp [Connected.call, he])

theorem programInv_sendBuffers (hi : ProgramInv lum ops strips calls) :
    ProgramInv lum (ops ++ [.sendBuffers]) (Op.sendBuffers.exec lum strips).1
      (calls ++ (Op.sendBuffers.exec lum strips).2) := by
  have hcs : connected (ops ++ [.sendBuffers]) = connected ops := by rw [connected_snoc]; rfl
  refine ⟨hcs ▸ hi.strips, fun c hc => ?_, fun k hk g hg => ?_, inRange_snoc.2 ⟨hi.inRange, trivial⟩⟩
  · rw [callsFor_append, hi.sessions c (hcs ▸ hc)]
    exact List.append_nil _
  · rcases List.mem_append.1 hk with hk | hk
    · rw [hcs]; exact hi.pins k hk g hg
    · rw [List.mem_singleton.1 hk] at hg
      cases hg

end Steps

theorem Proper.of_prefix {pre : List Op} (hp : Proper clk (connected ops)) (hpre : pre <+: ops) :
    Proper clk (connected pre) := by
  obtain ⟨post, rfl⟩ := hpre
  induction post using List.reverseRecOn with
  | nil => rwa [List.append_nil] at hp
  | append_singleton post op ih => rw [← List.append_assoc] at hp; exact ih hp.of_snoc

theorem programInv (hlum : ∀ b, lum 0#8 b = 0#16) (hp : Proper clk (connected ops)) :
    ProgramInv lum ops (Run.trace (Op.exec lum) [] ops).1 (programCalls lum ops) := by
  refine Run.trace_induct (f := Op.exec lum) (ProgramInv lum) ?_ ?_
  · exact ⟨rfl, fun c hc => (by cases hc), fun k hk => (by cases hk), by decide⟩
  · intro pre strips calls op hpre hi
    cases op with
    | createStrip type g n => exact programInv_createStrip hlum hi (hp.of_prefix hpre)
    | onStrip i k => exact programInv_onStrip hlum hi (hp.of_prefix hpre)
    | sendBuffers => exact programInv_sendBuffers hi

/-! ### The calls of a program -/

/-- Calls that set bytes only. -/
def OnlySets (cs : List Call) : Prop := ∀ k ∈ cs, ∃ g p b, k = .setBufferedByte g p b

/-- What a call does to the `MultiSPI` apart from setting bytes. -/
def Op.control : Op → List Call
  | .createStrip type connector count => [.registerDataGpio connector (type.format.length count)]
  | .onStrip _ _ => []
  | .sendBuffers => [.sendBuffers]

/-- A strip registers its stream when it is created, and from then on it only sets bytes. -/
theorem programCalls_snoc (hlum : ∀ b, lum 0#8 b = 0#16) (hp : Proper clk (connected (ops ++ [op]))) :
    ∃ sets, OnlySets sets ∧ programCalls lum (ops ++ [op]) = programCalls lum ops ++ op.control ++ sets := by
  have hsnoc : programCalls lum (ops ++ [op]) = programCalls lum ops ++
      (op.exec lum (Run.trace (Op.exec lum) [] ops).1).2 := by
    rw [programCalls, Run.trace_snoc]; rfl
  rw [hsnoc]
  cases op with
  | createStrip type g n =>
    have hcount : n < 2 ^ 31 :=
      lt_of_le_of_lt (count_le_length ⟨type, g, n, []⟩) (hp.short _ (by rw [connected_snoc]; simp [connectStep]))
    obtain ⟨rest, hrest, hwithin⟩ := within_create hlum hcount type g
    refine ⟨rest, fun c hc => ?_, by rw [Op.exec, hrest, Op.control, List.append_assoc]; rfl⟩
    obtain ⟨p, b, rfl, -⟩ := hwithin c hc
    exact ⟨g, p, b, rfl⟩
  | onStrip i k =>
    simp only [Op.exec, Op.control, List.append_nil]
    split
    · exact ⟨[], fun c hc => (by cases hc), rfl⟩
    · refine ⟨_, fun c hc => ?_, rfl⟩
      obtain ⟨l, -, hc⟩ := List.mem_flatMap.1 hc
      rw [setLinearValues_eq_map] at hc
      obtain ⟨w, -, rfl⟩ := List.mem_map.1 hc
      exact ⟨_, _, _, rfl⟩
  | sendBuffers => exact ⟨[], fun c hc => (by cases hc), (List.append_nil _).symm⟩

theorem size_streams_append {h sets : List Call} (hsets : OnlySets sets) :
    (streams (h ++ sets)).size = (streams h).size := by
  induction sets using List.reverseRecOn with
  | nil => rw [List.append_nil]
  | append_singleton sets k ih =>
    obtain ⟨g, p, b, rfl⟩ := hsets k (by simp)
    rw [← List.append_assoc, streams_snoc, Streams.step, Streams.size_set]
    exact ih fun c hc => hsets c (List.mem_append_left _ hc)

/-- The length of the longest stream. -/
def longest (cs : List Connected) : Nat := (cs.map Connected.length).foldr max 0

theorem longest_append (cs : List Connected) (c : Connected) : longest (cs ++ [c]) = max (longest cs) c.length := by
  induction cs with
  | nil => simp [longest]
  | cons d cs ih =>
    simp only [longest, List.cons_append, List.map_cons, List.foldr_cons] at ih ⊢
    rw [ih, Nat.max_assoc]

theorem le_longest {cs : List Connected} {c : Connected} (hc : c ∈ cs) : c.length ≤ longest cs :=
  List.le_max_of_le' 0 (List.mem_map_of_mem hc) le_rfl

/-- The common length of the streams is that of the longest strip. -/
theorem size_programCalls (hlum : ∀ b, lum 0#8 b = 0#16) (hp : Proper clk (connected ops)) :
    (streams (programCalls lum ops)).size = longest (connected ops) := by
  induction ops using List.reverseRecOn with
  | nil => rfl
  | append_singleton ops op ih =>
    obtain ⟨sets, hsets, hcalls⟩ := programCalls_snoc hlum hp
    have hsize := ih hp.of_snoc
    rw [hcalls, size_streams_append hsets]
    cases op with
    | createStrip type g n =>
      rw [Op.control, streams_snoc, connected_snoc, connectStep, longest_append, ← hsize]
      rfl
    | onStrip i k =>
      rw [Op.control, List.append_nil, longest, map_connected_onStrip (fun _ _ => rfl)]
      exact hsize
    | sendBuffers =>
      rw [Op.control, streams_snoc, connected_snoc]
      exact hsize

theorem pinsOnly_programCalls (hlum : ∀ b, lum 0#8 b = 0#16) (hp : Proper clk (connected ops)) :
    PinsOnly (programCalls lum ops) := fun g p b hb => by
  obtain ⟨c, hc, rfl⟩ := List.mem_map.1 ((programInv hlum hp).pins _ hb g rfl)
  exact (hp.pin c hc).1

theorem clockFree_programCalls (hlum : ∀ b, lum 0#8 b = 0#16) (hp : Proper clk (connected ops)) :
    ClockFree clk (programCalls lum ops) := fun g p b hb => by
  obtain ⟨c, hc, rfl⟩ := List.mem_map.1 ((programInv hlum hp).pins _ hb g rfl)
  exact (hp.pin c hc).2

/-- The bytes of a strip of the program are those of its own session. -/
theorem byte_programCalls (hlum : ∀ b, lum 0#8 b = 0#16) (hp : Proper clk (connected ops)) {c : Connected}
    (hc : c ∈ connected ops) (p : Nat) :
    (streams (programCalls lum ops)).byte c.gpio p = (streams (c.session lum).calls).byte c.gpio p := by
  rw [← byte_callsFor, (programInv hlum hp).sessions c hc]

theorem registered_programCalls (hlum : ∀ b, lum 0#8 b = 0#16) (hp : Proper clk (connected ops)) {c : Connected}
    (hc : c ∈ connected ops) : Call.registerDataGpio c.gpio c.length ∈ programCalls lum ops := by
  have hcount : c.count < 2 ^ 31 := lt_of_le_of_lt (count_le_length c) (hp.short c hc)
  obtain ⟨rest, hrest, -⟩ := within_session c.type c.gpio hlum hcount (hp.inside c hc)
  refine (mem_callsFor rfl).1 (?_ : _ ∈ callsFor c.gpio _)
  rw [(programInv hlum hp).sessions c hc, Connected.session, hrest]
  exact List.mem_cons_self

/-- No strip is longer than the first one. -/
def LongestFirst (cs : List Connected) : Prop :=
  ∀ first ∈ (cs.map Connected.length).head?, ∀ n ∈ cs.map Connected.length, n ≤ first

instance (cs : List Connected) : Decidable (LongestFirst cs) :=
  inferInstanceAs (Decidable (∀ first ∈ (cs.map Connected.length).head?, ∀ n ∈ cs.map Connected.length, n ≤ first))

theorem LongestFirst.of_prefix {pre : List Op} (hlong : LongestFirst (connected ops)) (hpre : pre <+: ops) :
    LongestFirst (connected pre) := by
  obtain ⟨post, hpost⟩ := map_connected_prefix (f := Connected.length) (fun _ _ => rfl) hpre
  intro first hfirst n hn
  refine hlong first ?_ n (by rw [← hpost]; exact List.mem_append_left _ hn)
  rw [← hpost, List.head?_append, hfirst]
  rfl

/-! ### What the chips see -/

/-- What the chips of the strip are to show. -/
def Connected.pixels (lum : Luminance) (c : Connected) : List Pixel :=
  (List.finRange c.count).map fun i => c.type.reduce ((c.display lum).value i)

theorem pixels_eq (hlum : ∀ b, lum 0#8 b = 0#16) (c : Connected) :
    c.pixels lum = (List.range c.count).map fun i => c.type.reduce (latest (c.session lum).linears i) := by
  rw [Connected.pixels, ← List.map_coe_finRange_eq_range, List.map_map]
  exact List.map_congr_left fun i _ => congrArg c.type.reduce
    ((displays_session c.count hlum c.type c.gpio c.history).value i).symm

/-- The bytes of a strip are a frame of its display. -/
theorem stored_programCalls (hlum : ∀ b, lum 0#8 b = 0#16) (hp : Proper clk (connected ops)) {c : Connected}
    (hc : c ∈ connected ops) (p : Nat) :
    stored c.gpio (programCalls lum ops) p = c.type.format.byteAt c.count 0#8
      (fun i => c.type.group (latest (c.session lum).linears i)) p := by
  have hcount : c.count < 2 ^ 31 := lt_of_le_of_lt (count_le_length c) (hp.short c hc)
  rw [stored, byte_programCalls hlum hp hc]
  exact stored_session hlum hcount (hp.inside c hc) p

/-- A receiver that reads the bytes of a strip sees the pixels of its display. -/
theorem parse_programCalls (hlum : ∀ b, lum 0#8 b = 0#16) (hp : Proper clk (connected ops)) {c : Connected}
    (hc : c ∈ connected ops) :
    c.type.parse c.count ((List.range c.length).map (stored c.gpio (programCalls lum ops))) =
      some (c.pixels lum) := by
  rw [pixels_eq hlum]
  exact Frame.parse_byteAt (fun i _ => length_group c.type _) (fun i _ => decode_group c.type _)
    fun p _ => stored_programCalls hlum hp hc p

/-- Behind its frame, nothing has been set. -/
theorem stored_behind (hlum : ∀ b, lum 0#8 b = 0#16) (hp : Proper clk (connected ops)) {c : Connected}
    (hc : c ∈ connected ops) {p : Nat} (hlt : c.length ≤ p) : stored c.gpio (programCalls lum ops) p = 0#8 := by
  obtain ⟨j, rfl⟩ : ∃ j, p = c.type.format.start c.count + j := ⟨p - c.type.format.start c.count, by
    unfold Connected.length Frame.Format.length at hlt; omega⟩
  rw [stored_programCalls hlum hp hc, Frame.byteAt_trailer, List.getD_eq_default]
  unfold Connected.length Frame.Format.length at hlt
  omega

end Program

end Spixels
