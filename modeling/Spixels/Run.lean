import Mathlib.Data.List.Induction

/-!
# Runs of a fallible step

A component takes calls one after the other; each call either changes its state or stops the run with a fault.
`run` is the run over a history of calls.  Two rules package the induction over histories:

* `run_induct`: what holds of the start for the empty history, and is kept by every accepted call, holds of every
  accepted run;
* `run_total`: if in addition such a call is never refused, the run is accepted.

`trace` is the same for steps that cannot fail but make output: `trace_induct`, `trace_range`.

`Each` states a property of every call of a history, in the light of the calls before it.

A bounded loop is a run over `List.range n`, with the loop index as the call: `run_range`.
-/

namespace Run

variable {σ α ε : Type*} {step : σ → α → Except ε σ}

def run (step : σ → α → Except ε σ) (s : σ) (h : List α) : Except ε σ := h.foldlM step s

@[simp] theorem run_nil (s : σ) : run step s [] = .ok s := rfl

theorem run_cons (s : σ) (c : α) (h : List α) : run step s (c :: h) = (step s c).bind fun t => run step t h := by
  rw [run, List.foldlM_cons]; rfl

theorem run_append (s : σ) (h h' : List α) :
    run step s (h ++ h') = (run step s h).bind fun t => run step t h' := by
  rw [run, List.foldlM_append]; rfl

theorem bind_eq_ok {β γ : Type*} {x : Except ε β} {f : β → Except ε γ} {c : γ} :
    x.bind f = .ok c ↔ ∃ b, x = .ok b ∧ f b = .ok c := by
  cases x <;> simp [Except.bind]

theorem map_eq_ok {β γ : Type*} {x : Except ε β} {f : β → γ} {c : γ} :
    x.map f = .ok c ↔ ∃ b, x = .ok b ∧ f b = c := by
  cases x <;> simp [Except.map]

theorem map_bind {β γ δ : Type*} (x : Except ε β) (f : β → Except ε γ) (g : γ → δ) :
    (x.bind f).map g = x.bind fun b => (f b).map g := by
  cases x <;> rfl

theorem run_append_eq_ok {s t : σ} {h h' : List α} :
    run step s (h ++ h') = .ok t ↔ ∃ m, run step s h = .ok m ∧ run step m h' = .ok t := by
  rw [run_append, bind_eq_ok]

theorem run_snoc (s : σ) (h : List α) (c : α) :
    run step s (h ++ [c]) = (run step s h).bind fun t => step t c := by
  rw [run_append]
  cases run step s h with
  | error e => rfl
  | ok t => simp only [Except.bind, run_cons]; cases step t c <;> rfl

theorem run_snoc_eq_ok {s t : σ} {h : List α} {c : α} :
    run step s (h ++ [c]) = .ok t ↔ ∃ m, run step s h = .ok m ∧ step m c = .ok t := by
  rw [run_snoc, bind_eq_ok]

/-- Every prefix of an accepted history is accepted. -/
theorem run_prefix {s t : σ} {h h' : List α} (hr : run step s (h ++ h') = .ok t) : ∃ m, run step s h = .ok m :=
  (run_append_eq_ok.1 hr).imp fun _ hm => hm.1

/-- A call in the middle of an accepted history. -/
theorem run_at {s t : σ} {h pre : List α} {c : α} (hr : run step s h = .ok t) (hpre : pre ++ [c] <+: h) :
    ∃ m u, run step s pre = .ok m ∧ step m c = .ok u := by
  obtain ⟨post, rfl⟩ := hpre
  obtain ⟨u, hu⟩ := run_prefix hr
  obtain ⟨m, hm, hstep⟩ := run_snoc_eq_ok.1 hu
  exact ⟨m, u, hm, hstep⟩

/-- Calls that the step does not tell apart. -/
theorem run_map {f : α → α} (hf : ∀ s c, step s (f c) = step s c) (s : σ) (h : List α) :
    run step s (h.map f) = run step s h := by
  simp only [run, List.foldlM_map, hf]

/-- Two steps that agree but where the first one stops at the fault `e`. -/
theorem run_congr_of_ne {step' : σ → α → Except ε σ} {e : ε}
    (hstep : ∀ s c, step s c ≠ .error e → step' s c = step s c) {s : σ} {h : List α}
    (hne : run step s h ≠ .error e) : run step' s h = run step s h := by
  induction h generalizing s with
  | nil => rfl
  | cons c h ih =>
    rw [run_cons] at hne
    rw [run_cons, run_cons]
    cases hs : step s c with
    | error e' =>
      rw [hs] at hne
      rw [hstep s c (by rw [hs]; exact hne), hs]
      rfl
    | ok t =>
      rw [hs] at hne
      rw [hstep s c (by simp [hs]), hs]
      exact ih hne

/-- The run of a machine that is one component of another. -/
theorem run_project {σ' : Type*} {step' : σ' → α → Except ε σ'} {f : σ → σ'}
    (hf : ∀ s c, (step s c).map f = step' (f s) c) (s : σ) (h : List α) :
    (run step s h).map f = run step' (f s) h := by
  induction h generalizing s with
  | nil => rfl
  | cons c h ih =>
    rw [run_cons, run_cons, ← hf]
    cases step s c with
    | error e => rfl
    | ok t => exact ih t

/-- The invariant rule.  The invariant may speak about the calls made so far, and a call is known to be
accepted. -/
theorem run_induct (Inv : List α → σ → Prop) {s : σ} (h0 : Inv [] s)
    (hstep : ∀ h m c t, run step s h = .ok m → Inv h m → step m c = .ok t → Inv (h ++ [c]) t) :
    ∀ {h : List α} {t : σ}, run step s h = .ok t → Inv h t := by
  intro h
  induction h using List.reverseRecOn with
  | nil => intro t hr; cases hr; exact h0
  | append_singleton h c ih =>
    intro t hr
    obtain ⟨m, hm, ht⟩ := run_snoc_eq_ok.1 hr
    exact hstep h m c t hm (ih hm) ht

/-- The progress rule: calls that are `Fine` after what came before them are all accepted. -/
theorem run_total (Inv : List α → σ → Prop) {s : σ} (h0 : Inv [] s) {h : List α}
    (hstep : ∀ pre m c, pre ++ [c] <+: h → Inv pre m → ∃ t, step m c = .ok t ∧ Inv (pre ++ [c]) t) :
    ∃ t, run step s h = .ok t ∧ Inv h t := by
  induction h using List.reverseRecOn with
  | nil => exact ⟨s, rfl, h0⟩
  | append_singleton h c ih =>
    obtain ⟨m, hm, hi⟩ := ih fun pre m d hd => hstep pre m d (hd.trans (List.prefix_append h [c]))
    obtain ⟨t, ht, hi'⟩ := hstep h m c (List.prefix_refl _) hi
    exact ⟨t, run_snoc_eq_ok.2 ⟨m, hm, ht⟩, hi'⟩

/-- The loop rule: an invariant indexed by the number of iterations done. -/
theorem run_range {step : σ → Nat → Except ε σ} (Inv : Nat → σ → Prop) {s : σ} {n : Nat} (h0 : Inv 0 s)
    (hstep : ∀ i m, i < n → Inv i m → ∃ t, step m i = .ok t ∧ Inv (i + 1) t) :
    ∃ t, run step s (List.range n) = .ok t ∧ Inv n t := by
  induction n with
  | zero => exact ⟨s, rfl, h0⟩
  | succ n ih =>
    obtain ⟨m, hm, hi⟩ := ih fun i m hi => hstep i m (by omega)
    obtain ⟨t, ht, hi'⟩ := hstep n m (by omega) hi
    rw [List.range_succ]
    exact ⟨t, run_snoc_eq_ok.2 ⟨m, hm, ht⟩, hi'⟩

/-! ### Runs with output -/

/-- The run of a step that always succeeds and makes some output, with the output of all steps. -/
def trace {ω : Type*} (f : σ → α → σ × List ω) (s : σ) : List α → σ × List ω
  | [] => (s, [])
  | c :: h => ((trace f (f s c).1 h).1, (f s c).2 ++ (trace f (f s c).1 h).2)

section Trace

variable {ω : Type*} {f : σ → α → σ × List ω}

theorem trace_append (s : σ) (h h' : List α) :
    trace f s (h ++ h') = ((trace f (trace f s h).1 h').1, (trace f s h).2 ++ (trace f (trace f s h).1 h').2) := by
  induction h generalizing s with
  | nil => simp [trace]
  | cons c h ih => simp [trace, ih]

theorem trace_snoc (s : σ) (h : List α) (c : α) :
    trace f s (h ++ [c]) = ((f (trace f s h).1 c).1, (trace f s h).2 ++ (f (trace f s h).1 c).2) := by
  rw [trace_append]; simp [trace]

/-- The invariant rule.  The invariant may speak about the calls made and the output so far. -/
theorem trace_induct (Inv : List α → σ → List ω → Prop) {s : σ} (h0 : Inv [] s []) {h : List α}
    (hstep : ∀ pre t out c, pre ++ [c] <+: h → Inv pre t out → Inv (pre ++ [c]) (f t c).1 (out ++ (f t c).2)) :
    Inv h (trace f s h).1 (trace f s h).2 := by
  induction h using List.reverseRecOn with
  | nil => exact h0
  | append_singleton h c ih =>
    rw [trace_snoc]
    exact hstep h _ _ c (List.prefix_refl _)
      (ih fun pre t out d hpre => hstep pre t out d (hpre.trans (List.prefix_append h [c])))

/-- The loop rule. -/
theorem trace_range {f : σ → Nat → σ × List ω} (Inv : Nat → σ → List ω → Prop) {s : σ} {n : Nat} (h0 : Inv 0 s [])
    (hstep : ∀ i t out, i < n → Inv i t out → Inv (i + 1) (f t i).1 (out ++ (f t i).2)) :
    Inv n (trace f s (List.range n)).1 (trace f s (List.range n)).2 := by
  induction n with
  | zero => exact h0
  | succ n ih =>
    rw [List.range_succ, trace_snoc]
    exact hstep n _ _ (by omega) (ih fun i t out hi => hstep i t out (by omega))

end Trace

/-! ### Properties of single calls -/

/-- Every call of the history satisfies `P`, which may look at the calls made before it. -/
def Each (P : List α → α → Prop) (h : List α) : Prop := ∀ pre c, pre ++ [c] <+: h → P pre c

section Each

variable {P Q : List α → α → Prop} {h : List α}

theorem each_iff_getElem : (∀ i : Fin h.length, P (h.take i) h[i]) ↔ Each P h := by
  constructor
  · rintro hP pre c ⟨t, rfl⟩
    have := hP ⟨pre.length, by simp⟩
    simpa using this
  · intro hP i
    refine hP _ _ ?_
    rw [Fin.getElem_fin, List.take_append_getElem]
    exact List.take_prefix _ _

instance [∀ pre c, Decidable (P pre c)] : Decidable (Each P h) := decidable_of_iff _ each_iff_getElem

theorem Each.of_append {h' : List α} (hP : Each P (h ++ h')) : Each P h :=
  fun pre c hpre => hP pre c (hpre.trans (List.prefix_append h h'))

theorem each_snoc {c : α} : Each P (h ++ [c]) ↔ Each P h ∧ P h c := by
  refine ⟨fun hP => ⟨hP.of_append, hP h c (List.prefix_refl _)⟩, fun ⟨hP, hc⟩ pre d hpre => ?_⟩
  rcases List.prefix_concat_iff.1 hpre with he | hpre
  · obtain ⟨rfl, hd⟩ := List.append_inj' he rfl
    rw [List.singleton_inj.1 hd]; exact hc
  · exact hP pre d hpre

/-- Calls that satisfy the property whatever came before them. -/
theorem Each.append {h' : List α} (hP : Each P h) (hP' : ∀ c ∈ h', ∀ pre, P pre c) : Each P (h ++ h') := by
  induction h' using List.reverseRecOn with
  | nil => rwa [List.append_nil]
  | append_singleton h' c ih =>
    rw [← List.append_assoc, each_snoc]
    exact ⟨ih fun d hd => hP' d (List.mem_append_left _ hd), hP' c (by simp) _⟩

theorem each_map {β : Type*} {h : List β} (f : β → α) :
    Each P (h.map f) ↔ Each (fun pre c => P (pre.map f) (f c)) h := by
  rw [← each_iff_getElem, ← each_iff_getElem]
  refine ⟨fun hP i => ?_, fun hP i => ?_⟩
  · have := hP ⟨i, by simp⟩
    simpa [← List.map_take] using this
  · have := hP ⟨i, by simpa using i.2⟩
    simpa [← List.map_take] using this

end Each

end Run
