import Mathlib.Data.List.Basic

/-!
# Machines under a schedule

A machine with several actors: an environment chooses who makes the next step.  `after` is the state after a list
of such choices, so what holds for every list holds for every interleaving.

* `after_induct`: the invariant rule;
* `Progress`: no step adds to the work that is left, and the step of one actor, the driver, takes from it;
* `Progress.done`: when every actor has had enough turns, no work is left, whatever the order of the steps.
-/

namespace Schedule

variable {σ ε : Type*} {step : σ → ε → σ}

/-- The state after the events `es`. -/
def after (step : σ → ε → σ) (s : σ) (es : List ε) : σ := es.foldl step s

@[simp] theorem after_nil (s : σ) : after step s [] = s := rfl

@[simp] theorem after_cons (s : σ) (e : ε) (es : List ε) : after step s (e :: es) = after step (step s e) es := rfl

theorem after_append (s : σ) (es es' : List ε) : after step s (es ++ es') = after step (after step s es) es' :=
  List.foldl_append

/-- The invariant rule. -/
theorem after_induct (Inv : σ → Prop) {s : σ} {es : List ε} (h0 : Inv s)
    (hstep : ∀ t, ∀ e ∈ es, Inv t → Inv (step t e)) : Inv (after step s es) := by
  induction es generalizing s with
  | nil => exact h0
  | cons e es ih =>
    exact ih (hstep s e (by simp) h0) fun t e' he' => hstep t e' (by simp [he'])

/-- `Left s n` bounds the work that is left in the state `s` by `n`. -/
structure Progress (step : σ → ε → σ) (Left : σ → Nat → Prop) (driver : σ → ε) : Prop where
  /-- A step that takes nothing from the work leaves it to the same driver. -/
  keep : ∀ {s n}, Left s n → ∀ e, (∃ k < n, Left (step s e) k) ∨ Left (step s e) n ∧ driver (step s e) = driver s
  /-- The driver takes from the work. -/
  drive : ∀ {s n}, Left s n → 0 < n → ∃ k < n, Left (step s (driver s)) k

namespace Progress

variable {Left : σ → Nat → Prop} {driver : σ → ε}

theorem le (h : Progress step Left driver) {s : σ} {n : Nat} (hs : Left s n) (es : List ε) :
    ∃ k ≤ n, Left (after step s es) k := by
  induction es generalizing s n with
  | nil => exact ⟨n, Nat.le_refl n, hs⟩
  | cons e es ih =>
    rcases h.keep hs e with ⟨k, hk, ht⟩ | ⟨ht, -⟩
    · obtain ⟨j, hj, hl⟩ := ih ht
      exact ⟨j, by omega, hl⟩
    · exact ih ht

/-- A round in which the driver has a turn. -/
theorem lt_of_mem (h : Progress step Left driver) {s : σ} {n : Nat} (hs : Left s n) (hn : 0 < n) {r : List ε}
    (hr : driver s ∈ r) : ∃ k < n, Left (after step s r) k := by
  induction r generalizing s with
  | nil => cases hr
  | cons e r ih =>
    rw [after_cons]
    rcases h.keep hs e with ⟨k, hk, ht⟩ | ⟨ht, hd⟩
    · obtain ⟨j, hj, hl⟩ := h.le ht r
      exact ⟨j, by omega, hl⟩
    · rcases List.mem_cons.1 hr with rfl | hr
      · obtain ⟨k, hk, ht'⟩ := h.drive hs hn
        obtain ⟨j, hj, hl⟩ := h.le ht' r
        exact ⟨j, by omega, hl⟩
      · exact ih ht (by rw [hd]; exact hr)

/-- After as many rounds as there is work, in each of which every actor has a turn, no work is left. -/
theorem done (h : Progress step Left driver) {s : σ} {n : Nat} (hs : Left s n) (rounds : List (List ε))
    (hall : ∀ r ∈ rounds, ∀ s, driver s ∈ r) (hlen : n ≤ rounds.length) :
    Left (after step s rounds.flatten) 0 := by
  induction rounds generalizing s n with
  | nil =>
    obtain rfl : n = 0 := by simpa using hlen
    exact hs
  | cons r rounds ih =>
    rw [List.flatten_cons, after_append]
    have hrest : ∀ r' ∈ rounds, ∀ s, driver s ∈ r' := fun r' hr' => hall r' (by simp [hr'])
    rcases Nat.eq_zero_or_pos n with rfl | hn
    · obtain ⟨k, hk, ht⟩ := h.le hs r
      obtain rfl : k = 0 := by omega
      exact ih ht hrest (Nat.zero_le _)
    · obtain ⟨k, hk, ht⟩ := h.lt_of_mem hs hn (hall r (by simp) s)
      exact ih ht hrest (by simp only [List.length_cons] at hlen; omega)

end Progress

end Schedule
