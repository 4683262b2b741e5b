import Mathlib.Data.Multiset.AddSub
import Mathlib.Data.Multiset.Count
import Mathlib.Data.Multiset.UnionInter
import Spixels.Run

/-!
# Resources that are taken and given back

A log of what a program has done; some entries take a resource, some give one back.  `held` is what the program still
has, and a log is `Sound` if nothing is taken that is held already, and nothing is given back that is not.

* `Holds` is the assertion for a program that keeps books: it tells what is held, and `take` and `give` are the rules
  for the entries of the log.  The resources that a part of the program does not touch are the rest of the multiset.
* `Sound.count_take`: in a sound log, a resource has been given back as often as it has been taken, and once less
  while it is held.
-/

namespace Ledger

variable {E R : Type*}

inductive Move (R : Type*)
  | take (r : R)
  | give (r : R)
deriving DecidableEq, Repr

section Held

variable [DecidableEq R]

/-- What is held after a move. -/
def Move.apply (H : Multiset R) : Move R → Multiset R
  | take r => r ::ₘ H
  | give r => H.erase r

def Move.Allowed (H : Multiset R) : Move R → Prop
  | take r => r ∉ H
  | give r => r ∈ H

/-- What is held after the log. -/
def held (move : E → Option (Move R)) (log : List E) : Multiset R :=
  log.foldl (fun H e => (move e).elim H (Move.apply H)) 0

/-- All moves are allowed. -/
def Sound (move : E → Option (Move R)) (log : List E) : Prop :=
  Run.Each (fun pre e => ∀ m ∈ move e, m.Allowed (held move pre)) log

variable {move : E → Option (Move R)} {log : List E} {H : Multiset R} {r : R} {e : E}

@[simp] theorem held_nil : held move [] = 0 := rfl

theorem held_snoc (log : List E) (e : E) :
    held move (log ++ [e]) = (move e).elim (held move log) (Move.apply (held move log)) := by
  simp [held]

theorem sound_nil : Sound move [] := fun pre e hpre => by simp at hpre

/-- Nothing is held twice. -/
theorem Sound.nodup (hs : Sound move log) : (held move log).Nodup := by
  induction log using List.reverseRecOn with
  | nil => simp
  | append_singleton log e ih =>
    obtain ⟨hinit, hlast⟩ := Run.each_snoc.1 hs
    have hn := ih hinit
    rw [held_snoc]
    cases hm : move e with
    | none => exact hn
    | some m =>
      have hallowed := hlast m hm
      cases m with
      | take r => exact Multiset.nodup_cons.2 ⟨hallowed, hn⟩
      | give r => exact hn.erase r

/-- Whatever has been taken has been given back, or is held. -/
theorem Sound.count_take (hs : Sound move log) (r : R) :
    log.countP (fun e => move e = some (.take r)) =
      log.countP (fun e => move e = some (.give r)) + (held move log).count r := by
  induction log using List.reverseRecOn with
  | nil => simp
  | append_singleton log e ih =>
    obtain ⟨hinit, hlast⟩ := Run.each_snoc.1 hs
    have hcount := ih hinit
    rw [held_snoc, List.countP_append, List.countP_append, List.countP_singleton, List.countP_singleton]
    cases hm : move e with
    | none => simp; omega
    | some m =>
      have hallowed := hlast m hm
      cases m with
      | take r' =>
        by_cases hr : r = r'
        · subst hr; simp [Move.apply]; omega
        · simp [Move.apply, Ne.symm hr, hr]; omega
      | give r' =>
        by_cases hr : r = r'
        · subst hr
          have hpos : 1 ≤ (held move log).count r := Multiset.one_le_count_iff_mem.2 hallowed
          simp [Move.apply]; omega
        · simp [Move.apply, Ne.symm hr, hr]; omega

/-! ### Keeping books -/

/-- As long as all entries of the log are `Fine`, it is sound, and `H` is what is held. -/
def Holds (move : E → Option (Move R)) (Fine : E → Prop) (log : List E) (H : Multiset R) : Prop :=
  (∀ e ∈ log, Fine e) → Sound move log ∧ held move log = H

variable {Fine : E → Prop}

theorem holds_nil : Holds move Fine [] 0 := fun _ => ⟨sound_nil, rfl⟩

theorem Holds.keep (h : Holds move Fine log H) (hm : Fine e → move e = none) : Holds move Fine (log ++ [e]) H := by
  intro hfine
  obtain ⟨hlog, he⟩ := List.forall_mem_append.1 hfine
  obtain ⟨hs, hH⟩ := h hlog
  have hnone := hm (he e (by simp))
  refine ⟨Run.each_snoc.2 ⟨hs, fun m hm' => ?_⟩, by rw [held_snoc, hnone]; exact hH⟩
  rw [hnone] at hm'
  cases hm'

/-- Something is taken that is not held. -/
theorem Holds.take (h : Holds move Fine log H) (hm : Fine e → move e = some (.take r))
    (hr : Fine e → held move log = H → H.Nodup → r ∉ H) : Holds move Fine (log ++ [e]) (r ::ₘ H) := by
  intro hfine
  obtain ⟨hlog, he⟩ := List.forall_mem_append.1 hfine
  obtain ⟨hs, hH⟩ := h hlog
  have hsome := hm (he e (by simp))
  refine ⟨Run.each_snoc.2 ⟨hs, fun m hm' => ?_⟩, by rw [held_snoc, hsome, ← hH]; rfl⟩
  rw [hsome] at hm'
  cases hm'
  exact fun hmem => hr (he e (by simp)) hH (hH ▸ hs.nodup) (hH ▸ hmem)

/-- Something that is held is given back. -/
theorem Holds.give (h : Holds move Fine log (r ::ₘ H)) (hm : Fine e → move e = some (.give r)) :
    Holds move Fine (log ++ [e]) H := by
  intro hfine
  obtain ⟨hlog, he⟩ := List.forall_mem_append.1 hfine
  obtain ⟨hs, hH⟩ := h hlog
  have hsome := hm (he e (by simp))
  refine ⟨Run.each_snoc.2 ⟨hs, fun m hm' => ?_⟩, ?_⟩
  · rw [hsome] at hm'
    cases hm'
    exact (congrArg (r ∈ ·) hH).mpr (Multiset.mem_cons_self r H)
  · rw [held_snoc, hsome, hH]
    exact Multiset.erase_cons_head r H

end Held

end Ledger
