import Spixels.DirectGrowth
import Spixels.DmaHistory
import Spixels.LedOutside

/-!
# A strip on a backend

What `SetLinearValues` does to the streams it does to the backend behind them.  Both backends record the bytes
within the common length and stop at the others, so a call leaves the stream as it was if and only if the backend
accepts it and goes on with the same bytes: `DMAMultiSPI.keepsStream_iff_run`, `DirectMultiSPI.keepsStream_iff_run`.
-/

namespace Spixels

open Run (run map_eq_ok)

/-- On any backend that does as the streams do. -/
theorem keepsStream_iff_run {S : Type*} {step : S → Call → Except Fault S} {R : List Call → S → Prop} {gpio : Int}
    (hset : ∀ h s p b, R h s → p < (streams h).size →
      ∃ t, step s (.setBufferedByte gpio p b) = .ok t ∧ R (h ++ [.setBufferedByte gpio p b]) t)
    (hstop : ∀ h s p b, R h s → ¬p < (streams h).size → step s (.setBufferedByte gpio p b) = .error .assertion)
    {h : List Call} {s : S} (hr : R h s) {type : StripType} {pos : Int} (hfit : type.FitsInt pos) (v : Rgb16) :
    type.KeepsStream gpio pos v (streams h) ↔
      (∃ t, run step s (type.setLinearValues gpio pos v) = .ok t ∧ R (h ++ type.setLinearValues gpio pos v) t) ∧
        ∀ p, ((streams (h ++ type.setLinearValues gpio pos v)).byte gpio p).getD 0#8 =
          ((streams h).byte gpio p).getD 0#8 := by
  have hsim := run_sets_sim hset hstop hr (type.writes pos v)
  rw [← setLinearValues_eq_map] at hsim
  rw [StripType.KeepsStream, StripType.setLinearValuesAt, if_pos hfit]
  cases hrun : run Streams.call (streams h) (type.setLinearValues gpio pos v) with
  | ok σ =>
    rw [hrun] at hsim
    obtain ⟨rfl, hok⟩ := hsim
    constructor
    · rintro ⟨σ', he, hkeep⟩
      cases he
      exact ⟨hok, hkeep⟩
    · rintro ⟨-, hkeep⟩
      exact ⟨_, rfl, hkeep⟩
  | error e =>
    rw [hrun] at hsim
    constructor
    · rintro ⟨σ', he, -⟩
      cases he
    · rintro ⟨⟨t, ht, -⟩, -⟩
      rw [hsim] at ht
      cases ht

namespace DMAMultiSPI

variable {clk : Int} {garbage : Nat} {h : List Call} {s : DMAMultiSPI}

theorem keepsStream_iff_run (env : Env) (hr : Represents clk garbage h s) {gpio : Int} (hg : IsPin gpio)
    {type : StripType} {pos : Int} (hfit : type.FitsInt pos) (v : Rgb16) :
    type.KeepsStream gpio pos v (streams h) ↔
      (∃ t, run (step env) s (type.setLinearValues gpio pos v) = .ok t ∧
          Represents clk garbage (h ++ type.setLinearValues gpio pos v) t) ∧
        ∀ p, ((streams (h ++ type.setLinearValues gpio pos v)).byte gpio p).getD 0#8 =
          ((streams h).byte gpio p).getD 0#8 := by
  refine Spixels.keepsStream_iff_run (fun h s p b hr hp => ?_) (fun h s p b hr hp => ?_) hr hfit v
  · obtain ⟨t, ht, hrt⟩ := setBufferedByte_spec hr hg hp b
    exact ⟨t, by rw [step, call, ht]; rfl, hrt⟩
  · rw [step, call, setBufferedByte, if_neg (by rwa [hr.size])]
    rfl

end DMAMultiSPI

namespace DirectMultiSPI

variable {clk : Int} {h : List Call} {s : DirectMultiSPI}

theorem keepsStream_iff_run (fresh : Nat → Nat → BitVec 32) (hr : Configured clk h s) (gpio : Int)
    {type : StripType} {pos : Int} (hfit : type.FitsInt pos) (v : Rgb16) :
    type.KeepsStream gpio pos v (streams h) ↔
      (∃ t, run (step fresh) s (type.setLinearValues gpio pos v) = .ok t ∧
          Configured clk (h ++ type.setLinearValues gpio pos v) t) ∧
        ∀ p, ((streams (h ++ type.setLinearValues gpio pos v)).byte gpio p).getD 0#8 =
          ((streams h).byte gpio p).getD 0#8 := by
  refine Spixels.keepsStream_iff_run (fun h s p b hr hp => ?_) (fun h s p b hr hp => ?_) hr hfit v
  · obtain ⟨t, ht⟩ := setBufferedByte_ok (by rw [hr.size]; exact hr.length) gpio (by rwa [hr.size]) b
    have hstep : s.step fresh (.setBufferedByte gpio p b) = .ok t := by rw [step, call, ht]; rfl
    exact ⟨t, hstep, configured_step hr hstep⟩
  · rw [step, call, setBufferedByte, if_neg (by rwa [hr.size])]
    rfl

end DirectMultiSPI

end Spixels
