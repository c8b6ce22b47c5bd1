import DramPhy.Proofs.Success
import DramPhy.Timing.Resolution

/-! Borrowing cycles as a division. A negative phase takes as many cycles as bring it
to its remainder by the phases of a cycle, and the cycles it takes count for the
phases that it gains. -/

namespace DramPhy

/-- The cycles that a phase borrows: none unless it is negative. -/
def borrowed (phases : Nat) (phase : Int) : Int := -(min phase 0 / phases)

section

variable {phases : Nat} {phase cycles p c : Int}

theorem borrowed_of_nonneg (h : 0 ≤ phase) : borrowed phases phase = 0 := by
  rw [borrowed, Int.min_eq_right h, Int.zero_ediv, Int.neg_zero]

/-- What borrowing makes of a negative phase is its remainder. -/
theorem borrowed_phase (h : phase < 0) :
    phase + borrowed phases phase * phases = phase % phases := by
  rw [borrowed, Int.min_eq_left (Int.le_of_lt h), Int.emod_def, Int.neg_mul, Int.mul_comm]
  omega

variable (hpos : 0 < phases)

include hpos

theorem borrowed_of_neg (h : phase < 0) :
    borrowed phases phase = borrowed phases (phase + phases) + 1 := by
  have hstep : (phase + phases) / phases = phase / phases + 1 := by
    have := Int.add_mul_ediv_right phase 1 (show (phases : Int) ≠ 0 by omega)
    rwa [Int.one_mul] at this
  rw [borrowed, Int.min_eq_left (Int.le_of_lt h)]
  rcases Int.lt_or_le (phase + phases) 0 with hneg | hge
  · rw [borrowed, Int.min_eq_left (Int.le_of_lt hneg), hstep]
    omega
  · rw [Int.ediv_eq_zero_of_lt hge (by omega)] at hstep
    rw [borrowed_of_nonneg hge]
    omega

theorem borrowed_nonneg (phase : Int) : 0 ≤ borrowed phases phase := by
  have hle := Int.ediv_le_ediv (show (0 : Int) < phases by omega) (show min phase 0 ≤ 0 by omega)
  rw [Int.zero_ediv] at hle
  rw [borrowed]
  omega

theorem borrowed_phase_nonneg (phase : Int) : 0 ≤ phase + borrowed phases phase * phases := by
  rcases Int.lt_or_le phase 0 with hneg | hge
  · rw [borrowed_phase hneg]
    exact Int.emod_nonneg _ (by omega)
  · rw [borrowed_of_nonneg hge]
    omega

theorem borrowed_phase_lt (h : phase < phases) :
    phase + borrowed phases phase * phases < phases := by
  rcases Int.lt_or_le phase 0 with hneg | hge
  · rw [borrowed_phase hneg]
    exact Int.emod_lt_of_pos _ (by omega)
  · rw [borrowed_of_nonneg hge]
    omega

variable (hlimit : (phases : Int) < Offset.limit) (hlo : -Offset.limit ≤ cycles)
  (hhi : cycles < Offset.limit)

include hlimit hlo hhi

/-- Borrowing overflows only when the cycles it ends with are too many. -/
theorem borrowCycles_eq (phase : Int) : borrowCycles phases phase cycles =
    if cycles + borrowed phases phase < Offset.limit then
      .ok (phase + borrowed phases phase * phases, cycles + borrowed phases phase)
    else .error .overflow := by
  have hoffset := Count.toOffset_of_lt hlimit
  induction phase, cycles using borrowCycles.induct phases with
  | case1 phase cycles hneg hphases more hmore ih =>
    obtain ⟨hrange, rfl⟩ := Offset.add_eq_ok.mp hmore
    rw [hoffset] at ih
    have hgain : phase + phases + borrowed phases (phase + phases) * phases =
        phase + (borrowed phases (phase + phases) + 1) * phases := by
      rw [Int.add_mul, Int.one_mul]
      omega
    rw [borrowCycles, if_pos hneg, if_pos hphases, hmore, borrowed_of_neg hpos hneg, hoffset]
    simp only
    rw [ih hrange.1 hrange.2, hgain, Int.add_assoc, Int.add_comm 1]
  | case2 phase cycles hneg hphases fault hfault =>
    have hover : ¬ (-Offset.limit ≤ cycles + 1 ∧ cycles + 1 < Offset.limit) := by
      intro hrange
      rw [Offset.add_eq_ok.mpr ⟨hrange, rfl⟩] at hfault
      cases hfault
    have hone := borrowed_of_neg hpos hneg
    have hmore := borrowed_nonneg hpos (phase + phases)
    rw [Offset.add, Offset.ofExact, if_neg hover] at hfault
    rw [borrowCycles, if_pos hneg, if_pos hphases, Offset.add, Offset.ofExact, if_neg hover,
      if_neg (by omega)]
  | case3 phase cycles hneg hphases =>
    rw [hoffset] at hphases
    omega
  | case4 phase cycles hneg =>
    rw [borrowCycles, if_neg hneg, borrowed_of_nonneg (by omega), Int.add_zero, if_pos hhi, Int.zero_mul,
      Int.add_zero]

/-- Borrowing keeps the ticks that cycles and phase stand for. -/
theorem borrowCycles_eq_ok (h : borrowCycles phases phase cycles = .ok (p, c)) :
    0 ≤ p ∧ (phase < phases → p < phases) ∧ cycles ≤ c ∧ c < Offset.limit ∧
      c * phases - p = cycles * phases - phase := by
  have hmore := borrowed_nonneg hpos phase
  rw [borrowCycles_eq hpos hlimit hlo hhi phase] at h
  split_ifs at h with hroom
  rw [Except.ok.injEq, Prod.mk.injEq] at h
  obtain ⟨rfl, rfl⟩ := h
  refine ⟨borrowed_phase_nonneg hpos phase, borrowed_phase_lt hpos, by omega, hroom, ?_⟩
  rw [Int.add_mul]
  omega

end

end DramPhy
