import DramPhy.Proofs.Timing.Borrowing
import Mathlib.Algebra.Order.Floor.Semiring
import Mathlib.Data.Rat.Floor

/-! Borrowing round by round. A round adds the phases of a cycle to the phase and one to
the cycles; of its two additions only the second can overflow, and there are as many
rounds as the phase, divided by the phases and rounded up, asks for. -/

namespace DramPhy

/-- One round, with both of its additions checked. -/
def borrowRound (phases : Nat) (s : Int × Int) : Checked (Int × Int) := do
  let phase ← Offset.add s.1 (Count.toOffset phases)
  let cycles ← Offset.add s.2 1
  return (phase, cycles)

def borrowRounds (phases : Nat) : Nat → Int × Int → Checked (Int × Int)
  | 0, s => .ok s
  | n + 1, s => borrowRound phases s >>= borrowRounds phases n

section

variable {phases n : Nat} {phase cycles : Int}

theorem borrowed_eq_ceil (h : phase < 0) : borrowed phases phase = ⌈(-phase : ℚ) / phases⌉ := by
  rw [borrowed, Int.min_eq_left (Int.le_of_lt h), neg_div, Int.ceil_neg,
    Rat.floor_intCast_div_natCast]

variable (hpos : 0 < phases)

include hpos

theorem phase_neg_of_lt_borrowed {k : Nat} (h : k < borrowed phases phase) :
    phase + k * phases < 0 := by
  rcases Int.lt_or_le phase 0 with hneg | hge
  · have hend : phase + borrowed phases phase * phases = phase % phases := borrowed_phase hneg
    have hmod := Int.emod_lt_of_pos phase (show (0 : Int) < phases by omega)
    have hless : (k + 1 : Int) * phases ≤ borrowed phases phase * phases :=
      Int.mul_le_mul_of_nonneg_right h (by omega)
    linarith
  · rw [borrowed_of_nonneg hge] at h
    omega

variable (hlimit : (phases : Int) < Offset.limit)

include hlimit

/-- A phase that still borrows has room for a whole cycle. -/
theorem borrow_phase_ok (hneg : phase < 0) (hlo : -Offset.limit ≤ phase) :
    Offset.add phase (Count.toOffset phases) = .ok (phase + phases) := by
  rw [Count.toOffset_of_lt hlimit, Offset.add_eq_ok]
  omega

theorem borrowRound_eq (hneg : phase < 0) (hlo : -Offset.limit ≤ phase)
    (hcycles : -Offset.limit ≤ cycles) : borrowRound phases (phase, cycles) =
      if cycles + 1 < Offset.limit then .ok (phase + phases, cycles + 1) else .error .overflow := by
  rw [borrowRound, borrow_phase_ok hpos hlimit hneg hlo, ok_bind, Offset.add, Offset.ofExact]
  by_cases hroom : cycles + 1 < Offset.limit
  · rw [if_pos hroom, if_pos ⟨by omega, hroom⟩]
    rfl
  · rw [if_neg hroom, if_neg fun h => hroom h.2]
    rfl

/-- As long as the phase is negative, rounds fail only when the cycles run out. -/
theorem borrowRounds_eq (hlo : -Offset.limit ≤ phase) (hcycles : -Offset.limit ≤ cycles)
    (hhi : cycles < Offset.limit) (hneg : ∀ k : Nat, k < n → phase + k * phases < 0) :
    borrowRounds phases n (phase, cycles) = if cycles + n < Offset.limit then
      .ok (phase + n * phases, cycles + n) else .error .overflow := by
  induction n generalizing phase cycles with
  | zero => simp [borrowRounds, hhi]
  | succ n ih =>
    have hfirst : phase < 0 := by simpa using hneg 0 (Nat.succ_pos n)
    rw [borrowRounds, borrowRound_eq hpos hlimit hfirst hlo hcycles]
    by_cases hroom : cycles + 1 < Offset.limit
    · have hrest : ∀ k : Nat, k < n → phase + phases + k * phases < 0 := by
        intro k hk
        have := hneg (k + 1) (by omega)
        push_cast at this
        linarith
      rw [if_pos hroom, ok_bind, ih (by omega) (by omega) hroom hrest]
      push_cast
      rw [show cycles + 1 + (n : Int) = cycles + (n + 1) by ring,
        show phase + phases + (n : Int) * phases = phase + (n + 1) * phases by ring]
    · -- the cycles only grow, so one round too many leaves no room for the rest
      rw [if_neg hroom, if_neg (by push_cast; omega)]
      rfl

end

/-- Borrowing is division. The rounds end when the phase is no longer negative, which is after
as many as the quotient rounded up and not before, and no round overflows by its phase. -/
theorem borrowing_divides {phases : Nat} {phase cycles : Int} (hpos : 1 ≤ phases)
    (hlimit : (phases : Int) < Offset.limit)
    (hphase : -Offset.limit ≤ phase ∧ phase < Offset.limit)
    (hcycles : -Offset.limit ≤ cycles ∧ cycles < Offset.limit) :
    ∃ q : Nat, (q : Int) = (if phase < 0 then ⌈(-phase : ℚ) / phases⌉ else 0) ∧
      borrowCycles phases phase cycles = (if cycles + q < Offset.limit then
        .ok (phase + q * phases, cycles + q) else .error .overflow) ∧
      borrowCycles phases phase cycles = borrowRounds phases q (phase, cycles) ∧
      (∀ p c, borrowCycles phases phase cycles = .ok (p, c) →
        c * phases - p = cycles * phases - phase ∧ 0 ≤ p ∧ (phase < 0 → p < phases)) ∧
      ∀ k : Nat, k < q → phase + k * phases < 0 ∧
        ∀ p c, borrowRounds phases k (phase, cycles) = .ok (p, c) →
          p = phase + k * phases ∧ c = cycles + k ∧
            Offset.add p (Count.toOffset phases) = .ok (p + phases) := by
  obtain ⟨q, hq⟩ := Int.eq_ofNat_of_zero_le (borrowed_nonneg hpos phase)
  have hloop := borrowCycles_eq hpos hlimit hcycles.1 hcycles.2 phase
  have hneg : ∀ k : Nat, k < q → phase + k * phases < 0 :=
    fun k hk => phase_neg_of_lt_borrowed hpos (by omega)
  have hrounds : ∀ k ≤ q, borrowRounds phases k (phase, cycles) = _ := fun k hk =>
    borrowRounds_eq hpos hlimit hphase.1 hcycles.1 hcycles.2 fun j hj => hneg j (by omega)
  rw [hq] at hloop
  refine ⟨q, ?_, hloop, by rw [hloop, hrounds q (Nat.le_refl q)], fun p c h => ?_, fun k hk => ?_⟩
  · rw [← hq]
    split_ifs with hsign
    · exact borrowed_eq_ceil hsign
    · exact borrowed_of_nonneg (Int.not_lt.mp hsign)
  · obtain ⟨hnonneg, hlt, -, -, hsame⟩ := borrowCycles_eq_ok hpos hlimit hcycles.1 hcycles.2 h
    exact ⟨hsame, hnonneg, fun hsign => hlt (by omega)⟩
  · refine ⟨hneg k hk, fun p c h => ?_⟩
    rw [hrounds k (Nat.le_of_lt hk)] at h
    split_ifs at h
    obtain ⟨rfl, rfl⟩ := Prod.mk.inj (Except.ok.inj h)
    refine ⟨rfl, rfl, borrow_phase_ok hpos hlimit (hneg k hk) ?_⟩
    have hgain : (0 : Int) ≤ k * phases := by positivity
    omega

/-- The lowest phase takes two of the longest cycles, the last two that there is room for. -/
theorem lowest_phase_borrows_twice :
    borrowCycles (2 ^ 63 - 1) (-2 ^ 63) (2 ^ 63 - 3) = .ok (2 ^ 63 - 2, 2 ^ 63 - 1) := by
  obtain ⟨q, hq, hloop, -⟩ := borrowing_divides (show 1 ≤ 2 ^ 63 - 1 by decide) (by decide)
    (show -Offset.limit ≤ -2 ^ 63 ∧ -2 ^ 63 < Offset.limit by decide)
    (show -Offset.limit ≤ 2 ^ 63 - 3 ∧ 2 ^ 63 - 3 < Offset.limit by decide)
  have htwo : q = 2 := by
    rw [if_pos (by decide)] at hq
    exact_mod_cast hq.trans (Int.ceil_eq_iff.mpr (by norm_num) : _ = (2 : Int))
  rw [hloop, htwo]
  rfl

end DramPhy
