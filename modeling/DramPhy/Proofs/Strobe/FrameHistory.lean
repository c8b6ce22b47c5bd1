import DramPhy.Proofs.DelayLineHistory
import DramPhy.Strobe.Framing

/-! The strobe frames of a sequence of write enables. The cycle's own enable is
taken as the newest input, so the tap before the first one is no special case. -/

namespace DramPhy

def WriteFraming.fed (tap : Nat) (enables : List Bool) : WriteFraming :=
  ⟨DelayLine.fed (tap + 2) false enables, tap⟩

/-- The frame of the newest of a sequence of write enables. -/
def writeFrame (tap : Nat) (enables : List Bool) (leveling : Bool) : StrobeFrame :=
  let dqOe := ago false enables (tap + 1)
  let preamble := ago false enables tap && !dqOe
  let postamble := ago false enables (tap + 2) && !dqOe
  ⟨dqOe, leveling || preamble || dqOe || postamble, preamble, postamble⟩

variable {tap : Nat} {enables : List Bool}

theorem WriteFraming.make_ok (h : tap + 2 < Count.limit) :
    WriteFraming.make tap = .ok (WriteFraming.fed tap []) := by
  have hadd : Count.add tap 2 = .ok (tap + 2) := Count.add_eq_ok.mpr ⟨h, rfl⟩
  rw [WriteFraming.make, hadd, ok_bind, DelayLine.make_ok (by omega)]
  rfl

theorem WriteFraming.fed_tick (enable : Bool) :
    (WriteFraming.fed tap enables).tick enable = WriteFraming.fed tap (enables ++ [enable]) := by
  rw [WriteFraming.tick, WriteFraming.fed, DelayLine.fed_tick]
  rfl

theorem WriteFraming.fed_frame (h : (tap : Int) + 1 < Offset.limit) (enable leveling : Bool) :
    (WriteFraming.fed tap enables).frame enable leveling =
      .ok (writeFrame tap (enables ++ [enable]) leveling) := by
  have hlimit : Offset.limit = 0x8000000000000000 := rfl
  have htap : Count.toOffset (WriteFraming.fed tap enables).tap = tap :=
    Count.toOffset_of_lt (by simp only [WriteFraming.fed]; omega)
  have hnext : Offset.sub tap 1 = .ok ((tap : Int) - 1) := Offset.sub_eq_ok.mpr ⟨by omega, rfl⟩
  have hlast : Offset.add tap 1 = .ok ((tap : Int) + 1) := Offset.add_eq_ok.mpr ⟨by omega, rfl⟩
  have hline : ∀ k : Nat, k < tap + 3 → (WriteFraming.fed tap enables).enables.tapOrInput
      ((k : Int) - 1) enable = .ok (ago false (enables ++ [enable]) k) :=
    fun k hk => DelayLine.fed_tapOrInput enable (by omega)
  have hoe := hline (tap + 1) (by omega)
  have hstart := hline tap (by omega)
  have hend := hline (tap + 2) (by omega)
  rw [show ((tap + 1 : Nat) : Int) - 1 = tap by omega] at hoe
  rw [show ((tap + 2 : Nat) : Int) - 1 = tap + 1 by omega] at hend
  simp only [WriteFraming.frame, htap, hoe, hnext, hlast, hstart, hend, ok_bind]
  rfl

theorem writeFrame_dqsOe (leveling : Bool) : (writeFrame tap enables leveling).dqsOe =
    (leveling || ago false enables tap || ago false enables (tap + 1) ||
      ago false enables (tap + 2)) := by
  simp only [writeFrame]
  cases leveling <;> cases ago false enables tap <;> cases ago false enables (tap + 1) <;>
    cases ago false enables (tap + 2) <;> rfl

end DramPhy
