import DramPhy.HalfRate.Serdes
import DramPhy.Proofs.DelayLineHistory
import DramPhy.Proofs.WordBits

/-! The words that a 2:1 stage takes apart and puts together. A word that fits two
halves is the join of the halves that a serializer sends. -/

namespace DramPhy

def Word.halves (word : Word) (width : Nat) : Halves Word :=
  ⟨word.cut width, Word.cut (word >>> width) width⟩

/-- The word of two halves, the first in the low bits. -/
def Halves.join (halves : Halves Word) (width : Nat) : Word :=
  halves.first.cut width ||| halves.second.cut width <<< width

variable {width : Nat} {word : Word} {high : Bool}

/-- Nothing of a word is lost that fits its two halves. -/
theorem Halves.join_halves (h : word.cut (2 * width) = word) :
    (word.halves width).join width = word := by
  apply BitVec.eq_of_getLsbD_eq
  intro i hi
  have hbit : word.getLsbD i = (word.getLsbD i && decide (i < 2 * width)) := by
    rw [← Word.getLsbD_cut, h]
  simp only [Halves.join, Word.halves, BitVec.getLsbD_or, BitVec.getLsbD_shiftLeft,
    BitVec.getLsbD_ushiftRight, Word.getLsbD_cut]
  rcases Nat.lt_or_ge i width with hlow | hhigh
  · simp [hlow]
  · rw [hbit, Nat.add_sub_cancel' hhigh]
    by_cases hlt : i < 2 * width
    · simp [hi, hlt, Nat.not_lt.mpr hhigh, show i - width < width by omega]
    · simp [hlt, show ¬ i - width < width by omega]

theorem Halves.join_cut (halves : Halves Word) (width : Nat) :
    (halves.join width).cut (2 * width) = halves.join width := by
  apply Word.cut_eq_self
  intro k hk
  rw [Halves.join, BitVec.getLsbD_or, BitVec.getLsbD_shiftLeft, Word.getLsbD_cut, Word.getLsbD_cut] at hk
  simp only [Bool.or_eq_true, Bool.and_eq_true, decide_eq_true_iff] at hk
  omega

theorem resetFill_cut (width : Nat) (high : Bool) :
    Word.cut (resetFill width high) width = resetFill width high := by
  apply BitVec.eq_of_getLsbD_eq
  intro i _
  rw [Word.getLsbD_cut]
  cases high
  · simp [resetFill]
  · by_cases hi : i < width <;> simp [resetFill, getLsbD_lowMask, hi]

theorem requireHalves_ok (h : 2 * width ≤ 64) : requireHalves width = .ok (2 * width) := by
  have hwhole : Count.mul 2 width = .ok (2 * width) :=
    Count.mul_eq_ok.mpr ⟨by simp only [Count.limit]; omega, rfl⟩
  simp only [requireHalves, hwhole, ok_bind, require, if_pos h]
  rfl

theorem Serializer.make_ok (h : 2 * width ≤ 64) (high : Bool) :
    Serializer.make width high = .ok ⟨width, resetFill (2 * width) high⟩ := by
  rw [Serializer.make, requireHalves_ok h, ok_bind]
  rfl

theorem Serializer.output_ok (h : width < 64) (held : Word) :
    Serializer.output ⟨width, held⟩ = .ok (held.halves width) := by
  rw [Serializer.output, Word.shiftDown_of_lt h, ok_bind]
  rfl

def Deserializer.fed (width : Nat) (high : Bool) (samples : List (Halves Word)) : Deserializer :=
  ⟨width, DelayLine.fed deserializerCycles (resetFill (2 * width) high)
    (samples.map (·.join width))⟩

theorem Deserializer.make_ok (h : 2 * width ≤ 64) (high : Bool) :
    Deserializer.make width high = .ok (Deserializer.fed width high []) := by
  rw [Deserializer.make, requireHalves_ok h, ok_bind, DelayLine.make_ok (by decide), ok_bind]
  rfl

variable {samples : List (Halves Word)}

theorem Deserializer.fed_output : (Deserializer.fed width high samples).output =
    .ok (ago (resetFill (2 * width) high) (samples.map (·.join width)) 1) :=
  DelayLine.fed_output (by decide)

theorem Deserializer.fed_tick (h : width < 64) (halves : Halves Word) :
    (Deserializer.fed width high samples).tick halves =
      .ok (Deserializer.fed width high (samples ++ [halves])) := by
  rw [Deserializer.tick, Word.shiftUp_of_lt (show (Deserializer.fed width high samples).width < 64 from h),
    ok_bind, Deserializer.fed, DelayLine.fed_tick, Deserializer.fed, List.map_append,
    List.map_singleton]
  rfl

end DramPhy
