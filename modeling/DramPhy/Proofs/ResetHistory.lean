import DramPhy.Proofs.BitSlipHistory
import Mathlib.Data.List.Induction

/-! Words taken in with resets between them. A reset makes every word before it low, and
a bitslip recalls the others. -/

namespace DramPhy

/-- What is known of some words, where a reset makes the words before it low. -/
def received (inputs : List (Bool × Word)) : List Word :=
  inputs.foldl (fun words input => remembered input.1 words ++ [input.2]) []

theorem received_append (inputs : List (Bool × Word)) (reset : Bool) (word : Word) :
    received (inputs ++ [(reset, word)]) = remembered reset (received inputs) ++ [word] := by
  simp [received]

/-- The last position of a reset, 0 if there is none. -/
def lastReset (resets : List Bool) : Nat :=
  resets.zipIdx.foldl (fun last reset => if reset.1 then reset.2 else last) 0

theorem lastReset_append (resets : List Bool) (reset : Bool) : lastReset (resets ++ [reset]) =
    if reset then resets.length else lastReset resets := by
  simp [lastReset, List.zipIdx_append]

theorem lastReset_le (resets : List Bool) : lastReset resets ≤ resets.length := by
  induction resets using List.reverseRecOn with
  | nil => exact Nat.le_refl 0
  | append_singleton resets reset ih =>
    rw [lastReset_append, List.length_append]
    split_ifs <;> omega

theorem lt_lastReset_append {resets : List Bool} {reset : Bool} {u : Nat} :
    u < lastReset (resets ++ [reset]) ↔
      u < lastReset resets ∨ reset = true ∧ u < resets.length := by
  have hle := lastReset_le resets
  rw [lastReset_append]
  cases reset
  · simp
  · simp only [if_true, true_and]
    omega

theorem lt_lastReset_iff {resets : List Bool} {u : Nat} :
    u < lastReset resets ↔ ∃ r, u < r ∧ resets[r]? = some true := by
  induction resets using List.reverseRecOn with
  | nil => simp [lastReset]
  | append_singleton resets reset ih =>
    rw [lt_lastReset_append, ih]
    constructor
    · rintro (⟨r, hu, hr⟩ | ⟨rfl, hu⟩)
      · exact ⟨r, hu, by rw [List.getElem?_append_left (List.getElem?_eq_some_iff.mp hr).1, hr]⟩
      · exact ⟨resets.length, hu, List.getElem?_concat_length⟩
    · rintro ⟨r, hu, hr⟩
      rcases Nat.lt_or_ge r resets.length with hlt | hge
      · rw [List.getElem?_append_left hlt] at hr
        exact .inl ⟨r, hu, hr⟩
      · have hlen := (List.getElem?_eq_some_iff.mp hr).1
        rw [List.length_append, List.length_singleton] at hlen
        obtain rfl : r = resets.length := by omega
        rw [List.getElem?_concat_length, Option.some.injEq] at hr
        exact .inr ⟨hr, hu⟩

theorem received_length (inputs : List (Bool × Word)) : (received inputs).length = inputs.length := by
  induction inputs using List.reverseRecOn with
  | nil => rfl
  | append_singleton inputs input ih =>
    rw [received_append, List.length_append, List.length_append, remembered_length, ih]
    rfl

theorem received_getElem? (inputs : List (Bool × Word)) (u : Nat) : (received inputs)[u]? =
    inputs[u]?.map fun x => if u < lastReset (inputs.map (·.1)) then 0 else x.2 := by
  induction inputs using List.reverseRecOn with
  | nil => rfl
  | append_singleton inputs input ih =>
    have hlen : (remembered input.1 (received inputs)).length = inputs.length := by
      rw [remembered_length, received_length]
    rw [received_append, List.map_append, List.map_singleton]
    simp only [lt_lastReset_append, List.length_map]
    rcases Nat.lt_trichotomy u inputs.length with hu | rfl | hu
    · rw [List.getElem?_append_left (by omega), List.getElem?_append_left hu]
      cases hreset : input.1
      · rw [remembered, if_neg Bool.false_ne_true, ih]
        simp
      · rw [remembered, if_pos rfl, List.getElem?_map, ih]
        cases inputs[u]? <;> simp [hu]
    · have hbound : ¬ inputs.length < lastReset (inputs.map (·.1)) := by
        have := lastReset_le (inputs.map (·.1))
        rw [List.length_map] at this
        omega
      rw [← hlen, List.getElem?_concat_length, hlen, List.getElem?_concat_length]
      simp [hbound]
    · rw [List.getElem?_eq_none (by simp [hlen]; omega), List.getElem?_eq_none (by simp; omega)]
      rfl

theorem streamBit_received (width : Nat) (inputs : List (Bool × Word)) (pos : Nat) :
    streamBit width (received inputs) pos =
      (decide (lastReset (inputs.map (·.1)) ≤ pos / width) &&
        inputs[pos / width]?.any fun x => x.2.getLsbD (pos % width)) := by
  rw [streamBit, received_getElem?]
  by_cases hlt : pos / width < lastReset (inputs.map (·.1))
  · have hge : ¬ lastReset (inputs.map (·.1)) ≤ pos / width := by omega
    cases inputs[pos / width]? <;> simp [hlt, hge]
  · have hge : lastReset (inputs.map (·.1)) ≤ pos / width := by omega
    cases inputs[pos / width]? <;> simp [hlt, hge]

section

variable {s : BitSlip} {width j : Nat} {inputs : List (Bool × Word)}
  (h : s.Carries width (received inputs)) (hj : j < width)

include h hj

/-- What was on its way at the last reset does not come out. -/
theorem BitSlip.Carries.window_cleared
    (hpos : width * inputs.length + j < width * lastReset (inputs.map (·.1)) + width + s.slip) :
    s.window.getLsbD j = false := by
  rw [← Bool.not_eq_true, h.window_getLsbD, received_length]
  rintro ⟨-, pos, hp, hbit⟩
  rw [streamBit_received, Bool.and_eq_true, decide_eq_true_iff,
    Nat.le_div_iff_mul_le (Nat.zero_lt_of_lt hj)] at hbit
  have hle := hbit.1
  rw [Nat.mul_comm] at hle hp
  omega

/-- What came after it does, late by the width and the slip. -/
theorem BitSlip.Carries.window_since (pos : Nat)
    (hpos : pos + width + s.slip = width * inputs.length + j)
    (hreset : width * lastReset (inputs.map (·.1)) ≤ pos) :
    s.window.getLsbD j = inputs[pos / width]?.any fun x => x.2.getLsbD (pos % width) := by
  have hlive : lastReset (inputs.map (·.1)) ≤ pos / width := by
    rw [Nat.le_div_iff_mul_le (Nat.zero_lt_of_lt hj), Nat.mul_comm]
    exact hreset
  have hbit := streamBit_received width inputs pos
  rw [decide_eq_true hlive, Bool.true_and] at hbit
  rw [← hbit]
  apply Bool.eq_iff_iff.mpr
  rw [h.window_getLsbD, received_length]
  constructor
  · rintro ⟨-, pos', hp, hb⟩
    rw [Nat.mul_comm] at hp
    rwa [show pos = pos' by omega]
  · intro hb
    exact ⟨hj, pos, by rw [Nat.mul_comm]; omega, hb⟩

end

end DramPhy
