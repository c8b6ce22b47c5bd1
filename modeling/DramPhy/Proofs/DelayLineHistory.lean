import DramPhy.DelayLine
import DramPhy.Proofs.Success

/-! A delay line after any inputs: tap `k` is the input of `k + 1` ticks ago. -/

namespace DramPhy

variable {α : Type}

/-- The line with its last inputs, whatever it was given before them. -/
def DelayLine.fed (length : Nat) (rest : α) (inputs : List α) : DelayLine α :=
  ⟨length, rest, inputs.reverse.take length⟩

/-- The input of `k + 1` ticks ago. -/
def ago (rest : α) (inputs : List α) (k : Nat) : α := inputs.reverse[k]?.getD rest

variable {length : Nat} {rest : α} {inputs : List α}

theorem DelayLine.make_ok (h : 1 ≤ length) :
    DelayLine.make length rest = .ok (DelayLine.fed length rest []) := by
  simp [DelayLine.make, require, h, DelayLine.fed, ok_bind, pure, Except.pure]

theorem DelayLine.make_eq_ok {line : DelayLine α} :
    DelayLine.make length rest = .ok line ↔ 1 ≤ length ∧ DelayLine.fed length rest [] = line := by
  by_cases h : 1 ≤ length
  · rw [DelayLine.make_ok h, Except.ok.injEq, and_iff_right h]
  · simp [DelayLine.make, require, h, bind, Except.bind]

theorem DelayLine.fed_tick (input : α) :
    (DelayLine.fed length rest inputs).tick input = DelayLine.fed length rest (inputs ++ [input]) := by
  cases length with
  | zero => simp [DelayLine.tick, DelayLine.fed]
  | succ n => simp [DelayLine.tick, DelayLine.fed, List.take_take]

theorem DelayLine.fed_held {k : Nat} (h : k < length) :
    (DelayLine.fed length rest inputs).held k = ago rest inputs k := by
  rw [DelayLine.held, DelayLine.fed, List.getElem?_take_of_lt h, ago]

theorem DelayLine.fed_tap {k : Nat} (h : k < length) :
    (DelayLine.fed length rest inputs).tap k = .ok (ago rest inputs k) := by
  rw [DelayLine.tap, if_pos (show k < (DelayLine.fed length rest inputs).length from h), DelayLine.fed_held h]

theorem DelayLine.fed_output (h : 1 ≤ length) :
    (DelayLine.fed length rest inputs).output = .ok (ago rest inputs (length - 1)) := by
  have hlast : Count.sub (DelayLine.fed length rest inputs).length 1 = .ok (length - 1) :=
    Count.sub_eq_ok.mpr ⟨h, rfl⟩
  rw [DelayLine.output, hlast, ok_bind, DelayLine.fed_tap (by omega)]

theorem ago_append (rest : α) (xs : List α) (x : α) : ago rest (xs ++ [x]) 0 = x := by
  simp [ago]

theorem ago_append_succ (rest : α) (xs : List α) (x : α) (k : Nat) :
    ago rest (xs ++ [x]) (k + 1) = ago rest xs k := by
  simp [ago]

theorem ago_of_lt {k : Nat} (h : k < inputs.length) :
    ago rest inputs k = inputs[inputs.length - 1 - k] := by
  rw [ago, List.getElem?_reverse h, List.getElem?_eq_getElem (by omega), Option.getD_some]

theorem ago_of_le {k : Nat} (h : inputs.length ≤ k) : ago rest inputs k = rest := by
  rw [ago, List.getElem?_eq_none (by rwa [List.length_reverse]), Option.getD_none]

theorem ago_take {t k : Nat} (ht : t ≤ inputs.length) :
    ago rest (inputs.take t) k = if k < t then inputs[t - 1 - k]?.getD rest else rest := by
  have hlen : (inputs.take t).length = t := by simp [ht]
  by_cases hk : k < t
  · rw [if_pos hk, ago_of_lt (by omega), List.getElem_take, List.getElem?_eq_getElem (by omega),
      Option.getD_some]
    simp only [hlen]
  · rw [if_neg hk, ago_of_le (by omega)]

theorem DelayLine.tapOrInput_ahead (line : DelayLine α) (input : α) :
    line.tapOrInput (-1) input = .ok input := by
  rw [DelayLine.tapOrInput, if_pos (by decide), require, if_pos rfl]
  rfl

theorem DelayLine.tapOrInput_natCast (line : DelayLine α) (k : Nat) (input : α) :
    line.tapOrInput k input = line.tap k := by
  rw [DelayLine.tapOrInput, if_neg (by omega), Int.toNat_natCast]

theorem DelayLine.fed_tapOrInput {k : Nat} (input : α) (h : k < length + 1) :
    (DelayLine.fed length rest inputs).tapOrInput ((k : Int) - 1) input =
      .ok (ago rest (inputs ++ [input]) k) := by
  cases k with
  | zero => rw [ago_append, Int.natCast_zero, Int.zero_sub, DelayLine.tapOrInput_ahead]
  | succ n =>
    have hk : ((n + 1 : Nat) : Int) - 1 = n := by omega
    rw [hk, DelayLine.tapOrInput_natCast, DelayLine.fed_tap (by omega), ago_append_succ]

/-- A line of one tap, and what it gives next. -/
def DelayLine.Holds (line : DelayLine α) (x : α) : Prop := line.length = 1 ∧ line.held 0 = x

theorem DelayLine.fed_holds : (DelayLine.fed 1 rest []).Holds rest := ⟨rfl, rfl⟩

section

variable {line : DelayLine α} {x : α} (h : line.Holds x)

include h

theorem DelayLine.Holds.output_ok : line.output = .ok x := by
  rw [DelayLine.output, Count.sub_eq_ok.mpr ⟨Nat.le_of_eq h.1.symm, rfl⟩, ok_bind, DelayLine.tap, h.1,
    if_pos (by decide), h.2]

theorem DelayLine.Holds.tick (input : α) : (line.tick input).Holds input := by
  refine ⟨h.1, ?_⟩
  rw [DelayLine.held, DelayLine.tick, h.1]
  rfl

end

end DramPhy
