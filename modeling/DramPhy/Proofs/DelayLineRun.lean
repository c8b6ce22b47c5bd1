import DramPhy.Proofs.DelayLineHistory
import Mathlib.Data.List.Induction

/-! A delay line through any run of ticks. Its taps are a buffer of fixed length that every
tick moves on by one place, and what they show are the last inputs, newest first, with the
reset value where the run is shorter than the line. -/

namespace DramPhy

variable {α : Type}

/-- A line once it has clocked in a sequence of inputs. -/
def DelayLine.after (line : DelayLine α) (inputs : List α) : DelayLine α :=
  inputs.foldl DelayLine.tick line

/-- Values moved on by one tap: the new one comes in front and the oldest drops off. -/
def movedOn (values : List α) (input : α) : List α := input :: values.dropLast

variable {line : DelayLine α} {length : Nat} {rest : α} {inputs : List α}

theorem DelayLine.after_append (line : DelayLine α) (inputs : List α) (input : α) :
    line.after (inputs ++ [input]) = (line.after inputs).tick input := by
  rw [DelayLine.after, List.foldl_append]
  rfl

theorem DelayLine.fed_after (inputs : List α) :
    (DelayLine.fed length rest []).after inputs = DelayLine.fed length rest inputs := by
  induction inputs using List.reverseRecOn with
  | nil => rfl
  | append_singleton inputs input ih => rw [DelayLine.after_append, ih, DelayLine.fed_tick]

theorem DelayLine.taps_length (line : DelayLine α) : line.taps.length = line.length := by
  rw [DelayLine.taps, List.length_map, List.length_range]

theorem DelayLine.map_tap (line : DelayLine α) :
    (List.range line.length).map line.tap = line.taps.map .ok := by
  rw [DelayLine.taps, List.map_map, List.map_inj_left]
  intro k hk
  rw [DelayLine.tap, if_pos (List.mem_range.mp hk)]
  rfl

theorem DelayLine.tick_held {k : Nat} (input : α) (h : k + 1 < line.length) :
    (line.tick input).held (k + 1) = line.held k := by
  rw [DelayLine.held, DelayLine.tick, List.getElem?_take_of_lt h, List.getElem?_cons_succ,
    DelayLine.held]

/-- A tick is one move of the taps. -/
theorem DelayLine.taps_tick (hpos : 1 ≤ line.length) (input : α) :
    (line.tick input).taps = movedOn line.taps input := by
  obtain ⟨last, hlast⟩ := Nat.exists_eq_add_of_le' hpos
  have hlen : (line.tick input).length = last + 1 := hlast
  have hnew : (line.tick input).held 0 = input := by
    rw [DelayLine.held, DelayLine.tick, List.getElem?_take_of_lt hpos]
    rfl
  have hkept : (List.range last).map (fun k => (line.tick input).held (k + 1)) =
      (List.range last).map line.held := by
    apply List.map_congr_left
    intro k hk
    have hlt := List.mem_range.mp hk
    exact DelayLine.tick_held input (by omega)
  -- the range of the taps is split at its first place after the tick and at its last one before it
  rw [DelayLine.taps, hlen, List.range_succ_eq_map, List.map_cons, hnew, List.map_map, movedOn,
    DelayLine.taps, hlast, List.range_succ, List.map_append, List.map_singleton,
    List.dropLast_concat]
  exact congrArg _ hkept

theorem DelayLine.after_length (line : DelayLine α) (inputs : List α) :
    (line.after inputs).length = line.length := by
  induction inputs using List.reverseRecOn with
  | nil => rfl
  | append_singleton inputs input ih => rw [DelayLine.after_append, ← ih]; rfl

theorem DelayLine.taps_after (hpos : 1 ≤ line.length) (inputs : List α) :
    (line.after inputs).taps = inputs.foldl movedOn line.taps := by
  induction inputs using List.reverseRecOn with
  | nil => rfl
  | append_singleton inputs input ih =>
    rw [DelayLine.after_append, DelayLine.taps_tick (by rwa [DelayLine.after_length]), ih,
      List.foldl_append]
    rfl

theorem DelayLine.fed_taps_nil :
    (DelayLine.fed length rest []).taps = List.replicate length rest := by
  have hheld : (DelayLine.fed length rest []).held = fun _ => rest := by
    funext k
    simp [DelayLine.held, DelayLine.fed]
  rw [DelayLine.taps, hheld, List.map_const', List.length_range, DelayLine.fed]

theorem DelayLine.tapOrInput_before {k : Int} (line : DelayLine α) (hk : k < -1) (input : α) :
    line.tapOrInput k input = .error (.violated .tapAtMostOneAhead) := by
  rw [DelayLine.tapOrInput, if_pos (by omega), require, if_neg (by omega)]
  rfl

theorem DelayLine.tapOrInput_beyond {k : Int} (hk : line.length ≤ k) (input : α) :
    line.tapOrInput k input = .error .outOfBounds := by
  obtain ⟨n, rfl⟩ := Int.eq_ofNat_of_zero_le (show 0 ≤ k by omega)
  rw [DelayLine.tapOrInput_natCast, DelayLine.tap, if_neg (by omega)]

/-- What a line shows of the inputs that it has clocked in. -/
structure DelayLine.Remembers (line : DelayLine α) (length : Nat) (rest : α) (inputs : List α) :
    Prop where
  length_eq : line.length = length
  taps_length : line.taps.length = length
  moved : line.taps = inputs.foldl movedOn (List.replicate length rest)
  listed : (List.range length).map line.tap = line.taps.map .ok
  recent : ∀ k < length, ∀ h : k < inputs.length,
    line.tap k = .ok inputs[inputs.length - 1 - k]
  resting : ∀ k < length, inputs.length ≤ k → line.tap k = .ok rest
  output : line.output = line.tap (length - 1)
  ahead : ∀ input, line.tapOrInput (-1) input = .ok input
  within : ∀ k < length, ∀ input, line.tapOrInput k input = line.tap k
  before : ∀ k : Int, k < -1 → ∀ input,
    line.tapOrInput k input = .error (.violated .tapAtMostOneAhead)
  beyond : ∀ k : Int, length ≤ k → ∀ input, line.tapOrInput k input = .error .outOfBounds

/-- A line starts with its reset value in every tap and moves on by one for each input, so it
shows its last inputs, and its reset value in the taps that no input has come to. -/
theorem delay_line_remembers (hpos : 1 ≤ length) (rest : α) :
    ∃ line, DelayLine.make length rest = .ok line ∧
      ∀ inputs, (line.after inputs).Remembers length rest inputs := by
  refine ⟨_, DelayLine.make_ok hpos, fun inputs => ?_⟩
  have hmoved : ((DelayLine.fed length rest []).after inputs).taps = _ :=
    DelayLine.taps_after hpos inputs
  rw [DelayLine.fed_taps_nil, DelayLine.fed_after] at hmoved
  rw [DelayLine.fed_after]
  refine ⟨rfl, DelayLine.taps_length _, hmoved, DelayLine.map_tap _, fun k hk h => ?_,
    fun k hk h => ?_, ?_, DelayLine.tapOrInput_ahead _, fun k _ => DelayLine.tapOrInput_natCast _ k,
    fun _ => DelayLine.tapOrInput_before _,
    fun _ hk input => DelayLine.tapOrInput_beyond hk input⟩
  · rw [DelayLine.fed_tap hk, ago_of_lt h]
  · rw [DelayLine.fed_tap hk, ago_of_le h]
  · rw [DelayLine.fed_output hpos, DelayLine.fed_tap (by omega)]

/-- The first run is shorter than the line and the second one longer. -/
theorem third_tap_shows_reset_then_second : ∃ line, DelayLine.make 3 9 = .ok line ∧
    (line.after [1, 2]).tap 0 = .ok 2 ∧ (line.after [1, 2]).output = .ok 9 ∧
    (line.after [1, 2, 3, 4]).taps = [4, 3, 2] ∧ (line.after [1, 2, 3, 4]).output = .ok 2 ∧
    (line.after [1, 2, 3, 4]).tapOrInput (-1) 5 = .ok 5 ∧
    (line.after [1, 2, 3, 4]).tapOrInput 3 5 = .error .outOfBounds := by
  obtain ⟨line, hmake, hruns⟩ := delay_line_remembers (show 1 ≤ 3 by decide) 9
  have hshort := hruns [1, 2]
  have hlong := hruns [1, 2, 3, 4]
  exact ⟨line, hmake, hshort.recent 0 (by decide) (by decide),
    hshort.output.trans (hshort.resting 2 (by decide) (by decide)), hlong.moved,
    hlong.output.trans (hlong.recent 2 (by decide) (by decide)), hlong.ahead 5,
    hlong.beyond 3 (by decide) 5⟩

end DramPhy
