import DramPhy.Proofs.ResetHistory
import Mathlib.Data.Nat.Digits.Defs

/-! A bitslip through any calls. Its register is the number made of the last words it has
taken in, and its output is the stream of all of them, late by its delay. -/

namespace DramPhy

/-- What is done to a bitslip. -/
inductive SlipCall where
  | setSlip (slip : Nat)
  | tick (input : Word) (reset advance : Bool)

def BitSlip.call (s : BitSlip) : SlipCall → Checked BitSlip
  | .setSlip slip => s.setSlip slip
  | .tick input reset advance => s.tick input reset advance

/-- A new bitslip once it has answered a sequence of calls. -/
def BitSlip.afterCalls (width cycles : Nat) (calls : List SlipCall) : Checked BitSlip := do
  let s ← BitSlip.make width cycles
  calls.foldlM BitSlip.call s

def SlipCall.InRange (range : Nat) : SlipCall → Prop
  | .setSlip slip => slip < range
  | .tick _ _ _ => True

def SlipCall.slipped (range slip : Nat) : SlipCall → Nat
  | .setSlip set => set
  | .tick _ reset advance =>
    if reset then 0 else if advance then (slip + 1) % range else slip

def slipAfterCalls (range : Nat) (calls : List SlipCall) : Nat :=
  calls.foldl (SlipCall.slipped range) 0

def SlipCall.taken? : SlipCall → Option (Bool × Word)
  | .setSlip _ => none
  | .tick input reset _ => some (reset, input)

/-- The words of the ticks, each with whether its tick was a reset. -/
def takenWords (calls : List SlipCall) : List (Bool × Word) := calls.filterMap SlipCall.taken?

/-- The words with 0 in place of those before the last reset. -/
def keptWords (inputs : List (Bool × Word)) : List Word :=
  inputs.mapIdx fun u x => if u < lastReset (inputs.map (·.1)) then 0 else x.2

/-- The last `n` words, the oldest first. Words before the first one are 0. -/
def lastWords (n : Nat) (words : List Word) : List Word :=
  (List.replicate n 0 ++ words).drop words.length

/-- The number that has the words as its digits, the first one lowest. -/
def packed (width : Nat) (words : List Word) : Nat :=
  Nat.ofDigits (2 ^ width) (words.map fun word => (word.cut width).toNat)

variable {s : BitSlip} {width cycles slip n : Nat} {words : List Word} {calls : List SlipCall}

theorem testBit_packed (hw : 0 < width) (words : List Word) (i : Nat) :
    (packed width words).testBit i = streamBit width words i := by
  induction words generalizing i with
  | nil => simp [packed, streamBit]
  | cons word words ih =>
    have hdigit : (word.cut width).toNat < 2 ^ width := Word.toNat_lt (Word.cut_cut word width)
    have hpacked : packed width (word :: words) =
        2 ^ width * packed width words + (word.cut width).toNat := by
      rw [packed, List.map_cons, Nat.ofDigits_cons, Nat.add_comm]
      rfl
    rw [hpacked, Nat.testBit_two_pow_mul_add _ hdigit, ih, BitVec.testBit_toNat, Word.getLsbD_cut]
    by_cases hi : i < width
    · simp [hi, streamBit, Nat.div_eq_of_lt hi, Nat.mod_eq_of_lt hi]
    · obtain ⟨k, rfl⟩ := Nat.exists_eq_add_of_le (Nat.le_of_not_lt hi)
      have hright := streamBit_append_right hw [word] words k
      rw [List.length_singleton, Nat.one_mul, List.singleton_append] at hright
      rw [if_neg hi, Nat.add_sub_cancel_left, hright]

theorem streamBit_replicate_zero (n pos : Nat) :
    streamBit width (List.replicate n 0) pos = false := by
  rw [streamBit, List.getElem?_replicate]
  split_ifs <;> simp

/-- The last `n` words are the end of the stream of all of them. -/
theorem streamBit_lastWords (hw : 0 < width) (words : List Word) (i : Nat) :
    streamBit width (lastWords n words) i = true ↔ i < n * width ∧
      ∃ pos, pos + n * width = words.length * width + i ∧ streamBit width words pos = true := by
  have hlen : (List.replicate n (0 : Word)).length = n := List.length_replicate
  rw [lastWords, streamBit_drop hw]
  by_cases hbefore : words.length * width + i < n * width
  · rw [streamBit_append_left _ (by rwa [hlen]), streamBit_replicate_zero]
    constructor
    · intro h
      contradiction
    · rintro ⟨-, pos, hpos, -⟩
      omega
  · obtain ⟨pos, hpos⟩ := Nat.exists_eq_add_of_le (Nat.le_of_not_lt hbefore)
    have hright := streamBit_append_right hw (List.replicate n 0) words pos
    rw [hlen] at hright
    rw [hpos, hright]
    constructor
    · intro h
      have hlt := streamBit_lt hw h
      exact ⟨by omega, pos, by omega, h⟩
    · rintro ⟨-, pos', hpos', h⟩
      rwa [show pos = pos' by omega]

theorem received_eq_keptWords (inputs : List (Bool × Word)) :
    received inputs = keptWords inputs := by
  apply List.ext_getElem?
  intro u
  rw [received_getElem?, keptWords, List.getElem?_mapIdx]

/-- A bitslip of a known slip, after the words that it has taken in. -/
structure BitSlip.Tracks (s : BitSlip) (width cycles slip : Nat) (words : List Word) : Prop where
  width_eq : s.width = width
  cycles_eq : s.cycles = cycles
  slip_eq : s.slip = slip
  fits : s.Fits
  recalls : s.Recalls words

section

variable (hc : 1 ≤ cycles) (hw : 1 ≤ width) (hroom : (cycles + 1) * width ≤ 64)

include hc hw hroom

theorem BitSlip.make_tracks :
    ∃ s, BitSlip.make width cycles = .ok s ∧ s.Tracks width cycles 0 [] := by
  refine ⟨_, BitSlip.make_ok hc hw hroom, rfl, rfl, rfl, ?_, BitSlip.recalls_nil rfl⟩
  exact BitSlip.fits_mk 0 hc hw hroom (Nat.mul_pos hc hw)

theorem BitSlip.fixed_tracks (hs : slip < cycles * width) :
    ∃ s, BitSlip.fixed width cycles slip = .ok s ∧ s.Tracks width cycles slip [] := by
  refine ⟨_, BitSlip.fixed_ok hc hw hroom hs, rfl, rfl, rfl, ?_, BitSlip.recalls_nil rfl⟩
  exact BitSlip.fits_mk 0 hc hw hroom hs

end

section

variable (h : s.Tracks width cycles slip words)

include h

theorem BitSlip.Tracks.range_eq : s.range = cycles * width := by
  rw [BitSlip.range, h.cycles_eq, h.width_eq]

theorem BitSlip.Tracks.setSlip {set : Nat} (hset : set < cycles * width) :
    ∃ t, s.setSlip set = .ok t ∧ t.Tracks width cycles set words := by
  have hlt : set < s.range := by rwa [h.range_eq]
  refine ⟨{ s with slip := set }, ?_, h.width_eq, h.cycles_eq, rfl, ?_, h.recalls⟩
  · rw [BitSlip.setSlip, require, if_pos hlt]
    rfl
  · exact ⟨h.fits.cycles_pos, h.fits.width_pos, h.fits.room, hlt⟩

theorem BitSlip.Tracks.tick (input : Word) (reset advance : Bool) :
    ∃ t, s.tick input reset advance = .ok t ∧
      t.Tracks width cycles (SlipCall.slipped (cycles * width) slip (.tick input reset advance))
        (remembered reset words ++ [input]) := by
  refine ⟨_, BitSlip.tick_ok h.fits input reset advance, h.width_eq, h.cycles_eq, ?_,
    h.fits.next input reset advance, h.recalls.next h.fits input reset advance⟩
  rw [BitSlip.next, h.range_eq, h.slip_eq]
  rfl

theorem BitSlip.Tracks.output_ok : s.output = .ok s.window := BitSlip.output_ok h.fits

theorem BitSlip.Tracks.window_cut : s.window.cut width = s.window := by
  apply Word.cut_eq_self
  intro j hj
  rw [← h.width_eq]
  exact ((BitSlip.window_getLsbD h.recalls h.fits j).mp hj).1

theorem BitSlip.Tracks.window_getLsbD {j : Nat} (hj : j < width) :
    s.window.getLsbD j = lateBit width (width + slip) words (words.length * width + j) := by
  rw [BitSlip.window_late h.recalls h.fits (by rwa [h.width_eq]), BitSlip.delay, h.width_eq, h.slip_eq]

theorem BitSlip.Tracks.history_getLsbD (i : Nat) : s.history.getLsbD i = true ↔
    i < (cycles + 1) * width ∧
      ∃ pos, pos + (cycles + 1) * width = words.length * width + i ∧
        streamBit width words pos = true := by
  rw [h.recalls i, h.range_eq, h.width_eq, Nat.succ_mul]

theorem BitSlip.Tracks.history_lt : s.history.toNat < 2 ^ ((cycles + 1) * width) :=
  Word.toNat_lt (Word.cut_eq_self fun i hi => ((h.history_getLsbD i).mp hi).1)

theorem BitSlip.Tracks.history_packed :
    s.history.toNat = packed width (lastWords (cycles + 1) words) := by
  have hw : 0 < width := h.width_eq ▸ h.fits.width_pos
  apply Nat.eq_of_testBit_eq
  intro i
  apply Bool.eq_iff_iff.mpr
  rw [BitVec.testBit_toNat, testBit_packed hw, streamBit_lastWords hw, h.history_getLsbD]

end

theorem takenWords_append (calls : List SlipCall) (call : SlipCall) :
    takenWords (calls ++ [call]) = takenWords calls ++ call.taken?.toList := by
  rw [takenWords, List.filterMap_append, takenWords]
  cases call <;> rfl

/-- One call keeps a bitslip in step with what is told of its calls. -/
theorem BitSlip.Tracks.call {call : SlipCall}
    (h : s.Tracks width cycles (slipAfterCalls (cycles * width) calls) (received (takenWords calls)))
    (hcall : call.InRange (cycles * width)) :
    ∃ t, s.call call = .ok t ∧
      t.Tracks width cycles (slipAfterCalls (cycles * width) (calls ++ [call]))
        (received (takenWords (calls ++ [call]))) := by
  rw [takenWords_append, slipAfterCalls, List.foldl_append]
  cases call with
  | setSlip set =>
    rw [SlipCall.taken?, Option.toList_none, List.append_nil]
    exact h.setSlip hcall
  | tick input reset advance =>
    rw [SlipCall.taken?, Option.toList_some, received_append]
    exact h.tick input reset advance

theorem BitSlip.afterCalls_append (call : SlipCall) :
    BitSlip.afterCalls width cycles (calls ++ [call]) =
      BitSlip.afterCalls width cycles calls >>= fun s => s.call call := by
  simp [BitSlip.afterCalls, bind_assoc]

theorem BitSlip.afterCalls_tracks (hc : 1 ≤ cycles) (hw : 1 ≤ width)
    (hroom : (cycles + 1) * width ≤ 64) (hcalls : ∀ call ∈ calls, call.InRange (cycles * width)) :
    ∃ s, BitSlip.afterCalls width cycles calls = .ok s ∧
      s.Tracks width cycles (slipAfterCalls (cycles * width) calls) (received (takenWords calls)) := by
  induction calls using List.reverseRecOn with
  | nil =>
    obtain ⟨s, hs, htracks⟩ := BitSlip.make_tracks hc hw hroom
    refine ⟨s, ?_, htracks⟩
    rw [BitSlip.afterCalls, hs, ok_bind, List.foldlM_nil]
    rfl
  | append_singleton calls call ih =>
    obtain ⟨s, hs, htracks⟩ := ih fun c hm => hcalls c (List.mem_append_left _ hm)
    rw [BitSlip.afterCalls_append, hs, ok_bind]
    exact htracks.call (hcalls call (by simp))

/-- What a bitslip shows of the calls that it has answered. -/
structure BitSlip.Shows (s : BitSlip) (width cycles : Nat) (calls : List SlipCall) : Prop where
  history : s.history.toNat = packed width (lastWords (cycles + 1) (keptWords (takenWords calls)))
  history_lt : s.history.toNat < 2 ^ ((cycles + 1) * width)
  slip : s.slip = slipAfterCalls (cycles * width) calls
  slip_lt : s.slip < cycles * width
  output : ∃ word, s.output = .ok word ∧ word.cut width = word ∧ ∀ j, j < width →
    word.getLsbD j = lateBit width (width + s.slip) (keptWords (takenWords calls))
      ((takenWords calls).length * width + j)

/-- A bitslip answers all calls that keep its slip in range, and shows its words since the
last reset whatever its slip has been. -/
theorem bitslip_recalls_words (hc : 1 ≤ cycles) (hw : 1 ≤ width)
    (hroom : (cycles + 1) * width ≤ 64) (hcalls : ∀ call ∈ calls, call.InRange (cycles * width)) :
    ∃ s, BitSlip.afterCalls width cycles calls = .ok s ∧ s.Shows width cycles calls := by
  obtain ⟨s, hs, htracks⟩ := BitSlip.afterCalls_tracks hc hw hroom hcalls
  have hslip := htracks.fits.slip_lt
  rw [htracks.range_eq] at hslip
  have hwindow : ∀ j, j < width → s.window.getLsbD j =
      lateBit width (width + s.slip) (keptWords (takenWords calls))
        ((takenWords calls).length * width + j) := by
    intro j hj
    rw [htracks.window_getLsbD hj, received_length, received_eq_keptWords, htracks.slip_eq]
  rw [received_eq_keptWords] at htracks
  exact ⟨s, hs, htracks.history_packed, htracks.history_lt, htracks.slip_eq, hslip,
    s.window, htracks.output_ok, htracks.window_cut, hwindow⟩

/-- The slip wraps around, a reset drops two words, and the slip is set to more than a word. -/
def slippedCalls : List SlipCall :=
  [.tick 0x1ffff false false, .setSlip 47, .tick 0xbeef false true, .tick 0x9234 true true,
    .setSlip 20, .tick 0x5678 false true]

theorem full_register_recalls : ∃ s, BitSlip.afterCalls 16 3 slippedCalls = .ok s ∧
    s.slip = 21 ∧ s.history.toNat = 0x5678923400000000 ∧
    ∃ word, s.output = .ok word ∧ ∀ j, j < 16 → word.getLsbD j = (0x4680#64).getLsbD j := by
  have hcalls : ∀ call ∈ slippedCalls, call.InRange (3 * 16) := by
    simp [slippedCalls, SlipCall.InRange]
  obtain ⟨s, hs, hshows⟩ :=
    bitslip_recalls_words (show 1 ≤ 3 by decide) (show 1 ≤ 16 by decide) (by decide) hcalls
  have hslip : s.slip = 21 := hshows.slip.trans (by decide)
  obtain ⟨word, hword, -, hbits⟩ := hshows.output
  rw [hslip] at hbits
  refine ⟨s, hs, hslip, hshows.history.trans (by decide), word, hword, fun j hj => ?_⟩
  rw [hbits j hj]
  revert j
  decide

end DramPhy
