import DramPhy.Proofs.BitSlipRun
import Mathlib.Data.Int.CardIntervalMod
import Mathlib.Data.Set.Card

/-! Two bitslips in a row. Their delays add up, so the words come back whole exactly when
the two slips come to whole words, and for every first slip the second one has a setting
that makes them do so. -/

namespace DramPhy

structure SlipPair where
  first : BitSlip
  second : BitSlip

def SlipPair.fixed (width cycles a b : Nat) : Checked SlipPair := do
  let first ← BitSlip.fixed width cycles a
  let second ← BitSlip.fixed width cycles b
  return ⟨first, second⟩

/-- The second bitslip takes in what the first one has shown before the tick. -/
def SlipPair.shift (p : SlipPair) (input : Word) : Checked SlipPair := do
  let between ← p.first.output
  let second ← p.second.shift between
  let first ← p.first.shift input
  return ⟨first, second⟩

def SlipPair.after (width cycles a b : Nat) (words : List Word) : Checked SlipPair := do
  let p ← SlipPair.fixed width cycles a b
  words.foldlM SlipPair.shift p

/-- What a pair of bitslips shows once it has taken in some words. -/
def pairOutput (width cycles a b : Nat) (words : List Word) : Checked Word := do
  let p ← SlipPair.after width cycles a b words
  p.second.output

/-- Every word of a sequence comes back whole, `delay` ticks after it was taken in. -/
def Reproduces (width cycles a b : Nat) (words : Nat → Word) (delay : Nat) : Prop :=
  ∀ t, pairOutput width cycles a b ((List.range (t + delay)).map words) = .ok ((words t).cut width)

/-- One delay serves for all sequences of words. -/
def Realigns (width cycles a b : Nat) : Prop :=
  ∃ delay, ∀ words, Reproduces width cycles a b words delay

/-- The second bitslip has taken in the stream of the first one's words, late. -/
structure SlipPair.Tracks (p : SlipPair) (width cycles a b : Nat) (words between : List Word) :
    Prop where
  first : p.first.Tracks width cycles a words
  second : p.second.Tracks width cycles b between
  length_eq : between.length = words.length
  stream : ∀ pos, pos < words.length * width →
    streamBit width between pos = lateBit width (width + a) words pos

variable {p : SlipPair} {width cycles a b delay pos : Nat} {words between : List Word}

theorem lateBit_append_left (more : List Word) (h : pos < words.length * width + delay) :
    lateBit width delay (words ++ more) pos = lateBit width delay words pos := by
  by_cases hle : delay ≤ pos
  · rw [lateBit, lateBit, streamBit_append_left more (show pos - delay < words.length * width by omega)]
  · rw [lateBit, lateBit, decide_eq_false hle, Bool.false_and, Bool.false_and]

/-- A late stream taken late again is late by both delays. -/
theorem lateBit_lateBit {n late : Nat}
    (hstream : ∀ pos, pos < n → streamBit width between pos = lateBit width delay words pos)
    (h : pos < n + late) :
    lateBit width late between pos = lateBit width (late + delay) words pos := by
  rw [lateBit]
  by_cases hle : late ≤ pos
  · rw [hstream _ (show pos - late < n by omega), lateBit, lateBit, decide_eq_true hle, Bool.true_and,
      Nat.sub_sub]
    congr 1
    exact decide_eq_decide.mpr (by omega)
  · rw [lateBit, decide_eq_false hle, Bool.false_and, decide_eq_false (by omega), Bool.false_and]

theorem dvd_of_streamBit_ones {n : Nat}
    (h : streamBit width ((List.range n).map fun _ => 1) pos = true) : width ∣ pos := by
  rw [streamBit, Option.any_eq_true] at h
  obtain ⟨word, hword, hbit⟩ := h
  obtain ⟨_, -, rfl⟩ := List.mem_map.mp (List.mem_of_getElem? hword)
  change (1#64).getLsbD (pos % width) = true at hbit
  rw [BitVec.getLsbD_one, Bool.and_eq_true, decide_eq_true_iff, decide_eq_true_iff] at hbit
  exact Nat.dvd_of_mod_eq_zero hbit.2

theorem SlipPair.Tracks.shift (h : p.Tracks width cycles a b words between) (input : Word) :
    ∃ q, p.shift input = .ok q ∧
      q.Tracks width cycles a b (words ++ [input]) (between ++ [p.first.window]) := by
  obtain ⟨first, hfirst, htracks⟩ := h.first.tick input false false
  obtain ⟨second, hsecond, hbetween⟩ := h.second.tick p.first.window false false
  have hlen : (words ++ [input]).length * width = words.length * width + width := by
    rw [List.length_append, List.length_singleton, Nat.succ_mul]
  refine ⟨⟨first, second⟩, ?_, htracks, hbetween, ?_, fun pos hpos => ?_⟩
  · simp only [SlipPair.shift, h.first.output_ok, ok_bind, BitSlip.shift, hfirst, hsecond]
    rfl
  · rw [List.length_append, List.length_append, h.length_eq]
    rfl
  · rw [hlen] at hpos
    rw [lateBit_append_left _ (by omega)]
    by_cases hbefore : pos < words.length * width
    · rw [streamBit_append_left _ (by rwa [h.length_eq]), h.stream pos hbefore]
    · obtain ⟨j, rfl⟩ := Nat.exists_eq_add_of_le (Nat.le_of_not_lt hbefore)
      have hj : j < width := by omega
      rw [← h.first.window_getLsbD hj, ← h.length_eq]
      exact streamBit_append_last between p.first.window hj

section

variable (hc : 1 ≤ cycles) (hw : 1 ≤ width) (hroom : (cycles + 1) * width ≤ 64)
  (ha : a < cycles * width) (hb : b < cycles * width)

include hc hw hroom ha hb

theorem SlipPair.after_tracks (words : List Word) :
    ∃ p between, SlipPair.after width cycles a b words = .ok p ∧
      p.Tracks width cycles a b words between := by
  induction words using List.reverseRecOn with
  | nil =>
    obtain ⟨first, hfirst, htracks⟩ := BitSlip.fixed_tracks hc hw hroom ha
    obtain ⟨second, hsecond, hbetween⟩ := BitSlip.fixed_tracks hc hw hroom hb
    refine ⟨⟨first, second⟩, [], ?_, htracks, hbetween, rfl, fun pos hpos => ?_⟩
    · rw [SlipPair.after, SlipPair.fixed, hfirst, ok_bind, hsecond]
      rfl
    · rw [List.length_nil, Nat.zero_mul] at hpos
      contradiction
  | append_singleton words input ih =>
    obtain ⟨p, between, hp, htracks⟩ := ih
    obtain ⟨q, hq, hnext⟩ := htracks.shift input
    refine ⟨q, _, ?_, hnext⟩
    rw [SlipPair.after, bind_eq_ok] at hp ⊢
    obtain ⟨start, hstart, hp⟩ := hp
    refine ⟨start, hstart, ?_⟩
    rw [List.foldlM_append, hp, ok_bind, List.foldlM_cons, hq, ok_bind, List.foldlM_nil]
    rfl

/-- What comes out of a pair is what went in, late by two words and both slips. -/
theorem pairOutput_ok (words : List Word) :
    ∃ word, pairOutput width cycles a b words = .ok word ∧ word.cut width = word ∧
      ∀ j, j < width →
        word.getLsbD j = lateBit width (2 * width + a + b) words (words.length * width + j) := by
  obtain ⟨p, between, hp, htracks⟩ := SlipPair.after_tracks hc hw hroom ha hb words
  refine ⟨p.second.window, ?_, htracks.second.window_cut, fun j hj => ?_⟩
  · rw [pairOutput, hp, ok_bind, htracks.second.output_ok]
  · rw [htracks.second.window_getLsbD hj, htracks.length_eq,
      lateBit_lateBit htracks.stream (by omega)]
    congr 1
    omega

theorem reproduces_of_dvd (hdvd : width ∣ a + b) (words : Nat → Word) :
    Reproduces width cycles a b words (2 + (a + b) / width) := by
  obtain ⟨n, hn⟩ := hdvd
  have hdiv : (a + b) / width = n := by rw [hn, Nat.mul_div_cancel_left _ hw]
  intro t
  rw [hdiv]
  obtain ⟨word, hword, hcut, hbits⟩ :=
    pairOutput_ok hc hw hroom ha hb ((List.range (t + (2 + n))).map words)
  rw [hword, Except.ok.injEq, ← hcut]
  apply BitVec.eq_of_getLsbD_eq
  intro j _
  rw [Word.getLsbD_cut, Word.getLsbD_cut]
  by_cases hj : j < width
  · have hlen : ((List.range (t + (2 + n))).map words).length * width + j =
        2 * width + a + b + (t * width + j) := by
      rw [List.length_map, List.length_range, Nat.add_mul, Nat.add_mul, Nat.mul_comm n, ← hn]
      omega
    have hsent : ((List.range (t + (2 + n))).map words)[t]? = some (words t) := by
      rw [List.getElem?_map, List.getElem?_range (by omega), Option.map_some]
    rw [hbits j hj, hlen, lateBit, Nat.add_sub_cancel_left, streamBit_getElem? hsent hj,
      decide_eq_true (Nat.le_add_right _ _), Bool.true_and]
  · rw [decide_eq_false hj, Bool.and_false, Bool.and_false]

/-- A bit that is sent first in every word comes back in another place of each. -/
theorem not_reproduces_ones (hdvd : ¬ width ∣ a + b) (delay : Nat) :
    ¬ Reproduces width cycles a b (fun _ => 1) delay := by
  intro h
  obtain ⟨word, hword, -, hbits⟩ :=
    pairOutput_ok hc hw hroom ha hb ((List.range (0 + delay)).map fun _ => 1)
  have hfirst : word.getLsbD 0 = true := by
    rw [Except.ok.inj (hword.symm.trans (h 0)), Word.getLsbD_cut, decide_eq_true (show 0 < width from hw)]
    rfl
  rw [hbits 0 hw, lateBit, Bool.and_eq_true, decide_eq_true_iff, List.length_map, List.length_range,
    Nat.zero_add, Nat.add_zero] at hfirst
  obtain ⟨hle, hbit⟩ := hfirst
  have hrest : width ∣ delay * width - (2 * width + a + b) := dvd_of_streamBit_ones hbit
  have hsum : width ∣ 2 * width + (a + b) := by
    rw [← Nat.add_assoc, Nat.dvd_add_iff_left hrest, Nat.add_sub_cancel' hle]
    exact Nat.dvd_mul_left width delay
  exact hdvd ((Nat.dvd_add_right (Nat.dvd_mul_left width 2)).mp hsum)

theorem realigns_iff : Realigns width cycles a b ↔ width ∣ a + b := by
  constructor
  · rintro ⟨delay, hall⟩
    by_contra hdvd
    exact not_reproduces_ones hc hw hroom ha hb hdvd delay (hall _)
  · intro hdvd
    exact ⟨_, reproduces_of_dvd hc hw hroom ha hb hdvd⟩

end

theorem ncard_dvd_add (hw : 0 < width) (a cycles : Nat) :
    {b | b < cycles * width ∧ width ∣ a + b}.ncard = cycles := by
  have hresidue : ∀ b, width ∣ a + b ↔ b ≡ (width - 1) * a [MOD width] := by
    intro b
    have hzero : a + (width - 1) * a ≡ 0 [MOD width] := by
      rw [Nat.modEq_zero_iff_dvd, Nat.add_comm, ← Nat.succ_mul, Nat.succ_eq_add_one,
        Nat.sub_add_cancel hw]
      exact Nat.dvd_mul_right width a
    rw [← Nat.modEq_zero_iff_dvd]
    constructor
    · intro h
      exact Nat.ModEq.add_left_cancel' a (h.trans hzero.symm)
    · intro h
      exact (h.add_left a).trans hzero
  have hset : {b | b < cycles * width ∧ width ∣ a + b} =
      ↑((Finset.range (cycles * width)).filter fun b => b ≡ (width - 1) * a [MOD width]) := by
    ext b
    simp [hresidue]
  rw [hset, Set.ncard_coe_finset, ← Nat.count_eq_card_filter_range, Nat.count_modEq_card _ hw,
    Nat.mul_div_cancel _ hw, Nat.mul_mod_left, if_neg (Nat.not_lt_zero _), Nat.add_zero]

theorem dvd_add_iff_eq_mod (ha : a < width) (hb : b < width) :
    width ∣ a + b ↔ b = (width - a) % width := by
  rcases Nat.eq_zero_or_pos a with rfl | hpos
  · rw [Nat.zero_add, Nat.sub_zero, Nat.mod_self]
    constructor
    · intro h
      exact Nat.eq_zero_of_dvd_of_lt h hb
    · rintro rfl
      exact Nat.dvd_zero width
  · rw [Nat.mod_eq_of_lt (by omega)]
    constructor
    · intro h
      have hsum := Nat.eq_of_dvd_of_lt_two_mul (by omega) h (by omega)
      omega
    · rintro rfl
      rw [Nat.add_sub_cancel' (Nat.le_of_lt ha)]

/-- Two bitslips delay a stream by two words and both slips; they give the words back
whole exactly when the slips come to whole words, which every first slip admits. -/
theorem bitslip_pair_realigns (hc : 1 ≤ cycles) (hw : 1 ≤ width)
    (hroom : (cycles + 1) * width ≤ 64) (ha : a < cycles * width) :
    (∀ b, b < cycles * width →
      (∀ words, ∃ word, pairOutput width cycles a b words = .ok word ∧ word.cut width = word ∧
        ∀ j, j < width →
          word.getLsbD j = lateBit width (2 * width + a + b) words (words.length * width + j)) ∧
      (width ∣ a + b → ∀ words, Reproduces width cycles a b words (2 + (a + b) / width)) ∧
      (¬ width ∣ a + b → ∃ words, ∀ delay, ¬ Reproduces width cycles a b words delay)) ∧
    {b | b < cycles * width ∧ Realigns width cycles a b}.ncard = cycles ∧
    (cycles = 1 → ∀ b, b < width →
      (Realigns width cycles a b ↔ b = (width - a) % width)) := by
  refine ⟨fun b hb => ⟨pairOutput_ok hc hw hroom ha hb, reproduces_of_dvd hc hw hroom ha hb,
    fun hdvd => ⟨_, not_reproduces_ones hc hw hroom ha hb hdvd⟩⟩, ?_, ?_⟩
  · have hset : {b | b < cycles * width ∧ Realigns width cycles a b} =
        {b | b < cycles * width ∧ width ∣ a + b} := by
      ext b
      exact and_congr_right fun hb => realigns_iff hc hw hroom ha hb
    rw [hset, ncard_dvd_add hw]
  · rintro rfl b hb
    rw [Nat.one_mul] at ha
    rw [realigns_iff hc hw hroom (by omega) (by omega), dvd_add_iff_eq_mod ha hb]

theorem slip_five_realigned_by_eleven : Realigns 16 1 5 11 ∧ ¬ Realigns 16 1 5 10 ∧
    pairOutput 16 1 5 11 [0xbeef, 0x1234, 0x5678, 0x9abc] = .ok 0x1234 := by
  obtain ⟨hpairs, -, hone⟩ := bitslip_pair_realigns (show 1 ≤ 1 by decide) (show 1 ≤ 16 by decide)
    (by decide) (show 5 < 1 * 16 by decide)
  refine ⟨(hone rfl 11 (by decide)).mpr (by decide), fun h => ?_, ?_⟩
  · exact absurd ((hone rfl 10 (by decide)).mp h) (by decide)
  · obtain ⟨-, hwhole, -⟩ := hpairs 11 (by decide)
    exact hwhole (by decide) (fun t => [0xbeef, 0x1234, 0x5678, 0x9abc][t]?.getD 0) 1

end DramPhy
