import DramPhy.BitSlip
import DramPhy.Proofs.Success
import DramPhy.Proofs.WordBits

/-! A bitslip as a window on the serial stream of its input words. The register
holds the newest words of the stream and the output is the stream, late by the
width and the slip; a reset makes the older words low. -/

namespace DramPhy

/-- Bit `pos` of the words sent one after the other, `width` bits of each. -/
def streamBit (width : Nat) (words : List Word) (pos : Nat) : Bool :=
  words[pos / width]?.any (·.getLsbD (pos % width))

theorem streamBit_append_left {width pos : Nat} {words : List Word} (more : List Word)
    (h : pos < words.length * width) :
    streamBit width (words ++ more) pos = streamBit width words pos := by
  rw [streamBit, streamBit, List.getElem?_append_left (Nat.div_lt_of_lt_mul (by rwa [Nat.mul_comm]))]

theorem streamBit_drop {width : Nat} (hw : 0 < width) (words : List Word) (n pos : Nat) :
    streamBit width (words.drop n) pos = streamBit width words (n * width + pos) := by
  have hd : (n * width + pos) / width = n + pos / width := by
    rw [Nat.add_comm, Nat.add_mul_div_right _ _ hw, Nat.add_comm]
  have hm : (n * width + pos) % width = pos % width := by
    rw [Nat.add_comm, Nat.add_mul_mod_self_right]
  rw [streamBit, streamBit, List.getElem?_drop, hd, hm]

theorem streamBit_append_right {width : Nat} (hw : 0 < width) (words more : List Word) (pos : Nat) :
    streamBit width (words ++ more) (words.length * width + pos) = streamBit width more pos := by
  rw [← streamBit_drop hw, List.drop_left]

theorem streamBit_getElem? {width u j : Nat} {words : List Word} {word : Word}
    (hword : words[u]? = some word) (hj : j < width) :
    streamBit width words (u * width + j) = word.getLsbD j := by
  rw [← streamBit_drop (Nat.zero_lt_of_lt hj), streamBit, Nat.div_eq_of_lt hj, Nat.mod_eq_of_lt hj,
    List.getElem?_drop, Nat.add_zero, hword, Option.any_some]

theorem streamBit_append_last {width i : Nat} (words : List Word) (word : Word) (h : i < width) :
    streamBit width (words ++ [word]) (words.length * width + i) = word.getLsbD i :=
  streamBit_getElem? List.getElem?_concat_length h

theorem streamBit_lt {width pos : Nat} {words : List Word} (hw : 0 < width)
    (h : streamBit width words pos = true) : pos < words.length * width := by
  by_contra hge
  have hnone : words[pos / width]? = none :=
    List.getElem?_eq_none ((Nat.le_div_iff_mul_le hw).mpr (Nat.le_of_not_lt hge))
  rw [streamBit, hnone] at h
  contradiction

/-- Bit `pos` of a stream that comes `delay` bits late, low before it begins. -/
def lateBit (width delay : Nat) (words : List Word) (pos : Nat) : Bool :=
  decide (delay ≤ pos) && streamBit width words (pos - delay)

structure BitSlip.Fits (s : BitSlip) : Prop where
  cycles_pos : 1 ≤ s.cycles
  width_pos : 1 ≤ s.width
  room : s.range + s.width ≤ 64
  slip_lt : s.slip < s.range

theorem BitSlip.make_ok {width cycles : Nat} (hc : 1 ≤ cycles) (hw : 1 ≤ width)
    (h : (cycles + 1) * width ≤ 64) : BitSlip.make width cycles = .ok ⟨width, cycles, 0, 0⟩ := by
  have hle : cycles + 1 ≤ (cycles + 1) * width := Nat.le_mul_of_pos_right _ hw
  have hsum : Count.add cycles 1 = .ok (cycles + 1) :=
    Count.add_eq_ok.mpr ⟨by simp only [Count.limit]; omega, rfl⟩
  have hbits : Count.mul (cycles + 1) width = .ok ((cycles + 1) * width) :=
    Count.mul_eq_ok.mpr ⟨by simp only [Count.limit]; omega, rfl⟩
  simp only [BitSlip.make, require, hc, if_true, ok_bind, hsum, hbits, hw, h, and_self]
  rfl

theorem BitSlip.fixed_ok {width cycles slip : Nat} (hc : 1 ≤ cycles) (hw : 1 ≤ width)
    (h : (cycles + 1) * width ≤ 64) (hs : slip < cycles * width) :
    BitSlip.fixed width cycles slip = .ok ⟨width, cycles, slip, 0⟩ := by
  simp only [BitSlip.fixed, BitSlip.make_ok hc hw h, ok_bind, BitSlip.setSlip, BitSlip.range,
    require, hs, if_true]
  rfl

theorem BitSlip.fits_mk {width cycles slip : Nat} (history : Word) (hc : 1 ≤ cycles)
    (hw : 1 ≤ width) (h : (cycles + 1) * width ≤ 64) (hs : slip < cycles * width) :
    BitSlip.Fits ⟨width, cycles, slip, history⟩ :=
  ⟨hc, hw, by simpa [BitSlip.range, Nat.succ_mul] using h, hs⟩

section

variable {s t : BitSlip}

theorem BitSlip.Fits.range_lt (h : s.Fits) : s.range < 64 := by
  have := h.room
  have := h.width_pos
  omega

theorem BitSlip.Fits.width_le_range (h : s.Fits) : s.width ≤ s.range :=
  Nat.le_mul_of_pos_left _ h.cycles_pos

theorem BitSlip.Fits.width_lt (h : s.Fits) : s.width < 64 :=
  Nat.lt_of_le_of_lt h.width_le_range h.range_lt

def BitSlip.window (s : BitSlip) : Word := Word.cut (s.history >>> (s.range - s.slip)) s.width

theorem BitSlip.output_ok (h : s.Fits) : s.output = .ok s.window := by
  have hd : Count.sub s.range s.slip = .ok (s.range - s.slip) :=
    Count.sub_eq_ok.mpr ⟨Nat.le_of_lt h.slip_lt, rfl⟩
  have hr := h.range_lt
  simp only [BitSlip.output, hd, ok_bind, Word.shiftDown_of_lt (show s.range - s.slip < 64 by omega)]
  rfl

theorem BitSlip.nextSlip_ok (h : s.Fits) (advance : Bool) :
    s.nextSlip advance = .ok (if advance then (s.slip + 1) % s.range else s.slip) := by
  have hs := h.slip_lt
  have hr := h.range_lt
  have ha : Count.add s.slip 1 = .ok (s.slip + 1) :=
    Count.add_eq_ok.mpr ⟨by simp only [Count.limit]; omega, rfl⟩
  cases advance
  · rfl
  · simp only [BitSlip.nextSlip, if_true, ha, ok_bind]
    exact Count.rem_eq_ok.mpr ⟨by omega, rfl⟩

def BitSlip.next (s : BitSlip) (input : Word) (reset advance : Bool) : BitSlip where
  width := s.width
  cycles := s.cycles
  slip := if reset then 0 else if advance then (s.slip + 1) % s.range else s.slip
  history := (if reset then 0 else s.history >>> s.width) ||| input.cut s.width <<< s.range

theorem BitSlip.tick_ok (h : s.Fits) (input : Word) (reset advance : Bool) :
    s.tick input reset advance = .ok (s.next input reset advance) := by
  simp only [BitSlip.tick, Word.shiftDown_of_lt h.width_lt, Word.shiftUp_of_lt h.range_lt, ok_bind,
    BitSlip.nextSlip_ok h]
  cases reset <;> simp [BitSlip.next] <;> rfl

theorem BitSlip.Fits.next (h : s.Fits) (input : Word) (reset advance : Bool) :
    (s.next input reset advance).Fits := by
  have hs := h.slip_lt
  refine ⟨h.cycles_pos, h.width_pos, h.room, ?_⟩
  change (if reset then 0 else if advance then (s.slip + 1) % s.range else s.slip) < s.range
  split_ifs
  · omega
  · exact Nat.mod_lt _ (by omega)
  · exact hs

/-- The register holds the end of a stream, the newest bit on top. -/
def BitSlip.Recalls (s : BitSlip) (words : List Word) : Prop :=
  ∀ i, s.history.getLsbD i = true ↔ i < s.range + s.width ∧
    ∃ pos, pos + (s.range + s.width) = words.length * s.width + i ∧
      streamBit s.width words pos = true

theorem BitSlip.recalls_nil (h : s.history = 0) : s.Recalls [] := by
  intro i
  simp [h, streamBit]

def remembered (reset : Bool) (words : List Word) : List Word :=
  if reset then words.map fun _ => 0 else words

theorem remembered_length (reset : Bool) (words : List Word) :
    (remembered reset words).length = words.length := by
  cases reset <;> simp [remembered]

theorem streamBit_remembered (reset : Bool) (width pos : Nat) (words : List Word) :
    streamBit width (remembered reset words) pos = (!reset && streamBit width words pos) := by
  cases reset
  · simp [remembered]
  · simp only [remembered, streamBit, if_true, List.getElem?_map]
    cases words[pos / width]? <;> simp

theorem BitSlip.next_getLsbD (h : s.Fits) (input : Word) (reset advance : Bool) (i : Nat) :
    (s.next input reset advance).history.getLsbD i =
      (!reset && s.history.getLsbD (s.width + i) ||
        decide (s.range ≤ i ∧ i < s.range + s.width) && input.getLsbD (i - s.range)) := by
  have hroom := h.room
  have hnew : (input.cut s.width <<< s.range).getLsbD i =
      (decide (s.range ≤ i ∧ i < s.range + s.width) && input.getLsbD (i - s.range)) := by
    rw [BitVec.getLsbD_shiftLeft, Word.getLsbD_cut]
    by_cases hlo : i < s.range
    · simp [hlo, show ¬ s.range ≤ i by omega]
    · by_cases hhi : i < s.range + s.width
      · simp [hlo, hhi, show i < 64 by omega, show i - s.range < s.width by omega, show s.range ≤ i by omega]
      · simp [hlo, hhi, show ¬ i - s.range < s.width by omega]
  cases reset <;> simp [BitSlip.next, hnew]

theorem BitSlip.Recalls.next {words : List Word} (h : s.Recalls words) (hf : s.Fits) (input : Word)
    (reset advance : Bool) :
    (s.next input reset advance).Recalls (remembered reset words ++ [input]) := by
  intro i
  change _ ↔ i < s.range + s.width ∧
    ∃ pos, pos + (s.range + s.width) = (remembered reset words ++ [input]).length * s.width + i ∧
      streamBit s.width (remembered reset words ++ [input]) pos = true
  have hlen : (remembered reset words).length * s.width = words.length * s.width := by
    rw [remembered_length]
  have hold := h (s.width + i)
  rw [BitSlip.next_getLsbD hf, List.length_append, List.length_singleton, Nat.succ_mul, hlen]
  rcases Nat.lt_or_ge i s.range with hi | hi
  · -- an older bit: before the tick it stood one word higher
    have hbit : ∀ pos, pos + (s.range + s.width) = words.length * s.width + s.width + i →
        streamBit s.width (remembered reset words ++ [input]) pos =
          (!reset && streamBit s.width words pos) := by
      intro pos hp
      rw [streamBit_append_left _ (by rw [hlen]; omega), streamBit_remembered]
    constructor
    · intro hb
      have hb' : reset = false ∧ s.history.getLsbD (s.width + i) = true := by
        simpa [show ¬ s.range ≤ i by omega] using hb
      obtain ⟨-, pos, hp, hs⟩ := hold.mp hb'.2
      refine ⟨by omega, pos, by omega, ?_⟩
      rw [hbit pos (by omega)]
      simp [hb'.1, hs]
    · rintro ⟨-, pos, hp, hs⟩
      have hs' : reset = false ∧ streamBit s.width words pos = true := by simpa [hbit pos hp] using hs
      simp [hs'.1, hold.mpr ⟨by omega, pos, by omega, hs'.2⟩]
  · -- a bit of the word taken in
    have hgone : s.history.getLsbD (s.width + i) = false := by
      by_contra hb
      have := (hold.mp (by simpa using hb)).1
      omega
    have hbit : i < s.range + s.width →
        streamBit s.width (remembered reset words ++ [input])
          (words.length * s.width + (i - s.range)) = input.getLsbD (i - s.range) := by
      intro hi'
      rw [← hlen]
      exact streamBit_append_last _ _ (by omega)
    constructor
    · intro hb
      have hb' : i < s.range + s.width ∧ input.getLsbD (i - s.range) = true := by
        simpa [hgone, hi] using hb
      exact ⟨hb'.1, words.length * s.width + (i - s.range), by omega, by rw [hbit hb'.1, hb'.2]⟩
    · rintro ⟨hi', pos, hp, hs⟩
      rw [show pos = words.length * s.width + (i - s.range) by omega, hbit hi'] at hs
      simp [hgone, hi, hi', hs]

/-- The output is the stream, `width + slip` bits late. -/
theorem BitSlip.window_getLsbD {words : List Word} (h : s.Recalls words) (hf : s.Fits) (j : Nat) :
    s.window.getLsbD j = true ↔ j < s.width ∧
      ∃ pos, pos + (s.width + s.slip) = words.length * s.width + j ∧
        streamBit s.width words pos = true := by
  have hs := hf.slip_lt
  rw [BitSlip.window, Word.getLsbD_cut, BitVec.getLsbD_ushiftRight, Bool.and_eq_true,
    decide_eq_true_eq, h]
  constructor
  · rintro ⟨⟨-, pos, hp, hb⟩, hj⟩
    exact ⟨hj, pos, by omega, hb⟩
  · rintro ⟨hj, pos, hp, hb⟩
    exact ⟨⟨by omega, pos, by omega, hb⟩, hj⟩

theorem BitSlip.window_late {words : List Word} (h : s.Recalls words) (hf : s.Fits) {j : Nat}
    (hj : j < s.width) :
    s.window.getLsbD j = lateBit s.width s.delay words (words.length * s.width + j) := by
  apply Bool.eq_iff_iff.mpr
  rw [BitSlip.window_getLsbD h hf, lateBit, BitSlip.delay, Bool.and_eq_true, decide_eq_true_iff]
  constructor
  · rintro ⟨-, pos, hpos, hbit⟩
    refine ⟨by omega, ?_⟩
    rwa [show words.length * s.width + j - (s.width + s.slip) = pos by omega]
  · rintro ⟨hle, hbit⟩
    exact ⟨hj, _, by omega, hbit⟩

end

/-- A bitslip that holds back one word, after the words it was given. -/
structure BitSlip.Carries (s : BitSlip) (width : Nat) (words : List Word) : Prop where
  width_eq : s.width = width
  cycles_eq : s.cycles = 1
  fits : s.Fits
  recalls : s.Recalls words

section

variable {s : BitSlip} {width slip : Nat} {words : List Word}

theorem BitSlip.carries_nil (hw : 2 * width ≤ 64) (hs : slip < width) :
    BitSlip.Carries ⟨width, 1, slip, 0⟩ width [] :=
  ⟨rfl, rfl, BitSlip.fits_mk 0 (by omega) (by omega) (by omega) (by omega), BitSlip.recalls_nil rfl⟩

theorem BitSlip.Carries.range_eq (h : s.Carries width words) : s.range = width := by
  rw [BitSlip.range, h.cycles_eq, h.width_eq, Nat.one_mul]

theorem BitSlip.Carries.next (h : s.Carries width words) (input : Word) (reset advance : Bool) :
    (s.next input reset advance).Carries width (remembered reset words ++ [input]) :=
  ⟨h.width_eq, h.cycles_eq, h.fits.next input reset advance, h.recalls.next h.fits input reset advance⟩

theorem BitSlip.Carries.history_getLsbD (h : s.Carries width words) (i : Nat) :
    s.history.getLsbD i = true ↔ i < 2 * width ∧
      ∃ pos, pos + 2 * width = words.length * width + i ∧ streamBit width words pos = true := by
  rw [h.recalls i, h.range_eq, h.width_eq, Nat.two_mul]

theorem BitSlip.Carries.window_getLsbD (h : s.Carries width words) (j : Nat) :
    s.window.getLsbD j = true ↔ j < width ∧
      ∃ pos, pos + (width + s.slip) = words.length * width + j ∧
        streamBit width words pos = true := by
  rw [BitSlip.window_getLsbD h.recalls h.fits, h.width_eq]

theorem BitSlip.Carries.window_cut (h : s.Carries width words) : s.window.cut width = s.window :=
  Word.cut_eq_self fun j hj => ((h.window_getLsbD j).mp hj).1

theorem BitSlip.Carries.window_nil (h : s.Carries width []) : s.window = 0 := by
  apply BitVec.eq_of_getLsbD_eq
  intro j _
  rw [show (0 : Word).getLsbD j = false from BitVec.getLsbD_zero]
  apply Bool.eq_false_iff.mpr
  rw [ne_eq, h.window_getLsbD]
  simp [streamBit]

theorem BitSlip.Carries.window_last {word : Word} (h : s.Carries width (words ++ [word]))
    (hs : s.slip = 0) : s.window = word.cut width := by
  apply BitVec.eq_of_getLsbD_eq
  intro j _
  apply Bool.eq_iff_iff.mpr
  rw [h.window_getLsbD, hs, Word.getLsbD_cut, Bool.and_eq_true, decide_eq_true_iff, and_comm]
  refine and_congr_left fun hj => ?_
  rw [← streamBit_append_last words word hj, List.length_append, List.length_singleton,
    Nat.add_one_mul words.length width]
  constructor
  · rintro ⟨pos, hpos, hbit⟩
    rwa [show words.length * width + j = pos by omega]
  · exact fun hbit => ⟨words.length * width + j, by omega, hbit⟩

end

end DramPhy
