import DramPhy.Proofs.HalfRate.SerdesHistory
import Mathlib.Data.List.Induction

/-! A serializer and a deserializer one behind the other. Either way round nothing is lost:
words that are split are joined again, and halves that are joined are split again, three
steps later. -/

namespace DramPhy

structure SerdesLink where
  serializer : Serializer
  deserializer : Deserializer

def SerdesLink.make (width : Nat) (high : Bool) : Checked SerdesLink := do
  let serializer ← Serializer.make width high
  let deserializer ← Deserializer.make width high
  return ⟨serializer, deserializer⟩

/-- The halves that are sent are received in the same step. -/
def SerdesLink.send (l : SerdesLink) (word : Word) : Checked SerdesLink := do
  let halves ← l.serializer.output
  let deserializer ← l.deserializer.tick halves
  return ⟨l.serializer.tick word, deserializer⟩

/-- The word that is received is sent on in the next step. -/
def SerdesLink.relay (l : SerdesLink) (halves : Halves Word) : Checked SerdesLink := do
  let word ← l.deserializer.output
  let deserializer ← l.deserializer.tick halves
  return ⟨l.serializer.tick word, deserializer⟩

/-- What the deserializer gives in step `t` of a run that sends words. -/
def SerdesLink.wordAt (l : SerdesLink) (words : List Word) (t : Nat) : Checked Word := do
  let m ← (words.take t).foldlM SerdesLink.send l
  m.deserializer.output

/-- What the serializer gives in step `t` of a run that relays halves. -/
def SerdesLink.halvesAt (l : SerdesLink) (samples : List (Halves Word)) (t : Nat) :
    Checked (Halves Word) := do
  let m ← (samples.take t).foldlM SerdesLink.relay l
  m.serializer.output

/-- The serializer holds the last word, and what the deserializer holds is one older. -/
structure SerdesLink.Sent (l : SerdesLink) (width : Nat) (high : Bool) (words : List Word) :
    Prop where
  serializer : l.serializer =
    ⟨width, ago (resetFill (2 * width) high) (words.map (·.cut (2 * width))) 0⟩
  deserializer : ∃ samples, l.deserializer = Deserializer.fed width high samples ∧
    ∀ k, ago (resetFill (2 * width) high) (samples.map (·.join width)) k =
      ago (resetFill (2 * width) high) (words.map (·.cut (2 * width))) (k + 1)

/-- The deserializer holds the last samples, and what the serializer holds is two older. -/
structure SerdesLink.Relayed (l : SerdesLink) (width : Nat) (high : Bool)
    (samples : List (Halves Word)) : Prop where
  serializer : l.serializer =
    ⟨width, ago (resetFill (2 * width) high) (samples.map (·.join width)) 2⟩
  deserializer : l.deserializer = Deserializer.fed width high samples

variable {l : SerdesLink} {width t : Nat} {high : Bool} {words : List Word}
  {samples : List (Halves Word)}

theorem ago_cut (n : Nat) {rest : Word} {xs : List Word} (hrest : rest.cut n = rest)
    (h : ∀ x ∈ xs, x.cut n = x) (k : Nat) : (ago rest xs k).cut n = ago rest xs k := by
  rw [ago]
  cases hk : xs.reverse[k]? with
  | none => exact hrest
  | some x => exact h x (List.mem_reverse.mp (List.mem_of_getElem? hk))

/-- No bit of a half gets into the other. -/
theorem Halves.halves_join (halves : Halves Word) (h : 2 * width ≤ 64) :
    (halves.join width).halves width = ⟨halves.first.cut width, halves.second.cut width⟩ := by
  have hbit : ∀ i, (halves.join width).getLsbD i = (halves.first.getLsbD i && decide (i < width) ||
      decide (i < 64) && !decide (i < width) &&
        (halves.second.getLsbD (i - width) && decide (i - width < width))) := by
    intro i
    rw [Halves.join, BitVec.getLsbD_or, BitVec.getLsbD_shiftLeft, Word.getLsbD_cut, Word.getLsbD_cut]
  rw [Word.halves, Halves.mk.injEq]
  constructor <;> apply BitVec.eq_of_getLsbD_eq <;> intro i _
  · rw [Word.getLsbD_cut, hbit, Word.getLsbD_cut]
    by_cases hi : i < width <;> simp [hi]
  · rw [Word.getLsbD_cut, BitVec.getLsbD_ushiftRight, hbit, Word.getLsbD_cut,
      Nat.add_sub_cancel_left]
    by_cases hi : i < width
    · simp [hi, show width + i < 64 by omega, show ¬ width + i < width by omega]
    · simp [hi]

theorem resetFill_eq_join (width : Nat) (high : Bool) :
    resetFill (2 * width) high =
      Halves.join ⟨resetFill width high, resetFill width high⟩ width := by
  apply BitVec.eq_of_getLsbD_eq
  intro i hi
  rw [Halves.join, resetFill_cut, BitVec.getLsbD_or, BitVec.getLsbD_shiftLeft]
  cases high with
  | false => simp [resetFill]
  | true =>
    simp only [resetFill, if_true, getLsbD_lowMask]
    by_cases hlow : i < width
    · simp [hi, hlow, show i < 2 * width by omega]
    · simp [hi, hlow, show i - width < 64 by omega, show i - width < width ↔ i < 2 * width by omega]

theorem resetFill_halves (h : 2 * width ≤ 64) (high : Bool) :
    (resetFill (2 * width) high).halves width = ⟨resetFill width high, resetFill width high⟩ := by
  rw [resetFill_eq_join, Halves.halves_join _ h, resetFill_cut]

theorem SerdesLink.make_ok (h : 2 * width ≤ 64) (high : Bool) :
    ∃ l, SerdesLink.make width high = .ok l ∧ l.Sent width high [] ∧ l.Relayed width high [] := by
  refine ⟨⟨⟨width, resetFill (2 * width) high⟩, Deserializer.fed width high []⟩, ?_,
    ⟨rfl, [], rfl, fun _ => rfl⟩, ⟨rfl, rfl⟩⟩
  rw [SerdesLink.make, Serializer.make_ok h, ok_bind, Deserializer.make_ok h]
  rfl

theorem SerdesLink.Sent.send (hl : l.Sent width high words) (h : 2 * width ≤ 64) (word : Word) :
    ∃ m, l.send word = .ok m ∧ m.Sent width high (words ++ [word]) := by
  obtain ⟨samples, hfed, hlate⟩ := hl.deserializer
  obtain ⟨held, hheld⟩ : ∃ held,
      held = ago (resetFill (2 * width) high) (words.map (·.cut (2 * width))) 0 := ⟨_, rfl⟩
  have hwhole : held.cut (2 * width) = held := by
    rw [hheld]
    exact ago_cut _ (resetFill_cut _ high) (by simp [Word.cut_cut]) 0
  have hsend : l.send word = .ok
      ⟨⟨width, word.cut (2 * width)⟩, Deserializer.fed width high (samples ++ [held.halves width])⟩ := by
    rw [SerdesLink.send, hl.serializer, ← hheld, Serializer.output_ok (by omega), ok_bind, hfed,
      Deserializer.fed_tick (by omega)]
    rfl
  refine ⟨_, hsend, by simp [ago], _, rfl, fun k => ?_⟩
  rw [List.map_append, List.map_append, List.map_singleton, List.map_singleton, ago_append_succ]
  -- the halves that arrive are those of the word that was held before this one
  cases k with
  | zero => rw [Halves.join_halves hwhole, ago_append, hheld]
  | succ k => rw [ago_append_succ, hlate]

theorem SerdesLink.Relayed.relay (hl : l.Relayed width high samples) (h : 2 * width ≤ 64)
    (halves : Halves Word) :
    ∃ m, l.relay halves = .ok m ∧ m.Relayed width high (samples ++ [halves]) := by
  obtain ⟨word, hword⟩ : ∃ word,
      word = ago (resetFill (2 * width) high) (samples.map (·.join width)) 1 := ⟨_, rfl⟩
  have hwhole : word.cut (2 * width) = word := by
    rw [hword]
    exact ago_cut _ (resetFill_cut _ high) (by simp [Halves.join_cut]) 1
  have hrelay : l.relay halves = .ok
      ⟨⟨width, word⟩, Deserializer.fed width high (samples ++ [halves])⟩ := by
    rw [SerdesLink.relay, hl.deserializer, Deserializer.fed_output, ok_bind,
      Deserializer.fed_tick (by omega), ok_bind, hl.serializer, ← hword, Serializer.tick, hwhole]
    rfl
  refine ⟨_, hrelay, ?_, rfl⟩
  rw [List.map_append, List.map_singleton, ago_append_succ, hword]

theorem SerdesLink.Sent.run (hl : l.Sent width high []) (h : 2 * width ≤ 64) (words : List Word) :
    ∃ m, words.foldlM SerdesLink.send l = .ok m ∧ m.Sent width high words := by
  induction words using List.reverseRecOn with
  | nil => exact ⟨l, rfl, hl⟩
  | append_singleton words word ih =>
    obtain ⟨m, hm, hsent⟩ := ih
    obtain ⟨n, hn, hnext⟩ := hsent.send h word
    exact ⟨n, by rw [List.foldlM_append, hm, ok_bind, List.foldlM_cons, hn]; rfl, hnext⟩

theorem SerdesLink.Relayed.run (hl : l.Relayed width high []) (h : 2 * width ≤ 64)
    (samples : List (Halves Word)) :
    ∃ m, samples.foldlM SerdesLink.relay l = .ok m ∧ m.Relayed width high samples := by
  induction samples using List.reverseRecOn with
  | nil => exact ⟨l, rfl, hl⟩
  | append_singleton samples halves ih =>
    obtain ⟨m, hm, hrelayed⟩ := ih
    obtain ⟨n, hn, hnext⟩ := hrelayed.relay h halves
    exact ⟨n, by rw [List.foldlM_append, hm, ok_bind, List.foldlM_cons, hn]; rfl, hnext⟩

theorem SerdesLink.Sent.wordAt (hl : l.Sent width high []) (h : 2 * width ≤ 64)
    (ht : t ≤ words.length) : l.wordAt words t = .ok
      (if 2 < t then (words.map (·.cut (2 * width)))[t - 3]?.getD (resetFill (2 * width) high)
        else resetFill (2 * width) high) := by
  obtain ⟨m, hm, hsent⟩ := hl.run h (words.take t)
  obtain ⟨samples, hfed, hlate⟩ := hsent.deserializer
  rw [SerdesLink.wordAt, hm, ok_bind, hfed, Deserializer.fed_output, hlate, List.map_take,
    ago_take (by rwa [List.length_map]), Nat.sub_sub]

theorem SerdesLink.Relayed.halvesAt (hl : l.Relayed width high []) (h : 2 * width ≤ 64)
    (ht : t ≤ samples.length) : l.halvesAt samples t = .ok
      ((if 2 < t then (samples.map (·.join width))[t - 3]?.getD (resetFill (2 * width) high)
        else resetFill (2 * width) high).halves width) := by
  obtain ⟨m, hm, hrelayed⟩ := hl.run h (samples.take t)
  rw [SerdesLink.halvesAt, hm, ok_bind, hrelayed.serializer, Serializer.output_ok (by omega),
    List.map_take, ago_take (by rwa [List.length_map]), Nat.sub_sub]

/-- What is sent comes out three steps later, whole and in order, and what was never sent is
the reset value. -/
theorem serdes_inverts (h : 2 * width ≤ 64) (high : Bool) :
    ∃ link, SerdesLink.make width high = .ok link ∧
      (∀ (words : List Word) (t : Nat), t ≤ words.length → t < 3 →
        link.wordAt words t = .ok (resetFill (2 * width) high)) ∧
      (∀ (words : List Word) (t : Nat) (word : Word), t + 3 ≤ words.length →
        words[t]? = some word → link.wordAt words (t + 3) = .ok (word.cut (2 * width))) ∧
      (∀ (samples : List (Halves Word)) (t : Nat), t ≤ samples.length → t < 3 →
        link.halvesAt samples t = .ok ⟨resetFill width high, resetFill width high⟩) ∧
      ∀ (samples : List (Halves Word)) (t : Nat) (halves : Halves Word),
        t + 3 ≤ samples.length → samples[t]? = some halves →
        link.halvesAt samples (t + 3) = .ok ⟨halves.first.cut width, halves.second.cut width⟩ := by
  obtain ⟨link, hmake, hsent, hrelayed⟩ := SerdesLink.make_ok h high
  refine ⟨link, hmake, fun words t ht hearly => ?_, fun words t word ht hword => ?_,
    fun samples t ht hearly => ?_, fun samples t halves ht hhalves => ?_⟩
  · rw [hsent.wordAt h ht, if_neg (by omega)]
  · rw [hsent.wordAt h ht, if_pos (by omega), Nat.add_sub_cancel, List.getElem?_map, hword]
    rfl
  · rw [hrelayed.halvesAt h ht, if_neg (by omega), resetFill_halves h]
  · rw [hrelayed.halvesAt h ht, if_pos (by omega), Nat.add_sub_cancel, List.getElem?_map, hhalves,
      Option.map_some, Option.getD_some, Halves.halves_join _ h]

theorem whole_words_inverted : 2 * 32 ≤ 64 ∧ ∃ link, SerdesLink.make 32 true = .ok link ∧
    link.wordAt [0xffffffff00000001, 0, 0] 2 = .ok 0xffffffffffffffff ∧
    link.wordAt [0xffffffff00000001, 0, 0] 3 = .ok 0xffffffff00000001 ∧
    link.halvesAt [⟨0x1ffffffff, 0x100000002⟩, ⟨0, 0⟩, ⟨0, 0⟩] 3 = .ok ⟨0xffffffff, 2⟩ := by
  obtain ⟨link, hmake, hrest, hword, -, hhalves⟩ := serdes_inverts (show 2 * 32 ≤ 64 by decide) true
  refine ⟨by decide, link, hmake, ?_, ?_, ?_⟩
  · exact hrest [_, _, _] 2 (by simp) (by decide)
  · exact hword [_, _, _] 0 _ (by simp) rfl
  · exact hhalves [_, _, _] 0 _ (by simp) rfl

end DramPhy
