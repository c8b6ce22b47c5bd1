import DramPhy.Phy.LaneBank
import DramPhy.Proofs.ResetHistory

/-! The bitslips of a bank of lanes after any inputs and any calibration. A lane
recalls the words that it was given since its byte was last reset. -/

namespace DramPhy

theorem laneSlip_make : BitSlip.make laneBits slipCycles = .ok ⟨laneBits, 1, 0, 0⟩ :=
  BitSlip.make_ok (by decide) (by decide) (by decide)

structure LaneBank.Follows (bank : LaneBank) (bytes : List Nat) (words : Nat → List Word) : Prop where
  bytes_eq : bank.lanes.map (·.byte) = bytes
  carries : ∀ (k : Nat) (lane : ByteSlip), bank.lanes[k]? = some lane → lane.slip.Carries laneBits (words k)
  uniform : ∀ lane ∈ bank.lanes, ∀ other ∈ bank.lanes, lane.byte = other.byte →
    lane.slip.slip = other.slip.slip

def LaneBank.windows (bank : LaneBank) : List Word := bank.lanes.map (·.slip.window)

def LaneBank.next (bank : LaneBank) (moved : Nat → SlipMove) (inputs : List Word) : LaneBank :=
  ⟨(bank.lanes.zip inputs).map fun x => ⟨x.1.byte,
    x.1.slip.next x.2 (moved x.1.byte).reset (moved x.1.byte).advance⟩⟩

variable {bank : LaneBank} {bytes : List Nat} {words words' : Nat → List Word}
  {move : Nat → Checked SlipMove} {moved : Nat → SlipMove} {inputs : List Word}

theorem LaneBank.make_eq (bytes : List Nat) : LaneBank.make bytes =
    .ok ⟨bytes.map fun byte => ⟨byte, ⟨laneBits, 1, 0, 0⟩⟩⟩ := by
  have hlane : ∀ byte ∈ bytes, (do
      let slip ← BitSlip.make laneBits slipCycles
      return ByteSlip.mk byte slip) = Except.ok (ε := Fault) ⟨byte, ⟨laneBits, 1, 0, 0⟩⟩ := by
    intro byte _
    rw [laneSlip_make]
    rfl
  rw [LaneBank.make, mapM_ok hlane]
  rfl

theorem LaneBank.make_follows (bytes : List Nat) :
    ∃ bank, LaneBank.make bytes = .ok bank ∧ bank.Follows bytes fun _ => [] := by
  refine ⟨_, LaneBank.make_eq bytes, by simp [Function.comp_def], ?_, ?_⟩
  · intro k lane hk
    simp only [List.getElem?_map, Option.map_eq_some_iff] at hk
    obtain ⟨byte, -, rfl⟩ := hk
    exact BitSlip.carries_nil (by decide) (by decide)
  · intro lane hl other ho _
    obtain ⟨_, -, rfl⟩ := List.mem_map.mp hl
    obtain ⟨_, -, rfl⟩ := List.mem_map.mp ho
    rfl

section

variable (h : bank.Follows bytes words)

include h

theorem LaneBank.Follows.length_eq : bank.lanes.length = bytes.length := by
  rw [← h.bytes_eq, List.length_map]

theorem LaneBank.Follows.byte_eq {k : Nat} {lane : ByteSlip} (hk : bank.lanes[k]? = some lane) :
    bytes[k]? = some lane.byte := by
  rw [← h.bytes_eq, List.getElem?_map, hk, Option.map_some]

theorem LaneBank.Follows.exists_lane {k byte : Nat} (hbyte : bytes[k]? = some byte) :
    ∃ lane, bank.lanes[k]? = some lane ∧ lane.byte = byte := by
  obtain ⟨lane, hlane⟩ : ∃ lane, bank.lanes[k]? = some lane :=
    ⟨_, List.getElem?_eq_getElem (by
      rw [h.length_eq]
      exact (List.getElem?_eq_some_iff.mp hbyte).1)⟩
  refine ⟨lane, hlane, ?_⟩
  rw [h.byte_eq hlane, Option.some.injEq] at hbyte
  exact hbyte

theorem LaneBank.Follows.windows_length : bank.windows.length = bytes.length := by
  rw [LaneBank.windows, List.length_map, h.length_eq]

theorem LaneBank.Follows.windows_cut {word : Word} (hm : word ∈ bank.windows) :
    word.cut laneBits = word := by
  obtain ⟨own, hown, rfl⟩ := List.mem_map.mp hm
  obtain ⟨k, hk⟩ := List.mem_iff_getElem?.mp hown
  exact (h.carries k own hk).window_cut

theorem LaneBank.Follows.range_eq {lane : ByteSlip} (hl : lane ∈ bank.lanes) :
    lane.slip.range = laneBits := by
  obtain ⟨k, hk⟩ := List.mem_iff_getElem?.mp hl
  exact (h.carries k lane hk).range_eq

theorem LaneBank.Follows.words_ok : bank.words = .ok bank.windows := by
  refine mapM_ok fun lane hm => ?_
  obtain ⟨k, hk⟩ := List.mem_iff_getElem?.mp hm
  exact BitSlip.output_ok (h.carries k lane hk).fits

theorem LaneBank.Follows.tick_ok (hmove : ∀ byte ∈ bytes, move byte = .ok (moved byte))
    (inputs : List Word) : bank.tick move inputs = .ok (bank.next moved inputs) := by
  have hlane : ∀ x ∈ bank.lanes.zip inputs, x.1.tick move x.2 = .ok ⟨x.1.byte,
      x.1.slip.next x.2 (moved x.1.byte).reset (moved x.1.byte).advance⟩ := by
    intro x hx
    obtain ⟨k, hk⟩ := List.mem_iff_getElem?.mp (List.of_mem_zip hx).1
    have hbyte := List.mem_of_getElem? (h.byte_eq hk)
    rw [ByteSlip.tick, hmove _ hbyte, ok_bind, BitSlip.tick_ok (h.carries k x.1 hk).fits]
    rfl
  rw [LaneBank.tick, mapM_ok hlane]
  rfl

theorem LaneBank.Follows.next (hl : bytes.length ≤ inputs.length)
    (hwords : ∀ k byte input, bytes[k]? = some byte → inputs[k]? = some input →
      words' k = remembered (moved byte).reset (words k) ++ [input]) :
    (bank.next moved inputs).Follows bytes words' := by
  refine ⟨?_, ?_, ?_⟩
  · have hzip : (bank.lanes.zip inputs).map Prod.fst = bank.lanes :=
      List.map_fst_zip (by rwa [h.length_eq])
    rw [LaneBank.next, List.map_map, ← h.bytes_eq]
    conv_rhs => rw [← hzip, List.map_map]
    rfl
  · intro k lane hk
    simp only [LaneBank.next, List.getElem?_map, Option.map_eq_some_iff] at hk
    obtain ⟨⟨before, input⟩, hx, rfl⟩ := hk
    rw [List.getElem?_zip_eq_some] at hx
    rw [hwords k before.byte input (h.byte_eq hx.1) hx.2]
    exact (h.carries k before hx.1).next input _ _
  · intro lane hl other ho hbyte
    obtain ⟨⟨before, input⟩, hx, rfl⟩ := List.mem_map.mp hl
    obtain ⟨⟨before', input'⟩, hx', rfl⟩ := List.mem_map.mp ho
    have hm := (List.of_mem_zip hx).1
    have hm' := (List.of_mem_zip hx').1
    have hslip := h.uniform before hm before' hm' hbyte
    have hrange := h.range_eq hm
    have hrange' := h.range_eq hm'
    simp only at hbyte
    simp only [BitSlip.next, hbyte, hslip, hrange, hrange']

end

end DramPhy
