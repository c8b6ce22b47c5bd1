import DramPhy.Proofs.Pad.LaneWords
import Mathlib.Data.List.Nodup

/-! The lanes of a bundle as its addresses. Listing, reading, writing and sampling back
agree on which lanes there are; the list is in the order of the lanes, and a write changes
the word of one lane and nothing else. -/

namespace DramPhy

/-- The lanes that are sampled as well as driven. -/
def PadLane.isData : PadLane → Bool
  | dmi _ | dq _ | dqs _ => true
  | clk | cke | odt | resetN | cs | ca _ => false

variable {out out' : PadOutput} {lane : PadLane} {word : Word}

theorem PadLane.ne_of_lt {a b : PadLane} (h : a < b) : a ≠ b := by
  rintro rfl
  rcases h with hkind | ⟨-, hindex⟩
  · exact Nat.lt_irrefl _ hkind
  · exact Nat.lt_irrefl _ hindex

theorem numbered_increasing (lanes : Nat → PadLane) {kind : Nat} (hkind : ∀ i, (lanes i).kind = kind)
    (hindex : ∀ i, (lanes i).index = i) (n : Nat) :
    ((List.range n).map lanes).Pairwise (· < ·) := by
  rw [List.pairwise_map]
  refine List.pairwise_lt_range.imp fun {i j} hij => .inr ⟨?_, ?_⟩
  · rw [hkind, hkind]
  · rwa [hindex, hindex]

theorem increasing_append {lower upper : List PadLane} (hlower : lower.Pairwise (· < ·))
    (hupper : upper.Pairwise (· < ·)) (h : ∀ a ∈ lower, ∀ b ∈ upper, a.kind < b.kind) :
    (lower ++ upper).Pairwise (· < ·) :=
  List.pairwise_append.mpr ⟨hlower, hupper, fun a ha b hb => .inl (h a ha b hb)⟩

theorem dataLanes_increasing (dmi dq dqs : Nat) : (dataLanes dmi dq dqs).Pairwise (· < ·) := by
  have hdmi := numbered_increasing .dmi (fun _ => rfl) (fun _ => rfl) dmi
  have hdq := numbered_increasing .dq (fun _ => rfl) (fun _ => rfl) dq
  have hdqs := numbered_increasing .dqs (fun _ => rfl) (fun _ => rfl) dqs
  refine increasing_append (increasing_append hdmi hdq ?_) hdqs ?_ <;>
    simp +contextual [PadLane.kind, or_imp, forall_and]

theorem PadOutput.lanes_increasing (out : PadOutput) : out.lanes.Pairwise (· < ·) := by
  have hca := numbered_increasing .ca (fun _ => rfl) (fun _ => rfl) caPads
  refine increasing_append (increasing_append (by decide) hca ?_) (dataLanes_increasing _ _ _) ?_ <;>
    simp [dataLanes, PadLane.kind, or_imp, forall_and]

theorem PadOutput.setLane_driven (h : out.setLane lane word = .ok out') : out'.driven = out.driven := by
  cases lane with
  | clk | cke | odt | resetN | cs =>
    obtain rfl := Except.ok.inj h
    rfl
  | ca k =>
    rw [PadOutput.setLane] at h
    split_ifs at h
    obtain rfl := Except.ok.inj h
    rfl
  | dmi k | dq k | dqs k =>
    simp only [PadOutput.setLane, bind_eq_ok, pure_eq_ok] at h
    obtain ⟨_, -, rfl⟩ := h
    rfl

theorem PadInput.loopback_lanes (out : PadOutput) :
    (PadInput.loopback out).lanes = out.lanes.filter PadLane.isData := by
  simp [PadInput.lanes, PadInput.loopback, PadOutput.lanes, dataLanes, readBack, PadLane.isData,
    List.filter_map, Function.comp_def]

theorem PadInput.loopback_lane? (out : PadOutput) (lane : PadLane) :
    (PadInput.loopback out).lane? lane = if lane.isData then
      (out.lane lane).toOption.map fun word => if out.driven lane then word else 0 else none := by
  have hentry : ∀ (words : List Word) (driven : Bool) (k : Nat), (readBack driven words)[k]? =
      (entry words k).toOption.map fun word => if driven then word else 0 := by
    intro words driven k
    rw [readBack, List.getElem?_map, entry]
    cases words[k]? <;> rfl
  cases lane with
  | clk | cke | odt | resetN | cs | ca k => rfl
  | dmi k | dq k | dqs k => exact hentry _ _ _

/-- A bundle is addressed by its lanes: they are listed in order, each can be read and
written on its own, and what is sampled back are the data lanes among them. -/
theorem lanes_are_addresses (out : PadOutput) :
    (out.lanes.Pairwise (· < ·) ∧ out.lanes.Nodup) ∧
    (∀ lane, lane ∈ out.lanes ↔ ∃ word, out.lane lane = .ok word) ∧
    (∀ lane ∈ out.lanes, ∀ word, ∃ out', out.setLane lane word = .ok out' ∧
      out'.lanes = out.lanes ∧ out'.lane lane = .ok word ∧
      (∀ other, other ≠ lane → out'.lane other = out.lane other) ∧ out'.driven = out.driven) ∧
    (PadInput.loopback out).lanes = out.lanes.filter PadLane.isData ∧
    (∀ lane ∈ (PadInput.loopback out).lanes, ∃ word, out.lane lane = .ok word ∧
      (PadInput.loopback out).lane? lane = some (if out.driven lane then word else 0)) ∧
    ∀ lane, lane ∉ (PadInput.loopback out).lanes → (PadInput.loopback out).lane? lane = none := by
  have hincreasing := out.lanes_increasing
  refine ⟨⟨hincreasing, hincreasing.imp PadLane.ne_of_lt⟩, fun _ => PadOutput.mem_lanes,
    fun lane hlane word => ?_, PadInput.loopback_lanes out, fun lane hlane => ?_, fun lane hlane => ?_⟩
  · obtain ⟨out', hset⟩ := PadOutput.setLane_ok hlane word
    refine ⟨out', hset, (PadOutput.setLane_shape hset).1, ?_, fun other hother => ?_,
      PadOutput.setLane_driven hset⟩
    · rw [PadOutput.setLane_lane hset, if_pos rfl]
    · rw [PadOutput.setLane_lane hset, if_neg hother]
  · rw [PadInput.loopback_lanes, List.mem_filter] at hlane
    obtain ⟨word, hword⟩ := PadOutput.mem_lanes.mp hlane.1
    refine ⟨word, hword, ?_⟩
    rw [PadInput.loopback_lane?, if_pos hlane.2, hword]
    rfl
  · rw [PadInput.loopback_lanes, List.mem_filter] at hlane
    rw [PadInput.loopback_lane?]
    by_cases hdata : lane.isData
    · cases hword : out.lane lane with
      | ok word => exact absurd ⟨PadOutput.mem_lanes.mpr ⟨word, hword⟩, hdata⟩ hlane
      | error _ => rw [if_pos hdata]; rfl
    · rw [if_neg hdata]

/-- Three vectors of different lengths, of which only the strobes are driven. -/
def unevenPads : PadOutput :=
  { PadOutput.blank 8 8 with dmi := [1, 2], dq := [3], dqs := [4, 5, 6], dqsOe := true }

theorem uneven_pads_addressed :
    (∃ out, unevenPads.setLane (.dqs 2) 7 = .ok out ∧ out.lane (.dqs 2) = .ok 7 ∧
      out.lane (.dq 0) = .ok 3 ∧ out.driven (.dqs 2) = true) ∧
    (PadInput.loopback unevenPads).lane? (.dqs 2) = some 6 ∧
    (PadInput.loopback unevenPads).lane? (.dmi 1) = some 0 ∧
    (PadInput.loopback unevenPads).lane? (.dq 1) = none := by
  obtain ⟨-, -, hwrite, -, hread, hnone⟩ := lanes_are_addresses unevenPads
  obtain ⟨out, hset, -, hword, hother, hdriven⟩ := hwrite (.dqs 2) (by decide) 7
  obtain ⟨strobe, hstrobe, hshown⟩ := hread (.dqs 2) (by decide)
  obtain ⟨mask, hmask, hhidden⟩ := hread (.dmi 1) (by decide)
  obtain rfl : 6 = strobe := Except.ok.inj hstrobe
  exact ⟨⟨out, hset, hword, hother (.dq 0) (by decide), by rw [hdriven]; rfl⟩, hshown, hhidden,
    hnone (.dq 1) (by decide)⟩

end DramPhy
