import DramPhy.Proofs.Phy.Run

/-! What a sequence of calibration moves makes of the lanes. The slip of a lane is
that of its byte, in all banks of one direction alike. -/

namespace DramPhy

def SlipMove.slipped (move : SlipMove) (slip : Nat) : Nat :=
  if move.reset then 0 else if move.advance then (slip + 1) % laneBits else slip

def slipAfter (moves : List SlipMove) : Nat := moves.foldl (fun slip move => move.slipped slip) 0

theorem slipAfter_append (moves : List SlipMove) (move : SlipMove) :
    slipAfter (moves ++ [move]) = move.slipped (slipAfter moves) := by
  simp [slipAfter]

theorem SlipMove.slipped_lt (move : SlipMove) {slip : Nat} (h : slip < laneBits) :
    move.slipped slip < laneBits := by
  rw [SlipMove.slipped]
  split_ifs
  · exact Nat.zero_lt_of_lt h
  · exact Nat.mod_lt _ (Nat.zero_lt_of_lt h)
  · exact h

theorem slipAfter_lt (moves : List SlipMove) : slipAfter moves < laneBits := by
  induction moves using List.reverseRecOn with
  | nil => decide
  | append_singleton moves move ih =>
    rw [slipAfter_append]
    exact move.slipped_lt ih

def LaneBank.SlippedBy (bank : LaneBank) (slip : Nat → Nat) : Prop :=
  ∀ lane ∈ bank.lanes, lane.slip.slip = slip lane.byte

theorem LaneBank.make_slippedBy {bytes : List Nat} {bank : LaneBank}
    (h : LaneBank.make bytes = .ok bank) : bank.SlippedBy fun _ => 0 := by
  rw [LaneBank.make_eq, Except.ok.injEq] at h
  subst h
  intro lane hm
  obtain ⟨_, -, rfl⟩ := List.mem_map.mp hm
  rfl

theorem LaneBank.SlippedBy.next {bank : LaneBank} {bytes : List Nat} {words : Nat → List Word}
    {slip : Nat → Nat} (h : bank.SlippedBy slip) (hf : bank.Follows bytes words)
    (moved : Nat → SlipMove) (inputs : List Word) :
    (bank.next moved inputs).SlippedBy fun byte => (moved byte).slipped (slip byte) := by
  intro lane hm
  obtain ⟨⟨before, input⟩, hx, rfl⟩ := List.mem_map.mp hm
  have hbefore := (List.of_mem_zip hx).1
  simp only [BitSlip.next, h before hbefore, hf.range_eq hbefore, SlipMove.slipped]

/-- The slips of a PHY after a run. The mask and the strobe of a byte are slipped as its
data are. -/
structure Phy.Calibrated (p : Phy) (inputs : List CycleInput) : Prop where
  dqWrite : p.dqWrite.SlippedBy fun byte => slipAfter (inputs.map fun i => i.writeMoved byte)
  dqsWrite : p.dqsWrite.SlippedBy fun byte => slipAfter (inputs.map fun i => i.writeMoved byte)
  dmiWrite : p.dmiWrite.SlippedBy fun byte => slipAfter (inputs.map fun i => i.writeMoved byte)
  dqRead : p.dqRead.SlippedBy fun byte => slipAfter (inputs.map fun i => i.readMoved byte)

variable {p q : Phy} {config : PhyConfig} {table : CasTable} {settings : Settings}
  {inputs : List CycleInput}

theorem Phy.initial_calibrated (h : Phy.initial config settings = .ok p) : p.Calibrated [] := by
  simp only [Phy.initial, bind_eq_ok, pure_eq_ok] at h
  obtain ⟨_, -, _, -, _, hdq, _, hdqs, _, hdmi, _, -, _, -, _, -, rfl⟩ := h
  exact ⟨LaneBank.make_slippedBy hdq, LaneBank.make_slippedBy hdqs, LaneBank.make_slippedBy hdmi,
    LaneBank.make_slippedBy hdq⟩

theorem Phy.Calibrated.next (h : p.Calibrated inputs) (hf : p.Follows config settings inputs)
    (i : CycleInput) (frame : StrobeFrame) : (p.next i frame).Calibrated (inputs ++ [i]) := by
  refine ⟨?_, ?_, ?_, ?_⟩ <;> simp only [List.map_append, List.map_singleton, slipAfter_append]
  · exact h.dqWrite.next hf.dqWrite _ _
  · exact h.dqsWrite.next hf.dqsWrite _ _
  · exact h.dmiWrite.next hf.dmiWrite _ _
  · exact h.dqRead.next hf.dqRead _ _

theorem Phy.after_calibrated (hs : Phy.Sound config settings) (hp : p.Follows config settings [])
    (hc : p.Calibrated []) (h : p.after inputs = .ok q) : q.Calibrated inputs := by
  induction inputs using List.reverseRecOn generalizing q with
  | nil =>
    rw [Phy.after, List.foldlM_nil, pure_eq_ok] at h
    rwa [← h]
  | append_singleton inputs i ih =>
    simp only [Phy.after_append, bind_eq_ok, pure_eq_ok] at h
    obtain ⟨r, hr, c, hcycle, rfl⟩ := h
    obtain ⟨hf, -⟩ := Phy.after_follows hs hp hr
    obtain ⟨-, -, rfl⟩ := (hf.cycleOn_eq_ok hs).mp hcycle
    exact (ih hr).next hf i _

theorem Phy.build_calibrated (h : Phy.build config table = .ok p) : p.Calibrated [] := by
  simp only [Phy.build, bind_eq_ok, build_eq_ok] at h
  obtain ⟨_, -, hinitial⟩ := h
  exact Phy.initial_calibrated hinitial

theorem Phy.build_after (h : Phy.build config table = .ok p) (hq : p.after inputs = .ok q) :
    Phy.Sound config p.settings ∧ q.Follows config p.settings inputs ∧ q.Calibrated inputs := by
  obtain ⟨-, hs, hf, -⟩ := Phy.build_follows h
  exact ⟨hs, (Phy.after_follows hs hf hq).1, Phy.after_calibrated hs hf (Phy.build_calibrated h) hq⟩

theorem LaneBank.SlippedBy.slip_eq_ok {bank : LaneBank} {bytes : List Nat} {words : Nat → List Word}
    {slip : Nat → Nat} (h : bank.SlippedBy slip) (hf : bank.Follows bytes words) {lane byte : Nat}
    (hbyte : bytes[lane]? = some byte) : bank.slip lane = .ok (slip byte) := by
  obtain ⟨own, hown, hsame⟩ := hf.exists_lane hbyte
  rw [LaneBank.slip, entry_eq_ok.mpr hown, ok_bind, h own (List.mem_of_getElem? hown), hsame]
  rfl

end DramPhy
