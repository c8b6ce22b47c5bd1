import DramPhy.Proofs.BitSlipHistory
import DramPhy.Proofs.Command.SlotStream
import Mathlib.Data.List.Induction

/-! What the registers of an arbiter hold after a run. The valid history and the
bitslips of the pads recall the slot stream, and a tick fails only when the count
of suppressed commands runs out. -/

namespace DramPhy

def validWord (commands : List CommandSlot) : Word :=
  Word.ofBits commands.length fun i => commands[i]?.any (·.valid)

def CommandSlot.caWord (c : CommandSlot) (pad : Nat) : Word :=
  Word.ofBits commandTicks fun k => c.ca[k]?.any (·.getLsbD pad)

theorem CommandSlot.caLane_ok (c : CommandSlot) {pad : Nat} (h : pad < 8) :
    c.caLane pad = .ok (c.caWord pad) := by
  simp [CommandSlot.caLane, h, CommandSlot.caWord]

def CommandSlot.lane (c : CommandSlot) : CommandPin → Word
  | .cs => c.csLane
  | .ca i => c.caWord i

theorem CommandSlot.lane_getLsbD (c : CommandSlot) (pin : CommandPin) (k : Nat) :
    (c.lane pin).getLsbD k = (decide (k < commandTicks) && c.high pin k) := by
  by_cases hk : k < commandTicks
  · have hk' : k < 64 := by simp only [commandTicks] at hk; omega
    cases pin with
    | cs => rw [CommandSlot.lane, CommandSlot.csLane, Word.getLsbD_cut, BitVec.getLsbD_setWidth,
        CommandSlot.high, decide_eq_true hk, decide_eq_true hk', Bool.true_and, Bool.and_true]
    | ca i => rw [CommandSlot.lane, CommandSlot.caWord, Word.getLsbD_ofBits, CommandSlot.high,
        decide_eq_true hk, decide_eq_true hk', Bool.true_and]
  · cases pin with
    | cs => rw [CommandSlot.lane, CommandSlot.csLane, Word.getLsbD_cut, decide_eq_false hk,
        Bool.and_false, Bool.false_and]
    | ca i => rw [CommandSlot.lane, CommandSlot.caWord, Word.getLsbD_ofBits, decide_eq_false hk,
        Bool.false_and, Bool.false_and, Bool.false_and]

theorem idle_lane (pin : CommandPin) : CommandSlot.idle.lane pin = 0 := by
  cases pin with
  | cs => rfl
  | ca i =>
    apply BitVec.eq_of_getLsbD_eq
    intro k _
    rw [CommandSlot.lane_getLsbD]
    by_cases hk : k < commandTicks <;> simp [CommandSlot.high, CommandSlot.idle, hk]

def phaseCommands (cycles : List (List CommandSlot)) (p : Nat) : List CommandSlot :=
  cycles.map fun cycle => cycle[p]?.getD CommandSlot.idle

structure CommandPad.Follows (pad : CommandPad) (phases : Nat) (words : Nat → List Word) : Prop where
  length_eq : pad.slips.length = phases
  carries : ∀ (p : Nat) (s : BitSlip), pad.slips[p]? = some s → s.Carries phases (words p)
  slip_eq : ∀ (p : Nat) (s : BitSlip), pad.slips[p]? = some s → s.slip = p

section

variable {pad : CommandPad} {phases : Nat} {words : Nat → List Word}

def CommandPad.next (pad : CommandPad) (inputs : List Word) : CommandPad :=
  ⟨(pad.slips.zip inputs).map fun s => s.1.next s.2 false false⟩

theorem CommandPad.Follows.latch_ok (h : pad.Follows phases words) (inputs : List Word) :
    pad.latch inputs = .ok (pad.next inputs) := by
  have hs : ∀ s ∈ pad.slips.zip inputs, s.1.shift s.2 = .ok (s.1.next s.2 false false) := by
    intro s hs
    obtain ⟨p, hp⟩ := List.mem_iff_getElem?.mp (List.of_mem_zip hs).1
    exact BitSlip.tick_ok (h.carries p s.1 hp).fits _ _ _
  rw [CommandPad.latch, mapM_ok hs]
  rfl

theorem CommandPad.Follows.next (h : pad.Follows phases words) (inputs : List Word)
    (hl : inputs.length = phases) :
    (pad.next inputs).Follows phases fun p => words p ++ [inputs[p]?.getD 0] := by
  have hslip : ∀ (p : Nat) (s : BitSlip), (pad.next inputs).slips[p]? = some s →
      ∃ t x, pad.slips[p]? = some t ∧ inputs[p]? = some x ∧ s = t.next x false false := by
    intro p s hs
    simp only [CommandPad.next, List.getElem?_map, Option.map_eq_some_iff] at hs
    obtain ⟨⟨t, x⟩, ht, rfl⟩ := hs
    rw [List.getElem?_zip_eq_some] at ht
    exact ⟨t, x, ht.1, ht.2, rfl⟩
  refine ⟨by simp [CommandPad.next, h.length_eq, hl], ?_, ?_⟩
  · intro p s hs
    obtain ⟨t, x, ht, hx, rfl⟩ := hslip p s hs
    rw [hx, Option.getD_some]
    exact (h.carries p t ht).next x false false
  · intro p s hs
    obtain ⟨t, x, ht, -, rfl⟩ := hslip p s hs
    exact h.slip_eq p t ht

def CommandPad.driven (pad : CommandPad) (allowed : Word) : Word :=
  Word.union ((pad.slips.zipIdx.filter fun s => allowed.getLsbD s.2).map fun s => s.1.window)

theorem CommandPad.Follows.drive_ok (h : pad.Follows phases words) (allowed : Word) :
    pad.drive allowed = .ok (pad.driven allowed) := by
  have hs : ∀ x ∈ pad.slips.zipIdx.filter (fun x => allowed.getLsbD x.2),
      x.1.output = .ok x.1.window := by
    intro x hx
    exact BitSlip.output_ok
      (h.carries _ _ (List.mem_zipIdx_iff_getElem?.mp (List.mem_filter.mp hx).1)).fits
  rw [CommandPad.drive, mapM_ok hs]
  rfl

theorem CommandPad.driven_getLsbD (pad : CommandPad) (allowed : Word) (j : Nat) :
    (pad.driven allowed).getLsbD j = true ↔
      ∃ p s, pad.slips[p]? = some s ∧ allowed.getLsbD p = true ∧ s.window.getLsbD j = true := by
  rw [CommandPad.driven, Word.getLsbD_union, List.any_eq_true]
  constructor
  · rintro ⟨w, hm, hb⟩
    obtain ⟨⟨s, p⟩, hx, rfl⟩ := List.mem_map.mp hm
    obtain ⟨hx, ha⟩ := List.mem_filter.mp hx
    exact ⟨p, s, List.mem_zipIdx_iff_getElem?.mp hx, ha, hb⟩
  · rintro ⟨p, s, hs, ha, hb⟩
    refine ⟨s.window, List.mem_map.mpr ⟨(s, p), ?_, rfl⟩, hb⟩
    exact List.mem_filter.mpr ⟨List.mem_zipIdx_iff_getElem?.mpr hs, ha⟩

end

structure Arbiter.Follows (a : Arbiter) (phases : Nat) (masking : Bool)
    (cycles : List (List CommandSlot)) : Prop where
  lookback_le : lookback ≤ phases
  room : 2 * phases ≤ 64
  phases_eq : a.phases = phases
  masking_eq : a.masking = masking
  full : ∀ cycle ∈ cycles, cycle.length = phases
  valids : a.valids.Carries phases (cycles.map validWord)
  pads : ∀ pin, (a.pad pin).Follows phases fun p => (phaseCommands cycles p).map (·.lane pin)

def Arbiter.next (a : Arbiter) (commands : List CommandSlot) : Arbiter where
  phases := a.phases
  masking := a.masking
  valids := a.valids.next (validWord commands) false false
  cs := a.cs.next (commands.map CommandSlot.csLane)
  ca := a.ca.zipIdx.map fun x => x.1.next (commands.map (·.caWord x.2))
  suppressed := a.suppressed + a.dropped.ones

theorem Arbiter.next_pad (a : Arbiter) (commands : List CommandSlot) (pin : CommandPin) :
    (a.next commands).pad pin = (a.pad pin).next (commands.map (·.lane pin)) := by
  cases pin with
  | cs => rfl
  | ca i => simp [Arbiter.pad, Arbiter.next, CommandSlot.lane]

def Arbiter.bus (a : Arbiter) : CommandBus :=
  ⟨a.cs.driven a.allowed, a.ca.map (·.driven a.allowed)⟩

theorem Arbiter.bus_word (a : Arbiter) (pin : CommandPin) :
    a.bus.word pin = (a.pad pin).driven a.allowed := by
  cases pin with
  | cs => rfl
  | ca i => simp [Arbiter.bus, CommandBus.word, Arbiter.pad]

section

variable {a b : Arbiter} {phases : Nat} {masking : Bool} {cycles : List (List CommandSlot)}
  {commands : List CommandSlot}

theorem CommandPad.make_follows (hw : 2 * phases ≤ 64) :
    ∃ pad, CommandPad.make phases = .ok pad ∧ pad.Follows phases fun _ => [] := by
  have hfixed : ∀ p ∈ List.range phases, BitSlip.fixed phases 1 p = .ok ⟨phases, 1, p, 0⟩ := by
    intro p hp
    have hlt := List.mem_range.mp hp
    exact BitSlip.fixed_ok (by omega) (by omega) (by omega) (by omega)
  have hslip : ∀ (p : Nat) (s : BitSlip),
      ((List.range phases).map fun p => BitSlip.mk phases 1 p 0)[p]? = some s →
        p < phases ∧ s = ⟨phases, 1, p, 0⟩ := by
    intro p s hs
    simp only [List.getElem?_map, Option.map_eq_some_iff] at hs
    obtain ⟨q, hq, rfl⟩ := hs
    obtain ⟨hlt, rfl⟩ := List.getElem?_eq_some_iff.mp hq
    simpa using hlt
  refine ⟨⟨(List.range phases).map fun p => ⟨phases, 1, p, 0⟩⟩, ?_, by simp, ?_, ?_⟩
  · rw [CommandPad.make, mapM_ok hfixed]
    rfl
  · intro p s hs
    obtain ⟨hlt, rfl⟩ := hslip p s hs
    exact BitSlip.carries_nil hw hlt
  · intro p s hs
    rw [(hslip p s hs).2]

theorem Arbiter.make_follows (masking : Bool) (hn : lookback ≤ phases) (hw : 2 * phases ≤ 64) :
    ∃ a, Arbiter.make phases masking = .ok a ∧ a.Follows phases masking [] ∧ a.suppressed = 0 := by
  have hpos : 0 < phases := by simp only [lookback] at hn; omega
  have hvalids : BitSlip.fixed phases 1 0 = .ok ⟨phases, 1, 0, 0⟩ :=
    BitSlip.fixed_ok (by omega) (by omega) (by omega) (by omega)
  obtain ⟨pad, hmake, hpad⟩ := CommandPad.make_follows hw
  refine ⟨⟨phases, masking, ⟨phases, 1, 0, 0⟩, pad, Vector.replicate caPads pad, 0⟩, ?_,
    ⟨hn, hw, rfl, rfl, by simp, BitSlip.carries_nil hw hpos, ?_⟩, rfl⟩
  · rw [Arbiter.make, require, if_pos hn, hvalids, hmake]
    rfl
  · intro pin
    cases pin with
    | cs => exact hpad
    | ca i =>
      rw [Arbiter.pad, Fin.getElem_fin, Vector.getElem_replicate]
      exact hpad

theorem Arbiter.Follows.pos (h : a.Follows phases masking cycles) : 0 < phases := by
  have hn := h.lookback_le
  simp only [lookback] at hn
  omega

theorem Arbiter.make_bounds (h : Arbiter.make phases masking = .ok a) :
    lookback ≤ phases ∧ 2 * phases ≤ 64 := by
  simp only [Arbiter.make, BitSlip.fixed, BitSlip.make, bind_eq_ok, require_eq_ok, Count.add_eq_ok,
    Count.mul_eq_ok] at h
  obtain ⟨_, hn, _, ⟨_, ⟨_, -, _, ⟨-, rfl⟩, _, ⟨-, rfl⟩, _, ⟨-, hw⟩, -⟩, -⟩, -⟩ := h
  exact ⟨hn, hw⟩

theorem Arbiter.output_ok (h : a.Follows phases masking cycles) : a.output = .ok a.bus := by
  have hcs : a.cs.drive a.allowed = .ok (a.cs.driven a.allowed) := (h.pads .cs).drive_ok _
  have hca : ∀ pad ∈ a.ca.toList, pad.drive a.allowed = .ok (pad.driven a.allowed) := by
    intro pad hp
    obtain ⟨i, hi, rfl⟩ := List.mem_iff_getElem.mp hp
    simp only [Vector.length_toList] at hi
    rw [Vector.getElem_toList]
    exact (h.pads (.ca ⟨i, hi⟩)).drive_ok _
  rw [Arbiter.output, hcs, vector_mapM_ok hca]
  rfl

/-- A tick takes in a full cycle unless the count of suppressed commands runs out. -/
theorem Arbiter.tick_eq (h : a.Follows phases masking cycles) (hl : commands.length = phases) :
    a.tick commands = if a.suppressed + a.dropped.ones < Count.limit then .ok (a.next commands)
      else .error .overflow := by
  have hvalids : a.valids.shift (validWord commands) =
      .ok (a.valids.next (validWord commands) false false) :=
    BitSlip.tick_ok h.valids.fits _ _ _
  have hcs : a.cs.latch (commands.map CommandSlot.csLane) =
      .ok (a.cs.next (commands.map CommandSlot.csLane)) := (h.pads .cs).latch_ok _
  have hca : ∀ x ∈ a.ca.zipIdx.toList, (do
      let words ← commands.mapM fun c => c.caLane x.2
      x.1.latch words) = Except.ok (ε := Fault) (x.1.next (commands.map (·.caWord x.2))) := by
    intro x hx
    rw [Vector.toList_zipIdx, List.mem_zipIdx_iff_getElem?, List.getElem?_eq_some_iff] at hx
    obtain ⟨hi, hx⟩ := hx
    simp only [Vector.length_toList] at hi
    have hwords : ∀ c ∈ commands, c.caLane x.2 = .ok (c.caWord x.2) :=
      fun c _ => CommandSlot.caLane_ok c (by simp only [caPads] at hi; omega)
    have hpad : x.1.Follows phases fun p => (phaseCommands cycles p).map (·.lane (.ca ⟨x.2, hi⟩)) := by
      rw [← hx, Vector.getElem_toList]
      exact h.pads (.ca ⟨x.2, hi⟩)
    rw [mapM_ok hwords]
    exact hpad.latch_ok _
  have hlen : commands.length = a.phases := by rw [hl, h.phases_eq]
  rw [Arbiter.tick, require, if_pos hlen]
  by_cases hs : a.suppressed + a.dropped.ones < Count.limit
  · have hadd : Count.add a.suppressed a.dropped.ones = .ok (a.suppressed + a.dropped.ones) :=
      Count.add_eq_ok.mpr ⟨hs, rfl⟩
    rw [if_pos hs, hadd]
    simp only [ok_bind]
    rw [show Word.ofBits commands.length (fun i => commands[i]?.any (·.valid)) = validWord commands from rfl,
      hvalids, hcs]
    simp only [ok_bind]
    rw [vector_mapM_ok hca]
    rfl
  · rw [if_neg hs, Count.add, Count.ofExact, if_neg hs]
    rfl

theorem phaseCommands_append (p : Nat) : phaseCommands (cycles ++ [commands]) p =
    phaseCommands cycles p ++ [commands[p]?.getD CommandSlot.idle] := by
  simp [phaseCommands]

theorem Arbiter.Follows.next (h : a.Follows phases masking cycles) (hl : commands.length = phases) :
    (a.next commands).Follows phases masking (cycles ++ [commands]) := by
  refine ⟨h.lookback_le, h.room, h.phases_eq, h.masking_eq, ?_, ?_, ?_⟩
  · intro cycle hc
    rcases List.mem_append.mp hc with hc | hc
    · exact h.full cycle hc
    · rw [List.mem_singleton.mp hc, hl]
  · rw [List.map_append]
    exact h.valids.next _ false false
  · intro pin
    have hword : ∀ p : Nat, (commands.map (·.lane pin))[p]?.getD 0 =
        (commands[p]?.getD CommandSlot.idle).lane pin := by
      intro p
      cases hp : commands[p]? <;> simp [hp, idle_lane]
    rw [Arbiter.next_pad]
    simpa only [phaseCommands_append, List.map_append, List.map_singleton, hword] using
      (h.pads pin).next (commands.map (·.lane pin)) (by rw [List.length_map, hl])

theorem Arbiter.tick_eq_ok (h : a.Follows phases masking cycles) :
    a.tick commands = .ok b ↔ commands.length = phases ∧
      a.suppressed + a.dropped.ones < Count.limit ∧ a.next commands = b := by
  by_cases hl : commands.length = phases
  · rw [Arbiter.tick_eq h hl]
    by_cases hs : a.suppressed + a.dropped.ones < Count.limit <;> simp [hs, hl]
  · have hl' : ¬ commands.length = a.phases := by rwa [h.phases_eq]
    simp [Arbiter.tick, require, hl', hl, bind, Except.bind]

theorem Arbiter.after_append (more : List (List CommandSlot)) :
    Arbiter.after phases masking (cycles ++ more) =
      Arbiter.after phases masking cycles >>= fun a => more.foldlM Arbiter.tick a := by
  simp [Arbiter.after, bind_assoc]

theorem Arbiter.after_singleton : Arbiter.after phases masking (cycles ++ [commands]) =
    Arbiter.after phases masking cycles >>= fun a => a.tick commands := by
  rw [Arbiter.after_append]
  simp

theorem Arbiter.after_follows (h : Arbiter.after phases masking cycles = .ok a) :
    a.Follows phases masking cycles := by
  induction cycles using List.reverseRecOn generalizing a with
  | nil =>
    have hmake : Arbiter.make phases masking = .ok a := by simpa [Arbiter.after] using h
    obtain ⟨hn, hw⟩ := Arbiter.make_bounds hmake
    obtain ⟨b, hb, hf, -⟩ := Arbiter.make_follows masking hn hw
    rw [hmake] at hb
    rwa [Except.ok.inj hb]
  | append_singleton cycles commands ih =>
    rw [Arbiter.after_singleton, bind_eq_ok] at h
    obtain ⟨b, hb, ht⟩ := h
    have hf := ih hb
    obtain ⟨hl, -, rfl⟩ := (Arbiter.tick_eq_ok hf).mp ht
    exact hf.next hl

theorem Arbiter.Follows.dropped_lt (h : a.Follows phases masking cycles) {p : Nat}
    (hb : a.dropped.getLsbD p = true) : p < phases := by
  have hhist : a.valids.history.getLsbD (phases + p) = true := by
    rw [Arbiter.dropped, h.phases_eq, BitVec.getLsbD_and, BitVec.getLsbD_ushiftRight,
      Bool.and_eq_true] at hb
    exact hb.1
  have := (h.valids.history_getLsbD _).mp hhist
  omega

/-- No run that is short enough for its commands to be counted fails. -/
theorem Arbiter.after_ok (masking : Bool) (hn : lookback ≤ phases) (hw : 2 * phases ≤ 64)
    (hfull : ∀ cycle ∈ cycles, cycle.length = phases)
    (hlen : phases * cycles.length < Count.limit) :
    ∃ a, Arbiter.after phases masking cycles = .ok a ∧ a.suppressed ≤ phases * cycles.length := by
  induction cycles using List.reverseRecOn with
  | nil =>
    obtain ⟨a, ha, -, hs⟩ := Arbiter.make_follows masking hn hw
    exact ⟨a, by rw [Arbiter.after, ha]; rfl, by omega⟩
  | append_singleton cycles commands ih =>
    rw [List.length_append, List.length_singleton, Nat.mul_add_one phases cycles.length] at hlen ⊢
    obtain ⟨a, ha, hs⟩ := ih (fun cycle hc => hfull cycle (List.mem_append_left _ hc)) (by omega)
    have hf := Arbiter.after_follows ha
    have hones : a.dropped.ones ≤ phases := Word.ones_le fun _ => hf.dropped_lt
    have htick := (Arbiter.tick_eq_ok hf).mpr ⟨hfull commands (by simp), by omega, rfl⟩
    refine ⟨a.next commands, ?_, ?_⟩
    · rw [Arbiter.after_singleton, ha, ok_bind, htick]
    · simp only [Arbiter.next]
      omega

theorem Arbiter.after_take (h : Arbiter.after phases masking cycles = .ok a) (t : Nat) :
    ∃ b, Arbiter.after phases masking (cycles.take t) = .ok b := by
  rw [← List.take_append_drop t cycles, Arbiter.after_append, bind_eq_ok] at h
  obtain ⟨b, hb, -⟩ := h
  exact ⟨b, hb⟩

end

end DramPhy
