import DramPhy.Proofs.Command.Transparency
import DramPhy.Proofs.Phy.Loopback
import DramPhy.Proofs.Phy.ReadDataFrame
import DramPhy.Proofs.Tool.Script

/-! A PHY that the script of the bench drives, with its pads looped back. The enable is up in
just the cycle that has the burst on the pads, so the gate takes nothing from it, and the read
data of every cycle are the write data of three cycles before. -/

namespace DramPhy

/-- The cycles of a run come from the script, and the pads of each carry the write data of
two cycles before. -/
structure Scripted (databits : Nat) (timing : Timing) (burst : List Word)
    (inputs : List CycleInput) : Prop where
  still : ∀ i ∈ inputs, ∀ byte, i.Still byte
  phases : ∀ u i, inputs[u]? = some i → i.phases = script timing burst u
  pads : ∀ u i, inputs[u]? = some i →
    i.pads.dq = writtenWords databits (script timing burst (u - 2))

variable {p : Phy} {config : PhyConfig} {settings : Settings} {inputs : List CycleInput}
  {i : CycleInput} {burst : List Word} {lane : Nat}

section

variable (h : Scripted config.databits settings.timing burst inputs)

include h

theorem Scripted.append (hi : ∀ byte, i.Still byte) (hphases : i.phases = script settings.timing burst inputs.length)
    (hpads : i.pads.dq = writtenWords config.databits (script settings.timing burst (inputs.length - 2))) :
    Scripted config.databits settings.timing burst (inputs ++ [i]) := by
  have hcases : ∀ u j, (inputs ++ [i])[u]? = some j → inputs[u]? = some j ∨ u = inputs.length ∧ i = j := by
    intro u j hj
    rcases Nat.lt_or_ge u inputs.length with hlt | hge
    · exact .inl (by rwa [List.getElem?_append_left hlt] at hj)
    · have hlast := (List.getElem?_eq_some_iff.mp hj).1
      obtain rfl : u = inputs.length := by
        rw [List.length_append, List.length_singleton] at hlast
        omega
      exact .inr ⟨rfl, by simpa using hj⟩
  refine ⟨fun j hj => ?_, fun u j hj => ?_, fun u j hj => ?_⟩
  · rcases List.mem_append.mp hj with hj | hj
    · exact h.still j hj
    · rwa [List.mem_singleton.mp hj]
  · rcases hcases u j hj with hj | ⟨rfl, rfl⟩
    · exact h.phases u j hj
    · exact hphases
  · rcases hcases u j hj with hj | ⟨rfl, rfl⟩
    · exact h.pads u j hj
    · exact hpads

theorem Scripted.validSlot {s : Nat} (hv : ValidSlot phasesPerCycle (inputs.map (·.commands)) s) :
    s = writeCycle * phasesPerCycle + settings.timing.wrPhase ∨
      s = readCycle * phasesPerCycle + settings.timing.rdPhase := by
  have hphase : s % phasesPerCycle < phasesPerCycle := Nat.mod_lt s (by decide)
  have hs := Nat.div_add_mod s phasesPerCycle
  rw [ValidSlot, slotCommand, List.getElem?_map] at hv
  cases hi : inputs[s / phasesPerCycle]? with
  | none => simp [hi, CommandSlot.idle] at hv
  | some i =>
    rw [hi, Option.map_some, Option.bind_some, CycleInput.commands, h.phases _ i hi, List.getElem?_map,
      script_getElem? hphase, Option.map_some, Option.getD_some, scriptPhase] at hv
    simp only at hv
    split_ifs at hv with hwrite hread
    · left
      rw [← hwrite.1, ← hwrite.2, Nat.mul_comm, hs]
    · right
      rw [← hread.1, ← hread.2, Nat.mul_comm, hs]
    · exact absurd hv (by decide)

variable (hscript : Scriptable settings.timing burst)

include hscript

theorem Scripted.spaced : Spaced phasesPerCycle (inputs.map (·.commands)) := by
  intro s₁ s₂ hlt h₁ h₂
  have hwr := hscript.wrPhase_lt
  have hrd := hscript.rdPhase_lt
  have hs₁ := h.validSlot h₁
  have hs₂ := h.validSlot h₂
  simp only [writeCycle, readCycle, phasesPerCycle, commandTicks] at *
  omega

/-- The script's commands are far enough apart for all of them to get through. -/
theorem Scripted.none_suppressed (masking : Bool) (s : Nat) :
    ¬ Suppressed phasesPerCycle masking (inputs.map (·.commands)) s := by
  cases masking with
  | false => exact not_suppressed_unmasked
  | true => exact fun hsup => (h.spaced hscript).not_behindHead hsup.1 (hsup.behindHead (by decide))

theorem Scripted.arbiter_idle (hp : p.Follows config settings inputs) :
    p.arbiter.suppressed = 0 ∧ p.arbiter.dropped = 0 := by
  have hfull : ∀ cycle ∈ inputs.map (·.commands), cycle.length = phasesPerCycle := by
    intro cycle hcycle
    obtain ⟨i, hi, rfl⟩ := List.mem_map.mp hcycle
    obtain ⟨u, hu⟩ := List.mem_iff_getElem?.mp hi
    rw [CycleInput.commands, List.length_map, h.phases u i hu, script_length]
  obtain ⟨a, ha, hzero⟩ := Arbiter.after_ok_of_none_suppressed (by decide) (by decide) hfull
    (h.none_suppressed hscript config.overlapMasking)
  rwa [Except.ok.inj (hp.arbiter.symm.trans ha)]

end

section

variable (h : Scripted config.databits settings.timing burst inputs)
  (hp : p.Follows config settings inputs)

include h

theorem Scripted.wellFormed (hi : i ∈ inputs) : i.WellFormed config.databits := by
  obtain ⟨u, hu⟩ := List.mem_iff_getElem?.mp hi
  constructor
  · rw [h.phases u i hu, script_length]
  · rw [h.pads u i hu, writtenWords_length]

include hp

theorem Scripted.slips_zero (hc : p.Calibrated inputs) (hlane : lane < config.databits) :
    p.writeSlip lane = .ok 0 ∧ p.readSlip lane = .ok 0 := by
  have hbyte : (dqBytes config.databits)[lane]? = some (lane / 8) := by simp [dqBytes, hlane]
  have hrest : ∀ f : CycleInput → SlipMove, (∀ i ∈ inputs, f i = ⟨false, false⟩) →
      slipAfter (inputs.map f) = 0 := by
    intro f hf
    refine slipAfter_append_still [] fun m hm => ?_
    obtain ⟨i, hi, rfl⟩ := List.mem_map.mp hm
    exact hf i hi
  constructor
  · rw [Phy.writeSlip, hc.dqWrite.slip_eq_ok hp.dqWrite hbyte, hrest _ fun i hi => (h.still i hi _).1]
  · rw [Phy.readSlip, hc.dqRead.slip_eq_ok hp.dqRead hbyte, hrest _ fun i hi => (h.still i hi _).2]

theorem Scripted.dqOe (hscript : Scriptable settings.timing burst) : p.pads.dqOe =
    decide (inputs.length = writeCycle + settings.timing.writeLatency + 1) := by
  have hago : ago false ((inputs.take inputs.length).map (·.writing)) settings.timing.writeLatency =
      earlier inputs (·.writing) inputs.length (settings.timing.writeLatency + 1) :=
    ago_eq_earlier (Nat.le_refl _) _
  rw [List.take_length] at hago
  change p.dqOe.held 0 = _
  rw [hp.dqOe_held, ← hscript.latency_eq, hago, earlier]
  by_cases hle : settings.timing.writeLatency + 1 ≤ inputs.length
  · have hlt : inputs.length - (settings.timing.writeLatency + 1) < inputs.length := by omega
    rw [decide_eq_true hle, Bool.true_and, List.getElem?_eq_getElem hlt, Option.any_some,
      CycleInput.writing, h.phases _ _ (List.getElem?_eq_getElem hlt),
      script_writing hscript.wrPhase_lt, decide_eq_decide]
    omega
  · rw [decide_eq_false hle, Bool.false_and, eq_comm, decide_eq_false_iff_not]
    omega

variable (hc : p.Calibrated inputs)

include hc

theorem Scripted.pads_dq (hsome : inputs ≠ []) : p.pads.dq =
    writtenWords config.databits (script settings.timing burst (inputs.length - 1)) := by
  obtain ⟨before, i, rfl⟩ := (List.eq_nil_or_concat inputs).resolve_left hsome
  rw [List.concat_eq_append] at *
  apply List.ext_getElem?
  intro lane
  by_cases hlane : lane < config.databits
  · rw [hp.dq_of_slip (h.wellFormed (by simp)) hlane rfl (h.slips_zero hp hc hlane).1,
      h.phases before.length i List.getElem?_concat_length, writtenWords_getElem? hlane,
      List.length_append, List.length_singleton, Nat.add_sub_cancel]
  · rw [List.getElem?_eq_none (by rw [hp.pads_dq_length]; omega),
      List.getElem?_eq_none (by rw [writtenWords_length]; omega)]

/-- The gate lets through just what the lanes carry of the burst. -/
theorem Scripted.looped_dq (hscript : Scriptable settings.timing burst) :
    (PadInput.loopback p.pads).dq =
      writtenWords config.databits (script settings.timing burst (inputs.length - 1)) := by
  change readBack p.pads.dqOe p.pads.dq = _
  rw [h.dqOe hp hscript, readBack]
  by_cases hdriven : inputs.length = writeCycle + settings.timing.writeLatency + 1
  · rw [← h.pads_dq hp hc (List.ne_nil_of_length_pos (by omega))]
    simp [hdriven]
  · have hquiet : inputs.length - 1 ≠ writeCycle + settings.timing.writeLatency := by
      simp only [writeCycle] at *
      omega
    simp [hdriven, writtenWords_quiet hquiet, hp.pads_dq_length]

variable (hs : Phy.Sound config settings)

include hs

theorem Scripted.returned_lane (hi : i.phases = script settings.timing burst inputs.length)
    (hlane : lane < config.databits) : laneWord (p.returned i) Phase.rddata config.databits lane =
      laneWord (script settings.timing burst (inputs.length - 3)) Phase.wrdata config.databits lane := by
  have hl : i.phases.length = phasesPerCycle := by rw [hi, script_length]
  rcases List.eq_nil_or_concat inputs with rfl | ⟨before, j, rfl⟩
  · -- nothing has been sampled, so the lane has nothing to give
    obtain ⟨own, hown, -⟩ := hp.dqRead.exists_lane
      (show (dqBytes config.databits)[lane]? = some (lane / 8) by simp [dqBytes, hlane])
    have hempty : own.slip.Carries laneBits [] := hp.dqRead.carries lane own hown
    rw [hp.returned_laneWord hs hl hown, hempty.window_nil,
      laneWord_script (by simp only [writeCycle, List.length_nil]; omega)]
  · rw [List.concat_eq_append] at *
    obtain ⟨word, hword, hdata⟩ := hp.returned_of_slip hs (h.wellFormed (by simp)) hl hlane rfl
      (h.slips_zero hp hc hlane).2
    rw [h.pads before.length j List.getElem?_concat_length, writtenWords_getElem? hlane,
      Option.some.injEq] at hword
    rw [hdata, ← hword, laneWord_cut (script_length _ _ _), List.length_append, List.length_singleton]
    rfl

/-- What is read in a cycle is what the script wrote three cycles before. -/
theorem Scripted.returned_data (hi : i.phases = script settings.timing burst inputs.length)
    (hcut : ∀ word ∈ burst, word.cut (2 * config.databits) = word) :
    (p.returned i).map (·.rddata) =
      (script settings.timing burst (inputs.length - 3)).map (·.wrdata) := by
  have hl : i.phases.length = phasesPerCycle := by rw [hi, script_length]
  apply List.ext_getElem?
  intro k
  by_cases hk : k < phasesPerCycle
  · obtain ⟨after, hafter⟩ : ∃ after, (p.returned i)[k]? = some after :=
      ⟨_, List.getElem?_eq_getElem (by rwa [Phy.returned_length, hl])⟩
    have hsource : (script settings.timing burst (inputs.length - 3))[k]? = _ := script_getElem? hk
    have hkeeps := hp.returned_keeps hs (by rw [hi, script_getElem? hk]) hafter
    rw [List.getElem?_map, List.getElem?_map, hafter, hsource, Option.map_some, Option.map_some,
      Option.some.injEq]
    -- below the data width the bits are those of the lanes, above it both words are cut
    refine Word.eq_of_beats config.databits (fun lane beat hlane => ?_) fun b hb => ?_
    · have hbit := congrArg (·.getLsbD (2 * k + beat % 2)) (h.returned_lane hp hc hs hi hlane)
      rwa [laneWord_beat (by rw [Phy.returned_length, hl]; decide) _ _ _ _ hafter,
        laneWord_beat (by rw [script_length]; decide) _ _ _ _ hsource] at hbit
    · rw [hkeeps.above b hb, scriptPhase_above hcut hb]
      exact BitVec.getLsbD_zero
  · rw [List.getElem?_eq_none (by rw [List.length_map, Phy.returned_length, hl]; omega),
      List.getElem?_eq_none (by rw [List.length_map, script_length]; omega)]

end

end DramPhy
