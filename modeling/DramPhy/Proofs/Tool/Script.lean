import DramPhy.Proofs.Phy.WriteTiming
import DramPhy.Tool.Bench

/-! The script of the bench in closed form: what each phase of each cycle is, and what of it
the data lanes carry. -/

namespace DramPhy

/-- Phase `k` of script cycle `t`. -/
def scriptPhase (timing : Timing) (burst : List Word) (t k : Nat) : Phase :=
  { runningPhase with
    command :=
      if t = writeCycle ∧ k = timing.wrPhase then burstCommand writeOpcode
      else if t = readCycle ∧ k = timing.rdPhase then burstCommand readOpcode
      else CommandSlot.idle
    wrdata := if t = writeCycle + timing.writeLatency then burst[k]?.getD 0 else 0
    wrdataEn := decide (t = writeCycle ∧ k = timing.wrPhase)
    rddataEn := decide (t = readCycle ∧ k = timing.rdPhase) }

def script (timing : Timing) (burst : List Word) (t : Nat) : List Phase :=
  (List.range phasesPerCycle).map (scriptPhase timing burst t)

/-- A timing that the script can be run with, and a burst of a word for each phase. -/
structure Scriptable (timing : Timing) (burst : List Word) : Prop where
  wrPhase_lt : timing.wrPhase < phasesPerCycle
  rdPhase_lt : timing.rdPhase < phasesPerCycle
  latency_eq : timing.writeLatency = timing.writeTap + 1
  dataCycle_lt : writeCycle + timing.writeLatency < Count.limit
  burst_length : burst.length = phasesPerCycle

def writtenWords (databits : Nat) (phases : List Phase) : List Word :=
  (List.range databits).map (laneWord phases Phase.wrdata databits)

variable {timing : Timing} {burst : List Word} {databits lane t k : Nat}

theorem amendPhase_range {n j : Nat} (f : Nat → Phase) (change : Phase → Phase) (hj : j < n) :
    amendPhase ((List.range n).map f) j change =
      .ok ((List.range n).map fun k => if k = j then change (f k) else f k) := by
  have hentry : entry ((List.range n).map f) j = .ok (f j) := by simp [entry_eq_ok, hj]
  rw [amendPhase, hentry, ok_bind, replaceEntry, if_pos (by simpa using hj), Except.ok.injEq]
  apply List.ext_getElem
  · simp
  · intro k _ _
    by_cases hk : j = k <;> simp [hk, Ne.symm]

theorem zipWith_range {n : Nat} (f : Nat → Phase) (change : Phase → Word → Phase) {words : List Word}
    (hlen : words.length = n) : List.zipWith change ((List.range n).map f) words =
      (List.range n).map fun k => change (f k) (words[k]?.getD 0) := by
  apply List.ext_getElem
  · simp [hlen]
  · intro k _ hk
    have hword : k < words.length := by simpa [hlen] using hk
    simp [hword]

theorem fill_range {n : Nat} (hlen : burst.length = n) (c : Prop) [Decidable c] :
    (if c then List.zipWith (fun ph word => { ph with wrdata := word })
        ((List.range n).map fun _ => runningPhase) burst
      else (List.range n).map fun _ => runningPhase) =
      (List.range n).map fun k => { runningPhase with wrdata := if c then burst[k]?.getD 0 else 0 } := by
  by_cases hc : c
  · simp only [if_pos hc]
    exact zipWith_range _ _ hlen
  · simp only [if_neg hc]
    rfl

theorem script_length (timing : Timing) (burst : List Word) (t : Nat) :
    (script timing burst t).length = phasesPerCycle := by
  rw [script, List.length_map, List.length_range]

theorem script_getElem? (hk : k < phasesPerCycle) :
    (script timing burst t)[k]? = some (scriptPhase timing burst t k) := by
  rw [script, List.getElem?_map, List.getElem?_range hk, Option.map_some]

theorem Scriptable.phases_ok (h : Scriptable timing burst) (t : Nat) :
    scriptPhases timing burst t = .ok (script timing burst t) := by
  have hdata : Count.add writeCycle timing.writeLatency = .ok (writeCycle + timing.writeLatency) :=
    Count.add_eq_ok.mpr ⟨h.dataCycle_lt, rfl⟩
  have hrunning : List.replicate phasesPerCycle runningPhase =
      (List.range phasesPerCycle).map fun _ => runningPhase := by simp
  have hwr := h.wrPhase_lt
  have hrd := h.rdPhase_lt
  simp only [scriptPhases, hdata, hrunning, ok_bind]
  by_cases hwrite : t = writeCycle
  · have hread : t ≠ readCycle := by rw [hwrite]; decide
    have hfill : t ≠ writeCycle + timing.writeLatency := by
      have := h.latency_eq
      omega
    simp only [if_pos hwrite, if_neg hfill, if_neg hread, amendPhase_range _ _ hwr, ok_bind, pure_eq_ok]
    refine List.map_congr_left fun k _ => ?_
    by_cases hk : k = timing.wrPhase <;>
      simp [scriptPhase, eq_true hwrite, hread, hfill, hk, runningPhase, Phase.idle]
  · simp only [if_neg hwrite, pure, Except.pure, ok_bind, fill_range h.burst_length]
    by_cases hread : t = readCycle
    · simp only [if_pos hread, amendPhase_range _ _ hrd, Except.ok.injEq]
      refine List.map_congr_left fun k _ => ?_
      by_cases hk : k = timing.rdPhase <;>
        simp [scriptPhase, hwrite, eq_true hread, hk, runningPhase, Phase.idle]
    · simp only [if_neg hread, Except.ok.injEq]
      refine List.map_congr_left fun k _ => ?_
      simp [scriptPhase, hwrite, hread, runningPhase, Phase.idle]

theorem script_writing (h : timing.wrPhase < phasesPerCycle) (burst : List Word) (t : Nat) :
    (script timing burst t).any (·.wrdataEn) = decide (t = writeCycle) := by
  rw [script, List.any_map, Bool.eq_iff_iff]
  simp only [List.any_eq_true, List.mem_range, Function.comp_apply, scriptPhase, decide_eq_true_eq]
  exact ⟨fun ⟨_, _, ht, _⟩ => ht, fun ht => ⟨_, h, ht, rfl⟩⟩

theorem Scriptable.written (h : Scriptable timing burst) (t : Nat) : (script timing burst t).map (·.wrdata) =
    if t = writeCycle + timing.writeLatency then burst else List.replicate phasesPerCycle 0 := by
  apply List.ext_getElem
  · split_ifs <;> simp [script_length, h.burst_length]
  · intro k hk _
    rw [List.length_map, script_length] at hk
    have hword : k < burst.length := by rwa [h.burst_length]
    by_cases hdata : t = writeCycle + timing.writeLatency <;>
      simp [script, scriptPhase, hdata, hword]

theorem laneWord_eq_zero {phases : List Phase} {field : Phase → Word} {width : Nat}
    (h : ∀ ph ∈ phases, field ph = 0) : laneWord phases field width lane = 0 := by
  apply BitVec.eq_of_getLsbD_eq
  intro i _
  rw [laneWord, Word.getLsbD_ofBits]
  cases hph : phases[i / 2]? with
  | none => simp
  | some ph => simp [h ph (List.mem_of_getElem? hph)]

theorem laneWord_script (hquiet : t ≠ writeCycle + timing.writeLatency) (burst : List Word) :
    laneWord (script timing burst t) Phase.wrdata databits lane = 0 := by
  refine laneWord_eq_zero fun ph hph => ?_
  obtain ⟨k, -, rfl⟩ := List.mem_map.mp hph
  simp [scriptPhase, hquiet]

theorem writtenWords_length (databits : Nat) (phases : List Phase) :
    (writtenWords databits phases).length = databits := by
  rw [writtenWords, List.length_map, List.length_range]

theorem writtenWords_getElem? (hlane : lane < databits) (phases : List Phase) :
    (writtenWords databits phases)[lane]? = some (laneWord phases Phase.wrdata databits lane) := by
  rw [writtenWords, List.getElem?_map, List.getElem?_range hlane, Option.map_some]

theorem writtenWords_quiet (hquiet : t ≠ writeCycle + timing.writeLatency) (burst : List Word) :
    writtenWords databits (script timing burst t) = List.replicate databits 0 := by
  have hlane : laneWord (script timing burst t) Phase.wrdata databits = fun _ => 0 :=
    funext fun _ => laneWord_script hquiet burst
  rw [writtenWords, hlane, List.map_const', List.length_range]

theorem scriptPhase_above {n b : Nat} (hcut : ∀ word ∈ burst, word.cut n = word) (hb : n ≤ b) :
    (scriptPhase timing burst t k).wrdata.getLsbD b = false := by
  have hword : (burst[k]?.getD 0).getLsbD b = false := by
    cases hk : burst[k]? with
    | none => exact BitVec.getLsbD_zero
    | some word =>
      rw [Option.getD_some, ← hcut word (List.mem_of_getElem? hk), Word.getLsbD_cut,
        decide_eq_false (Nat.not_lt.mpr hb), Bool.and_false]
  simp only [scriptPhase]
  split_ifs
  · exact hword
  · exact BitVec.getLsbD_zero

end DramPhy
