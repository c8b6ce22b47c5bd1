import DramPhy.Proofs.Command.BusSlots
import DramPhy.Proofs.Command.Suppression

/-! What a suppressed command leaves on the pads, by comparison with the run in
which the command carries no payload. Its first ticks are held back for certain;
those that fall into the next cycle are held back only when that cycle has a head
close before the command's phase. -/

namespace DramPhy

/-- The command with its chip select and its command address words cleared. -/
def CommandSlot.silent (c : CommandSlot) : CommandSlot :=
  ⟨c.valid, 0, Vector.replicate commandTicks 0⟩

/-- The run with the command of one slot silent. -/
def silenced (phases : Nat) (cycles : List (List CommandSlot)) (s : Nat) : List (List CommandSlot) :=
  cycles.modify (s / phases) fun cycle => cycle.modify (s % phases) CommandSlot.silent

variable {phases s r x : Nat} {cycles : List (List CommandSlot)} {a : Arbiter} {pin : CommandPin}

theorem CommandSlot.silent_high (c : CommandSlot) (pin : CommandPin) (k : Nat) :
    c.silent.high pin k = false := by
  cases pin with
  | cs => simp [CommandSlot.high, CommandSlot.silent]
  | ca i => by_cases hk : k < commandTicks <;> simp [CommandSlot.high, CommandSlot.silent, hk]

theorem validWord_modify (commands : List CommandSlot) (p : Nat) :
    validWord (commands.modify p CommandSlot.silent) = validWord commands := by
  rw [validWord, validWord, List.length_modify]
  congr 1
  funext i
  rw [List.getElem?_modify]
  by_cases hp : p = i <;> cases commands[i]? <;> simp [hp, CommandSlot.silent]

theorem silenced_validWord : (silenced phases cycles s).map validWord = cycles.map validWord := by
  apply List.ext_getElem?
  intro t
  rw [List.getElem?_map, List.getElem?_map, silenced, List.getElem?_modify]
  by_cases ht : s / phases = t <;> cases cycles[t]? <;> simp [ht, validWord_modify]

theorem silenced_full (hfull : ∀ cycle ∈ cycles, cycle.length = phases) :
    ∀ cycle ∈ silenced phases cycles s, cycle.length = phases := by
  intro cycle hc
  obtain ⟨t, ht⟩ := List.mem_iff_getElem?.mp hc
  rw [silenced, List.getElem?_modify] at ht
  cases hcycle : cycles[t]? with
  | none => simp [hcycle] at ht
  | some before =>
    have hlen := hfull before (List.mem_of_getElem? hcycle)
    by_cases hst : s / phases = t <;> simp [hcycle, hst] at ht <;> simp [← ht, hlen]

theorem slotCommand_silenced_self :
    slotCommand phases (silenced phases cycles s) s = (slotCommand phases cycles s).silent := by
  rw [slotCommand, silenced, List.getElem?_modify_eq, slotCommand]
  cases cycles[s / phases]? with
  | none => rfl
  | some cycle =>
    simp only [Option.map_eq_map, Option.map_some, Option.bind_some, List.getElem?_modify_eq]
    cases cycle[s % phases]? <;> rfl

theorem slotCommand_silenced_of_ne (h : r ≠ s) :
    slotCommand phases (silenced phases cycles s) r = slotCommand phases cycles r := by
  rw [slotCommand, silenced, List.getElem?_modify, slotCommand]
  by_cases hdiv : s / phases = r / phases
  · have hmod : s % phases ≠ r % phases := by
      intro hmod
      have hs := Nat.div_add_mod s phases
      have hr := Nat.div_add_mod r phases
      rw [hdiv, hmod] at hs
      omega
    cases cycles[r / phases]? <;> simp [hdiv, hmod]
  · cases cycles[r / phases]? <;> simp [hdiv]

theorem validSlot_silenced :
    ValidSlot phases (silenced phases cycles s) r ↔ ValidSlot phases cycles r := by
  by_cases h : r = s
  · rw [h, ValidSlot, slotCommand_silenced_self]
    rfl
  · rw [ValidSlot, slotCommand_silenced_of_ne h]
    rfl

theorem behindHead_silenced :
    BehindHead phases (silenced phases cycles s) x ↔ BehindHead phases cycles x := by
  simp only [BehindHead, HeadSlot, validSlot_silenced]

theorem drives_silenced_iff {b : Arbiter} (hn : 2 * lookback ≤ phases)
    (h : Arbiter.after phases true cycles = .ok a)
    (h' : Arbiter.after phases true (silenced phases cycles s) = .ok b)
    (hx : x < cycles.length * phases) :
    Drives phases true (silenced phases cycles s) r pin x ↔ r ≠ s ∧ Drives phases true cycles r pin x := by
  have hlen : (silenced phases cycles s).length = cycles.length := List.length_modify ..
  rw [drives_masked_iff hn h' (by rwa [hlen]), drives_masked_iff hn h hx]
  by_cases hr : r = s
  · simp [hr, slotCommand_silenced_self, CommandSlot.silent_high]
  · simp [hr, slotCommand_silenced_of_ne hr, behindHead_silenced]

/-- A suppressed command leaves no trace exactly when every high tick that it
leaves to the next cycle is held back there by a head close before its phase, or
falls on a pad that another command drives at that tick as well. -/
theorem silenced_sameBus_iff (hn : 6 ≤ phases) (h : Arbiter.after phases true cycles = .ok a)
    (hs : Suppressed phases true cycles s) :
    SameBus phases true true cycles (silenced phases cycles s) ↔ ∀ k pin, k < commandTicks →
      phases ≤ s % phases + k → s + k < cycles.length * phases →
      (slotCommand phases cycles s).high pin k = true → ¬ BehindHead phases cycles (s + phases) →
      ∃ r, r ≠ s ∧ Drives phases true cycles r pin (s + k) := by
  have hn' : 2 * lookback ≤ phases := by simpa only [lookback] using hn
  have hticks : commandTicks ≤ phases := by simp only [commandTicks]; omega
  have hfull := (Arbiter.after_follows h).full
  obtain ⟨b, hb, -⟩ := Arbiter.after_alike (silenced_full (s := s) hfull) silenced_validWord h
  rw [sameBus_iff hticks h hb (List.length_modify ..)]
  constructor
  · intro hsame k pin hk hspill hx hhigh hfree
    have hdrives : Drives phases true cycles s pin (s + k) := by
      rcases tick_cycle hticks hk s with ⟨hown, -⟩ | ⟨-, hnext⟩
      · omega
      · exact (drives_masked_iff hn' h hx).mpr ⟨k, hk, rfl, by rwa [hnext], hhigh⟩
    obtain ⟨r, hr⟩ := (hsame pin (s + k) hx).mp ⟨s, hdrives⟩
    exact ⟨r, (drives_silenced_iff hn' h hb hx).mp hr⟩
  · intro hcover pin x hx
    constructor
    · rintro ⟨r, hr⟩
      by_cases hrs : r = s
      · rw [hrs] at hr
        obtain ⟨k, hk, rfl, hfree, hhigh⟩ := (drives_masked_iff hn' h hx).mp hr
        rcases tick_cycle hticks hk s with ⟨-, hown⟩ | ⟨hspill, hnext⟩
        · rw [hown] at hfree
          exact absurd (hs.behindHead hn') hfree
        · rw [hnext] at hfree
          obtain ⟨q, hq⟩ := hcover k pin hk hspill hx hhigh hfree
          exact ⟨q, (drives_silenced_iff hn' h hb hx).mpr hq⟩
      · exact ⟨r, (drives_silenced_iff hn' h hb hx).mpr ⟨hrs, hr⟩⟩
    · rintro ⟨r, hr⟩
      exact ⟨r, ((drives_silenced_iff hn' h hb hx).mp hr).2⟩

/-- A command right behind another at the end of a cycle, and the cycle after it. -/
def crowdedRun (last : List CommandSlot) : List (List CommandSlot) :=
  [((List.replicate 8 CommandSlot.idle).set 5 (CommandSlot.single 0 0)).set 7
    ⟨true, 15, Vector.replicate commandTicks 0⟩, last]

theorem untraced_behind_next_head :
    Suppressed 8 true (crowdedRun ((List.replicate 8 CommandSlot.idle).set 4 (CommandSlot.single 0 0))) 7 ∧
      SameBus 8 true true
        (crowdedRun ((List.replicate 8 CommandSlot.idle).set 4 (CommandSlot.single 0 0)))
        (silenced 8 (crowdedRun ((List.replicate 8 CommandSlot.idle).set 4 (CommandSlot.single 0 0))) 7) := by
  obtain ⟨a, ha, -⟩ := Arbiter.after_ok true (show lookback ≤ 8 by decide) (by decide)
    (show ∀ cycle ∈ crowdedRun ((List.replicate 8 CommandSlot.idle).set 4 (CommandSlot.single 0 0)),
      cycle.length = 8 by decide) (by decide)
  have hs : Suppressed 8 true
      (crowdedRun ((List.replicate 8 CommandSlot.idle).set 4 (CommandSlot.single 0 0))) 7 := by
    decide +kernel
  refine ⟨hs, (silenced_sameBus_iff (by decide) ha hs).mpr ?_⟩
  intro k pin _ _ _ _ hfree
  exact absurd ⟨12, by decide, by decide, by decide⟩ hfree

theorem crowded_command_traced :
    Suppressed 8 true (crowdedRun (List.replicate 8 CommandSlot.idle)) 7 ∧
      ¬ SameBus 8 true true (crowdedRun (List.replicate 8 CommandSlot.idle))
        (silenced 8 (crowdedRun (List.replicate 8 CommandSlot.idle)) 7) := by
  refine ⟨by decide +kernel, ?_⟩
  intro hsame
  obtain ⟨bus, hbus, hbus'⟩ := hsame 1 (by decide)
  have hdiffer : busAfter 8 true (crowdedRun (List.replicate 8 CommandSlot.idle)) 1 ≠
      busAfter 8 true (silenced 8 (crowdedRun (List.replicate 8 CommandSlot.idle)) 7) 1 := by
    decide +kernel
  exact hdiffer (hbus.trans hbus'.symm)

end DramPhy
