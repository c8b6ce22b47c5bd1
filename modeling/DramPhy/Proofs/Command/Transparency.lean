import DramPhy.Proofs.Command.BusSlots
import DramPhy.Proofs.Command.Suppression

/-! Masking for a controller that keeps its commands apart. No command of such a
run is suppressed, but the ticks of a command that fall into the cycle after its
own are gated by the decision for that cycle, which may be about another command
close before the same phase. -/

namespace DramPhy

def Spaced (phases : Nat) (cycles : List (List CommandSlot)) : Prop :=
  ∀ s₁ s₂, s₁ < s₂ → ValidSlot phases cycles s₁ → ValidSlot phases cycles s₂ →
    s₁ + commandTicks ≤ s₂

def QuietIdle (phases : Nat) (cycles : List (List CommandSlot)) : Prop :=
  ∀ s, ¬ ValidSlot phases cycles s → (slotCommand phases cycles s).cs = 0 ∧
    (slotCommand phases cycles s).ca = Vector.replicate commandTicks 0

/-- Every command drives its four ticks on the pads as it came. -/
def Intact (phases : Nat) (masking : Bool) (cycles : List (List CommandSlot)) : Prop :=
  ∀ s k pin, ValidSlot phases cycles s → k < commandTicks → s + k < cycles.length * phases →
    ∃ bus, busAfter phases masking cycles ((s + k) / phases) = .ok bus ∧
      (bus.word pin).getLsbD ((s + k) % phases) = (slotCommand phases cycles s).high pin k

/-- No command starts shortly before the phase of an earlier command, in the cycle
that the earlier one leaves some of its high ticks to. -/
def SpillsClear (phases : Nat) (cycles : List (List CommandSlot)) : Prop :=
  ∀ s k pin, k < commandTicks → phases ≤ s % phases + k → s + k < cycles.length * phases →
    (slotCommand phases cycles s).high pin k = true →
    ∀ r, ValidSlot phases cycles r → r < s + phases → r + lookback < s + phases

section

variable {phases s k x : Nat} {cycles : List (List CommandSlot)} {a : Arbiter}
  {pin : CommandPin}

theorem QuietIdle.valid (hq : QuietIdle phases cycles)
    (h : (slotCommand phases cycles s).high pin k = true) : ValidSlot phases cycles s := by
  by_contra hv
  obtain ⟨hcs, hca⟩ := hq s hv
  cases pin with
  | cs => simp [CommandSlot.high, hcs] at h
  | ca i => by_cases hk : k < commandTicks <;> simp [CommandSlot.high, hca, hk] at h

theorem Spaced.eq (hs : Spaced phases cycles) {s₁ s₂ : Nat} (h₁ : ValidSlot phases cycles s₁)
    (h₂ : ValidSlot phases cycles s₂) (h₁₂ : s₁ < s₂ + commandTicks) (h₂₁ : s₂ < s₁ + commandTicks) :
    s₁ = s₂ := by
  rcases Nat.lt_trichotomy s₁ s₂ with hlt | heq | hlt
  · have := hs s₁ s₂ hlt h₁ h₂
    omega
  · exact heq
  · have := hs s₂ s₁ hlt h₂ h₁
    omega

theorem Spaced.behindHead_iff (hs : Spaced phases cycles) :
    BehindHead phases cycles s ↔ ∃ r, ValidSlot phases cycles r ∧ r < s ∧ s ≤ r + lookback := by
  constructor
  · rintro ⟨r, hr, hlt, hle⟩
    exact ⟨r, hr.1, hlt, hle⟩
  · rintro ⟨r, hr, hlt, hle⟩
    refine ⟨r, ⟨hr, ?_⟩, hlt, hle⟩
    intro q hq hclose hv
    have := hs q r hq hv hr
    simp only [commandTicks, lookback] at *
    omega

theorem Spaced.not_behindHead (hs : Spaced phases cycles) (hv : ValidSlot phases cycles s) :
    ¬ BehindHead phases cycles s := by
  rw [hs.behindHead_iff]
  rintro ⟨r, hr, hlt, hle⟩
  have := hs r s hlt hr hv
  simp only [commandTicks, lookback] at *
  omega

variable (hn : 2 * lookback ≤ phases) (hw : 2 * phases ≤ 64)
  (hfull : ∀ cycle ∈ cycles, cycle.length = phases) (hs : Spaced phases cycles)

include hn hw hfull

theorem unmasked_ok : ∃ a, Arbiter.after phases false cycles = .ok a := by
  obtain ⟨a, ha, -, -⟩ := Arbiter.after_ok_of_none_suppressed (by omega) hw hfull
    fun _ => not_suppressed_unmasked
  exact ⟨a, ha⟩

include hs

theorem Spaced.masked_ok : ∃ a, Arbiter.after phases true cycles = .ok a := by
  have hnone : ∀ s, ¬ Suppressed phases true cycles s :=
    fun s hsup => hs.not_behindHead hsup.1 (hsup.behindHead hn)
  obtain ⟨a, ha, -, -⟩ := Arbiter.after_ok_of_none_suppressed (by omega) hw hfull hnone
  exact ⟨a, ha⟩

end

section

variable {phases : Nat} {cycles : List (List CommandSlot)} {a : Arbiter}
  (hn : 2 * lookback ≤ phases) (hw : 2 * phases ≤ 64) (hs : Spaced phases cycles)
  (hq : QuietIdle phases cycles)

include hn hs hq

theorem spillsClear_iff : SpillsClear phases cycles ↔ ∀ s k pin, k < commandTicks →
    s + k < cycles.length * phases → (slotCommand phases cycles s).high pin k = true →
    ¬ BehindHead phases cycles ((s + k) / phases * phases + s % phases) := by
  have hticks : commandTicks ≤ phases := by simp only [lookback, commandTicks] at *; omega
  constructor
  · intro hclear s k pin hk hx hhigh
    rcases tick_cycle hticks hk s with ⟨-, hown⟩ | ⟨hspill, hnext⟩
    · rw [hown]
      exact hs.not_behindHead (hq.valid hhigh)
    · rw [hnext, hs.behindHead_iff]
      rintro ⟨r, hr, hlt, hle⟩
      have := hclear s k pin hk hspill hx hhigh r hr hlt
      omega
  · intro hfree s k pin hk hspill hx hhigh r hr hlt
    by_contra hclose
    rcases tick_cycle hticks hk s with ⟨hown, -⟩ | ⟨-, hnext⟩
    · omega
    · have hno := hfree s k pin hk hx hhigh
      rw [hnext, hs.behindHead_iff] at hno
      exact hno ⟨r, hr, hlt, by omega⟩

theorem Spaced.drives_iff (h : Arbiter.after phases true cycles = .ok a) {s k : Nat} {pin : CommandPin}
    (hv : ValidSlot phases cycles s) (hk : k < commandTicks) (hx : s + k < cycles.length * phases) :
    (∃ q, Drives phases true cycles q pin (s + k)) ↔ (slotCommand phases cycles s).high pin k = true ∧
      ¬ BehindHead phases cycles ((s + k) / phases * phases + s % phases) := by
  constructor
  · rintro ⟨q, hdrives⟩
    obtain ⟨l, hl, hql, hfree, hhigh⟩ := (drives_masked_iff hn h hx).mp hdrives
    have heq : q = s := hs.eq (hq.valid hhigh) hv (by omega) (by omega)
    rw [heq, show l = k by omega] at hhigh
    rw [heq] at hfree
    exact ⟨hhigh, hfree⟩
  · rintro ⟨hhigh, hfree⟩
    exact ⟨s, (drives_masked_iff hn h hx).mpr ⟨k, hk, rfl, hfree, hhigh⟩⟩

include hw

theorem Spaced.masking_sameBus_iff (hfull : ∀ cycle ∈ cycles, cycle.length = phases) :
    SameBus phases true false cycles cycles ↔ SpillsClear phases cycles := by
  obtain ⟨a, ha⟩ := hs.masked_ok hn hw hfull
  obtain ⟨b, hb⟩ := unmasked_ok hn hw hfull
  have hticks : commandTicks ≤ phases := by simp only [lookback, commandTicks] at *; omega
  rw [sameBus_iff hticks ha hb rfl, spillsClear_iff hn hs hq]
  constructor
  · intro hsame s k pin hk hx hhigh
    have hdrives := (hsame pin (s + k) hx).mpr
      ⟨s, (drives_unmasked_iff hb).mpr ⟨k, hk, rfl, hhigh⟩⟩
    exact ((hs.drives_iff hn hq ha (hq.valid hhigh) hk hx).mp hdrives).2
  · intro hfree pin x hx
    refine exists_congr fun s => ?_
    rw [drives_masked_iff hn ha hx, drives_unmasked_iff hb]
    refine exists_congr fun k => and_congr_right fun hk => and_congr_right fun hsk => ?_
    refine and_iff_right_of_imp fun hhigh => ?_
    rw [← hsk] at hx ⊢
    exact hfree s k pin hk hx hhigh

theorem Spaced.intact_iff (hfull : ∀ cycle ∈ cycles, cycle.length = phases) :
    Intact phases true cycles ↔ SpillsClear phases cycles := by
  obtain ⟨a, ha⟩ := hs.masked_ok hn hw hfull
  have hticks : commandTicks ≤ phases := by simp only [lookback, commandTicks] at *; omega
  have hpos : 0 < phases := by simp only [lookback] at hn; omega
  have hbus : ∀ s k, s + k < cycles.length * phases → ∃ bus,
      busAfter phases true cycles ((s + k) / phases) = .ok bus ∧ ∀ pin,
        (bus.word pin).getLsbD ((s + k) % phases) = true ↔
          ∃ q, Drives phases true cycles q pin (s + k) := by
    intro s k hx
    have ht : (s + k) / phases < cycles.length := Nat.div_lt_of_lt_mul (by rwa [Nat.mul_comm])
    obtain ⟨bus, hb, hdrives⟩ := busAfter_drives hticks ha ht
    refine ⟨bus, hb, fun pin => ?_⟩
    rw [hdrives, Nat.div_add_mod' (s + k) phases, and_iff_right (Nat.mod_lt _ hpos)]
  rw [spillsClear_iff hn hs hq]
  constructor
  · intro hintact s k pin hk hx hhigh
    have hv := hq.valid hhigh
    obtain ⟨bus, hb, hdrives⟩ := hbus s k hx
    obtain ⟨bus', hb', hbit⟩ := hintact s k pin hv hk hx
    rw [hb] at hb'
    rw [← Except.ok.inj hb', hhigh, hdrives, hs.drives_iff hn hq ha hv hk hx] at hbit
    exact hbit.2
  · intro hfree s k pin hv hk hx
    obtain ⟨bus, hb, hdrives⟩ := hbus s k hx
    refine ⟨bus, hb, Bool.eq_iff_iff.mpr ?_⟩
    rw [hdrives, hs.drives_iff hn hq ha hv hk hx]
    exact and_iff_left_of_imp fun hhigh => hfree s k pin hk hx hhigh

end

/-- Masking is transparent for a run of commands that keep apart, and leaves every
command its four ticks, exactly when no command spills into a cycle with another
command close before its phase. -/
theorem masking_transparent_iff {phases : Nat} {cycles : List (List CommandSlot)} (hn : 6 ≤ phases)
    (hw : phases ≤ 32) (hfull : ∀ cycle ∈ cycles, cycle.length = phases) (hs : Spaced phases cycles)
    (hq : QuietIdle phases cycles) :
    (SameBus phases true false cycles cycles ↔ SpillsClear phases cycles) ∧
      (Intact phases true cycles ↔ SpillsClear phases cycles) :=
  ⟨hs.masking_sameBus_iff (by simpa only [lookback] using hn) (by omega) hq hfull,
    hs.intact_iff (by simpa only [lookback] using hn) (by omega) hq hfull⟩

/-- A command that is high on all its ticks, then one on a phase of the next cycle. -/
def spillRun (follower : Nat) : List (List CommandSlot) :=
  [(List.replicate 8 CommandSlot.idle).set 7 ⟨true, 15, Vector.replicate commandTicks 0⟩,
    (List.replicate 8 CommandSlot.idle).set follower (CommandSlot.single 0 0)]

theorem spillRun_idle {follower s : Nat} (hs : 16 ≤ s) :
    slotCommand 8 (spillRun follower) s = CommandSlot.idle := by
  have hnone : (spillRun follower)[s / 8]? = none := List.getElem?_eq_none (by simp [spillRun]; omega)
  rw [slotCommand, hnone]
  rfl

theorem spillRun_lt {follower s : Nat} (hv : ValidSlot 8 (spillRun follower) s) : s < 16 := by
  by_contra hge
  rw [ValidSlot, spillRun_idle (by omega)] at hv
  exact Bool.noConfusion hv

theorem spillRun_spaced {follower : Nat}
    (h : ∀ s₂ < 16, ∀ s₁ < s₂, ValidSlot 8 (spillRun follower) s₁ →
      ValidSlot 8 (spillRun follower) s₂ → s₁ + commandTicks ≤ s₂) :
    Spaced 8 (spillRun follower) :=
  fun s₁ s₂ hlt hv₁ hv₂ => h s₂ (spillRun_lt hv₂) s₁ hlt hv₁ hv₂

theorem spillRun_quiet {follower : Nat}
    (h : ∀ s < 16, ¬ ValidSlot 8 (spillRun follower) s →
      slotCommand 8 (spillRun follower) s = CommandSlot.idle) : QuietIdle 8 (spillRun follower) := by
  intro s hv
  have hidle : slotCommand 8 (spillRun follower) s = CommandSlot.idle := by
    rcases Nat.lt_or_ge s 16 with hs | hs
    · exact h s hs hv
    · exact spillRun_idle hs
  rw [hidle]
  exact ⟨rfl, rfl⟩

theorem transparent_before_late_follower :
    SameBus 8 true false (spillRun 3) (spillRun 3) ∧ Intact 8 true (spillRun 3) := by
  have hq := spillRun_quiet (show ∀ s < 16, ¬ ValidSlot 8 (spillRun 3) s →
    slotCommand 8 (spillRun 3) s = CommandSlot.idle by decide)
  have hclear : SpillsClear 8 (spillRun 3) := by
    have hfar : ∀ s < 16, ∀ r < 16, (ValidSlot 8 (spillRun 3) s ∧ 5 ≤ s % 8) →
        (ValidSlot 8 (spillRun 3) r ∧ r < s + 8) → r + lookback < s + 8 := by decide
    intro s k pin hk hspill _ hhigh r hr hlt
    have hv := hq.valid hhigh
    simp only [commandTicks] at hk
    exact hfar s (spillRun_lt hv) r (spillRun_lt hr) ⟨hv, by omega⟩ ⟨hr, hlt⟩
  have hiff := masking_transparent_iff (by decide) (by decide)
    (show ∀ cycle ∈ spillRun 3, cycle.length = 8 by decide) (spillRun_spaced (by decide)) hq
  exact ⟨hiff.1.mpr hclear, hiff.2.mpr hclear⟩

theorem spill_cut_by_follower :
    (∀ cycle ∈ spillRun 4, cycle.length = 8) ∧ Spaced 8 (spillRun 4) ∧ QuietIdle 8 (spillRun 4) ∧
      ¬ SameBus 8 true false (spillRun 4) (spillRun 4) := by
  refine ⟨by decide, spillRun_spaced (by decide), spillRun_quiet (by decide), ?_⟩
  intro hsame
  obtain ⟨bus, hmasked, hunmasked⟩ := hsame 1 (by decide)
  have hdiffer : busAfter 8 true (spillRun 4) 1 ≠ busAfter 8 false (spillRun 4) 1 := by decide +kernel
  exact hdiffer (hmasked.trans hunmasked.symm)

end DramPhy
