import DramPhy.Proofs.Command.Decision

/-! When the commands that are let through keep off each other. The arbiter holds
back a command only behind a head, and a command that is let through behind other
valid ones is no head itself, so it holds nothing back: a pile-up that goes on
past the reach of its head puts overlapping commands on the pads. -/

namespace DramPhy

def Exclusive (phases : Nat) (masking : Bool) (cycles : List (List CommandSlot)) : Prop :=
  ∀ s₁ s₂, s₁ < s₂ → LetThrough phases masking cycles s₁ → LetThrough phases masking cycles s₂ →
    s₁ + commandTicks ≤ s₂

theorem both_letThrough_iff {phases s₁ s₂ : Nat} {cycles : List (List CommandSlot)} {a : Arbiter}
    (hn : 2 * lookback ≤ phases) (h : Arbiter.after phases true cycles = .ok a)
    (hlt : s₁ < s₂) (hclose : s₂ ≤ s₁ + lookback) :
    LetThrough phases true cycles s₁ ∧ LetThrough phases true cycles s₂ ↔
      ValidSlot phases cycles s₁ ∧ ValidSlot phases cycles s₂ ∧
        ∀ r, HeadSlot phases cycles r → s₁ ≤ r + lookback → s₂ ≤ r := by
  rw [letThrough_iff hn h, letThrough_iff hn h]
  constructor
  · rintro ⟨⟨hv₁, hb₁⟩, hv₂, hb₂⟩
    refine ⟨hv₁, hv₂, ?_⟩
    intro r hr hreach
    by_contra hge
    rcases Nat.lt_or_ge r s₁ with hr₁ | hr₁
    · exact hb₁ ⟨r, hr, hr₁, hreach⟩
    · exact hb₂ ⟨r, hr, by omega, by omega⟩
  · rintro ⟨hv₁, hv₂, hno⟩
    refine ⟨⟨hv₁, ?_⟩, hv₂, ?_⟩
    · rintro ⟨r, hr, hlt', hle⟩
      have := hno r hr hle
      omega
    · rintro ⟨r, hr, hlt', hle⟩
      have := hno r hr (by omega)
      omega

/-- A run is exclusive exactly when every two close valid commands have a head
within reach of the earlier one and before the later one. -/
theorem exclusive_iff {phases : Nat} {cycles : List (List CommandSlot)} {a : Arbiter}
    (hn : 6 ≤ phases) (h : Arbiter.after phases true cycles = .ok a) :
    Exclusive phases true cycles ↔
      ∀ s₁ s₂, s₁ < s₂ → s₂ < s₁ + commandTicks →
        ValidSlot phases cycles s₁ → ValidSlot phases cycles s₂ →
        ∃ r, HeadSlot phases cycles r ∧ s₁ ≤ r + lookback ∧ r < s₂ := by
  have hboth := fun (s₁ s₂ : Nat) (hlt : s₁ < s₂) =>
    both_letThrough_iff (show 2 * lookback ≤ phases by simpa only [lookback] using hn) h hlt
  constructor
  · intro hex s₁ s₂ hlt hclose hv₁ hv₂
    simp only [commandTicks] at hclose
    by_contra hno
    have hthrough := (hboth s₁ s₂ hlt (by simp only [lookback]; omega)).mpr
      ⟨hv₁, hv₂, fun r hr hle => by_contra fun hge => hno ⟨r, hr, hle, by omega⟩⟩
    have := hex s₁ s₂ hlt hthrough.1 hthrough.2
    simp only [commandTicks] at this
    omega
  · intro hcover s₁ s₂ hlt h₁ h₂
    by_contra hge
    simp only [commandTicks] at hge
    obtain ⟨hv₁, hv₂, hno⟩ := (hboth s₁ s₂ hlt (by simp only [lookback]; omega)).mp ⟨h₁, h₂⟩
    obtain ⟨r, hr, hle, hlt'⟩ := hcover s₁ s₂ hlt (by simp only [commandTicks]; omega) hv₁ hv₂
    have := hno r hr hle
    omega

def commandsOn (slots : List Nat) : List CommandSlot :=
  (List.range 8).map fun p => if p ∈ slots then CommandSlot.single 0 0 else CommandSlot.idle

theorem exclusive_of_three_in_row :
    (∃ a, Arbiter.after 8 true [commandsOn [0, 3, 6]] = .ok a) ∧
      ¬ LetThrough 8 true [commandsOn [0, 3, 6]] 3 ∧ LetThrough 8 true [commandsOn [0, 3, 6]] 6 ∧
      Exclusive 8 true [commandsOn [0, 3, 6]] := by
  obtain ⟨a, ha, -⟩ := Arbiter.after_ok true (show lookback ≤ 8 by decide) (by decide)
    (show ∀ cycle ∈ [commandsOn [0, 3, 6]], cycle.length = 8 by decide) (by decide)
  refine ⟨⟨a, ha⟩, by decide +kernel, by decide +kernel, ?_⟩
  refine (exclusive_iff (by decide) ha).mpr ?_
  have hreach : ∀ s₂ < 8, ∀ s₁ < s₂, ValidSlot 8 [commandsOn [0, 3, 6]] s₁ →
      ValidSlot 8 [commandsOn [0, 3, 6]] s₂ → s₁ ≤ 0 + lookback := by decide
  intro s₁ s₂ hlt _ hv₁ hv₂
  have hs : s₂ < 8 := by simpa using validSlot_lt hv₂
  exact ⟨0, by decide, hreach s₂ hs s₁ hlt hv₁ hv₂, by omega⟩

theorem four_in_row_not_exclusive : ¬ Exclusive 8 true [commandsOn [0, 3, 6, 7]] := by
  intro h
  have := h 6 7 (by decide) (by decide +kernel) (by decide +kernel)
  simp only [commandTicks] at this
  omega

end DramPhy
