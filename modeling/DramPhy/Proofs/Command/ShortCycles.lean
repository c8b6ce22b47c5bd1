import DramPhy.Proofs.Command.DropRule
import Mathlib.Tactic.IntervalCases

/-! Cycles of fewer than six phases. There the history of two cycles may begin between
a dropped command and the head that it was dropped behind. The command then passes for
a head itself, and in the cycle after its own it holds back a command that starts on a
free bus. -/

namespace DramPhy

/-- A command that is suppressed although none that was let through is on the bus. -/
def NeedlessDrop (phases : Nat) (cycles : List (List CommandSlot)) (s : Nat) : Prop :=
  Suppressed phases true cycles s ∧ ∀ r, LetThrough phases true cycles r → r < s → r + lookback < s

/-- Three commands of three cycles in turn: `g` is within reach of all commands of the cycle
after its own, and `h`, the first of these, is shortly before `s`. -/
structure RelayedDrop (phases : Nat) (cycles : List (List CommandSlot)) (g h s : Nat) : Prop where
  first : ValidSlot phases cycles g
  second : ValidSlot phases cycles h
  third : ValidSlot phases cycles s
  second_cycle : h / phases = g / phases + 1
  third_cycle : s / phases = h / phases + 1
  clear : ∀ r, r < g → g ≤ r + lookback → r / phases = g / phases → ¬ ValidSlot phases cycles r
  held : ∀ r, r / phases = h / phases → ValidSlot phases cycles r → h ≤ r ∧ r ≤ g + lookback
  reach : s ≤ h + lookback

variable {phases t g h r s : Nat} {cycles : List (List CommandSlot)} {a : Arbiter}

theorem cycle_eq_iff (hn : 0 < phases) :
    s / phases = t ↔ t * phases ≤ s ∧ s < t * phases + phases := by
  rw [Nat.div_eq_iff hn]
  omega

theorem WindowHead.lt_of_valid (hh : WindowHead phases cycles t h) (hr : ValidSlot phases cycles r)
    (hlt : r < h) (hin : t * phases ≤ r + phases) : r + lookback < h := by
  by_contra hge
  exact hh.2.2 r hlt (by omega) hin hr

theorem WindowHead.cycle_before (hn : 0 < phases) (hh : WindowHead phases cycles t h)
    (hlt : h < t * phases) : t = h / phases + 1 := by
  obtain ⟨c, rfl⟩ : ∃ c, t = c + 1 :=
    Nat.exists_eq_add_one.mpr (Nat.pos_of_ne_zero fun hzero => by simp [hzero] at hlt)
  have hin := hh.2.1
  rw [Nat.add_one_mul c phases] at hin hlt
  rw [(cycle_eq_iff hn).mpr ⟨show c * phases ≤ h by omega, hlt⟩]

theorem WindowHead.letThrough (ha : Arbiter.after phases true cycles = .ok a)
    (hs : WindowHead phases cycles (s / phases) s) : LetThrough phases true cycles s := by
  refine (letThrough_window_iff ha).mpr ⟨hs.1, ?_⟩
  rintro ⟨r, hr, hlt, hle⟩
  have := hs.lt_of_valid hr.1 hlt hr.2.1
  omega

/-- A needless drop goes back to a head of the window that was dropped itself. -/
theorem NeedlessDrop.exists_relayed (ha : Arbiter.after phases true cycles = .ok a)
    (hs : NeedlessDrop phases cycles s) : ∃ g h, RelayedDrop phases cycles g h s := by
  have hpos := (Arbiter.after_follows ha).pos
  obtain ⟨hsup, hfar⟩ := hs
  obtain ⟨b, hb⟩ := Arbiter.after_take ha (s / phases + 1)
  obtain ⟨hvalid, h, hh, hlt, hle⟩ := (suppressed_window_iff hb).mp hsup
  have hdropped : ∀ r, ValidSlot phases cycles r → r < s → s ≤ r + lookback →
      BehindWindowHead phases cycles (r / phases) r := by
    intro r hr hlt hle
    by_contra hfree
    have := hfar r ((letThrough_window_iff ha).mpr ⟨hr, hfree⟩) hlt
    omega
  have hstart := (cycle_eq_iff (s := s) hpos).mp rfl
  -- a head of the cycle of `s` would have been let through
  have hbefore : h < s / phases * phases := by
    by_contra hge
    have hsame : h / phases = s / phases := (cycle_eq_iff hpos).mpr ⟨by omega, by omega⟩
    rw [← hsame] at hh
    have := hfar h (hh.letThrough ha) hlt
    omega
  have hnext := hh.cycle_before hpos hbefore
  have hwindow : s / phases * phases = h / phases * phases + phases := by
    rw [hnext, Nat.add_one_mul]
  obtain ⟨g, hg, hgh, hreach⟩ := hdropped h hh.1 hlt hle
  -- `g` is older than the window of `s`, where `h` passes for a head
  have hgone : g < h / phases * phases := by
    by_contra hge
    have := hh.lt_of_valid hg.1 hgh (by omega)
    omega
  have hprevious := hg.cycle_before hpos hgone
  refine ⟨g, h, hg.1, hh.1, hvalid, hprevious, hnext, ?_, ?_, hle⟩
  · intro r hr hclose hsame
    have hrange := (cycle_eq_iff hpos).mp hsame
    exact hg.2.2 r hr hclose (by rw [hprevious, Nat.add_one_mul]; omega)
  · intro r hcycle hr
    have hrange := (cycle_eq_iff hpos).mp hcycle
    have hfirst : h ≤ r := by
      by_contra hearlier
      have := hh.lt_of_valid hr (by omega) (by omega)
      omega
    obtain ⟨q, hq, hqr, hqreach⟩ := hdropped r hr (by omega) (by omega)
    rw [hcycle] at hq
    have hqh : q ≤ h := by
      by_contra hgt
      have := hq.lt_of_valid hh.1 (by omega)
        (Nat.le_trans (Nat.div_mul_le_self h phases) (Nat.le_add_right h phases))
      omega
    have hqg : q ≤ g := by
      by_contra hgt
      have := hq.lt_of_valid hg.1 (by omega) hg.2.1
      omega
    exact ⟨hfirst, by omega⟩

theorem RelayedDrop.needlessDrop (ha : Arbiter.after phases true cycles = .ok a)
    (hd : RelayedDrop phases cycles g h s) : NeedlessDrop phases cycles s := by
  have hpos := (Arbiter.after_follows ha).pos
  have hn := (Arbiter.after_follows ha).lookback_le
  have hgrange := (cycle_eq_iff (s := g) hpos).mp rfl
  have hhrange := (cycle_eq_iff hpos).mp hd.second_cycle
  have hsrange := (cycle_eq_iff hpos).mp hd.third_cycle
  have hreach := hd.reach
  rw [hd.second_cycle] at hsrange
  simp only [Nat.add_one_mul] at hhrange hsrange
  have hg : WindowHead phases cycles (h / phases) g := by
    rw [hd.second_cycle]
    refine ⟨hd.first, by rw [Nat.add_one_mul]; omega, fun r hr hclose hin => ?_⟩
    rw [Nat.add_one_mul] at hin
    exact hd.clear r hr hclose ((cycle_eq_iff hpos).mpr ⟨by omega, by omega⟩)
  have hh : WindowHead phases cycles (s / phases) h := by
    rw [hd.third_cycle, hd.second_cycle]
    refine ⟨hd.second, by simp only [Nat.add_one_mul]; omega, fun r hr hclose hin hv => ?_⟩
    simp only [Nat.add_one_mul] at hin
    have hcycle : r / phases = h / phases := by
      rw [hd.second_cycle, cycle_eq_iff hpos, Nat.add_one_mul]
      omega
    have := (hd.held r hcycle hv).1
    omega
  obtain ⟨b, hb⟩ := Arbiter.after_take ha (s / phases + 1)
  refine ⟨(suppressed_window_iff hb).mpr ⟨hd.third, h, hh, by omega, hreach⟩, ?_⟩
  intro r hr hlt
  by_contra hclose
  obtain ⟨hv, hfree⟩ := (letThrough_window_iff ha).mp hr
  rcases Nat.lt_or_ge r (g / phases * phases + phases + phases) with hearly | hlate
  · have hcycle : r / phases = h / phases := by
      rw [hd.second_cycle, cycle_eq_iff hpos, Nat.add_one_mul]
      omega
    have hheld := hd.held r hcycle hv
    exact hfree ⟨g, by rwa [hcycle], by omega, hheld.2⟩
  · have hcycle : r / phases = s / phases := by
      rw [hd.third_cycle, hd.second_cycle, cycle_eq_iff hpos]
      simp only [Nat.add_one_mul]
      omega
    exact hfree ⟨h, by rwa [hcycle], by omega, by omega⟩

theorem needlessDrop_iff (ha : Arbiter.after phases true cycles = .ok a) :
    NeedlessDrop phases cycles s ↔ ∃ g h, RelayedDrop phases cycles g h s :=
  ⟨fun hs => hs.exists_relayed ha, fun ⟨_, _, hd⟩ => hd.needlessDrop ha⟩

/-- Six phases keep the first and the third cycle too far apart. -/
theorem RelayedDrop.phases_lt (hd : RelayedDrop phases cycles g h s) : phases < 6 := by
  by_contra hge
  have hpos : 0 < phases := by omega
  have hgrange := (cycle_eq_iff (s := g) hpos).mp rfl
  have hsrange := (cycle_eq_iff hpos).mp hd.third_cycle
  rw [hd.second_cycle] at hsrange
  simp only [Nat.add_one_mul] at hsrange
  have hreach := hd.reach
  have hheld := (hd.held h rfl hd.second).2
  simp only [lookback] at hreach hheld
  omega

/-- Commands on the last phase of a cycle, at the end of the reach of that one, and on phase 0. -/
def relayedRun (phases : Nat) : List (List CommandSlot) :=
  [phases - 1, phases - 3, 0].map fun start =>
    (List.range phases).map fun p => if p = start then CommandSlot.single 0 0 else CommandSlot.idle

theorem relayedRun_needlessDrop (hn : 3 ≤ phases) (h : phases < 6) :
    NeedlessDrop phases (relayedRun phases) (2 * phases) := by
  have hclosed : Suppressed phases true (relayedRun phases) (2 * phases) ∧ ∀ r < 2 * phases,
      LetThrough phases true (relayedRun phases) r → r + lookback < 2 * phases := by
    interval_cases phases <;> decide +kernel
  exact ⟨hclosed.1, fun r hr hlt => hclosed.2 r hlt hr⟩

theorem relayedRun_full : ∀ cycle ∈ relayedRun phases, cycle.length = phases := by
  intro cycle hc
  obtain ⟨_, -, rfl⟩ := List.mem_map.mp hc
  rw [List.length_map, List.length_range]

/-- A command is dropped needlessly exactly when the drop is relayed through the first command
of the cycle before. That can happen exactly in cycles of fewer than six phases. -/
theorem needless_drop_relayed (hn : 3 ≤ phases) (hw : phases ≤ 32) :
    (∀ cycles, (∀ cycle ∈ cycles, cycle.length = phases) →
      (phases * cycles.length < Count.limit → ∃ a, Arbiter.after phases true cycles = .ok a) ∧
      ∀ a, Arbiter.after phases true cycles = .ok a →
        ∀ s, NeedlessDrop phases cycles s ↔ ∃ g h, RelayedDrop phases cycles g h s) ∧
    ((∃ cycles a s, Arbiter.after phases true cycles = .ok a ∧ NeedlessDrop phases cycles s) ↔
      phases < 6) := by
  have hruns : ∀ cycles, (∀ cycle ∈ cycles, cycle.length = phases) →
      phases * cycles.length < Count.limit → ∃ a, Arbiter.after phases true cycles = .ok a := by
    intro cycles hfull hlen
    obtain ⟨a, ha, -⟩ := Arbiter.after_ok true (by simpa only [lookback] using hn) (by omega) hfull hlen
    exact ⟨a, ha⟩
  refine ⟨fun cycles hfull => ⟨hruns cycles hfull, fun a ha s => needlessDrop_iff ha⟩, ?_, ?_⟩
  · rintro ⟨cycles, a, s, ha, hs⟩
    obtain ⟨g, h, hd⟩ := (needlessDrop_iff ha).mp hs
    exact hd.phases_lt
  · intro hlt
    have hlen : phases * (relayedRun phases).length < Count.limit := by
      change phases * 3 < 2 ^ 64
      omega
    obtain ⟨a, ha⟩ := hruns (relayedRun phases) relayedRun_full hlen
    exact ⟨relayedRun phases, a, 2 * phases, ha, relayedRun_needlessDrop hn hlt⟩

theorem relayed_within_five_phases :
    NeedlessDrop 5 (relayedRun 5) 10 ∧ ∃ g h, RelayedDrop 5 (relayedRun 5) g h 10 := by
  obtain ⟨hdrops, -⟩ := needless_drop_relayed (show 3 ≤ 5 by decide) (by decide)
  obtain ⟨hruns, hiff⟩ := hdrops (relayedRun 5) relayedRun_full
  obtain ⟨a, ha⟩ := hruns (by decide)
  have hneedless := relayedRun_needlessDrop (show 3 ≤ 5 by decide) (by decide)
  exact ⟨hneedless, (hiff a ha 10).mp hneedless⟩

theorem dropped_on_free_bus : ¬ ∀ s, Suppressed 5 true (relayedRun 5) s →
    ∃ r, LetThrough 5 true (relayedRun 5) r ∧ r < s ∧ s ≤ r + lookback := by
  intro h
  obtain ⟨hsuppressed, hfar⟩ := relayedRun_needlessDrop (show 3 ≤ 5 by decide) (by decide)
  obtain ⟨r, hr, hlt, hle⟩ := h (2 * 5) hsuppressed
  have := hfar r hr hlt
  omega

end DramPhy
