import DramPhy.Latency
import DramPhy.Proofs.Success

/-! The ticks that a latency stands for. Whatever makes a latency carries the
surplus ticks, so the remainder of every latency in use is below its ratio. -/

namespace DramPhy

variable {ratio cycles ticks : Nat} {a b l : Latency ratio}

def Latency.Canonical (l : Latency ratio) : Prop := l.ticks < ratio

instance (l : Latency ratio) : Decidable l.Canonical :=
  inferInstanceAs (Decidable (_ < _))

theorem Latency.make_eq_ok : Latency.make ratio cycles ticks = .ok l ↔
    1 ≤ ratio ∧ cycles + ticks / ratio < Count.limit ∧
      ⟨cycles + ticks / ratio, ticks % ratio⟩ = l := by
  simp only [Latency.make, bind_eq_ok, require_eq_ok, pure_eq_ok, Count.add_eq_ok, exists_const]
  refine and_congr_right fun _ => ?_
  constructor
  · rintro ⟨_, ⟨hroom, rfl⟩, rfl⟩
    exact ⟨hroom, rfl⟩
  · rintro ⟨hroom, rfl⟩
    exact ⟨_, ⟨hroom, rfl⟩, rfl⟩

theorem Latency.make_canonical (h : Latency.make ratio cycles ticks = .ok l) : l.Canonical := by
  obtain ⟨hpos, -, rfl⟩ := Latency.make_eq_ok.mp h
  exact Nat.mod_lt _ hpos

theorem Latency.add_canonical (h : a.add b = .ok l) : l.Canonical := by
  simp only [Latency.add, bind_eq_ok] at h
  obtain ⟨_, -, _, -, hmake⟩ := h
  exact Latency.make_canonical hmake

theorem Latency.total_ok (h : l.cycles * ratio + l.ticks < Count.limit) :
    l.total = .ok (l.cycles * ratio + l.ticks) := by
  have hwhole : Count.mul l.cycles ratio = .ok (l.cycles * ratio) :=
    Count.mul_eq_ok.mpr ⟨by omega, rfl⟩
  rw [Latency.total, hwhole, ok_bind]
  exact Count.add_eq_ok.mpr ⟨h, rfl⟩

end DramPhy
