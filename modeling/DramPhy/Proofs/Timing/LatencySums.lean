import DramPhy.Proofs.Timing.LatencyTicks
import Mathlib.Algebra.Group.Nat.Defs

/-! Sums of latencies over the unbounded numbers. A latency is a number of ticks written as
cycles and a remainder. Cycles and ticks are added apart before the carry is known, and still
a sum overflows only when it has no latency itself. -/

namespace DramPhy

/-- The latencies in use are those made from cycles and ticks, and the sums of others. -/
inductive Latency.Built {ratio : Nat} : Latency ratio → Prop
  | zero : Latency.Built (Latency.zero ratio)
  | make {cycles ticks : Nat} {l : Latency ratio} (h : Latency.make ratio cycles ticks = .ok l) :
    Latency.Built l
  | ofCycles {cycles : Nat} {l : Latency ratio} (h : Latency.ofCycles ratio cycles = .ok l) :
    Latency.Built l
  | add {a b l : Latency ratio} (ha : Latency.Built a) (hb : Latency.Built b) (h : a.add b = .ok l) :
    Latency.Built l

/-- The ticks that a latency stands for. Unlike its total they need not be a count. -/
def Latency.span {ratio : Nat} (l : Latency ratio) : Nat := l.cycles * ratio + l.ticks

/-- The latency of `n` ticks, if its cycles are a count. -/
def Latency.ofSpan (ratio n : Nat) : Checked (Latency ratio) :=
  if n / ratio < Count.limit then .ok ⟨n / ratio, n % ratio⟩ else .error .overflow

/-- A checked latency is the one of `n` ticks, or it overflows because no latency has so many. -/
structure Latency.Exact {ratio : Nat} (x : Checked (Latency ratio)) (n : Nat) : Prop where
  ok_iff : (∃ l, x = .ok l) ↔ n / ratio < 2 ^ 64
  span : ∀ l, x = .ok l → l.span = n
  overflow : ∀ fault, x = .error fault → fault = .overflow

/-- Both give the same value, or both overflow. -/
def Checked.Agrees {α : Type} (x y : Checked α) : Prop :=
  (∃ a, x = .ok a ∧ y = .ok a) ∨ x = .error .overflow ∧ y = .error .overflow

variable {ratio cycles ticks m n : Nat} {a b c l : Latency ratio} {x y : Checked (Latency ratio)}

theorem Latency.total_eq (l : Latency ratio) : l.total = Count.ofExact l.span := by
  by_cases hwhole : l.cycles * ratio < Count.limit
  · have hmul : Count.mul l.cycles ratio = .ok (l.cycles * ratio) := Count.mul_eq_ok.mpr ⟨hwhole, rfl⟩
    rw [Latency.total, hmul, ok_bind]
    rfl
  · have hmul : Count.mul l.cycles ratio = .error .overflow := if_neg hwhole
    have hspan : ¬ l.span < Count.limit := by
      rw [Latency.span]
      omega
    rw [Latency.total, hmul, error_bind, Count.ofExact, if_neg hspan]

theorem Latency.Canonical.split (h : l.Canonical) :
    l.span / ratio = l.cycles ∧ l.span % ratio = l.ticks := by
  have hpos : 0 < ratio := Nat.zero_lt_of_lt h
  rw [Nat.div_mod_unique hpos, Latency.span, Nat.mul_comm, Nat.add_comm]
  exact ⟨rfl, h⟩

theorem Latency.Canonical.eq_iff (ha : a.Canonical) (hb : b.Canonical) :
    a = b ↔ a.span = b.span := by
  constructor
  · intro h
    rw [h]
  · intro h
    obtain ⟨hcycles, hticks⟩ := ha.split
    rw [h, hb.split.1] at hcycles
    rw [h, hb.split.2] at hticks
    cases a
    cases b
    simp_all

theorem Latency.ofSpan_eq_ok (hpos : 1 ≤ ratio) : Latency.ofSpan ratio n = .ok l ↔
    n / ratio < Count.limit ∧ l.Canonical ∧ l.span = n := by
  by_cases hroom : n / ratio < Count.limit
  · rw [Latency.ofSpan, if_pos hroom, Except.ok.injEq]
    constructor
    · intro h
      rw [← h, Latency.span, Latency.Canonical]
      exact ⟨hroom, Nat.mod_lt n hpos, Nat.div_add_mod' n ratio⟩
    · rintro ⟨-, hcanonical, rfl⟩
      obtain ⟨hcycles, hticks⟩ := hcanonical.split
      rw [hcycles, hticks]
  · rw [Latency.ofSpan, if_neg hroom]
    simp [hroom]

theorem Latency.exists_ofSpan : (∃ l, Latency.ofSpan ratio n = .ok l) ↔ n / ratio < Count.limit := by
  by_cases hroom : n / ratio < Count.limit <;> simp [Latency.ofSpan, hroom]

theorem Latency.ofSpan_exact (hpos : 1 ≤ ratio) : Latency.Exact (Latency.ofSpan ratio n) n := by
  refine ⟨Latency.exists_ofSpan, fun l hl => ((Latency.ofSpan_eq_ok hpos).mp hl).2.2, ?_⟩
  intro fault hfault
  by_cases hroom : n / ratio < Count.limit
  · rw [Latency.ofSpan, if_pos hroom] at hfault
    cases hfault
  · rw [Latency.ofSpan, if_neg hroom, Except.error.injEq] at hfault
    exact hfault.symm

theorem Latency.agrees_of_ofSpan (hx : x = Latency.ofSpan ratio n) (hy : y = Latency.ofSpan ratio n) :
    Checked.Agrees x y := by
  rw [hx, hy]
  by_cases hroom : n / ratio < Count.limit
  · exact .inl ⟨_, if_pos hroom, if_pos hroom⟩
  · exact .inr ⟨if_neg hroom, if_neg hroom⟩

theorem Latency.make_eq_ofSpan (hpos : 1 ≤ ratio) :
    Latency.make ratio cycles ticks = Latency.ofSpan ratio (cycles * ratio + ticks) := by
  have hdiv : (cycles * ratio + ticks) / ratio = cycles + ticks / ratio := by
    rw [Nat.mul_comm, Nat.mul_add_div hpos]
  have hmod : (cycles * ratio + ticks) % ratio = ticks % ratio := by
    rw [Nat.mul_comm, Nat.mul_add_mod]
  have hrequire : require (1 ≤ ratio) .positiveRatio = .ok () := require_eq_ok.mpr hpos
  rw [Latency.make, hrequire, ok_bind, Latency.ofSpan, hdiv, hmod, Count.add, Count.ofExact]
  split_ifs
  · rfl
  · rfl

/-- The remainders of two latencies add up to less than two cycles, so as long as these are
a count the sum fails for the cycles alone. -/
theorem Latency.add_eq_ofSpan (hmax : ratio ≤ 2 ^ 63) (ha : a.Canonical) (hb : b.Canonical) :
    a.add b = Latency.ofSpan ratio (a.span + b.span) := by
  have hpos : 0 < ratio := Nat.zero_lt_of_lt ha
  have hspan : (a.cycles + b.cycles) * ratio + (a.ticks + b.ticks) = a.span + b.span := by
    rw [Nat.add_mul, Latency.span, Latency.span]
    omega
  by_cases hcycles : a.cycles + b.cycles < Count.limit
  · have hticks : a.ticks + b.ticks < Count.limit := by
      simp only [Latency.Canonical, Count.limit] at *
      omega
    have hwhole : Count.add a.cycles b.cycles = .ok (a.cycles + b.cycles) :=
      Count.add_eq_ok.mpr ⟨hcycles, rfl⟩
    have hrest : Count.add a.ticks b.ticks = .ok (a.ticks + b.ticks) :=
      Count.add_eq_ok.mpr ⟨hticks, rfl⟩
    rw [Latency.add, hwhole, ok_bind, hrest, ok_bind, Latency.make_eq_ofSpan hpos, hspan]
  · have hwhole : Count.add a.cycles b.cycles = .error .overflow := if_neg hcycles
    have hle : a.cycles + b.cycles ≤ (a.span + b.span) / ratio := by
      rw [Nat.le_div_iff_mul_le hpos, ← hspan]
      exact Nat.le_add_right _ _
    rw [Latency.add, hwhole, error_bind, Latency.ofSpan, if_neg (by omega)]

/-- A sum that goes on from a latency goes on from its ticks. What overflows once does so
however much is added. -/
theorem Latency.ofSpan_bind (hpos : 1 ≤ ratio) {f : Latency ratio → Checked (Latency ratio)}
    (hf : ∀ s : Latency ratio, s.Canonical → f s = Latency.ofSpan ratio (s.span + m)) :
    Latency.ofSpan ratio n >>= f = Latency.ofSpan ratio (n + m) := by
  by_cases hroom : n / ratio < Count.limit
  · obtain ⟨s, hs⟩ := Latency.exists_ofSpan.mpr hroom
    obtain ⟨-, hcanonical, hspan⟩ := (Latency.ofSpan_eq_ok hpos).mp hs
    rw [hs, ok_bind, hf s hcanonical, hspan]
  · have hmore : n / ratio ≤ (n + m) / ratio := Nat.div_le_div_right (Nat.le_add_right n m)
    rw [Latency.ofSpan, if_neg hroom, error_bind, Latency.ofSpan, if_neg (by omega)]

theorem Latency.Built.canonical (hpos : 1 ≤ ratio) (h : l.Built) : l.Canonical := by
  induction h with
  | zero => exact hpos
  | make h => exact Latency.make_canonical h
  | ofCycles h => exact Latency.make_canonical h
  | add _ _ h _ _ => exact Latency.add_canonical h

section

variable (hpos : 1 ≤ ratio) (hmax : ratio ≤ 2 ^ 63) (ha : a.Canonical) (hb : b.Canonical)

include hmax ha hb

theorem Latency.add_agrees_comm : Checked.Agrees (a.add b) (b.add a) := by
  refine Latency.agrees_of_ofSpan (Latency.add_eq_ofSpan hmax ha hb) ?_
  rw [Latency.add_eq_ofSpan hmax hb ha, Nat.add_comm]

variable (hc : c.Canonical)

include hpos hc

theorem Latency.add_agrees_assoc :
    Checked.Agrees (a.add b >>= fun s => s.add c) (b.add c >>= fun s => a.add s) := by
  have hfirst : (a.add b >>= fun s => s.add c) =
      Latency.ofSpan ratio (a.span + b.span + c.span) := by
    rw [Latency.add_eq_ofSpan hmax ha hb]
    exact Latency.ofSpan_bind hpos fun s hs => Latency.add_eq_ofSpan hmax hs hc
  have hlast : (b.add c >>= fun s => a.add s) = Latency.ofSpan ratio (b.span + c.span + a.span) := by
    rw [Latency.add_eq_ofSpan hmax hb hc]
    refine Latency.ofSpan_bind hpos fun s hs => ?_
    rw [Latency.add_eq_ofSpan hmax ha hs, Nat.add_comm]
  refine Latency.agrees_of_ofSpan hfirst ?_
  rw [hlast, Nat.add_comm _ a.span, Nat.add_assoc]

end

/-- Making and adding latencies is exact: each fails, and by overflow, exactly when no latency
has so many ticks, and neither order nor grouping of a sum makes a difference. -/
theorem latency_addition_exact (hpos : 1 ≤ ratio) (hmax : ratio ≤ 2 ^ 63) :
    (∀ l : Latency ratio, l.Built → l.ticks < ratio ∧ l.total = Count.ofExact l.span) ∧
    (∀ cycles ticks : Nat,
      ((∃ l, Latency.make ratio cycles ticks = .ok l) ↔ cycles + ticks / ratio < 2 ^ 64) ∧
      Latency.Exact (Latency.make ratio cycles ticks) (cycles * ratio + ticks)) ∧
    ∀ a b : Latency ratio, a.Built → b.Built →
      Latency.Exact (a.add b) (a.span + b.span) ∧
      (a = b ↔ a.span = b.span) ∧
      Checked.Agrees (a.add b) (b.add a) ∧
      ∀ c : Latency ratio, c.Built →
        Checked.Agrees (a.add b >>= fun s => s.add c) (b.add c >>= fun s => a.add s) := by
  refine ⟨fun l hl => ⟨hl.canonical hpos, l.total_eq⟩, fun cycles ticks => ?_, fun a b ha hb => ?_⟩
  · have hexact : Latency.Exact (Latency.make ratio cycles ticks) (cycles * ratio + ticks) := by
      rw [Latency.make_eq_ofSpan hpos]
      exact Latency.ofSpan_exact hpos
    have hdiv : (cycles * ratio + ticks) / ratio = cycles + ticks / ratio := by
      rw [Nat.mul_comm, Nat.mul_add_div hpos]
    exact ⟨by rw [hexact.ok_iff, hdiv], hexact⟩
  · have hcanonical := ha.canonical hpos
    have hcanonical' := hb.canonical hpos
    have hexact : Latency.Exact (a.add b) (a.span + b.span) := by
      rw [Latency.add_eq_ofSpan hmax hcanonical hcanonical']
      exact Latency.ofSpan_exact hpos
    refine ⟨hexact, hcanonical.eq_iff hcanonical', ?_, fun c hc => ?_⟩
    · exact Latency.add_agrees_comm hmax hcanonical hcanonical'
    · exact Latency.add_agrees_assoc hpos hmax hcanonical hcanonical' (hc.canonical hpos)

/-- A latency with as many ticks in its remainder as can be, two cycles short of the limit. -/
def fullLatency : Latency (2 ^ 63) := ⟨2 ^ 64 - 2, 2 ^ 63 - 1⟩

def fullRemainder : Latency (2 ^ 63) := ⟨0, 2 ^ 63 - 1⟩

/-- Their sum is two ticks short of the limit, so two ticks more overflow in either grouping. -/
theorem full_latencies_add :
    (∃ l, fullLatency.add fullRemainder = .ok l ∧ l.span + 2 = 2 ^ 64 * 2 ^ 63) ∧
      (fullLatency.add fullRemainder >>= fun s => s.add ⟨0, 2⟩) = .error .overflow ∧
      (fullRemainder.add ⟨0, 2⟩ >>= fun s => fullLatency.add s) = .error .overflow := by
  have hfull : fullLatency.Built :=
    .make (show Latency.make (2 ^ 63) (2 ^ 64 - 2) (2 ^ 63 - 1) = .ok fullLatency by decide)
  have hremainder : fullRemainder.Built :=
    .make (show Latency.make (2 ^ 63) 0 (2 ^ 63 - 1) = .ok fullRemainder by decide)
  have htwo : Latency.Built (⟨0, 2⟩ : Latency (2 ^ 63)) :=
    .make (show Latency.make (2 ^ 63) 0 2 = .ok ⟨0, 2⟩ by decide)
  obtain ⟨-, -, hsums⟩ := latency_addition_exact (show 1 ≤ 2 ^ 63 by decide) (Nat.le_refl (2 ^ 63))
  obtain ⟨hexact, -, -, hgrouped⟩ := hsums fullLatency fullRemainder hfull hremainder
  obtain ⟨l, hl⟩ := hexact.ok_iff.mpr (by decide)
  have hspan : l.span = fullLatency.span + fullRemainder.span := hexact.span l hl
  have hover : (fullLatency.add fullRemainder >>= fun s => s.add ⟨0, 2⟩) = .error .overflow := by
    decide
  refine ⟨⟨l, hl, by rw [hspan]; decide⟩, hover, ?_⟩
  rcases hgrouped ⟨0, 2⟩ htwo with ⟨s, hs, -⟩ | ⟨-, hother⟩
  · rw [hover] at hs
    cases hs
  · exact hother

end DramPhy
