import DramPhy.Proofs.Timing.Borrowing
import Mathlib.Algebra.GroupWithZero.Nat

/-! The timing equation of an access. As long as the ticks of an access are few
enough for signed arithmetic, the whole cycles and the phase make up for exactly
the ticks from the command to the data. -/

namespace DramPhy

theorem build_eq_ok {α : Type} {x : Checked α} {a : α} : x.build = .ok a ↔ x = .ok a := by
  cases x <;> simp [Checked.build, Except.mapError]

theorem foldlM_add_ok {ticks : Nat} {extra : List Nat} (h : ticks + extra.sum < Count.limit) :
    extra.foldlM Count.add ticks = .ok (ticks + extra.sum) := by
  induction extra generalizing ticks with
  | nil => rfl
  | cons x extra ih =>
    rw [List.sum_cons, ← Nat.add_assoc] at h ⊢
    have hadd : Count.add ticks x = .ok (ticks + x) := Count.add_eq_ok.mpr ⟨by omega, rfl⟩
    rw [List.foldlM_cons, hadd, ok_bind, ih h]

theorem wholeCycles_ok {phases cas : Nat} (hpos : 0 < phases)
    (hcas : ((cas + phases : Nat) : Int) < Offset.limit) :
    wholeCycles phases cas = .ok ((cas + phases - 1) / phases : Nat) := by
  have hsum : Count.add cas phases = .ok (cas + phases) :=
    Count.add_eq_ok.mpr ⟨by simp only [Offset.limit, Count.limit] at *; omega, rfl⟩
  have hup : Count.sub (cas + phases) 1 = .ok (cas + phases - 1) := Count.sub_eq_ok.mpr ⟨by omega, rfl⟩
  have hwhole : Count.div (cas + phases - 1) phases = .ok ((cas + phases - 1) / phases) :=
    Count.div_eq_ok.mpr ⟨by omega, rfl⟩
  have hle : (cas + phases - 1) / phases ≤ cas + phases - 1 := Nat.div_le_self _ _
  rw [wholeCycles, hsum, ok_bind, hup, ok_bind, hwhole, ok_bind, Count.toOffset_of_lt (by omega)]
  rfl

theorem issuePhase_ok {phases cas : Nat} {cycles : Int} (hphases : (phases : Int) < Offset.limit)
    (hcas : (cas : Int) < Offset.limit) (hpos : 0 ≤ cycles * phases)
    (hslots : cycles * phases < Offset.limit) :
    issuePhase phases cycles cas = .ok (cycles * phases - cas) := by
  have hmul : Offset.mul cycles phases = .ok (cycles * phases) :=
    Offset.mul_eq_ok.mpr ⟨⟨by simp only [Offset.limit]; omega, hslots⟩, rfl⟩
  rw [issuePhase, Count.toOffset_of_lt hphases, Count.toOffset_of_lt hcas, hmul, ok_bind]
  exact Offset.sub_eq_ok.mpr ⟨by omega, rfl⟩

/-- Where an access starts out before it borrows. The whole cycles are those of its CAS
latency alone. -/
theorem accessPhase_ok {cas : Nat} {extra : List Nat}
    (hticks : ((cas + extra.sum + phasesPerCycle : Nat) : Int) < Offset.limit) :
    ∃ whole : Nat, whole ≤ cas ∧ whole * phasesPerCycle < cas + phasesPerCycle ∧
      accessPhase cas extra =
        .ok (whole * phasesPerCycle - (cas + extra.sum : Nat), (whole : Int)) := by
  have hcycles : wholeCycles phasesPerCycle cas =
      .ok ((cas + phasesPerCycle - 1) / phasesPerCycle : Nat) := wholeCycles_ok (by decide) (by omega)
  have hsum : extra.foldlM Count.add cas = .ok (cas + extra.sum) :=
    foldlM_add_ok (by simp only [Offset.limit, Count.limit] at *; omega)
  have hwhole : (cas + phasesPerCycle - 1) / phasesPerCycle * phasesPerCycle < cas + phasesPerCycle := by
    simp only [phasesPerCycle]
    omega
  have hphase : issuePhase phasesPerCycle ((cas + phasesPerCycle - 1) / phasesPerCycle : Nat)
      (cas + extra.sum) = .ok (((cas + phasesPerCycle - 1) / phasesPerCycle : Nat) * phasesPerCycle -
        (cas + extra.sum : Nat)) := issuePhase_ok (by decide) (by omega) (by omega) (by omega)
  refine ⟨_, ?_, hwhole, ?_⟩
  · simp only [phasesPerCycle]
    omega
  · rw [accessPhase, hcycles, ok_bind, hsum, ok_bind, hphase]
    rfl

/-- An access whose ticks are few enough for signed arithmetic finds its phase, and cycles
and phase make up for its ticks. -/
theorem access_ok (cas : Nat) (extra : List Nat)
    (hticks : ((cas + extra.sum + phasesPerCycle : Nat) : Int) < Offset.limit) :
    ∃ (phase cycles : Int) (p c : Nat), accessPhase cas extra = .ok (phase, cycles) ∧
      borrowCycles phasesPerCycle phase cycles = .ok ((p : Int), (c : Int)) ∧ p < phasesPerCycle ∧
      (c : Int) < Offset.limit ∧ phasesPerCycle * c = p + (cas + extra.sum) := by
  obtain ⟨whole, hle, hwhole, haccess⟩ := accessPhase_ok hticks
  generalize hphase : (whole * phasesPerCycle - (cas + extra.sum : Nat) : Int) = phase at haccess
  have hpos : 0 < phasesPerCycle := by decide
  have hmore := borrowed_nonneg hpos phase
  have hnonneg := borrowed_phase_nonneg hpos phase
  have hlt := borrowed_phase_lt hpos (show phase < phasesPerCycle by omega)
  have hborrow := borrowCycles_eq hpos (by decide)
    (show -Offset.limit ≤ (whole : Int) by simp only [Offset.limit]; omega) (by omega) phase
  obtain ⟨p, hp⟩ := Int.eq_ofNat_of_zero_le hnonneg
  obtain ⟨c, hc⟩ := Int.eq_ofNat_of_zero_le (show 0 ≤ whole + borrowed phasesPerCycle phase by omega)
  have hsum : phasesPerCycle * c = p + (cas + extra.sum) := by
    simp only [phasesPerCycle] at *
    omega
  have hroom : (c : Int) < Offset.limit := by
    simp only [phasesPerCycle] at *
    omega
  rw [hp, hc, if_pos hroom] at hborrow
  exact ⟨phase, whole, p, c, haccess, hborrow, by omega, hroom, hsum⟩

theorem access_eq_ok {cas : Nat} {extra : List Nat} {phase cycles p c : Int}
    (h : accessPhase cas extra = .ok (phase, cycles))
    (hborrow : borrowCycles phasesPerCycle phase cycles = .ok (p, c))
    (hticks : ((cas + extra.sum + phasesPerCycle : Nat) : Int) < Offset.limit) :
    Offset.toCount p < phasesPerCycle ∧ Offset.toCount c = c ∧
      phasesPerCycle * Offset.toCount c = Offset.toCount p + (cas + extra.sum) := by
  obtain ⟨phase', cycles', p', c', haccess, hfound, hp, hc, hsum⟩ := access_ok cas extra hticks
  obtain ⟨rfl, rfl⟩ := Prod.mk.inj (Except.ok.inj (haccess.symm.trans h))
  obtain ⟨rfl, rfl⟩ := Prod.mk.inj (Except.ok.inj (hfound.symm.trans hborrow))
  have hsmall : (p' : Int) < Offset.limit := by
    simp only [phasesPerCycle, Offset.limit] at *
    omega
  rw [Offset.toCount_natCast hc, Offset.toCount_natCast hsmall]
  exact ⟨hp, rfl, hsum⟩

variable {row : CasRow} {request : TimingRequest} {timing : Timing}

/-- Everything that a resolved row determines. -/
theorem resolveRow_eq_ok (h : resolveRow row request = .ok timing) : ∃ rd cl wr cwl rd' cl' wr' cwl',
    accessPhase row.cl [request.commandTicks, request.serializer.ticks, request.deserializer.ticks] =
      .ok (rd, cl) ∧
    accessPhase row.cwl [request.commandTicks] = .ok (wr, cwl) ∧
    borrowCycles phasesPerCycle wr cwl = .ok (wr', cwl') ∧
    borrowCycles phasesPerCycle rd cl = .ok (rd', cl') ∧ 1 ≤ cwl' ∧
    timing = {
      cl := row.cl
      cwl := row.cwl
      clCycles := Offset.toCount cl'
      cwlCycles := Offset.toCount cwl'
      rdPhase := Offset.toCount rd'
      wrPhase := Offset.toCount wr'
      readLatency := commandCycles + request.serializer.cycles + Offset.toCount cl' +
        (request.deserializer.cycles + slipCycles)
      writeLatency := Offset.toCount cwl'
      commandTicks := request.commandTicks
      writeTap := Offset.toCount (cwl' - 1) } := by
  simp only [resolveRow, bind_eq_ok, build_eq_ok, Prod.exists] at h
  obtain ⟨rd, cl, hread, wr, cwl, hwrite, wr', cwl', hborrow, rd', cl', hborrow', _, hserializer, _, hpads,
    _, hdeserializer, _, hlatency, tap, htap, h⟩ := h
  obtain ⟨-, rfl⟩ := Count.add_eq_ok.mp hserializer
  obtain ⟨-, rfl⟩ := Count.add_eq_ok.mp hpads
  obtain ⟨-, rfl⟩ := Count.add_eq_ok.mp hdeserializer
  obtain ⟨-, rfl⟩ := Count.add_eq_ok.mp hlatency
  obtain ⟨-, rfl⟩ := Offset.sub_eq_ok.mp htap
  by_cases hneg : cwl' - 1 < 0
  · rw [if_pos hneg] at h
    cases h
  · rw [if_neg hneg, pure_eq_ok] at h
    exact ⟨rd, cl, wr, cwl, rd', cl', wr', cwl', hread, hwrite, hborrow, hborrow', by omega, h.symm⟩

theorem resolveRow_cwl (h : resolveRow row request = .ok timing) : timing.cwl = row.cwl := by
  obtain ⟨_, _, _, _, _, _, _, _, -, -, -, -, -, rfl⟩ := resolveRow_eq_ok h
  rfl

/-- The write latency covers the command and the CAS latency, from the phase that
writes are issued on. -/
theorem resolveRow_write (h : resolveRow row request = .ok timing)
    (hticks : ((row.cwl + request.commandTicks + phasesPerCycle : Nat) : Int) < Offset.limit) :
    timing.wrPhase < phasesPerCycle ∧ timing.writeLatency = timing.writeTap + 1 ∧
      phasesPerCycle * timing.writeLatency = timing.wrPhase + request.commandTicks + row.cwl := by
  obtain ⟨_, _, _, _, _, _, _, cwl, -, hwrite, hborrow, -, hpos, rfl⟩ := resolveRow_eq_ok h
  obtain ⟨hphase, hcwl, hsum⟩ := access_eq_ok hwrite hborrow (by simpa using hticks)
  simp only [List.sum_cons, List.sum_nil] at hsum
  have htap : Offset.toCount (cwl - 1) = Offset.toCount cwl - 1 := by
    have hcast : cwl - 1 = (Offset.toCount cwl - 1 : Nat) := by omega
    rw [hcast, Offset.toCount_natCast]
    simp only [phasesPerCycle, Offset.limit] at *
    omega
  refine ⟨hphase, ?_, by simp only; omega⟩
  simp only [htap]
  omega

theorem resolveRow_cl (h : resolveRow row request = .ok timing) : timing.cl = row.cl := by
  obtain ⟨_, _, _, _, _, _, _, _, -, -, -, -, -, rfl⟩ := resolveRow_eq_ok h
  rfl

/-- The read latency covers the command, the CAS latency and the way through serializer
and deserializer, from the phase that reads are issued on. Two cycles of it are the
PHY's own. -/
theorem resolveRow_read (h : resolveRow row request = .ok timing)
    (hticks : ((row.cl + request.commandTicks + request.serializer.ticks +
      request.deserializer.ticks + phasesPerCycle : Nat) : Int) < Offset.limit) :
    timing.rdPhase < phasesPerCycle ∧ 2 ≤ timing.readLatency ∧
      phasesPerCycle * timing.readLatency = 2 * phasesPerCycle + timing.rdPhase +
        request.commandTicks + row.cl +
        (request.serializer.cycles * phasesPerCycle + request.serializer.ticks) +
        (request.deserializer.cycles * phasesPerCycle + request.deserializer.ticks) := by
  obtain ⟨_, _, _, _, _, _, _, _, hread, -, -, hborrow, -, rfl⟩ := resolveRow_eq_ok h
  obtain ⟨hphase, -, hsum⟩ := access_eq_ok hread hborrow (by
    simp only [List.sum_cons, List.sum_nil]
    omega)
  simp only [List.sum_cons, List.sum_nil, phasesPerCycle, commandCycles, slipCycles] at *
  omega

theorem resolveRow_tap (h : resolveRow row request = .ok timing) :
    (timing.writeTap : Int) + 1 < Offset.limit := by
  obtain ⟨_, _, wr, cwl, _, _, wr', cwl', -, hwrite, hborrow, -, hpos, rfl⟩ := resolveRow_eq_ok h
  simp only [accessPhase, wholeCycles, bind_eq_ok, pure_eq_ok, Prod.mk.injEq] at hwrite
  obtain ⟨_, ⟨_, -, _, -, whole, -, rfl⟩, _, -, _, -, -, rfl⟩ := hwrite
  obtain ⟨-, -, -, hcwl, -⟩ := borrowCycles_eq_ok (by decide) (by decide) (Count.le_toOffset whole)
    (Count.toOffset_lt whole) hborrow
  change ((Offset.toCount (cwl' - 1) : Nat) : Int) + 1 < Offset.limit
  rw [Offset.toCount_of_nonneg (by omega) (by omega)]
  omega

theorem resolveTiming_eq_ok {table : CasTable} :
    resolveTiming table request = .ok timing ↔
      ∃ row, table.lookup request.clock phasesPerCycle = .ok (some row) ∧
        resolveRow row request = .ok timing := by
  simp only [resolveTiming, bind_eq_ok, build_eq_ok]
  constructor
  · rintro ⟨_ | row, hrow, h⟩
    · cases h
    · exact ⟨row, hrow, h⟩
  · rintro ⟨row, hrow, h⟩
    exact ⟨some row, hrow, h⟩

end DramPhy
