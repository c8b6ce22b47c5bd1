import DramPhy.Proofs.Command.Transparency

/-! How the command pads of a cycle are put together. Every allowed phase drives the
ticks of its command from its own tick on, and what of them did not fit into the cycle
of the command comes at the start of the next one. -/

namespace DramPhy

/-- What a command drives on a pad `k` ticks after its own: nothing once its ticks are over. -/
def CommandSlot.sends (c : CommandSlot) (pin : CommandPin) (k : Nat) : Bool :=
  decide (k < commandTicks) && c.high pin k

/-- What a command holds for the pads, whether it is valid or not. -/
def CommandSlot.payload (c : CommandSlot) : Byte × Vector Byte commandTicks := (c.cs, c.ca)

/-- What phase `p` has for tick `j` of a pad right after the tick of cycle `t`: a tick of its
command of that cycle, or before it one of its command of the cycle before. -/
def phaseShare (phases : Nat) (cycles : List (List CommandSlot)) (t p : Nat) (pin : CommandPin)
    (j : Nat) : Bool :=
  if p ≤ j then (slotCommand phases cycles (t * phases + p)).sends pin (j - p)
  else decide (1 ≤ t) && (slotCommand phases cycles ((t - 1) * phases + p)).sends pin (phases + j - p)

/-- The union of what the allowed phases have for tick `j` of a pad. -/
def assembled (phases : Nat) (allowed : Word) (cycles : List (List CommandSlot)) (t : Nat)
    (pin : CommandPin) (j : Nat) : Bool :=
  decide (j < phases) &&
    (List.range phases).any fun p => allowed.getLsbD p && phaseShare phases cycles t p pin j

variable {phases t s j p : Nat} {masking : Bool} {cycles others : List (List CommandSlot)}
  {a b : Arbiter} {pin : CommandPin}

theorem CommandSlot.sends_eq_true {c : CommandSlot} {k : Nat} :
    c.sends pin k = true ↔ k < commandTicks ∧ c.high pin k = true := by
  rw [CommandSlot.sends, Bool.and_eq_true, decide_eq_true_iff]

/-- The share of a phase is the tick of the command whose slot is `k` before slot `t * phases + j`. -/
theorem phaseShare_iff (hn : commandTicks ≤ phases) (hp : p < phases) (hj : j < phases) :
    phaseShare phases cycles t p pin j = true ↔ ∃ s k, k < commandTicks ∧
      s + k = t * phases + j ∧ s % phases = p ∧ (slotCommand phases cycles s).high pin k = true := by
  rw [phaseShare]
  constructor
  · intro hshare
    split_ifs at hshare with hle
    · obtain ⟨hk, hhigh⟩ := CommandSlot.sends_eq_true.mp hshare
      exact ⟨t * phases + p, j - p, hk, by omega, slot_mod hp t, hhigh⟩
    · rw [Bool.and_eq_true, decide_eq_true_iff] at hshare
      obtain ⟨hk, hhigh⟩ := CommandSlot.sends_eq_true.mp hshare.2
      obtain ⟨u, rfl⟩ := Nat.exists_eq_add_of_le' hshare.1
      rw [Nat.add_sub_cancel] at hhigh
      refine ⟨u * phases + p, phases + j - p, hk, ?_, slot_mod hp u, hhigh⟩
      rw [Nat.add_one_mul u phases]
      omega
  · rintro ⟨s, k, hk, heq, rfl, hhigh⟩
    have hcycle := tick_cycle hn hk s
    rw [heq, slot_div hj] at hcycle
    have hsum := Nat.div_add_mod' s phases
    rcases hcycle with ⟨-, hown⟩ | ⟨hspill, hnext⟩
    · rw [if_pos (by omega), hown, CommandSlot.sends_eq_true, show j - s % phases = k by omega]
      exact ⟨hk, hhigh⟩
    · have hpos : 1 ≤ t := by
        rcases Nat.eq_zero_or_pos t with rfl | hpos
        · omega
        · exact hpos
      obtain ⟨u, rfl⟩ := Nat.exists_eq_add_of_le' hpos
      rw [Nat.add_one_mul u phases] at heq hnext
      rw [if_neg (by omega), Nat.add_sub_cancel, decide_eq_true hpos, Bool.true_and,
        show u * phases + s % phases = s by omega, CommandSlot.sends_eq_true,
        show phases + j - s % phases = k by omega]
      exact ⟨hk, hhigh⟩

theorem Arbiter.Follows.bus_assembled (h : a.Follows phases masking (cycles.take (t + 1)))
    (hn : commandTicks ≤ phases) (ht : t < cycles.length) (pin : CommandPin) (j : Nat) :
    (a.bus.word pin).getLsbD j = assembled phases a.allowed cycles t pin j := by
  have hlen : (cycles.take (t + 1)).length = t + 1 := by
    rw [List.length_take]
    omega
  apply Bool.eq_iff_iff.mpr
  rw [h.bus_getLsbD hn, hlen, Nat.add_one_mul t phases, assembled, Bool.and_eq_true,
    decide_eq_true_iff, List.any_eq_true]
  refine and_congr_right fun hj => ?_
  have hslot : ∀ s k, s + k + phases = t * phases + phases + j →
      slotCommand phases (cycles.take (t + 1)) s = slotCommand phases cycles s := by
    intro s k hs
    exact slotCommand_take (by rw [Nat.add_one_mul t phases]; omega)
  constructor
  · rintro ⟨s, k, hk, heq, hallow, hhigh⟩
    have hp : s % phases < phases := Nat.mod_lt _ h.pos
    rw [hslot s k heq] at hhigh
    refine ⟨s % phases, List.mem_range.mpr hp, ?_⟩
    rw [hallow, Bool.true_and, phaseShare_iff hn hp hj]
    exact ⟨s, k, hk, by omega, rfl, hhigh⟩
  · rintro ⟨p, hp, hshare⟩
    rw [Bool.and_eq_true, phaseShare_iff hn (List.mem_range.mp hp) hj] at hshare
    obtain ⟨hallow, s, k, hk, heq, rfl, hhigh⟩ := hshare
    refine ⟨s, k, hk, by omega, hallow, ?_⟩
    rwa [hslot s k (by omega)]

theorem slotCommand_payload
    (h : others.map (·.map CommandSlot.payload) = cycles.map (·.map CommandSlot.payload)) (s : Nat) :
    (slotCommand phases others s).payload = (slotCommand phases cycles s).payload := by
  have hlookup : ∀ run : List (List CommandSlot), (slotCommand phases run s).payload =
      (((run.map (·.map CommandSlot.payload))[s / phases]?.bind fun cycle =>
        cycle[s % phases]?).getD CommandSlot.idle.payload) := by
    intro run
    rw [slotCommand, List.getElem?_map]
    cases run[s / phases]? with
    | none => rfl
    | some cycle =>
      simp only [Option.bind_some, Option.map_some, List.getElem?_map]
      cases cycle[s % phases]? <;> rfl
  rw [hlookup, hlookup, h]

theorem CommandSlot.sends_of_payload {c d : CommandSlot} (h : c.payload = d.payload) (pin : CommandPin)
    (k : Nat) : c.sends pin k = d.sends pin k := by
  obtain ⟨hcs, hca⟩ := Prod.mk.inj h
  cases pin with
  | cs => rw [CommandSlot.sends, CommandSlot.sends, CommandSlot.high, CommandSlot.high, hcs]
  | ca i => rw [CommandSlot.sends, CommandSlot.sends, CommandSlot.high, CommandSlot.high, hca]

theorem assembled_of_payload
    (h : others.map (·.map CommandSlot.payload) = cycles.map (·.map CommandSlot.payload))
    (allowed : Word) (t : Nat) (pin : CommandPin) (j : Nat) :
    assembled phases allowed others t pin j = assembled phases allowed cycles t pin j := by
  have hshare : ∀ p, phaseShare phases others t p pin j = phaseShare phases cycles t p pin j := by
    intro p
    rw [phaseShare, phaseShare, CommandSlot.sends_of_payload (slotCommand_payload h _),
      CommandSlot.sends_of_payload (slotCommand_payload h _)]
  simp only [assembled, hshare]

/-- What the pads of an arbiter show right after the tick of cycle `t`. -/
structure Arbiter.Assembles (b : Arbiter) (phases : Nat) (masking : Bool)
    (cycles : List (List CommandSlot)) (t : Nat) (bus : CommandBus) : Prop where
  output : b.output = .ok bus
  unmasked : masking = false → ∀ p, b.allowed.getLsbD p = decide (p < phases)
  bits : ∀ pin j, (bus.word pin).getLsbD j = assembled phases b.allowed cycles t pin j
  /-- Which commands are valid shows on the pads through the decisions alone. -/
  valids : ∀ (masking' : Bool) (others : List (List CommandSlot)) (c : Arbiter),
    others.map (·.map CommandSlot.payload) = cycles.map (·.map CommandSlot.payload) →
    Arbiter.after phases masking' (others.take (t + 1)) = .ok c → c.allowed = b.allowed →
    c.output = .ok bus

theorem Arbiter.assembles (hn : commandTicks ≤ phases) (ht : t < cycles.length)
    (h : Arbiter.after phases masking (cycles.take (t + 1)) = .ok b) :
    b.Assembles phases masking cycles t b.bus := by
  have hf := Arbiter.after_follows h
  refine ⟨Arbiter.output_ok hf, ?_, hf.bus_assembled hn ht, ?_⟩
  · rintro rfl
    exact hf.allowed_unmasked
  · intro masking' others c hpayload hc hallowed
    have hg := Arbiter.after_follows hc
    have hlen : others.length = cycles.length := by simpa using congrArg List.length hpayload
    rw [Arbiter.output_ok hg, Except.ok.injEq]
    refine CommandBus.ext_word fun pin => BitVec.eq_of_getLsbD_eq fun j _ => ?_
    rw [hg.bus_assembled hn (by omega), hf.bus_assembled hn ht, hallowed, assembled_of_payload hpayload]

/-- Right after every tick the pads are the union of what the allowed phases have for them.
Unmasked they carry all ticks of all commands, one cycle after the slots of these. -/
theorem bus_is_assembled (hn : 4 ≤ phases) (hw : phases ≤ 32)
    (hfull : ∀ cycle ∈ cycles, cycle.length = phases) :
    (masking = false ∨ phases * cycles.length < Count.limit →
      ∃ a, Arbiter.after phases masking cycles = .ok a) ∧
    ∀ a, Arbiter.after phases masking cycles = .ok a →
      (∀ t, t < cycles.length → ∃ b bus, Arbiter.after phases masking (cycles.take (t + 1)) = .ok b ∧
        b.Assembles phases masking cycles t bus) ∧
      (masking = false → ∀ t, t ≤ cycles.length →
        ∃ b bus, Arbiter.after phases masking (cycles.take t) = .ok b ∧ b.output = .ok bus ∧
          ∀ pin j, (bus.word pin).getLsbD j = true ↔ j < phases ∧ ∃ s k, k < commandTicks ∧
            s + phases + k = t * phases + j ∧ (slotCommand phases cycles s).high pin k = true) := by
  have hlookback : lookback ≤ phases := by
    simp only [lookback]
    omega
  refine ⟨fun hroom => ?_, fun a ha => ⟨fun t ht => ?_, ?_⟩⟩
  · rcases hroom with rfl | hlen
    · obtain ⟨a, ha, -⟩ := Arbiter.after_ok_of_none_suppressed hlookback (by omega) hfull
        fun _ => not_suppressed_unmasked
      exact ⟨a, ha⟩
    · obtain ⟨a, ha, -⟩ := Arbiter.after_ok masking hlookback (by omega) hfull hlen
      exact ⟨a, ha⟩
  · obtain ⟨b, hb⟩ := Arbiter.after_take ha (t + 1)
    exact ⟨b, b.bus, hb, Arbiter.assembles hn ht hb⟩
  · rintro rfl t ht
    obtain ⟨b, hb⟩ := Arbiter.after_take ha t
    refine ⟨b, b.bus, hb, Arbiter.output_ok (Arbiter.after_follows hb), fun pin j => ?_⟩
    rw [Arbiter.bus_drives hn hb ht]
    refine and_congr_right fun _ => exists_congr fun s => ?_
    simp only [drives_unmasked_iff ha]
    constructor
    · rintro ⟨x, hx, k, hk, rfl, hhigh⟩
      exact ⟨k, hk, by omega, hhigh⟩
    · rintro ⟨k, hk, heq, hhigh⟩
      exact ⟨s + k, by omega, k, hk, rfl, hhigh⟩

/-- The last ticks of a command on phase 7 and the first one of a command on phase 3. -/
theorem spill_and_start_assembled : ∃ bus, busAfter 8 true (spillRun 3) 1 = .ok bus ∧
    (bus.word .cs).getLsbD 2 = true ∧ (bus.word .cs).getLsbD 3 = true ∧
      (bus.word .cs).getLsbD 4 = false := by
  obtain ⟨hruns, hassembles⟩ := bus_is_assembled (show 4 ≤ 8 by decide) (by decide)
    (show ∀ cycle ∈ spillRun 3, cycle.length = 8 by decide)
  obtain ⟨a, ha⟩ : ∃ a, Arbiter.after 8 true (spillRun 3) = .ok a := hruns (.inr (by decide))
  obtain ⟨b, bus, hb, h⟩ := (hassembles a ha).1 1 (by decide)
  obtain ⟨c, hc, hallowed⟩ : ∃ c, Arbiter.after 8 true ((spillRun 3).take 2) = .ok c ∧
      c.allowed = 0x88 := by decide +kernel
  obtain rfl : b = c := Except.ok.inj (hb.symm.trans hc)
  refine ⟨bus, by rw [busAfter, hb, ok_bind, h.output], ?_⟩
  rw [h.bits, h.bits, h.bits, hallowed]
  decide

end DramPhy
