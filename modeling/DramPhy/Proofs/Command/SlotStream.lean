import DramPhy.Command.Arbiter
import DramPhy.Proofs.Success

/-! The commands of a run of the arbiter as one stream of slots. Slot
`c * phases + p` is the tick on which phase `p` of cycle `c` puts the start of its
command on the pads, so that tick `k` of the command falls on slot
`c * phases + p + k`. -/

namespace DramPhy

theorem slot_div {phases p : Nat} (hp : p < phases) (c : Nat) : (c * phases + p) / phases = c := by
  rw [Nat.add_comm, Nat.add_mul_div_right _ _ (by omega), Nat.div_eq_of_lt hp, Nat.zero_add]

theorem slot_mod {phases p : Nat} (hp : p < phases) (c : Nat) : (c * phases + p) % phases = p := by
  rw [Nat.add_comm, Nat.add_mul_mod_self_right, Nat.mod_eq_of_lt hp]

/-- The command of a slot, idle outside the run. -/
def slotCommand (phases : Nat) (cycles : List (List CommandSlot)) (s : Nat) : CommandSlot :=
  (cycles[s / phases]?.bind fun cycle => cycle[s % phases]?).getD CommandSlot.idle

def ValidSlot (phases : Nat) (cycles : List (List CommandSlot)) (s : Nat) : Prop :=
  (slotCommand phases cycles s).valid = true

/-- A valid slot with no other valid slot shortly before it, in the whole stream. -/
def HeadSlot (phases : Nat) (cycles : List (List CommandSlot)) (s : Nat) : Prop :=
  ValidSlot phases cycles s ∧ ∀ r, r < s → s ≤ r + lookback → ¬ ValidSlot phases cycles r

/-- One of the slots shortly before a slot holds a head. -/
def BehindHead (phases : Nat) (cycles : List (List CommandSlot)) (s : Nat) : Prop :=
  ∃ h, HeadSlot phases cycles h ∧ h < s ∧ s ≤ h + lookback

/-- The arbiter once it has latched a run of cycles. -/
def Arbiter.after (phases : Nat) (masking : Bool) (cycles : List (List CommandSlot)) :
    Checked Arbiter := do
  let a ← Arbiter.make phases masking
  cycles.foldlM Arbiter.tick a

/-- The command pads right after the tick of cycle `t`. -/
def busAfter (phases : Nat) (masking : Bool) (cycles : List (List CommandSlot)) (t : Nat) :
    Checked CommandBus := do
  let a ← Arbiter.after phases masking (cycles.take (t + 1))
  a.output

/-- The arbiter allows a phase right after the tick of cycle `t`. -/
def AllowedAfter (phases : Nat) (masking : Bool) (cycles : List (List CommandSlot))
    (t phase : Nat) : Prop :=
  ∃ a, Arbiter.after phases masking (cycles.take (t + 1)) = .ok a ∧ a.allowed.getLsbD phase = true

/-- A valid command that the arbiter allows right after the tick that latched it. -/
def LetThrough (phases : Nat) (masking : Bool) (cycles : List (List CommandSlot)) (s : Nat) : Prop :=
  ValidSlot phases cycles s ∧ AllowedAfter phases masking cycles (s / phases) (s % phases)

/-- A valid command that the arbiter does not allow right after the tick that latched it. -/
def Suppressed (phases : Nat) (masking : Bool) (cycles : List (List CommandSlot)) (s : Nat) : Prop :=
  ValidSlot phases cycles s ∧ ∃ a, Arbiter.after phases masking (cycles.take (s / phases + 1)) = .ok a ∧
    a.allowed.getLsbD (s % phases) = false

instance (phases : Nat) (cycles : List (List CommandSlot)) (s : Nat) :
    Decidable (ValidSlot phases cycles s) :=
  inferInstanceAs (Decidable (_ = true))

instance (phases : Nat) (cycles : List (List CommandSlot)) (s : Nat) :
    Decidable (HeadSlot phases cycles s) :=
  inferInstanceAs (Decidable (_ ∧ _))

instance (phases : Nat) (masking : Bool) (cycles : List (List CommandSlot)) (t phase : Nat) :
    Decidable (AllowedAfter phases masking cycles t phase) :=
  inferInstanceAs (Decidable (∃ a, Arbiter.after phases masking (cycles.take (t + 1)) = .ok a ∧
    a.allowed.getLsbD phase = true))

instance (phases : Nat) (masking : Bool) (cycles : List (List CommandSlot)) (s : Nat) :
    Decidable (LetThrough phases masking cycles s) :=
  inferInstanceAs (Decidable (_ ∧ _))

instance (phases : Nat) (masking : Bool) (cycles : List (List CommandSlot)) (s : Nat) :
    Decidable (Suppressed phases masking cycles s) :=
  inferInstanceAs (Decidable (_ ∧ ∃ a, Arbiter.after phases masking (cycles.take (s / phases + 1)) = .ok a ∧
    a.allowed.getLsbD (s % phases) = false))

/-- A pad of the command bus. -/
inductive CommandPin where
  | cs
  | ca (i : Fin caPads)
  deriving DecidableEq

/-- Whether a command holds a pad high in its tick `k`. -/
def CommandSlot.high (c : CommandSlot) : CommandPin → Nat → Bool
  | .cs, k => c.cs.getLsbD k
  | .ca i, k => c.ca[k]?.any (·.getLsbD i)

def CommandBus.word (bus : CommandBus) : CommandPin → Word
  | .cs => bus.cs
  | .ca i => bus.ca[i]

def Arbiter.pad (a : Arbiter) : CommandPin → CommandPad
  | .cs => a.cs
  | .ca i => a.ca[i]

end DramPhy
