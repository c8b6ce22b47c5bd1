import DramPhy.Count
import Mathlib.Data.List.Forall2

/-! When a checked computation succeeds, and with what. A chain of operations
succeeds exactly when each of them does on what the ones before it gave. -/

namespace DramPhy

variable {ε α β : Type}

theorem bind_eq_ok {x : Except ε α} {f : α → Except ε β} {b : β} :
    x >>= f = .ok b ↔ ∃ a, x = .ok a ∧ f a = .ok b := by
  cases x <;> simp [bind, Except.bind]

theorem pure_eq_ok {a b : α} : (pure a : Except ε α) = .ok b ↔ a = b := by
  simp [pure, Except.pure]

theorem require_eq_ok {c : Prop} [Decidable c] {r : Requirement} {u : Unit} :
    require c r = .ok u ↔ c := by
  by_cases h : c <;> simp [require, h]

theorem require_congr {c d : Prop} [Decidable c] [Decidable d] (h : c ↔ d) (r : Requirement) :
    require c r = require d r :=
  if_congr h rfl rfl

theorem ok_bind (a : α) (f : α → Except ε β) : Except.ok a >>= f = f a := rfl

theorem error_bind (e : ε) (f : α → Except ε β) : Except.error e >>= f = Except.error e := rfl

instance decidableExistsOk {x : Except ε α} {p : α → Prop} [DecidablePred p] :
    Decidable (∃ a, x = .ok a ∧ p a) :=
  match x with
  | .ok a => decidable_of_iff (p a) (by simp)
  | .error _ => .isFalse (by simp)

theorem mapM_eq_ok {f : α → Except ε β} {xs : List α} {ys : List β} :
    xs.mapM f = .ok ys ↔ List.Forall₂ (fun x y => f x = .ok y) xs ys := by
  induction xs generalizing ys with
  | nil => cases ys <;> simp [pure_eq_ok]
  | cons x xs ih =>
    simp only [List.mapM_cons, bind_eq_ok, pure_eq_ok, ih, List.forall₂_cons_left_iff]
    constructor
    · rintro ⟨y, hy, ys, hys, rfl⟩
      exact ⟨y, ys, hy, hys, rfl⟩
    · rintro ⟨y, ys, hy, hys, rfl⟩
      exact ⟨y, hy, ys, hys, rfl⟩

theorem mapM_ok {f : α → Except ε β} {g : α → β} {xs : List α}
    (h : ∀ x ∈ xs, f x = .ok (g x)) : xs.mapM f = .ok (xs.map g) := by
  rw [mapM_eq_ok, List.forall₂_map_right_iff, List.forall₂_same]
  exact h

theorem mapM_congr {f g : α → Except ε β} {xs : List α} (h : ∀ x ∈ xs, f x = g x) :
    xs.mapM f = xs.mapM g := by
  induction xs with
  | nil => rfl
  | cons x xs ih =>
    rw [List.mapM_cons, List.mapM_cons, h x List.mem_cons_self,
      ih fun y hy => h y (List.mem_cons_of_mem x hy)]

theorem mapM_map_ok {γ : Type} {f : β → Except ε γ} {g : α → β} {k : α → γ} {xs : List α}
    (h : ∀ x ∈ xs, f (g x) = .ok (k x)) : (xs.map g).mapM f = .ok (xs.map k) := by
  rw [mapM_eq_ok, List.forall₂_map_left_iff, List.forall₂_map_right_iff, List.forall₂_same]
  exact h

/-- A fold that succeeds has gone through every prefix. -/
theorem foldlM_take {f : β → α → Except ε β} {xs : List α} {b c : β} (h : xs.foldlM f b = .ok c) {t : Nat}
    (ht : t < xs.length) : ∃ mid next, (xs.take t).foldlM f b = .ok mid ∧ f mid xs[t] = .ok next := by
  rw [← List.take_append_drop t xs, List.drop_eq_getElem_cons ht, List.foldlM_append, bind_eq_ok] at h
  obtain ⟨mid, hmid, hrest⟩ := h
  rw [List.foldlM_cons, bind_eq_ok] at hrest
  obtain ⟨next, hnext, -⟩ := hrest
  exact ⟨mid, next, hmid, hnext⟩

theorem vector_mapM_ok {n : Nat} {f : α → Except ε β} {g : α → β} {xs : Vector α n}
    (h : ∀ x ∈ xs.toList, f x = .ok (g x)) : xs.mapM f = .ok (xs.map g) := by
  apply Vector.map_toArray_inj.mp
  have hmap : (xs.toList.map g).toArray = (xs.map g).toArray := by
    apply Array.ext'
    simp [Vector.toArray_map, Vector.toList]
  rw [Vector.toArray_mapM, Array.mapM_eq_mapM_toList, Vector.toList_toArray, mapM_ok h]
  exact congrArg Except.ok hmap

theorem entry_eq_ok {xs : List α} {k : Nat} {x : α} : entry xs k = .ok x ↔ xs[k]? = some x := by
  cases h : xs[k]? <;> simp [entry, h]

theorem Count.ofExact_eq_ok {n m : Nat} : Count.ofExact n = .ok m ↔ n < Count.limit ∧ n = m := by
  by_cases h : n < Count.limit <;> simp [Count.ofExact, h]

theorem Count.add_eq_ok {a b c : Nat} : Count.add a b = .ok c ↔ a + b < Count.limit ∧ a + b = c :=
  Count.ofExact_eq_ok

theorem Count.mul_eq_ok {a b c : Nat} : Count.mul a b = .ok c ↔ a * b < Count.limit ∧ a * b = c :=
  Count.ofExact_eq_ok

theorem Count.sub_eq_ok {a b c : Nat} : Count.sub a b = .ok c ↔ b ≤ a ∧ a - b = c := by
  by_cases h : b ≤ a <;> simp [Count.sub, h]

theorem Count.div_eq_ok {a b c : Nat} : Count.div a b = .ok c ↔ b ≠ 0 ∧ a / b = c := by
  by_cases h : b = 0 <;> simp [Count.div, h]

theorem Count.rem_eq_ok {a b c : Nat} : Count.rem a b = .ok c ↔ b ≠ 0 ∧ a % b = c := by
  by_cases h : b = 0 <;> simp [Count.rem, h]

theorem Count.toOffset_of_lt {n : Nat} (h : (n : Int) < Offset.limit) : Count.toOffset n = n := by
  simp only [Offset.limit] at h
  exact Int.bmod_eq_of_le (by simp only [Count.limit]; omega) (by simp only [Count.limit]; omega)

theorem Count.toOffset_lt (n : Nat) : Count.toOffset n < Offset.limit :=
  Int.bmod_lt (by decide)

theorem Count.le_toOffset (n : Nat) : -Offset.limit ≤ Count.toOffset n :=
  Int.le_bmod (by decide)

theorem Offset.toCount_of_nonneg {i : Int} (h : 0 ≤ i) (hi : i < Offset.limit) :
    Offset.toCount i = i.toNat := by
  simp only [Offset.limit] at hi
  rw [Offset.toCount, Int.emod_eq_of_lt h (by simp only [Count.limit]; omega)]

theorem Offset.toCount_natCast {n : Nat} (h : (n : Int) < Offset.limit) : Offset.toCount n = n :=
  Offset.toCount_of_nonneg (Int.natCast_nonneg n) h

theorem Offset.ofExact_eq_ok {i j : Int} :
    Offset.ofExact i = .ok j ↔ (-Offset.limit ≤ i ∧ i < Offset.limit) ∧ i = j := by
  by_cases h : -Offset.limit ≤ i ∧ i < Offset.limit <;> simp [Offset.ofExact, h]

theorem Offset.add_eq_ok {a b c : Int} :
    Offset.add a b = .ok c ↔ (-Offset.limit ≤ a + b ∧ a + b < Offset.limit) ∧ a + b = c :=
  Offset.ofExact_eq_ok

theorem Offset.sub_eq_ok {a b c : Int} :
    Offset.sub a b = .ok c ↔ (-Offset.limit ≤ a - b ∧ a - b < Offset.limit) ∧ a - b = c :=
  Offset.ofExact_eq_ok

theorem Offset.mul_eq_ok {a b c : Int} :
    Offset.mul a b = .ok c ↔ (-Offset.limit ≤ a * b ∧ a * b < Offset.limit) ∧ a * b = c :=
  Offset.ofExact_eq_ok

end DramPhy
