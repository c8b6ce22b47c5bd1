import DramPhy.Word
import Mathlib.Algebra.Group.Nat.Defs

/-! Single bits of composed words. Words are compared bit by bit, so every
operation on them gets the equation of its bits. -/

namespace DramPhy

theorem foldl_or_getLsbD (xs : List Word) (x : Word) (i : Nat) :
    (xs.foldl (· ||| ·) x).getLsbD i = (x.getLsbD i || xs.any fun y => y.getLsbD i) := by
  induction xs generalizing x with
  | nil => simp
  | cons y xs ih => simp [ih, Bool.or_assoc]

theorem Word.getLsbD_union (xs : List Word) (i : Nat) :
    (Word.union xs).getLsbD i = xs.any fun x => x.getLsbD i := by
  simp [Word.union, foldl_or_getLsbD]

theorem Word.quiet_iff {x : Word} {lo n : Nat} :
    x.quiet lo n = true ↔ ∀ i, lo ≤ i → i < lo + n → x.getLsbD i = false := by
  simp only [Word.quiet, beq_iff_eq]
  constructor
  · intro h i hlo hi
    have hb := congrArg (·.getLsbD (i - lo)) h
    simpa [Word.getLsbD_cut, Nat.add_sub_cancel' hlo, show i - lo < n by omega] using hb
  · intro h
    apply BitVec.eq_of_getLsbD_eq
    intro i _
    rw [Word.getLsbD_cut, BitVec.getLsbD_ushiftRight]
    by_cases hi : i < n
    · simp [h (lo + i) (by omega) (by omega)]
    · simp [hi]

theorem Word.cut_eq_self {x : Word} {n : Nat} (h : ∀ i, x.getLsbD i = true → i < n) :
    x.cut n = x := by
  apply BitVec.eq_of_getLsbD_eq
  intro i _
  rw [Word.getLsbD_cut]
  cases hb : x.getLsbD i
  · rfl
  · simp [h i hb]

theorem Word.toNat_lt {x : Word} {n : Nat} (h : x.cut n = x) : x.toNat < 2 ^ n := by
  apply Nat.lt_pow_two_of_testBit
  intro i hi
  rw [BitVec.testBit_toNat, ← h, Word.getLsbD_cut, decide_eq_false (Nat.not_lt.mpr hi),
    Bool.and_false]

theorem Word.cut_cut (x : Word) (n : Nat) : (x.cut n).cut n = x.cut n := by
  apply Word.cut_eq_self
  intro i hi
  rw [Word.getLsbD_cut, Bool.and_eq_true] at hi
  exact of_decide_eq_true hi.2

theorem Word.ones_eq_countP {x : Word} {n : Nat} (hn : n ≤ 64)
    (h : ∀ i, x.getLsbD i = true → i < n) :
    x.ones = (List.range n).countP fun i => x.getLsbD i := by
  obtain ⟨d, hd⟩ := Nat.exists_eq_add_of_le hn
  have hhigh : ((List.range d).map (n + ·)).countP (fun i => x.getLsbD i) = 0 := by
    rw [List.countP_eq_zero]
    intro i hi hb
    obtain ⟨k, -, rfl⟩ := List.mem_map.mp hi
    have := h _ hb
    omega
  have hrange : List.range 64 = List.range n ++ (List.range d).map (n + ·) := by
    rw [hd, List.range_add]
  rw [Word.ones, hrange, List.countP_append, hhigh, Nat.add_zero]

theorem Word.ones_le {x : Word} {n : Nat} (h : ∀ i, x.getLsbD i = true → i < n) : x.ones ≤ n := by
  rcases Nat.le_total n 64 with hn | hn
  · rw [Word.ones_eq_countP hn h]
    exact Nat.le_trans List.countP_le_length (Nat.le_of_eq List.length_range)
  · have hcount : x.ones ≤ (List.range 64).length := List.countP_le_length
    rw [List.length_range] at hcount
    omega

theorem Word.getLsbD_put (x : Word) (i : Nat) (b : Bool) (hi : i < 64) (j : Nat) :
    (x.put i b).getLsbD j = if j = i then b else x.getLsbD j := by
  simp only [Word.put, BitVec.getLsbD_or, BitVec.getLsbD_and, BitVec.getLsbD_not,
    BitVec.getLsbD_shiftLeft, BitVec.getLsbD_setWidth, BitVec.getLsbD_one]
  rcases Nat.lt_trichotomy j i with h | rfl | h
  · have hne : j ≠ i := by omega
    by_cases hj : j < 64
    · simp [h, hne, hj]
    · omega
  · simp [hi]
  · have hne : j ≠ i := by omega
    have hsub : j - i ≠ 0 := by omega
    by_cases hj : j < 64
    · simp [hne, hsub, hj, BitVec.getLsbD_ofBool]
    · simp [hne, hsub, hj, BitVec.getLsbD_of_ge x j (by omega)]

theorem Word.shiftDown_of_lt {x : Word} {n : Nat} (h : n < 64) : x.shiftDown n = .ok (x >>> n) := by
  simp [Word.shiftDown, h]

theorem Word.shiftUp_of_lt {x : Word} {n : Nat} (h : n < 64) : x.shiftUp n = .ok (x <<< n) := by
  simp [Word.shiftUp, h]

end DramPhy
