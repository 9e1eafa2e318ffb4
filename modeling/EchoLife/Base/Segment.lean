import Mathlib.Data.List.GetD
import Mathlib.Tactic

/-!
A line cut into consecutive segments of given sizes: where a segment starts,
which segment an offset falls into, and the linear search that finds it.
-/

namespace EchoLife.Segment

open List

def base (sizes : List Nat) (k : Nat) : Nat :=
  (sizes.take k).sum

def size (sizes : List Nat) (k : Nat) : Nat :=
  sizes.getD k 0

section

variable (sizes : List Nat)

@[simp] theorem base_zero : base sizes 0 = 0 := by
  simp [base]

@[simp] theorem base_length : base sizes sizes.length = sizes.sum := by
  simp [base]

theorem base_succ (k : Nat) : base sizes (k + 1) = base sizes k + size sizes k := by
  by_cases h : k < sizes.length
  · simp only [base, size]
    rw [sum_take_succ sizes k h, getD_eq_getElem _ _ h]
  have hlen : sizes.length ≤ k := by omega
  simp only [base, size]
  rw [take_of_length_le hlen, take_of_length_le (by omega), getD_eq_default _ _ hlen]
  simp

theorem base_mono {j k : Nat} (h : j ≤ k) : base sizes j ≤ base sizes k := by
  induction k, h using Nat.le_induction with
  | base => exact le_refl _
  | succ k _ ih =>
    rw [base_succ]
    omega

theorem base_le_sum (k : Nat) : base sizes k ≤ sizes.sum := by
  by_cases h : k ≤ sizes.length
  · rw [← base_length sizes]
    exact base_mono sizes h
  · simp only [base]
    rw [take_of_length_le (by omega)]

end

variable {sizes : List Nat}

section

variable (hpos : ∀ n ∈ sizes, 0 < n)
include hpos

theorem size_pos {k : Nat} (h : k < sizes.length) : 0 < size sizes k := by
  simp only [size]
  rw [getD_eq_getElem _ _ h]
  exact hpos _ (getElem_mem h)

theorem base_strictMono {j k : Nat} (hjk : j < k) (hk : k ≤ sizes.length) :
    base sizes j < base sizes k := by
  have hstep : base sizes j < base sizes (j + 1) := by
    rw [base_succ]
    have := size_pos hpos (k := j) (by omega)
    omega
  exact lt_of_lt_of_le hstep (base_mono sizes hjk)

theorem base_lt_iff {j k : Nat} (hk : k ≤ sizes.length) : base sizes j < base sizes k ↔ j < k := by
  constructor
  · intro h
    by_contra hle
    have := base_mono sizes (Nat.le_of_not_lt hle)
    omega
  · intro h
    exact base_strictMono hpos h hk

end

def Within (sizes : List Nat) (k a : Nat) : Prop :=
  base sizes k ≤ a ∧ a < base sizes (k + 1)

theorem Within.lt_length {k a : Nat} (h : Within sizes k a) : k < sizes.length := by
  by_contra hk
  have hsize : size sizes k = 0 := by
    exact getD_eq_default _ _ (by omega)
  obtain ⟨hlo, hhi⟩ := h
  rw [base_succ, hsize] at hhi
  omega

theorem exists_within {a : Nat} (h : a < sizes.sum) : ∃ k, Within sizes k a := by
  have hreach (n : Nat) (hn : a < base sizes n) : ∃ k, Within sizes k a := by
    induction n with
    | zero => simp at hn
    | succ n ih =>
      by_cases hlow : a < base sizes n
      · exact ih hlow
      · exact ⟨n, by omega, hn⟩
  exact hreach sizes.length (by rwa [base_length])

theorem base_add_sum (sizes : List Nat) (k n : Nat) :
    base sizes k + ((List.range n).map (fun i => size sizes (k + i))).sum = base sizes (k + n) := by
  induction n with
  | zero => simp
  | succ n ih =>
    rw [range_succ, map_append, sum_append, ← add_assoc, ih, ← add_assoc, base_succ]
    simp

end EchoLife.Segment
