import Mathlib.Data.List.GetD
import Mathlib.Tactic

/-!
C strings as byte sequences without a terminator, and the bounded comparison
and copy of the C library on the buffers that hold them.
-/

namespace EchoLife.CString

open List

/-- The buffer of a string: its characters, then terminators. -/
def buffer (chars : List UInt8) : Nat → UInt8 :=
  fun i => chars.getD i 0

/-- `strncmp(left, right, n) == 0`. -/
def strncmpEq : Nat → (Nat → UInt8) → (Nat → UInt8) → Bool
  | 0, _, _ => true
  | n + 1, left, right =>
    if left 0 ≠ right 0 then false
    else if left 0 = 0 then true
    else strncmpEq n (fun i => left (i + 1)) (fun i => right (i + 1))

/-- How many bytes of each side `strncmp(left, right, n)` reads. -/
def strncmpReads : Nat → (Nat → UInt8) → (Nat → UInt8) → Nat
  | 0, _, _ => 0
  | n + 1, left, right =>
    if left 0 ≠ right 0 ∨ left 0 = 0 then 1
    else strncmpReads n (fun i => left (i + 1)) (fun i => right (i + 1)) + 1

/-- `strlen(s) < n`: a terminator among the first `n` bytes. -/
def strlenLt (s : Nat → UInt8) (n : Nat) : Bool :=
  (range n).any (fun i => s i == 0)

variable {chars : List UInt8} {n : Nat}

theorem buffer_of_lt {i : Nat} (h : i < chars.length) : buffer chars i = chars[i] :=
  getD_eq_getElem _ _ h

theorem buffer_of_le {i : Nat} (h : chars.length ≤ i) : buffer chars i = 0 :=
  getD_eq_default _ _ h

theorem buffer_cons_succ (c : UInt8) (chars : List UInt8) :
    (fun i => buffer (c :: chars) (i + 1)) = buffer chars := by
  funext i
  simp [buffer]

theorem strncmpEq_congr {left left' : Nat → UInt8} (h : ∀ i, i < n → left i = left' i)
    (right : Nat → UInt8) : strncmpEq n left right = strncmpEq n left' right := by
  induction n generalizing left left' right with
  | zero => rfl
  | succ n ih =>
    simp only [strncmpEq, h 0 (Nat.succ_pos n)]
    rw [ih (fun i hi => h (i + 1) (Nat.succ_lt_succ hi))]

theorem strncmpReads_le (n : Nat) (left right : Nat → UInt8) : strncmpReads n left right ≤ n := by
  induction n generalizing left right with
  | zero => exact le_rfl
  | succ n ih =>
    simp only [strncmpReads]
    split
    · omega
    · exact Nat.succ_le_succ (ih _ _)

/-- The string in a field of `n` bytes: up to its terminator, if it has one. -/
def field (n : Nat) (bytes : Nat → UInt8) : List UInt8 :=
  ((range n).map bytes).takeWhile (· ≠ 0)

theorem field_succ (n : Nat) (bytes : Nat → UInt8) :
    field (n + 1) bytes =
      if bytes 0 = 0 then [] else bytes 0 :: field n (fun i => bytes (i + 1)) := by
  simp only [field, range_succ_eq_map, map_cons, takeWhile_cons, map_map]
  by_cases hzero : bytes 0 = 0
  · simp [hzero]
  · simp only [hzero, ne_eq, not_false_eq_true, decide_true, if_true, if_false]
    rfl

theorem field_congr {left right : Nat → UInt8}
    (h : ∀ i, i < n → left i = right i) : field n left = field n right := by
  have hbytes : (range n).map left = (range n).map right :=
    map_congr_left (fun i hi => h i (mem_range.mp hi))
  simp only [field, hbytes]

theorem field_buffer (n : Nat) (hchars : 0 ∉ chars) : field n (buffer chars) = chars.take n := by
  induction n generalizing chars with
  | zero => rfl
  | succ n ih =>
    rw [field_succ]
    cases chars with
    | nil => rfl
    | cons c rest =>
      have hfirst : buffer (c :: rest) 0 = c := rfl
      have hc : c ≠ 0 := by
        rintro rfl
        exact hchars mem_cons_self
      rw [hfirst, if_neg hc, buffer_cons_succ,
        ih (fun h => hchars (mem_cons_of_mem c h)), take_succ_cons]

/-- The comparison with a string compares its first `n` bytes with the field. -/
theorem strncmpEq_iff_field {left : Nat → UInt8} {right : List UInt8} (hright : 0 ∉ right) :
    strncmpEq n left (buffer right) = true ↔ field n left = right.take n := by
  rw [← field_buffer n hright]
  generalize buffer right = other
  induction n generalizing left other with
  | zero => simp [strncmpEq, field]
  | succ n ih =>
    rw [field_succ, field_succ, strncmpEq]
    by_cases hsame : left 0 = other 0
    · rw [if_neg (not_not.mpr hsame), ← hsame]
      split
      · simp
      · rw [ih]
        simp
    · rw [if_pos hsame]
      split
      next hzero =>
        rw [hzero] at hsame
        rw [if_neg (Ne.symm hsame)]
        simp
      · split
        · simp
        · simp [hsame]

/-- Comparing a string that ends within the bound is comparing strings. -/
theorem strncmpEq_buffer {left right : List UInt8}
    (hleft : 0 ∉ left) (hright : 0 ∉ right) (hlength : left.length < n) :
    strncmpEq n (buffer left) (buffer right) = true ↔ left = right := by
  rw [strncmpEq_iff_field hright, field_buffer n hleft, take_of_length_le hlength.le]
  constructor
  · intro hsame
    have hcut := congrArg length hsame
    rw [length_take] at hcut
    rw [hsame, take_of_length_le (by omega)]
  · intro hsame
    rw [← hsame, take_of_length_le hlength.le]

end EchoLife.CString
