import Mathlib.Tactic

/-!
Fixed-width integers as the C types of a 32-bit big-endian machine: reduction
to `unsigned` and `int`, and the four bytes of a stored word.
-/

namespace EchoLife.Word

/-- The value of an `unsigned` expression: reduction modulo `2^32`. -/
def u32 (n : Int) : Nat :=
  (n % 2 ^ 32).toNat

/-- The value of an `int` expression: the residue in `-2^31..2^31-1`. -/
def s32 (n : Int) : Int :=
  if n % 2 ^ 32 < 2 ^ 31 then n % 2 ^ 32 else n % 2 ^ 32 - 2 ^ 32

theorem u32_lt (n : Int) : u32 n < 2 ^ 32 := by
  simp only [u32]
  omega

theorem u32_of_lt {n : Nat} (h : n < 2 ^ 32) : u32 n = n := by
  simp only [u32]
  omega

theorem s32_of_range {n : Int} (hlo : -2 ^ 31 ≤ n) (hhi : n < 2 ^ 31) : s32 n = n := by
  simp only [s32]
  split <;> omega

theorem s32_range (n : Int) : -2 ^ 31 ≤ s32 n ∧ s32 n < 2 ^ 31 := by
  simp only [s32]
  split <;> omega

theorem s32_emod (n : Int) : s32 n % 2 ^ 32 = n % 2 ^ 32 := by
  simp only [s32]
  split <;> omega

/-- Further arithmetic on an `int` does not see that it was reduced before. -/
theorem s32_s32_add (n m : Int) : s32 (s32 n + m) = s32 (n + m) := by
  have h := s32_emod n
  simp only [s32] at h ⊢
  omega

variable (bytes : Nat → UInt8) (i : Nat)

def be32 (i : Nat) : Nat :=
  (((bytes i).toNat * 256 + (bytes (i + 1)).toNat) * 256 +
    (bytes (i + 2)).toNat) * 256 + (bytes (i + 3)).toNat

def be32Bytes (n : Nat) : Nat → UInt8 :=
  fun i => UInt8.ofNat (n / 256 ^ (3 - i))

theorem be32_congr {left right : Nat → UInt8} {i j : Nat}
    (h : ∀ d, d < 4 → left (i + d) = right (j + d)) : be32 left i = be32 right j := by
  have h0 := h 0 (by omega)
  have h1 := h 1 (by omega)
  have h2 := h 2 (by omega)
  have h3 := h 3 (by omega)
  simp only [add_zero] at h0
  simp only [be32, h0, h1, h2, h3]

theorem be32_eq_zero {bytes : Nat → UInt8} {i : Nat} (h : ∀ d, d < 4 → bytes (i + d) = 0) :
    be32 bytes i = 0 := by
  have hsame : be32 bytes i = be32 (fun _ => 0) 0 := be32_congr h
  exact hsame

theorem be32_bytes {n : Nat} (h : n < 2 ^ 32) : be32 (be32Bytes n) 0 = n := by
  simp [be32, be32Bytes]
  omega

theorem be32_ne_zero_iff : be32 bytes i ≠ 0 ↔ ∃ d, d < 4 ∧ bytes (i + d) ≠ 0 := by
  constructor
  · intro h
    by_contra hzero
    push Not at hzero
    exact h (be32_eq_zero hzero)
  · rintro ⟨d, hd, hne⟩
    rw [ne_eq, ← UInt8.toNat_inj, UInt8.toNat_zero] at hne
    have hcases : d = 0 ∨ d = 1 ∨ d = 2 ∨ d = 3 := by omega
    simp only [be32]
    rcases hcases with rfl | rfl | rfl | rfl
    · simp only [add_zero] at hne
      omega
    · omega
    · omega
    · omega

theorem be32_lt : be32 bytes i < 2 ^ 32 := by
  have h0 := (bytes i).toNat_lt
  have h1 := (bytes (i + 1)).toNat_lt
  have h2 := (bytes (i + 2)).toNat_lt
  have h3 := (bytes (i + 3)).toNat_lt
  simp only [be32]
  omega

def beNat (bytes : Nat → UInt8) (i : Nat) : Nat → Nat
  | 0 => 0
  | size + 1 => beNat bytes i size * 256 + (bytes (i + size)).toNat

def beNatBytes (size n : Nat) : Nat → UInt8 :=
  fun i => UInt8.ofNat (n / 256 ^ (size - 1 - i))

end EchoLife.Word
