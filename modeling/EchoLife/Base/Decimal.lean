import EchoLife.Base.Buffer
import EchoLife.Base.CString
import Mathlib.Tactic

/-!
Numbers as text: the `sprintf` conversions `%lu` and `%d`, and the parsers that
read digits up to the first other character. A parser has no bound of its own,
so its loop is given one step for each address of a 32-bit machine.
-/

namespace EchoLife.Decimal

open Buffer List UInt8

variable {text : List UInt8}

def decimalDigit (c : UInt8) : Option Nat :=
  if 48 ≤ c.toNat ∧ c.toNat ≤ 57 then some (c.toNat - 48) else none

def hexDigit (c : UInt8) : Option Nat :=
  if 48 ≤ c.toNat ∧ c.toNat ≤ 57 then some (c.toNat - 48)
  else if 65 ≤ c.toNat ∧ c.toNat ≤ 70 then some (c.toNat - 65 + 10)
  else if 97 ≤ c.toNat ∧ c.toNat ≤ 102 then some (c.toNat - 97 + 10)
  else none

/-- The digits modulo `2^32`, and the index of the character that ended the number. -/
def readNumber (radix : Nat) (digit : UInt8 → Option Nat) (s : Nat → UInt8) :
    Nat → Nat → Nat → Nat × Nat
  | 0, i, value => (value, i)
  | fuel + 1, i, value =>
    match digit (s i) with
    | some d =>
      readNumber radix digit s fuel (i + 1) ((value * radix + d) % 2 ^ 32)
    | none => (value, i)

def addressSpace : Nat := 2 ^ 32

/-- `simple_strtoul(s + i, NULL, 10)`. -/
def simpleStrtoul (s : Nat → UInt8) (i : Nat) : Nat :=
  (readNumber 10 decimalDigit s addressSpace i 0).1

/-- Index of the last character `simple_strtoul` looks at. -/
def numberEnd (s : Nat → UInt8) (i : Nat) : Nat :=
  (readNumber 10 decimalDigit s addressSpace i 0).2

/-- Some character of `s` in `lo..hi-1` is not a decimal digit. -/
def Ends (s : Nat → UInt8) (lo hi : Nat) : Prop :=
  ∃ j, lo ≤ j ∧ j < hi ∧ decimalDigit (s j) = none

def digits : Nat → Nat → List UInt8
  | 0, _ => []
  | k + 1, n =>
    if n < 10 then [ofNat (48 + n)]
    else digits k (n / 10) ++ [ofNat (48 + n % 10)]

/-- `%lu` for a 32-bit word. -/
def decimal (n : Nat) : List UInt8 :=
  digits 10 n

/-- `%d`. -/
def decimalInt (n : Int) : List UInt8 :=
  if n < 0 then 45 :: decimal n.natAbs else decimal n.toNat

section
variable (dst : Nat → UInt8) (start : Nat)

def sprintf (text : List UInt8) : Nat → UInt8 :=
  blit dst start (text.length + 1) (CString.buffer text)

def sprintfAll (texts : List (Nat × List UInt8)) : Nat → UInt8 :=
  texts.foldl (fun dst text => sprintf dst text.1 text.2) dst

def Holds (s : Nat → UInt8) (start : Nat) (text : List UInt8) : Prop :=
  ∀ j, j ≤ text.length → s (start + j) = CString.buffer text j

theorem holds_sprintf (text : List UInt8) : Holds (sprintf dst start text) start text := by
  intro j hj
  exact blit_at dst _ (by omega)

end

variable {start : Nat} {s : Nat → UInt8} {i hi k n j : Nat}

theorem sprintf_outside (dst : Nat → UInt8) (h : i < start ∨ start + text.length < i) :
    sprintf dst start text i = dst i :=
  blit_outside dst _ (by omega)

variable {s' : Nat → UInt8} {texts : List (Nat × List UInt8)} {c : UInt8}

theorem Holds.congr (h : Holds s start text) (hi : Nat) (hagree : AgreeOn s s' start hi)
    (hfits : start + text.length < hi) : Holds s' start text := by
  intro j hj
  rw [← hagree (start + j) (by omega) (by omega)]
  exact h j hj

theorem sprintfAll_cons (dst : Nat → UInt8) (first : Nat × List UInt8)
    (rest : List (Nat × List UInt8)) :
    sprintfAll dst (first :: rest) = sprintfAll (sprintf dst first.1 first.2) rest :=
  rfl

theorem sprintfAll_below (h : ∀ text ∈ texts, i < text.1) (dst : Nat → UInt8) :
    sprintfAll dst texts i = dst i := by
  induction texts generalizing dst with
  | nil => rfl
  | cons first rest ih =>
    rw [forall_mem_cons] at h
    rw [sprintfAll_cons, ih h.2]
    exact sprintf_outside dst (.inl h.1)

theorem holds_sprintfAll
    (hapart : texts.Pairwise (fun left right => left.1 + left.2.length < right.1))
    (dst : Nat → UInt8) (h : (start, text) ∈ texts) : Holds (sprintfAll dst texts) start text := by
  induction texts generalizing dst with
  | nil => cases h
  | cons first rest ih =>
    obtain ⟨hfirst, hrest⟩ := pairwise_cons.mp hapart
    rw [sprintfAll_cons]
    rcases mem_cons.mp h with rfl | hlater
    · apply (holds_sprintf dst start text).congr (start + text.length + 1)
      · intro i _ hhi
        apply Eq.symm
        apply sprintfAll_below
        intro other hother
        have hbehind : start + text.length < other.1 := hfirst other hother
        omega
      · exact Nat.lt_succ_self _
    · exact ih hrest _ hlater

theorem Ends.mono {lo hi' : Nat} (h : Ends s lo hi) (hle : hi ≤ hi') : Ends s lo hi' := by
  obtain ⟨j, hlo, hhi, hj⟩ := h
  exact ⟨j, hlo, by omega, hj⟩

theorem Ends.next {s : Nat → UInt8} {lo d : Nat} (h : Ends s lo hi)
    (hd : decimalDigit (s lo) = some d) : Ends s (lo + 1) hi := by
  obtain ⟨j, hlo, hhi, hj⟩ := h
  have hne : j ≠ lo := by
    rintro rfl
    rw [hj] at hd
    cases hd
  exact ⟨j, by omega, hhi, hj⟩

theorem Holds.ends (h : Holds s start text) (hfits : start + text.length < hi) :
    Ends s start hi := by
  refine ⟨start + text.length, Nat.le_add_right _ _, hfits, ?_⟩
  rw [h _ le_rfl, CString.buffer_of_le le_rfl]
  rfl

section

variable (h : Ends s i hi) (hagree : AgreeOn s s' i hi)
include h hagree

/-- A number that ends before `hi` is read from the characters before `hi`. -/
theorem readNumber_congr (radix fuel value : Nat) :
    readNumber radix decimalDigit s fuel i value =
      readNumber radix decimalDigit s' fuel i value := by
  induction fuel generalizing i value with
  | zero => rfl
  | succ fuel ih =>
    have hlt : i < hi := by
      obtain ⟨j, hlo, hhi, _⟩ := h
      omega
    simp only [readNumber, ← hagree i le_rfl hlt]
    cases hdigit : decimalDigit (s i) with
    | none => rfl
    | some d =>
      exact ih (h.next hdigit) (hagree.mono (Nat.le_succ i) le_rfl) _

theorem simpleStrtoul_congr : simpleStrtoul s i = simpleStrtoul s' i := by
  simp only [simpleStrtoul, readNumber_congr h hagree]

end

theorem readNumber_end_ge (radix : Nat) (digit : UInt8 → Option Nat) (s : Nat → UInt8)
    (fuel i value : Nat) : i ≤ (readNumber radix digit s fuel i value).2 := by
  induction fuel generalizing i value with
  | zero => exact le_rfl
  | succ fuel ih =>
    simp only [readNumber]
    split
    · exact le_trans (Nat.le_succ i) (ih (i + 1) _)
    · exact le_rfl

theorem le_numberEnd (s : Nat → UInt8) (i : Nat) : i ≤ numberEnd s i :=
  readNumber_end_ge _ _ _ _ _ _

theorem readNumber_end_lt_iff (s : Nat → UInt8) (radix fuel : Nat)
    (value : Nat) (hfuel : hi ≤ i + fuel) :
    (readNumber radix decimalDigit s fuel i value).2 < hi ↔ Ends s i hi := by
  induction fuel generalizing i value with
  | zero =>
    simp only [readNumber, Ends]
    constructor
    · omega
    · omega
  | succ fuel ih =>
    simp only [readNumber]
    cases hdigit : decimalDigit (s i) with
    | none =>
      constructor
      · intro h
        exact ⟨i, le_rfl, h, hdigit⟩
      · rintro ⟨j, hlo, hhi, _⟩
        exact lt_of_le_of_lt hlo hhi
    | some d =>
      rw [ih _ (by omega)]
      constructor
      · rintro ⟨j, hlo, hhi, hj⟩
        exact ⟨j, by omega, hhi, hj⟩
      · intro h
        exact h.next hdigit

/-- The parser stays below a bound exactly if the number ends below it. -/
theorem numberEnd_lt_iff (s : Nat → UInt8)
    (hspace : hi ≤ addressSpace) : numberEnd s i < hi ↔ Ends s i hi :=
  readNumber_end_lt_iff s 10 addressSpace 0 (by omega)

theorem decimalDigit_ofNat {d : Nat} (h : d < 10) : decimalDigit (ofNat (48 + d)) = some d := by
  have hvalue : (ofNat (48 + d)).toNat = 48 + d := by
    rw [toNat_ofNat']
    omega
  simp only [decimalDigit, hvalue]
  rw [if_pos (by omega)]
  congr 1
  omega

theorem digits_length_le (k n : Nat) : (digits k n).length ≤ k := by
  induction k generalizing n with
  | zero => simp [digits]
  | succ k ih =>
    simp only [digits]
    split
    · simp
    have hk := ih (n / 10)
    simp only [length_append, length_singleton]
    omega

theorem div_ten_lt (hlarge : ¬n < 10) (h : n < 10 ^ (k + 1)) : 0 < k ∧ n / 10 < 10 ^ k := by
  have hbound : n / 10 < 10 ^ k := by
    rw [Nat.div_lt_iff_lt_mul (by decide), ← pow_succ]
    exact h
  refine ⟨pos_of_ne_zero ?_, hbound⟩
  rintro rfl
  omega

theorem digits_length_le_of_lt (hpos : 0 < j) (k : Nat)
    (h : n < 10 ^ j) : (digits k n).length ≤ j := by
  induction j generalizing k n with
  | zero => omega
  | succ j ih =>
    cases k with
    | zero => simp [digits]
    | succ k =>
      simp only [digits]
      split
      · simp
      rename_i hlarge
      obtain ⟨hj, hbound⟩ := div_ten_lt hlarge h
      have hrest := ih hj k hbound
      simp only [length_append, length_singleton]
      omega

theorem mem_digits (h : c ∈ digits k n) : ∃ d, decimalDigit c = some d := by
  induction k generalizing n with
  | zero => simp [digits] at h
  | succ k ih =>
    simp only [digits] at h
    split at h
    next hsmall =>
      rw [mem_singleton.mp h]
      exact ⟨n, decimalDigit_ofNat hsmall⟩
    · rcases mem_append.mp h with h | h
      · exact ih h
      · rw [mem_singleton.mp h]
        exact ⟨n % 10, decimalDigit_ofNat (Nat.mod_lt n (by decide))⟩

theorem decimal_length_le (n : Nat) : (decimal n).length ≤ 10 :=
  digits_length_le 10 n

theorem decimalInt_length_le (n : Int) : (decimalInt n).length ≤ 11 := by
  simp only [decimalInt]
  split
  · have h := decimal_length_le n.natAbs
    simp only [length_cons]
    omega
  · have h := decimal_length_le n.toNat
    omega

theorem readNumber_digits (hpos : 0 < k) (hdigits : n < 10 ^ k) (hword : n < 2 ^ 32) (i fuel : Nat)
    (htext : ∀ j, j < (digits k n).length → s (i + j) = CString.buffer (digits k n) j) :
    readNumber 10 decimalDigit s (fuel + (digits k n).length) i 0 =
      readNumber 10 decimalDigit s fuel (i + (digits k n).length) n := by
  induction k generalizing n fuel with
  | zero => omega
  | succ k ih =>
    by_cases hsmall : n < 10
    · have hcell := htext 0 (by simp [digits, hsmall])
      simp only [digits, if_pos hsmall, add_zero, CString.buffer, getD_cons_zero] at hcell
      simp only [digits, if_pos hsmall, length_singleton, readNumber, hcell,
        decimalDigit_ofNat hsmall]
      congr 1
      omega
    · obtain ⟨hk, hbound⟩ := div_ten_lt hsmall hdigits
      have hsplit : digits (k + 1) n = digits k (n / 10) ++ [ofNat (48 + n % 10)] := by
        simp only [digits, if_neg hsmall]
      rw [hsplit] at htext ⊢
      have hleading : ∀ j, j < (digits k (n / 10)).length →
          s (i + j) = CString.buffer (digits k (n / 10)) j := by
        intro j hj
        rw [htext j (by simp; omega)]
        exact getD_append _ _ _ _ hj
      have hlast : s (i + (digits k (n / 10)).length) = ofNat (48 + n % 10) := by
        rw [htext _ (by simp)]
        simp only [CString.buffer]
        simp
      have hstep := ih hk hbound (by omega) (fuel + 1) hleading
      simp only [length_append, length_singleton]
      rw [(by omega : fuel + ((digits k (n / 10)).length + 1) =
        fuel + 1 + (digits k (n / 10)).length), hstep]
      simp only [readNumber, hlast, decimalDigit_ofNat (Nat.mod_lt n (by decide : 10 > 0))]
      congr 1
      omega

theorem Holds.simpleStrtoul_eq (h : Holds s start (decimal n)) (hword : n < 2 ^ 32) :
    simpleStrtoul s start = n := by
  have hlength := decimal_length_le n
  have hread := readNumber_digits (s := s) (by decide : 0 < 10)
    (by omega : n < 10 ^ 10) hword start (addressSpace - (decimal n).length)
    (fun j hj => h j hj.le)
  have hend : s (start + (decimal n).length) = 0 := by
    rw [h _ le_rfl]
    exact CString.buffer_of_le le_rfl
  have hfuel : addressSpace - (decimal n).length = addressSpace - (decimal n).length - 1 + 1 := by
    simp only [addressSpace]
    omega
  change readNumber 10 decimalDigit s (addressSpace - (decimal n).length +
    (decimal n).length) start 0 = readNumber 10 decimalDigit s
      (addressSpace - (decimal n).length) (start + (decimal n).length) n at hread
  rw [Nat.sub_add_cancel (by simp only [addressSpace]; omega), hfuel] at hread
  simp only [simpleStrtoul, hread, readNumber, hend]
  rfl

theorem simpleStrtoul_of_sign (h : decimalDigit (s start) = none) : simpleStrtoul s start = 0 := by
  change (readNumber 10 decimalDigit s (addressSpace - 1 + 1) start 0).1 = 0
  rw [readNumber, h]

theorem simpleStrtoul_lt (s : Nat → UInt8) (i : Nat) : simpleStrtoul s i < 2 ^ 32 := by
  have hread (fuel i value : Nat) (hvalue : value < 2 ^ 32) :
      (readNumber 10 decimalDigit s fuel i value).1 < 2 ^ 32 := by
    induction fuel generalizing i value with
    | zero => exact hvalue
    | succ fuel ih =>
      simp only [readNumber]
      split
      · exact ih _ _ (Nat.mod_lt _ (by decide))
      · exact hvalue
  exact hread _ _ 0 (by decide)

theorem digits_length_pos (hpos : 0 < k) (n : Nat) : 0 < (digits k n).length := by
  cases k with
  | zero => omega
  | succ k =>
    unfold digits
    split
    · simp
    · simp

theorem digits_length_gt (hjk : j < k) (h : 10 ^ j ≤ n) : j < (digits k n).length := by
  induction j generalizing k n with
  | zero => exact digits_length_pos hjk n
  | succ j ih =>
    obtain ⟨k, rfl⟩ := Nat.exists_eq_add_of_lt (Nat.zero_lt_of_lt hjk)
    have hpow := Nat.one_le_pow j 10 (by decide)
    have hrest := @ih (0 + k) (n / 10) (by omega) (by omega)
    rw [digits, if_neg (by omega), length_append, length_singleton]
    omega

theorem decimal_length_pos (n : Nat) : 0 < (decimal n).length :=
  digits_length_pos (Nat.succ_pos 9) n

theorem Holds.ne_of_not_digit (h : Holds s start (decimal n)) (hj : j ≤ (decimal n).length)
    (hnul : c ≠ 0) (hdigit : decimalDigit c = none) : s (start + j) ≠ c := by
  rw [h j hj]
  rintro rfl
  rcases lt_or_ge j (decimal n).length with hlt | hge
  · rw [CString.buffer_of_lt hlt] at hdigit
    obtain ⟨d, hd⟩ := mem_digits (getElem_mem hlt)
    rw [hd] at hdigit
    cases hdigit
  · exact hnul (CString.buffer_of_le hge)

example : simpleStrtoul (sprintf (fun _ => 49) 2 (decimal 3217031424)) 2 = 3217031424 := by
  decide

end EchoLife.Decimal
