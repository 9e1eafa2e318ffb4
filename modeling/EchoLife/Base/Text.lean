import EchoLife.Base.Decimal

/-!
Addresses as text and as the bits of a subnet: the text that `%u.%u.%u.%u` makes of an address,
what `inet_aton` reads of it, the mask of a width, and which addresses agree under it.
-/

namespace EchoLife.Text

open Decimal List Option UInt8

def bytes (text : String) : List UInt8 :=
  text.toUTF8.data.toList

structure Address where
  a : UInt8
  b : UInt8
  c : UInt8
  d : UInt8
  deriving DecidableEq, Repr

def Address.octets (address : Address) : List UInt8 :=
  [address.a, address.b, address.c, address.d]

/-- The conversion `%u.%u.%u.%u` of an address. -/
def Address.text (address : Address) : List UInt8 :=
  decimal address.a.toNat ++ 46 :: decimal address.b.toNat ++
    46 :: decimal address.c.toNat ++ 46 :: decimal address.d.toNat

theorem Address.text_length (address : Address) :
    1 ≤ address.text.length ∧ address.text.length ≤ 15 := by
  have hoctet : ∀ c : UInt8, (decimal c.toNat).length ≤ 3 := by
    intro c
    exact digits_length_le_of_lt (by omega) 10 (by have := c.toNat_lt; omega)
  have ha := hoctet address.a
  have hb := hoctet address.b
  have hc := hoctet address.c
  have hd := hoctet address.d
  simp only [Address.text, length_append, length_cons]
  omega

/-- A digit behind the value, as long as that is an octet. -/
def addDigit (value : Nat) (c : UInt8) : Option Nat :=
  (decimalDigit c).bind (fun d =>
    if value * 10 + d ≤ 255 then some (value * 10 + d) else none)

def octet (part : List UInt8) : Option UInt8 :=
  if part = [] then none else (part.foldlM addDigit 0).map ofNat

/-- `inet_aton` on an address and nothing else. -/
def inetAton (text : List UInt8) : Option Address :=
  match text.splitOn 46 with
  | [a, b, c, d] => do
      let a ← octet a
      let b ← octet b
      let c ← octet c
      let d ← octet d
      return ⟨a, b, c, d⟩
  | _ => none

theorem addDigit_ofNat {value d : Nat} (hd : d < 10) (hoctet : value * 10 + d ≤ 255) :
    addDigit value (ofNat (48 + d)) = some (value * 10 + d) := by
  rw [addDigit, decimalDigit_ofNat hd, bind_some, if_pos hoctet]

theorem foldlM_digits {k n : Nat} (hpos : 0 < k) (hdigits : n < 10 ^ k) (hoctet : n ≤ 255) :
    (digits k n).foldlM addDigit 0 = some n := by
  induction k generalizing n with
  | zero => omega
  | succ k ih =>
    rw [digits]
    split
    next hsmall =>
      simp only [foldlM_cons, foldlM_nil]
      rw [addDigit_ofNat hsmall (by omega)]
      simp
    rename_i hlarge
    obtain ⟨hk, hbound⟩ := div_ten_lt hlarge hdigits
    have hvalue : n / 10 * 10 + n % 10 = n := Nat.div_add_mod' n 10
    rw [foldlM_append, ih hk hbound (by omega)]
    simp only [foldlM_cons, foldlM_nil, bind_eq_bind, bind_some]
    rw [addDigit_ofNat (Nat.mod_lt n (by omega)) (by omega), hvalue]
    simp

theorem octet_decimal (c : UInt8) : octet (decimal c.toNat) = some c := by
  have hlt := c.toNat_lt
  have hne : decimal c.toNat ≠ [] := ne_nil_of_length_pos (decimal_length_pos _)
  rw [octet, if_neg hne, decimal, foldlM_digits (by omega) (by omega) (by omega),
    map_some, UInt8.ofNat_toNat]

theorem not_mem_decimal {c : UInt8} (hdigit : decimalDigit c = none) (n : Nat) : c ∉ decimal n := by
  intro hmem
  obtain ⟨d, hd⟩ := mem_digits hmem
  rw [hdigit] at hd
  cases hd

theorem inetAton_text (address : Address) : inetAton address.text = some address := by
  have hdot (n : Nat) : (46 : UInt8) ∉ decimal n := not_mem_decimal rfl n
  unfold inetAton Address.text
  rw [append_assoc, append_assoc, cons_append, cons_append,
    splitOn_append_cons_self_of_not_mem (hdot _), splitOn_append_cons_self_of_not_mem (hdot _),
    splitOn_append_cons_self_of_not_mem (hdot _), splitOn_eq_singleton (hdot _)]
  simp only [octet_decimal]
  rfl

theorem Address.text_injective : Function.Injective Address.text := by
  intro x y htext
  have hread := inetAton_text x
  rw [htext, inetAton_text, some_inj] at hread
  exact hread.symm

theorem Address.text_ne_nil (address : Address) : address.text ≠ [] := by
  simp [Address.text]

theorem Address.mem_text {address : Address} {c : UInt8} (h : c ∈ address.text) :
    46 ≤ c.toNat ∧ c.toNat ≤ 57 := by
  have hdigit {n : Nat} (hmem : c ∈ decimal n) : 46 ≤ c.toNat ∧ c.toNat ≤ 57 := by
    obtain ⟨d, hd⟩ := mem_digits hmem
    unfold decimalDigit at hd
    split at hd
    · omega
    · cases hd
  simp only [Address.text, mem_append, mem_cons] at h
  rcases h with ((h | rfl | h) | rfl | h) | rfl | h
  all_goals first | exact hdigit h | exact ⟨by decide, by decide⟩

/-! ### Subnets -/

def Address.and (x y : Address) : Address :=
  ⟨x.a &&& y.a, x.b &&& y.b, x.c &&& y.c, x.d &&& y.d⟩

/-- An octet that begins with `bits` ones. -/
def maskOctet (bits : Nat) : UInt8 :=
  ofNat (256 - 2 ^ (8 - bits))

def subnetMask (width : Nat) : Address :=
  ⟨maskOctet width, maskOctet (width - 8), maskOctet (width - 16), maskOctet (width - 24)⟩

theorem maskOctet_of_le {bits : Nat} (h : 8 ≤ bits) : maskOctet bits = 255 := by
  rw [maskOctet, Nat.sub_eq_zero_of_le h]
  rfl

end EchoLife.Text
