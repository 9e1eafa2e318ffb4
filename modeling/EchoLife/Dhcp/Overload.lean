import EchoLife.Dhcp.Options
import Mathlib.Data.List.TakeWhile

/-!
Options in the other fields of a message. An overload option says that `file`, `sname` or both
hold options too. `get_option` takes the byte behind its value for the value, steps over it by the
length of the first option of the field, and searches `sname` only behind `file`; where none of
that matters it looks in the announced fields, in order.
-/

namespace EchoLife.Dhcp

open List

/-- From `i` on the field is padding and options, at these positions, up to an end marker. -/
inductive Area (field : Nat → UInt8) (length : Nat) : Nat → List Nat → Prop
  | stop {i : Nat} : i < length → field i = dhcpEnd → Area field length i []
  | pad {i : Nat} {places : List Nat} : field i = dhcpPadding →
      Area field length (i + 1) places → Area field length i places
  | option {i : Nat} {places : List Nat} : field i ≠ dhcpPadding → field i ≠ dhcpEnd →
      Area field length (i + (field (i + 1)).toNat + 2) places → Area field length i (i :: places)

def firstIn (code : Int) (field : Nat → UInt8) (places : List Nat) : Option Nat :=
  (places.find? (fun p => ((field p).toNat : Int) = code)).map (· + 2)

/-- The byte `d` bytes into the overload option; the last one counts. -/
def overloadAt (d : Nat) (field : Nat → UInt8) (places : List Nat) (overload : UInt8) : UInt8 :=
  places.foldl (fun before p => if field p = dhcpOptionOver then field (p + d) else before) overload

/-- What `get_option` is for: options first, then the fields that the overload option names. -/
def lookup (code : Int) (packet : DhcpMessage) (options file sname : List Nat) :
    Option (OptionField × Nat) :=
  let value := overloadAt 2 packet.options options 0
  ((firstIn code packet.options options).map (OptionField.options, ·)).or
    ((if value &&& 1 = 0 then none
      else (firstIn code packet.file file).map (OptionField.file, ·)).or
    (if value &&& 2 = 0 then none
      else (firstIn code packet.sname sname).map (OptionField.sname, ·)))

section
variable {code : Int} {field : Nat → UInt8} {length i : Nat}

end

/-- The places before the first one with the code. -/
def before (code : Int) (field : Nat → UInt8) (places : List Nat) : List Nat :=
  places.takeWhile (fun p => ((field p).toNat : Int) ≠ code)

section
variable {code : Int} {field : Nat → UInt8} {length i : Nat} {places : List Nat}

theorem Area.lt (h : Area field length i places) : i < length := by
  induction h with
  | stop hlt => exact hlt
  | pad _ _ ih => omega
  | option _ _ _ ih => omega

/-- The loop finds the option, or ends with the byte behind the overload value, if its jumps are
right. -/
theorem Area.scan (h : Area field length i places) (hpad : code ≠ 0) (hend : code ≠ 255)
    (hjump : ∀ p ∈ before code field places, field p = dhcpOptionOver → field (p + 1) = field 1)
    (overload : UInt8) :
    scan code field length i overload =
      match firstIn code field places with
      | some position => .found position
      | none => .ended (overloadAt 3 field places overload) := by
  induction h generalizing overload with
  | @stop i hlt hstop =>
    have hcode : ((field i).toNat : Int) ≠ code := by
      rw [hstop]
      exact hend.symm
    rw [Dhcp.scan, if_pos hlt, if_neg hcode, hstop, if_neg (by decide), if_neg (by decide),
      if_pos rfl]
    rfl
  | @pad i places hzero hrest ih =>
    have hcode : ((field i).toNat : Int) ≠ code := by
      rw [hzero]
      exact hpad.symm
    have hlt := hrest.lt
    rw [Dhcp.scan, if_pos (by omega), if_neg hcode, if_pos hzero, ih hjump]
  | @option i places hzero hstop hrest ih =>
    have hlt := hrest.lt
    rw [Dhcp.scan, if_pos (by omega)]
    by_cases hcode : ((field i).toNat : Int) = code
    · rw [if_pos hcode, if_neg (by omega)]
      simp [firstIn, hcode]
    · have hbefore : before code field (i :: places) = i :: before code field places := by
        simp [before, hcode]
      rw [hbefore] at hjump
      have hnext := ih (fun p hp => hjump p (mem_cons_of_mem i hp))
      rw [if_neg hcode, if_neg hzero]
      have hfirst : firstIn code field (i :: places) = firstIn code field places := by
        simp [firstIn, hcode]
      rw [hfirst]
      by_cases hover : field i = dhcpOptionOver
      · rw [if_pos hover, if_neg (by omega), ← hjump i mem_cons_self hover, hnext]
        simp [overloadAt, hover]
      · rw [if_neg hover, if_neg hstop, hnext]
        simp [overloadAt, hover]

end

section
variable {packet : DhcpMessage} {options file sname : List Nat} {code : Int}

end

end EchoLife.Dhcp
