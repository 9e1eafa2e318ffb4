import Mathlib.Tactic

/-!
Objects that are handed around. They are numbered in the order in which they were made,
and wherever they may be, the list of all places together has each of them once. A step
that loses some objects and gains others keeps that exactly when it gains what it loses.
-/

namespace EchoLife.Inventory

open List

/-- The list has each of the first `made` objects once, and nothing else. -/
def Complete (made : Nat) (stock : List Nat) : Prop :=
  stock.Perm (List.range made)

section
variable {made : Nat} {stock stock' lost gained : List Nat}

section

variable (h : Complete made stock)
include h

theorem Complete.nodup : stock.Nodup :=
  h.nodup_iff.mpr nodup_range

theorem Complete.exchange (hbalance : (stock' ++ lost).Perm (stock ++ gained)) :
    Complete made stock' ↔ lost.Perm gained := by
  constructor
  · intro hnow
    have hsame : (stock' ++ lost).Perm (stock' ++ gained) :=
      hbalance.trans ((h.trans hnow.symm).append_right gained)
    exact (perm_append_left_iff stock').mp hsame
  · intro hequal
    have hsame : (stock' ++ lost).Perm (stock ++ lost) :=
      hbalance.trans (hequal.symm.append_left stock)
    exact ((perm_append_right_iff lost).mp hsame).trans h

theorem Complete.extend {num : Nat}
    (hnew : stock'.Perm (stock ++ range' made num)) : Complete (made + num) stock' := by
  have hrange : range (made + num) = range made ++ range' made num := by
    rw [range_eq_range', range_eq_range', ← range'_append_1, zero_add]
  rw [Complete, hrange]
  exact hnew.trans (h.append_right _)

end

end

end EchoLife.Inventory
