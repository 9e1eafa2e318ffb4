import Mathlib.Logic.Function.Iterate
import Mathlib.Tactic

/-!
Loops as the iteration of a step. A loop returns if some iterate of its step has
halted, and what it has halted in does not depend on how long one iterates.
-/

namespace EchoLife.Iterate

open Function

variable {S : Type} {step : S → S} {halted : S → Prop}

def Returns (step : S → S) (halted : S → Prop) (s : S) : Prop :=
  ∃ n, halted (step^[n] s)

variable {s : S} {n : Nat}

theorem halted_of_le (hkeeps : ∀ s, halted s → halted (step s)) {m : Nat}
    (hle : n ≤ m) (h : halted (step^[n] s)) : halted (step^[m] s) := by
  induction m, hle using Nat.le_induction with
  | base => exact h
  | succ m _ ih =>
    rw [iterate_succ_apply']
    exact hkeeps _ ih

/-- Steps that keep a halted state lead to one such state only. -/
theorem iterate_eq_of_halted (hfixed : ∀ s, halted s → step s = s) {m : Nat}
    (hn : halted (step^[n] s)) (hm : halted (step^[m] s)) : step^[n] s = step^[m] s := by
  have hlater {a b : Nat} (hle : a ≤ b) (ha : halted (step^[a] s)) : step^[a] s = step^[b] s := by
    obtain ⟨k, rfl⟩ := Nat.exists_eq_add_of_le' hle
    rw [iterate_add_apply, iterate_fixed (hfixed _ ha)]
  rcases le_total n m with hle | hge
  · exact hlater hle hn
  · exact (hlater hge hm).symm

end EchoLife.Iterate
