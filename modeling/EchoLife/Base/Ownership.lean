import Mathlib.Tactic

/-!
Buffers that are handed over. A buffer that a function is given, and each copy it makes, is to be
handed on exactly once; the ledger notes who got what, and `Spends` says that a part of a program
hands on just the buffers it was given and its own copies.
-/

namespace EchoLife.Ownership

open List

variable {U : Type*}

/-- How often a copy was asked for, the number of the next buffer, and the buffers handed on, the
last one first. -/
structure Ledger (U : Type*) where
  attempts : Nat
  fresh : Nat
  given : List (Nat × U)
  deriving DecidableEq

namespace Ledger

def start : Ledger U :=
  ⟨0, 1, []⟩

def give (s : Ledger U) (b : Nat) (use : U) : Ledger U :=
  { s with given := (b, use) :: s.given }

/-- Ask for a copy; `ok` says which attempts succeed. -/
def clone (ok : Nat → Bool) (s : Ledger U) : Option Nat × Ledger U :=
  if ok s.attempts then
    (some s.fresh, { s with attempts := s.attempts + 1, fresh := s.fresh + 1 })
  else (none, { s with attempts := s.attempts + 1 })

variable {ok : Nat → Bool} {s : Ledger U}

theorem clone_ok (h : ok s.attempts = true) :
    s.clone ok = (some s.fresh, ⟨s.attempts + 1, s.fresh + 1, s.given⟩) :=
  if_pos h

theorem clone_failed (h : ok s.attempts = false) :
    s.clone ok = (none, ⟨s.attempts + 1, s.fresh, s.given⟩) := by
  rw [clone, h]
  rfl

def uses (s : Ledger U) (b : Nat) : Nat :=
  s.given.countP (fun entry => entry.1 == b)

def Settled (s : Ledger U) : Prop :=
  ∀ b, s.uses b = if b < s.fresh then 1 else 0

end Ledger

/-- From `s` to `t` the buffers `spent`, and each copy made in between, are handed on once, and no
other. -/
structure Spends (spent : List Nat) (s t : Ledger U) : Prop where
  fresh_le : s.fresh ≤ t.fresh
  uses : ∀ b, t.uses b = s.uses b + spent.count b + if s.fresh ≤ b ∧ b < t.fresh then 1 else 0

theorem Spends.refl (s : Ledger U) : Spends [] s s := by
  refine ⟨Nat.le_refl _, ?_⟩
  intro b
  rw [if_neg (by omega), count_nil, Nat.add_zero]

theorem Spends.give (s : Ledger U) (b : Nat) (use : U) : Spends [b] s (s.give b use) := by
  refine ⟨le_refl _, ?_⟩
  intro c
  rw [if_neg (by simp only [Ledger.give]; omega)]
  simp only [Ledger.uses, Ledger.give, countP_cons, count_singleton, add_zero]

variable {s t : Ledger U}

theorem Spends.trans {first second : List Nat} {u : Ledger U} (hfirst : Spends first s t)
    (hsecond : Spends second t u) : Spends (first ++ second) s u := by
  refine ⟨le_trans hfirst.fresh_le hsecond.fresh_le, ?_⟩
  intro b
  have hle := hfirst.fresh_le
  have hle' := hsecond.fresh_le
  rw [hsecond.uses, hfirst.uses, count_append]
  split_ifs <;> omega

variable {spent : List Nat}

theorem Spends.failed (h : Spends spent ⟨s.attempts + 1, s.fresh, s.given⟩ t) : Spends spent s t :=
  ⟨h.fresh_le, h.uses⟩

theorem Spends.cloned (h : Spends (s.fresh :: spent) ⟨s.attempts + 1, s.fresh + 1, s.given⟩ t) :
    Spends spent s t := by
  obtain ⟨hle, huses⟩ := h
  simp only at hle
  refine ⟨by omega, ?_⟩
  intro b
  rw [huses b, count_cons]
  simp only [Ledger.uses, beq_iff_eq]
  split_ifs <;> omega

theorem Spends.start_uses (h : Spends spent .start t) (b : Nat) :
    t.uses b = spent.count b + if 1 ≤ b ∧ b < t.fresh then 1 else 0 := by
  have huses := h.uses b
  rw [show (Ledger.start : Ledger U).uses b = 0 from rfl, zero_add] at huses
  exact huses

/-- What starts with one buffer and spends it is settled. -/
theorem Spends.settled (h : Spends [0] .start t) : t.Settled := by
  intro b
  have hle : 1 ≤ t.fresh := h.fresh_le
  rw [h.start_uses b, count_singleton]
  rcases b with _ | b
  · simp only [beq_self_eq_true, if_true]
    rw [if_neg (by omega), if_pos (by omega)]
  · simp

/-- What starts with one buffer and spends nothing has lost it. -/
theorem Spends.not_settled (h : Spends [] .start t) : ¬t.Settled := by
  intro hsettled
  have hle : 1 ≤ t.fresh := h.fresh_le
  have hzero := hsettled 0
  rw [h.start_uses 0, if_neg (by omega), if_pos (by omega), count_nil] at hzero
  cases hzero

end EchoLife.Ownership
