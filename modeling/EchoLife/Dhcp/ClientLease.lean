import Mathlib.Tactic

/-!
The lease of the DHCP client while the server is silent and `select` wakes it at its timeout.
-/

namespace EchoLife.Dhcp.ClientLease

inductive State
  | bound | renewing | rebinding | initSelecting

structure Client where
  state : State
  t1 : Nat
  t2 : Nat
  timeout : Nat

/-- The difference of two numbers of 32 bits. -/
def gap (a b : Nat) : Nat :=
  (b + 2 ^ 32 - a) % 2 ^ 32

variable (lease start : Nat)

/-- What an ACK sets. -/
def ack : Client :=
  ⟨.bound, lease / 2, lease * 7 % 2 ^ 32 / 8, (lease / 2 + start) % 2 ^ 32⟩

/-- The `switch` after a timeout; `BOUND` falls through to `RENEWING`. -/
def wake (c : Client) : Client :=
  match c.state with
  | .bound | .renewing =>
    if gap c.t1 c.t2 ≤ lease / 14400 + 1 then
      { c with state := .rebinding, timeout := (c.timeout + gap c.t1 c.t2) % 2 ^ 32 }
    else
      let t1 := (gap c.t1 c.t2 / 2 + c.t1) % 2 ^ 32
      { c with state := .renewing, t1 := t1, timeout := (t1 + start) % 2 ^ 32 }
  | .rebinding =>
    if gap c.t2 lease ≤ lease / 14400 + 1 then { c with state := .initSelecting }
    else
      let t2 := (gap c.t2 lease / 2 + c.t2) % 2 ^ 32
      { c with t2 := t2, timeout := (t2 + start) % 2 ^ 32 }
  | .initSelecting => c

/-- The order of the times, and a bound on the number of timeouts to come. -/
def Timed (left : Nat) (c : Client) : Prop :=
  c.t1 ≤ c.t2 ∧ c.t2 ≤ lease ∧
    match c.state with
    | .bound | .renewing => c.timeout = start + c.t1 ∧ left = lease - c.t1 + 1
    | .rebinding => c.timeout = start + c.t2 ∧ left = lease - c.t2
    | .initSelecting => False

/-- After timeouts that never decrease the client is in its initial state, between two times. -/
inductive GivesUp (first last : Nat) : Client → Prop
  | init {c : Client} (hstate : c.state = .initSelecting) (hfirst : first ≤ c.timeout)
      (hlast : c.timeout ≤ last) : GivesUp first last c
  | wake {c : Client} (hlater : c.timeout ≤ (wake lease start c).timeout)
      (hrest : GivesUp first last (wake lease start c)) : GivesUp first last c

variable {lease start}

private theorem gap_eq {a b : Nat} (hle : a ≤ b) (hlt : b < 2 ^ 31) : gap a b = b - a := by
  unfold gap
  omega

section

variable (huptime : start + lease < 2 ^ 31) {left : Nat} {c : Client}
  (h : Timed lease start left c)
include huptime h

theorem Timed.wake : ∃ after, wake lease start c = after ∧ c.timeout ≤ after.timeout ∧
    after.timeout ≤ start + lease ∧
    (after.state = .initSelecting ∨ ∃ fewer < left, Timed lease start fewer after) := by
  obtain ⟨state, t1, t2, timeout⟩ := c
  obtain ⟨hordered, ht2, htimeout⟩ := h
  dsimp only at hordered ht2 htimeout
  cases state with
  | bound | renewing =>
    dsimp only [ClientLease.wake]
    rw [gap_eq hordered (by omega)]
    split
    · refine ⟨_, rfl, ?_, ?_, .inr ⟨_, ?_, hordered, ht2, ?_, rfl⟩⟩ <;> dsimp only <;> omega
    · rw [Nat.mod_eq_of_lt (show (t2 - t1) / 2 + t1 < 2 ^ 32 by omega)]
      refine ⟨_, rfl, ?_, ?_, .inr ⟨_, ?_, ?_, ht2, ?_, rfl⟩⟩ <;> dsimp only <;> omega
  | rebinding =>
    dsimp only [ClientLease.wake]
    rw [gap_eq ht2 (by omega)]
    split
    · exact ⟨_, rfl, le_rfl, by dsimp only; omega, .inl rfl⟩
    · rw [Nat.mod_eq_of_lt (show (lease - t2) / 2 + t2 < 2 ^ 32 by omega)]
      refine ⟨_, rfl, ?_, ?_, .inr ⟨_, ?_, ?_, ?_, ?_, rfl⟩⟩ <;> dsimp only <;> omega
  | initSelecting => exact htimeout.elim

theorem Timed.givesUp {first : Nat} (hfirst : first ≤ c.timeout) :
    GivesUp lease start first (start + lease) c := by
  induction left using Nat.strong_induction_on generalizing c with
  | _ left ih =>
    obtain ⟨_, rfl, hlater, hintime, hinit | ⟨fewer, hfewer, hnext⟩⟩ := h.wake huptime
    · exact .wake hlater (.init hinit (hfirst.trans hlater) hintime)
    · exact .wake hlater (ih fewer hfewer hnext (hfirst.trans hlater))

end

/-- A lease is given up in its second half. -/
theorem lease_given_up (lease start : Nat) (hlease : lease * 7 < 2 ^ 32)
    (huptime : start + lease < 2 ^ 31) :
    GivesUp lease start (start + lease / 2) (start + lease) (ack lease start) := by
  have ht2 : (ack lease start).t2 = lease * 7 / 8 := congrArg (· / 8) (Nat.mod_eq_of_lt hlease)
  have hbound : (ack lease start).timeout = start + lease / 2 := by
    dsimp only [ack]
    omega
  have htimed : Timed lease start _ (ack lease start) :=
    ⟨show lease / 2 ≤ _ by omega, by omega, hbound, rfl⟩
  exact htimed.givesUp huptime hbound.ge

theorem day_given_up :
    GivesUp 86400 100 (100 + 86400 / 2) (100 + 86400) (ack 86400 100) :=
  lease_given_up 86400 100 (by decide) (by decide)

end EchoLife.Dhcp.ClientLease
