import Mathlib.Tactic

/-!
One caller of a semaphore that is used as a mutex, with a wait that signals can end. The books say
how often the caller acquired and released, whether it asked while it was holding, and whether it
touched what is protected without holding it.
-/

namespace EchoLife.Semaphore

inductive DownResult where
  | granted
  | interrupted
  | blocked
  deriving DecidableEq

/-- How the waits of one call end, by number. Others give the semaphore back, so a wait of a
caller without it ends with the semaphore or with a signal; one of the holder may end in any way.
-/
structure Waits where
  signal : Nat → Bool
  whileHolding : Nat → DownResult

structure Holder where
  held : Nat
  downs : Nat
  acquired : Nat
  released : Nat
  nested : Bool
  exposed : Bool
  blocked : Bool
  deriving DecidableEq

def Holder.start (held : Nat) : Holder where
  held := held
  downs := 0
  acquired := 0
  released := 0
  nested := false
  exposed := false
  blocked := false

variable (waits : Waits)

def Waits.result (c : Holder) : DownResult :=
  if c.held = 0 then (if waits.signal c.downs then .interrupted else .granted)
  else waits.whileHolding c.downs

namespace Holder

/-- `down_interruptible`, with what it returns ignored. -/
def down (c : Holder) : Holder :=
  if c.blocked then c
  else
    let asked := { c with downs := c.downs + 1, nested := c.nested || c.held != 0 }
    match waits.result c with
    | .granted => { asked with held := c.held + 1, acquired := c.acquired + 1 }
    | .interrupted => asked
    | .blocked => { asked with blocked := true }

/-- `up`; a caller that holds nothing gives back what is not its own. -/
def up (c : Holder) : Holder :=
  if c.blocked then c else { c with held := c.held - 1, released := c.released + 1 }

/-- An access to what is protected; in an interrupt none is needed. -/
def touch (inInterrupt : Bool) (c : Holder) : Holder :=
  if c.blocked then c
  else { c with exposed := c.exposed || (!inInterrupt && c.held == 0) }

/-- The semaphore around a body, left out in an interrupt. -/
def guarded (inInterrupt : Bool) (body : Holder → Holder) (c : Holder) : Holder :=
  if inInterrupt then body c else (body (c.down waits)).up

end Holder

/-- The body leaves the semaphore alone, and touches what is protected without holding it only in
an interrupt. -/
def Quiet (inInterrupt : Bool) (body : Holder → Holder) : Prop :=
  ∀ c, ∃ exposed, body c = { c with exposed } ∧
    (c.exposed = false → inInterrupt = true ∨ c.held ≠ 0 → exposed = false)

/-- The caller has what it started with, did not ask in vain and gave back exactly what
it got. -/
structure Settled (before after : Holder) : Prop where
  held : after.held = before.held
  balance : after.released + before.acquired = after.acquired + before.released
  nested : after.nested = before.nested
  blocked : after.blocked = before.blocked

theorem quiet_id (inInterrupt : Bool) : Quiet inInterrupt id :=
  fun c => ⟨c.exposed, rfl, fun h _ => h⟩

theorem quiet_touch (inInterrupt : Bool) : Quiet inInterrupt (Holder.touch inInterrupt) := by
  intro c
  unfold Holder.touch
  split
  · exact ⟨c.exposed, rfl, fun h _ => h⟩
  refine ⟨_, rfl, ?_⟩
  intro hexposed hsafe
  rcases hsafe with hirq | hheld
  · simp [hexposed, hirq]
  · simp [hexposed, hheld]

variable {inInterrupt : Bool}

theorem Quiet.comp {first second : Holder → Holder} (hfirst : Quiet inInterrupt first)
    (hsecond : Quiet inInterrupt second) : Quiet inInterrupt fun c => second (first c) := by
  intro c
  obtain ⟨exposed, hbody, hkept⟩ := hfirst c
  obtain ⟨exposed', hbody', hkept'⟩ := hsecond { c with exposed }
  simp only [hbody, hbody']
  exact ⟨exposed', rfl, fun h hsafe => hkept' (hkept h hsafe) hsafe⟩

variable {body : Holder → Holder} {c : Holder}

theorem Quiet.settled (hbody : Quiet inInterrupt body) (c : Holder) : Settled c (body c) := by
  obtain ⟨exposed, hresult, _⟩ := hbody c
  rw [hresult]
  exact ⟨rfl, add_comm _ _, rfl, rfl⟩

section
variable {waits : Waits}

section

variable (hblocked : c.blocked = false)
include hblocked

/-- A caller that holds nothing and is not disturbed gets the semaphore. -/
theorem Holder.down_granted (hheld : c.held = 0) (hsignal : waits.signal c.downs = false) :
    c.down waits = { c with
      downs := c.downs + 1, held := 1, acquired := c.acquired + 1 } := by
  simp [down, Waits.result, hblocked, hheld, hsignal]

theorem Holder.down_interrupted (hheld : c.held = 0) (hsignal : waits.signal c.downs = true) :
    c.down waits = { c with downs := c.downs + 1 } := by
  simp [down, Waits.result, hblocked, hheld, hsignal]

/-- A holder that asks again is in the books for good. -/
theorem Holder.down_nested (hheld : c.held ≠ 0) : (c.down waits).nested = true := by
  have hne : (c.held != 0) = true := by simp [hheld]
  simp only [down, hblocked, hne, Bool.or_true]
  cases waits.result c <;> rfl

theorem Holder.up_eq : c.up = { c with held := c.held - 1, released := c.released + 1 } := by
  simp [up, hblocked]

end

section

variable (hbody : Quiet inInterrupt body) (hblocked : c.blocked = false) (hheld : c.held = 0)
include hbody hblocked hheld

/-- A quiet body under the semaphore: settled, and nothing exposed. -/
theorem Quiet.guarded_granted (hsignal : waits.signal c.downs = false) :
    Settled c (c.guarded waits false body) ∧
      (c.exposed = false → (c.guarded waits false body).exposed = false) := by
  unfold Holder.guarded
  rw [Holder.down_granted hblocked hheld hsignal]
  simp only [Bool.false_eq_true, if_false]
  obtain ⟨exposed, hresult, hkept⟩ := hbody { c with
    downs := c.downs + 1, held := 1, acquired := c.acquired + 1 }
  rw [hresult, Holder.up_eq (by exact hblocked)]
  refine ⟨⟨hheld.symm, ?_, rfl, rfl⟩, ?_⟩
  · simp only
    omega
  · intro hexposed
    exact hkept hexposed (.inr Nat.one_ne_zero)

/-- A quiet body after an interrupted wait: one release too many. -/
theorem Quiet.guarded_interrupted (hsignal : waits.signal c.downs = true) :
    (c.guarded waits false body).held = 0 ∧
      (c.guarded waits false body).released = c.released + 1 ∧
      (c.guarded waits false body).acquired = c.acquired ∧
      (c.guarded waits false body).nested = c.nested ∧
      (c.guarded waits false body).blocked = false := by
  unfold Holder.guarded
  rw [Holder.down_interrupted hblocked hheld hsignal]
  simp only [Bool.false_eq_true, if_false]
  obtain ⟨exposed, hresult, _⟩ := hbody { c with downs := c.downs + 1 }
  rw [hresult, Holder.up_eq (by exact hblocked)]
  exact ⟨by simp only [hheld], rfl, rfl, rfl, hblocked⟩

end

end

/-! ### Asking twice is not forgotten -/

theorem Holder.down_nested_mono {waits : Waits} (h : c.nested = true) :
    (c.down waits).nested = true := by
  unfold down
  split
  · exact h
  · simp only [h, Bool.true_or]
    cases waits.result c <;> rfl

theorem Holder.up_nested : c.up.nested = c.nested := by
  unfold up
  split
  · rfl
  · rfl

end EchoLife.Semaphore
