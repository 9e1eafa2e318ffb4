import Mathlib.Tactic

/-!
Runs of a deterministic machine: the state after a list of actions, the states
reachable through actions that meet a condition, and the states a run can be
interrupted in. The rules derive facts about runs from facts about one action.
-/

namespace EchoLife.Run

open List

variable {S A O : Type*} {step : A → S → S} {ok : A → S → Prop} {first second : List A}

def run (step : A → S → S) : List A → S → S
  | [], s => s
  | a :: rest, s => run step rest (step a s)

@[simp] theorem run_nil (step : A → S → S) (s : S) : run step [] s = s :=
  rfl

@[simp] theorem run_cons (step : A → S → S) (a : A) (rest : List A) (s : S) :
    run step (a :: rest) s = run step rest (step a s) :=
  rfl

theorem run_append (step : A → S → S) (first second : List A) (s : S) :
    run step (first ++ second) s = run step second (run step first s) := by
  induction first generalizing s with
  | nil => rfl
  | cons a rest ih => exact ih (step a s)

variable {B : Type*} {start : S}

theorem run_flatMap (step : A → S → S) (parts : B → List A) (actions : List B) (s : S) :
    run step (actions.flatMap parts) s = run (fun b => run step (parts b)) actions s := by
  induction actions generalizing s with
  | nil => rfl
  | cons b rest ih => rw [flatMap_cons, run_append, ih, run_cons]

theorem run_map (step : A → S → S) (f : B → A) (actions : List B) (s : S) :
    run step (actions.map f) s = run (fun b => step (f b)) actions s := by
  induction actions generalizing s with
  | nil => rfl
  | cons b rest ih => rw [map_cons, run_cons, ih, run_cons]

variable {P : S → Prop} {actions : List A} {s : S} {torn : A → S → S → Prop}

/-- What every action of a list preserves holds after the list. -/
theorem run_invariant (hstep : ∀ a ∈ actions, ∀ s, P s → P (step a s)) (h : P s) :
    P (run step actions s) := by
  induction actions generalizing s with
  | nil => exact h
  | cons a rest ih =>
    apply ih
    · intro b hb
      exact hstep b (mem_cons_of_mem a hb)
    · exact hstep a mem_cons_self s h

/-- An observation that no action of a list changes is the same after it. -/
theorem run_observe {f : S → O} (hstep : ∀ a ∈ actions, ∀ s, f (step a s) = f s) (s : S) :
    f (run step actions s) = f s := by
  apply run_invariant (P := fun t => f t = f s) _ rfl
  intro a ha t ht
  rw [hstep a ha t, ht]

/-- States reachable from `start` by actions that meet a condition on the
state they are taken in. -/
inductive Reaches (step : A → S → S) (ok : A → S → Prop) (start : S) : S → Prop
  | start : Reaches step ok start start
  | step {s : S} (a : A) (hreach : Reaches step ok start s) (hok : ok a s) :
      Reaches step ok start (step a s)

/-- The invariant rule for reachable states. -/
theorem Reaches.invariant (hreach : Reaches step ok start s) (hstart : P start)
    (hstep : ∀ a s, ok a s → P s → P (step a s)) : P s := by
  induction hreach with
  | start => exact hstart
  | step a _ hok ih => exact hstep a _ hok ih

theorem Reaches.mono {ok weak : A → S → Prop} (hreach : Reaches step ok start s)
    (hok : ∀ a s, ok a s → weak a s) : Reaches step weak start s := by
  induction hreach with
  | start => exact .start
  | step a _ ha ih => exact .step a ih (hok a _ ha)

theorem Reaches.run {s : S} (hreach : Reaches step ok start s) {actions : List A}
    (hok : ∀ a ∈ actions, ∀ now, ok a now) : Reaches step ok start (Run.run step actions s) := by
  induction actions generalizing s with
  | nil => exact hreach
  | cons a rest ih =>
    apply ih (.step a hreach (hok a mem_cons_self s))
    intro b hb
    exact hok b (mem_cons_of_mem a hb)

/-- Every action of the list meets the condition in the state it is taken in. -/
def Allowed (step : A → S → S) (ok : A → S → Prop) : List A → S → Prop
  | [], _ => True
  | a :: rest, s => ok a s ∧ Allowed step ok rest (step a s)

instance Allowed.decidable (step : A → S → S) (ok : A → S → Prop)
    [∀ a s, Decidable (ok a s)] : ∀ actions s, Decidable (Allowed step ok actions s)
  | [], _ => .isTrue trivial
  | a :: rest, s =>
    have := Allowed.decidable step ok rest (step a s)
    inferInstanceAs (Decidable (ok a s ∧ Allowed step ok rest (step a s)))

/-- Two machines stay related if each action that is allowed on the second keeps them so. -/
theorem Allowed.simulation {T : Type*} {abstract : A → T → T} {ok : A → T → Prop}
    {R : S → T → Prop} (hstep : ∀ a s t, ok a t → R s t → R (step a s) (abstract a t)) {t : T}
    (hallowed : Allowed abstract ok actions t) (h : R s t) :
    R (Run.run step actions s) (Run.run abstract actions t) := by
  induction actions generalizing s t with
  | nil => exact h
  | cons a rest ih => exact ih hallowed.2 (hstep a s t hallowed.1 h)

theorem Reaches.run_allowed (hreach : Reaches step ok start s)
    (hallowed : Allowed step ok actions s) : Reaches step ok start (Run.run step actions s) := by
  induction actions generalizing s with
  | nil => exact hreach
  | cons a rest ih => exact ih (.step a hreach hallowed.1) hallowed.2

theorem Allowed.append
    (hfirst : Allowed step ok first s) (hsecond : Allowed step ok second (run step first s)) :
    Allowed step ok (first ++ second) s := by
  induction first generalizing s with
  | nil => exact hsecond
  | cons a rest ih => exact ⟨hfirst.1, ih hfirst.2 hsecond⟩

section

variable {also : A → S → Prop}

theorem Allowed.and (hok : Allowed step ok actions s) (halso : Allowed step also actions s) :
    Allowed step (fun a s => ok a s ∧ also a s) actions s := by
  induction actions generalizing s with
  | nil => trivial
  | cons a rest ih => exact ⟨⟨hok.1, halso.1⟩, ih hok.2 halso.2⟩

/-- Conditions that agree under an invariant, which the first one keeps, allow the same runs. -/
theorem Allowed.iff_of_invariant (hiff : ∀ a s, P s → (ok a s ↔ also a s))
    (hkeep : ∀ a s, P s → ok a s → P (step a s)) (h : P s) :
    Allowed step ok actions s ↔ Allowed step also actions s := by
  induction actions generalizing s with
  | nil => exact Iff.rfl
  | cons a rest ih =>
    simp only [Allowed, ← hiff a s h]
    exact and_congr_right (fun hok => ih (hkeep a s h hok))

/-- A condition that follows from another one under an invariant, which that one keeps, allows its
runs. -/
theorem Allowed.imp_of_invariant (hstep : ∀ a s, P s → ok a s → also a s ∧ P (step a s))
    (hallowed : Allowed step ok actions s) (h : P s) : Allowed step also actions s := by
  induction actions generalizing s with
  | nil => trivial
  | cons a rest ih =>
    obtain ⟨halso, hnext⟩ := hstep a s h hallowed.1
    exact ⟨halso, ih hallowed.2 hnext⟩

end

theorem Allowed.of_forall (h : ∀ a ∈ actions, ∀ s, ok a s) (s : S) : Allowed step ok actions s := by
  induction actions generalizing s with
  | nil => trivial
  | cons a rest ih =>
    refine ⟨h a mem_cons_self s, ih ?_ _⟩
    intro b hb
    exact h b (mem_cons_of_mem a hb)

/-- An invariant that allowed actions keep holds after an allowed run. -/
theorem Allowed.invariant (hkeep : ∀ a s, P s → ok a s → P (step a s))
    (hallowed : Allowed step ok actions s) (h : P s) : P (run step actions s) := by
  induction actions generalizing s with
  | nil => exact h
  | cons a rest ih => exact ih hallowed.2 (hkeep a s h hallowed.1)

theorem Allowed.of_append (h : Allowed step ok (first ++ second) s) :
    Allowed step ok first s ∧ Allowed step ok second (run step first s) := by
  induction first generalizing s with
  | nil => exact ⟨trivial, h⟩
  | cons a rest ih =>
    obtain ⟨hfirst, hsecond⟩ := ih h.2
    exact ⟨⟨h.1, hfirst⟩, hsecond⟩

section Violations
variable (step : A → S → S) (ok : A → S → Prop) [∀ a s, Decidable (ok a s)]

def violations : List A → S → Nat
  | [], _ => 0
  | a :: rest, s => (if ok a s then 0 else 1) + violations rest (step a s)

theorem violations_eq_zero_iff (actions : List A) (s : S) :
    violations step ok actions s = 0 ↔ Allowed step ok actions s := by
  induction actions generalizing s with
  | nil => simp only [violations, Allowed]
  | cons a rest ih =>
    simp only [violations, Allowed, ← ih (step a s)]
    split <;> simp_all

theorem violations_le (actions : List A) (s : S) :
    violations step ok actions s ≤ actions.length := by
  induction actions generalizing s with
  | nil => exact le_refl 0
  | cons a rest ih =>
    have hrest := ih (step a s)
    simp only [violations, length_cons]
    split <;> omega

end Violations

/-- The states a run can be interrupted in. `torn a s s'` says what an unfinished `a` can leave of
`s`. -/
inductive Interrupted (step : A → S → S) (torn : A → S → S → Prop) : List A → S → S → Prop
  | here {a : A} {rest : List A} {s s' : S} (htorn : torn a s s') :
      Interrupted step torn (a :: rest) s s'
  | later {a : A} {rest : List A} {s s' : S}
      (hrest : Interrupted step torn rest (step a s) s') :
      Interrupted step torn (a :: rest) s s'

/-- An interrupted run stops in its first part, or in the second one after the first. -/
theorem Interrupted.append_cases {s' : S} (h : Interrupted step torn (first ++ second) s s') :
    Interrupted step torn first s s' ∨ Interrupted step torn second (run step first s) s' := by
  induction first generalizing s with
  | nil => exact .inr h
  | cons a rest ih =>
    cases h with
    | here htorn => exact .inl (.here htorn)
    | later hrest =>
      rcases ih hrest with hfirst | hsecond
      · exact .inl (.later hfirst)
      · exact .inr hsecond

/-- The invariant rule for interrupted runs. -/
theorem Interrupted.invariant {s' : S} (h : Interrupted step torn actions s s')
    (hstart : P s) (hstep : ∀ a ∈ actions, ∀ s, P s → P (step a s))
    (htorn : ∀ a ∈ actions, ∀ s s', torn a s s' → P s → P s') : P s' := by
  induction h with
  | here hbroken => exact htorn _ mem_cons_self _ _ hbroken hstart
  | later _ ih =>
    apply ih
    · exact hstep _ mem_cons_self _ hstart
    · intro b hb
      exact hstep b (mem_cons_of_mem _ hb)
    · intro b hb
      exact htorn b (mem_cons_of_mem _ hb)

/-- A run can be interrupted when it is complete, if each action can. -/
theorem Interrupted.of_complete (htorn : ∀ a s, torn a s (step a s)) (hne : actions ≠ []) (s : S) :
    Interrupted step torn actions s (run step actions s) := by
  induction actions generalizing s with
  | nil => exact absurd rfl hne
  | cons a rest ih =>
    by_cases hrest : rest = []
    · subst hrest
      exact .here (htorn a s)
    · exact .later (ih hrest (step a s))

end EchoLife.Run
