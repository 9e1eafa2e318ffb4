import Mathlib.Tactic

/-!
A heap as `malloc` and `free` leave it, and chains of cells that are linked by
pointers: which cells are reached from a pointer, and what writing one cell does to
the chain.
-/

namespace EchoLife.Heap

open Function List

/-- The content of the live blocks. The null pointer is the address 0. -/
abbrev Blocks (C : Type*) := Nat → Option C

variable {C : Type*}

def write (h : Blocks C) (p : Nat) (c : C) : Blocks C :=
  update h p (some c)

def free (h : Blocks C) (p : Nat) : Blocks C :=
  if p = 0 then h else update h p none

@[simp] theorem write_self (h : Blocks C) (p : Nat) (c : C) : write h p c p = some c := by
  exact update_self p (some c) h

variable {p : Nat} {ps : List Nat} {q : Nat} {qs : List Nat}

theorem write_of_ne {h : Blocks C} {c : C} (hne : q ≠ p) : write h p c q = h q := by
  exact update_of_ne hne (some c) h

theorem free_of_ne {h : Blocks C} (hne : q ≠ p) : free h p q = h q := by
  unfold free
  split
  · rfl
  · exact update_of_ne hne none h

theorem free_self {h : Blocks C} (hp : p ≠ 0) : free h p p = none := by
  unfold free
  rw [if_neg hp]
  exact update_self p none h

theorem free_eq_none {h : Blocks C} (hq : h q = none) (p : Nat) : free h p q = none := by
  rcases eq_or_ne q p with rfl | hne
  · rcases eq_or_ne q 0 with rfl | hpos
    · exact hq
    · exact free_self hpos
  · rw [free_of_ne hne, hq]

section Chain
variable (next : C → Option Nat)

/-- The pointer that the cell at `p` holds. -/
def link (h : Blocks C) (p : Nat) : Option Nat :=
  (h p).bind next

/-- From `p` the cells `ps` are reached, and the last of them holds the null pointer. -/
inductive Chain (h : Blocks C) : Nat → List Nat → Prop
  | nil : Chain h 0 []
  | cons {p q : Nat} {ps : List Nat} (hp : p ≠ 0) (hlink : link next h p = some q)
      (hrest : Chain h q ps) : Chain h p (p :: ps)

end Chain

variable {next : C → Option Nat} {h h' : Blocks C}

section

variable (hps : Chain next h p ps)
include hps

theorem Chain.unique (hqs : Chain next h p qs) : ps = qs := by
  induction hps generalizing qs with
  | nil =>
    cases hqs with
    | nil => rfl
    | cons hp _ _ => exact absurd rfl hp
  | cons hp hlink _ ih =>
    cases hqs with
    | nil => exact absurd rfl hp
    | cons _ hlink' hrest' =>
      rw [hlink, Option.some_inj] at hlink'
      subst hlink'
      rw [ih hrest']

theorem Chain.eq_nil_iff : ps = [] ↔ p = 0 := by
  cases hps with
  | nil => exact iff_of_true rfl rfl
  | cons hp _ _ => exact iff_of_false (cons_ne_nil _ _) hp

theorem Chain.linked (hq : q ∈ ps) : q ≠ 0 ∧ ∃ r, link next h q = some r := by
  induction hps with
  | nil => exact absurd hq not_mem_nil
  | cons hp hlink _ ih =>
    rcases mem_cons.mp hq with rfl | hq
    · exact ⟨hp, _, hlink⟩
    · exact ih hq

end

theorem Chain.from (hchain : Chain next h p (ps ++ q :: qs)) : Chain next h q (q :: qs) := by
  induction ps generalizing p with
  | nil =>
    cases hchain with
    | cons hp hlink hrest => exact .cons hp hlink hrest
  | cons x ps ih =>
    cases hchain with
    | cons _ _ hrest => exact ih hrest

theorem Chain.nodup (hps : Chain next h p ps) : ps.Nodup := by
  induction hps with
  | nil => exact nodup_nil
  | @cons p q ps hp hlink hrest ih =>
    refine nodup_cons.mpr ⟨?_, ih⟩
    intro hagain
    obtain ⟨front, back, rfl⟩ := append_of_mem hagain
    -- From the second occurrence the chain would be shorter.
    have hsame := (Chain.cons hp hlink hrest).unique hrest.from
    have hlength := congrArg List.length hsame
    simp only [length_cons, length_append] at hlength
    omega

section

variable (hchain : Chain next h p (ps ++ q :: qs))
include hchain

theorem Chain.ne_of_before {x : Nat} (hx : x ∈ ps) : x ≠ q := by
  have hnodup := hchain.nodup
  rw [nodup_append] at hnodup
  exact hnodup.2.2 x hx q mem_cons_self

/-- The last cell of a chain holds the null pointer, and no other one does. -/
theorem Chain.link_eq_zero_iff : link next h q = some 0 ↔ qs = [] := by
  cases hchain.from with
  | @cons _ r _ _ hlink hrest =>
    rw [hlink, Option.some_inj]
    constructor
    · rintro rfl
      exact hrest.unique .nil
    · rintro rfl
      cases hrest
      rfl

/-- The cells before `q` keep their pointers; from `q` on the chain is another. -/
theorem Chain.relink {r : Nat} {rs : List Nat} (hsame : ∀ x ∈ ps, link next h' x = link next h x)
    (hlink : link next h' q = some r) (hrest : Chain next h' r rs) :
    Chain next h' p (ps ++ q :: rs) := by
  induction ps generalizing p with
  | nil =>
    cases hchain with
    | cons hp _ _ => exact .cons hp hlink hrest
  | cons x ps ih =>
    cases hchain with
    | cons hp hfirst hback =>
      refine .cons hp ?_ (ih hback (fun y hy => hsame y (mem_cons_of_mem x hy)))
      rw [hsame x mem_cons_self, hfirst]

end

theorem Chain.frame (hps : Chain next h p ps)
    (hsame : ∀ x ∈ ps, link next h' x = link next h x) : Chain next h' p ps := by
  induction hps with
  | nil => exact .nil
  | @cons p q ps hp hlink _ ih =>
    refine .cons hp ?_ (ih fun x hx => hsame x (mem_cons_of_mem p hx))
    rw [hsame p mem_cons_self, hlink]

end EchoLife.Heap
