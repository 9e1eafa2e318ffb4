import Mathlib.Tactic

/-!
Tables that are searched from their start: the first slot with a property, and
what overwriting one slot does to it.
-/

namespace EchoLife.Slots

open List Option

variable {α : Type*} {p : α → Prop} {table : List α}

/-- Slot `i` has the property and no slot before it has. -/
def FirstAt (p : α → Prop) (table : List α) (i : Nat) : Prop :=
  (∃ a, table[i]? = some a ∧ p a) ∧ ∀ j < i, ∀ a, table[j]? = some a → ¬ p a

variable {i j : Nat}

theorem FirstAt.lt_length (h : FirstAt p table i) : i < table.length := by
  obtain ⟨⟨a, hslot, _⟩, _⟩ := h
  exact (List.getElem?_eq_some_iff.mp hslot).1

theorem FirstAt.unique (hi : FirstAt p table i) (hj : FirstAt p table j) : i = j := by
  obtain ⟨⟨a, hslot, ha⟩, hbefore⟩ := hi
  obtain ⟨⟨b, hslot', hb⟩, hbefore'⟩ := hj
  rcases lt_trichotomy i j with hlt | heq | hgt
  · exact absurd ha (hbefore' i hlt a hslot)
  · exact heq
  · exact absurd hb (hbefore j hgt b hslot')

theorem firstAt_cons_zero {a : α} (ha : p a) : FirstAt p (a :: table) 0 :=
  ⟨⟨a, rfl, ha⟩, fun _ hj => absurd hj (Nat.not_lt_zero _)⟩

section

variable (h : FirstAt p table i)
include h

theorem FirstAt.cons {a : α} (ha : ¬ p a) : FirstAt p (a :: table) (i + 1) := by
  refine ⟨h.1, ?_⟩
  intro j hj b hslot
  cases j with
  | zero =>
    rw [getElem?_cons_zero, some_inj] at hslot
    exact hslot ▸ ha
  | succ j => exact h.2 j (Nat.lt_of_succ_lt_succ hj) b hslot

theorem FirstAt.exists_mem : ∃ a ∈ table, p a := by
  obtain ⟨⟨a, hslot, ha⟩, _⟩ := h
  exact ⟨a, mem_of_getElem? hslot, ha⟩

theorem FirstAt.modify {f : α → α} (hf : ∀ a, p (f a) ↔ p a) (k : Nat) :
    FirstAt p (table.modify k f) i := by
  obtain ⟨⟨a, hslot, ha⟩, hbefore⟩ := h
  constructor
  · refine ⟨if k = i then f a else a, ?_, ?_⟩
    · rw [getElem?_modify, hslot]
      rfl
    · split
      · exact (hf a).mpr ha
      · exact ha
  · intro j hj b hb
    rw [getElem?_modify, Option.map_eq_map, Option.map_eq_some_iff] at hb
    obtain ⟨c, hc, hcb⟩ := hb
    have hnot := hbefore j hj c hc
    split at hcb
    · rw [← hcb, hf c]
      exact hnot
    · rw [← hcb]
      exact hnot

/-- Another slot is overwritten, a slot before the first by something without the
property. -/
theorem FirstAt.set_other {k : Nat} {x : α} (hne : k ≠ i)
    (hx : k < i → ¬ p x) : FirstAt p (table.set k x) i := by
  obtain ⟨⟨a, hslot, ha⟩, hbefore⟩ := h
  constructor
  · exact ⟨a, by rw [getElem?_set_ne hne, hslot], ha⟩
  intro j hj b hb
  rcases eq_or_ne k j with rfl | hkj
  · rw [getElem?_set_self'] at hb
    obtain ⟨c, _, hcb⟩ := map_eq_some_iff.mp hb
    exact hcb ▸ hx hj
  · rw [getElem?_set_ne hkj] at hb
    exact hbefore j hj b hb

end

theorem firstAt_set_fresh {k : Nat} {x : α} (hnone : ∀ a ∈ table, ¬ p a)
    (hk : k < table.length) (hx : p x) : FirstAt p (table.set k x) k := by
  constructor
  · exact ⟨x, getElem?_set_self hk, hx⟩
  intro j hj b hb
  rw [getElem?_set_ne (ne_of_gt hj)] at hb
  exact hnone b (mem_of_getElem? hb)

/-! ### Tables of a fixed size -/

section
variable {n : Nat} {hit : α → Bool} {slots : Nat → α}

/-- The first of the `n` slots that the search takes. -/
def firstSlot (n : Nat) (hit : α → Bool) (slots : Nat → α) : Option Nat :=
  (List.range n).find? (fun i => hit (slots i))

theorem firstSlot_lt (h : firstSlot n hit slots = some i) : i < n :=
  mem_range.mp (find?_range_eq_some.mp h).2.1

theorem firstSlot_hit (h : firstSlot n hit slots = some i) : hit (slots i) = true :=
  (find?_range_eq_some.mp h).1

theorem firstSlot_none (h : firstSlot n hit slots = none) (hj : j < n) : hit (slots j) = false := by
  simpa using find?_range_eq_none.mp h j hj

theorem firstSlot_isSome (hj : j < n) (htaken : hit (slots j) = true) :
    ∃ i, firstSlot n hit slots = some i := by
  cases hfirst : firstSlot n hit slots with
  | some i => exact ⟨i, rfl⟩
  | none =>
    rw [firstSlot_none hfirst hj] at htaken
    cases htaken

end

end EchoLife.Slots
