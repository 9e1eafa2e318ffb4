import Mathlib.Tactic

/-!
Lists kept in the order of use. An element that is used moves to the end, and each use
has a time of its own, so that the first element is the one that has not been used for
longest.
-/

namespace EchoLife.Recency

open Function List

variable {α : Type*} {used : α → Nat} {now : Nat} {l : List α}

/-- The elements stand in the order of their last use, and the last one is past. -/
structure Ordered (used : α → Nat) (now : Nat) (l : List α) : Prop where
  sorted : l.Pairwise (fun a b => used a < used b)
  past : ∀ a ∈ l, used a < now

theorem Ordered.nil (used : α → Nat) (now : Nat) : Ordered used now [] :=
  ⟨.nil, by simp⟩

theorem Ordered.nodup (h : Ordered used now l) : l.Nodup := by
  apply h.sorted.imp
  rintro a _ hlt rfl
  exact lt_irrefl _ hlt

theorem Ordered.head_le (h : Ordered used now l) {a : α} (hhead : l.head? = some a) :
    ∀ b ∈ l, used a ≤ used b := by
  cases l with
  | nil => cases hhead
  | cons first rest =>
    obtain rfl := Option.some.inj hhead
    refine forall_mem_cons.mpr ⟨le_refl _, fun b hrest => ?_⟩
    exact le_of_lt ((pairwise_cons.mp h.sorted).1 b hrest)

section

variable [DecidableEq α] (h : Ordered used now l)
include h

theorem Ordered.erase (a : α) : Ordered used now (l.erase a) :=
  ⟨h.sorted.sublist erase_sublist, fun b hb => h.past b (mem_of_mem_erase hb)⟩

/-- A use of an element that is not listed leaves the order as it is. -/
theorem Ordered.use_other {a : α} (ha : a ∉ l) : Ordered (update used a now) (now + 1) l := by
  have hsame : ∀ b ∈ l, update used a now b = used b := by
    intro b hb
    exact update_of_ne (ne_of_mem_of_not_mem hb ha) _ _
  constructor
  · apply h.sorted.imp_of_mem
    intro b c hb hc hlt
    rw [hsame b hb, hsame c hc]
    exact hlt
  · intro b hb
    rw [hsame b hb]
    exact Nat.lt_succ_of_lt (h.past b hb)

theorem Ordered.append {a : α} (ha : a ∉ l) : Ordered (update used a now) (now + 1) (l ++ [a]) := by
  have hlast : update used a now a = now := update_self ..
  have hrest := h.use_other ha
  constructor
  · rw [pairwise_append]
    refine ⟨hrest.sorted, pairwise_singleton _ _, ?_⟩
    intro b hb c hc
    rw [mem_singleton.mp hc, hlast, update_of_ne (ne_of_mem_of_not_mem hb ha)]
    exact h.past b hb
  · rw [forall_mem_append, forall_mem_singleton, hlast]
    exact ⟨hrest.past, Nat.lt_succ_self now⟩

/-- An element of the list moves to its end when it is used. -/
theorem Ordered.refresh (a : α) : Ordered (update used a now) (now + 1) (l.erase a ++ [a]) :=
  (h.erase a).append h.nodup.not_mem_erase

end

end EchoLife.Recency
