import Mathlib.Tactic

/-!
Chained hash tables: an array of lists, with an entry in the list that the hash
of its key selects. The entries of all lists together are described up to their
order.
-/

namespace EchoLife.Buckets

open Function List Option

variable {α κ : Type*} {n : Nat} {table : Fin n → List α} {a : α} {slot : Fin n}

def entries (table : Fin n → List α) : List α :=
  (List.finRange n).flatMap table

def insert (table : Fin n → List α) (slot : Fin n) (a : α) : Fin n → List α :=
  update table slot (a :: table slot)

def remove [DecidableEq α] (table : Fin n → List α) (slot : Fin n) (a : α) : Fin n → List α :=
  update table slot ((table slot).erase a)

def unlink [DecidableEq α] (table : Fin n → List α) (a : α) : Fin n → List α :=
  fun slot => (table slot).filter (· ≠ a)

theorem mem_entries : a ∈ entries table ↔ ∃ slot, a ∈ table slot := by
  simp [entries]

theorem entries_eq_nil (hempty : ∀ slot, table slot = []) : entries table = [] := by
  rw [entries, flatMap_eq_nil_iff]
  exact fun slot _ => hempty slot

section

variable (table : Fin n → List α) (slot : Fin n)

/-- The entries outside one list stand before and after it, whatever it holds. -/
theorem exists_entries_update :
    ∃ before after : List α, entries table = before ++ (table slot ++ after) ∧
      ∀ chain, entries (update table slot chain) = before ++ (chain ++ after) := by
  obtain ⟨first, last, hsplit⟩ := append_of_mem (mem_finRange slot)
  have hnodup := hsplit ▸ nodup_finRange n
  have hfirst : slot ∉ first := by
    intro hmem
    exact (nodup_append.mp hnodup).2.2 slot hmem slot mem_cons_self rfl
  have hlast : slot ∉ last := (nodup_cons.mp (nodup_append.mp hnodup).2.1).1
  have hother (chain : List α) (slots : List (Fin n)) (hnot : slot ∉ slots) :
      slots.flatMap (update table slot chain) = slots.flatMap table := by
    apply flatMap_congr
    intro other hmem
    have hne : other ≠ slot := by
      rintro rfl
      exact hnot hmem
    exact update_of_ne hne _ _
  refine ⟨first.flatMap table, last.flatMap table, ?_, fun chain => ?_⟩
  · rw [entries, hsplit, flatMap_append, flatMap_cons]
  · rw [entries, hsplit, flatMap_append, flatMap_cons, update_self,
      hother chain first hfirst, hother chain last hlast]

/-- What a list of the table held is exchanged for what it holds now. -/
theorem entries_update_perm (chain : List α) :
    (entries (update table slot chain) ++ table slot).Perm (entries table ++ chain) := by
  obtain ⟨before, after, hsame, hentries⟩ := exists_entries_update table slot
  have hswap : ((chain ++ after) ++ table slot).Perm ((table slot ++ after) ++ chain) := by
    apply (perm_append_comm).trans
    rw [← append_assoc, append_assoc, append_assoc]
    exact (perm_append_comm).append_left _
  rw [hentries, hsame, append_assoc before, append_assoc before]
  exact hswap.append_left before

theorem entries_insert_perm (a : α) :
    (entries (insert table slot a)).Perm (a :: entries table) := by
  obtain ⟨before, after, hsame, hentries⟩ := exists_entries_update table slot
  rw [insert, hentries, hsame]
  exact perm_middle

end

theorem entries_remove_perm [DecidableEq α] (hmem : a ∈ table slot) :
    (entries table).Perm (a :: entries (remove table slot a)) := by
  obtain ⟨before, after, hsame, hentries⟩ := exists_entries_update table slot
  rw [remove, hentries, hsame]
  have hchain := (perm_cons_erase hmem).append_right after
  exact (hchain.append_left before).trans perm_middle

theorem mem_entries_insert {a b : α} :
    b ∈ entries (insert table slot a) ↔ b = a ∨ b ∈ entries table :=
  (entries_insert_perm table slot a).mem_iff.trans mem_cons

theorem mem_insert_slot {place slot : Fin n} {a b : α}
    (hb : b ∈ insert table place a slot) : b = a ∨ b ∈ table slot := by
  by_cases hslot : slot = place
  · subst hslot
    rw [insert, update_self] at hb
    exact mem_cons.mp hb
  · rw [insert, update_of_ne hslot] at hb
    exact .inr hb

theorem mem_entries_remove [DecidableEq α] (hnodup : (entries table).Nodup) (hmem : a ∈ table slot)
    {b : α} : b ∈ entries (remove table slot a) ↔ b ≠ a ∧ b ∈ entries table := by
  have hperm := entries_remove_perm hmem
  have hnot := (nodup_cons.mp (hperm.nodup_iff.mp hnodup)).1
  rw [hperm.mem_iff, mem_cons]
  constructor
  · intro hb
    refine ⟨?_, .inr hb⟩
    rintro rfl
    exact hnot hb
  · rintro ⟨hne, heq | hb⟩
    · exact absurd heq hne
    · exact hb

theorem mem_entries_unlink [DecidableEq α] {a b : α} :
    b ∈ entries (unlink table a) ↔ b ≠ a ∧ b ∈ entries table := by
  simp only [mem_entries, unlink, mem_filter, decide_eq_true_eq, exists_and_right]
  exact and_comm

variable {key : α → κ}

theorem mem_of_find?_slot [DecidableEq κ]
    {k : κ} (hfind : (table slot).find? (fun b => key b == k) = some a) :
    a ∈ entries table ∧ key a = k := by
  have hkey := find?_some hfind
  exact ⟨mem_entries.mpr ⟨slot, mem_of_find?_eq_some hfind⟩, beq_iff_eq.mp hkey⟩

def Placed (key : α → κ) (hash : κ → Fin n) (table : Fin n → List α) : Prop :=
  ∀ slot, ∀ a ∈ table slot, hash (key a) = slot

section Placed
variable {hash : κ → Fin n}

section

variable (h : Placed key hash table)
include h

theorem Placed.mem_slot (hmem : a ∈ entries table) : a ∈ table (hash (key a)) := by
  obtain ⟨slot, hslot⟩ := mem_entries.mp hmem
  exact (h slot a hslot).symm ▸ hslot

theorem Placed.congr {other : α → κ}
    (hkey : ∀ a ∈ entries table, other a = key a) : Placed other hash table := by
  intro slot a ha
  rw [hkey a (mem_entries.mpr ⟨slot, ha⟩)]
  exact h slot a ha

theorem Placed.insert (a : α) : Placed key hash (insert table (hash (key a)) a) := by
  intro slot b hb
  by_cases hslot : slot = hash (key a)
  · subst hslot
    rcases mem_insert_slot hb with rfl | hrest
    · rfl
    · exact h _ b hrest
  · rw [Buckets.insert, update_of_ne hslot] at hb
    exact h slot b hb

theorem Placed.remove [DecidableEq α] (place : Fin n) (a : α) :
    Placed key hash (remove table place a) := by
  intro slot b hb
  by_cases hslot : slot = place
  · subst hslot
    rw [Buckets.remove, update_self] at hb
    exact h _ b (mem_of_mem_erase hb)
  · rw [Buckets.remove, update_of_ne hslot] at hb
    exact h slot b hb

/-- A search of one list misses only the keys that no entry of the table has. -/
theorem Placed.find?_eq_none_iff [DecidableEq κ] (k : κ) :
    (table (hash k)).find? (fun a => key a == k) = none ↔ ∀ a ∈ entries table, key a ≠ k := by
  rw [find?_eq_none]
  constructor
  · intro hnone a hmem hkey
    have hslot := h.mem_slot hmem
    rw [hkey] at hslot
    exact hnone a hslot (beq_iff_eq.mpr hkey)
  · intro hnone a hmem hkey
    exact hnone a (mem_entries.mpr ⟨_, hmem⟩) (beq_iff_eq.mp hkey)

end

end Placed

end EchoLife.Buckets
