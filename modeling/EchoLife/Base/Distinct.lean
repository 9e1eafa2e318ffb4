import Mathlib.Tactic

/-!
The first distinct items of a list, as a table of fixed size collects them: a new item goes into
the next slot, as long as there is one. The slots behind keep what they held before.
-/

namespace EchoLife.Distinct

variable {α β : Type*} [DecidableEq α] [DecidableEq β] {size : Nat} {found : List α}

def note (size : Nat) (t : List α × Nat) (a : α) : List α × Nat :=
  if a ∈ t.1.take t.2 then t
  else if t.2 < size then (t.1.set t.2 a, t.2 + 1)
  else t

def firstDistinct (size : Nat) (items : List α) : List α :=
  items.eraseDups.take size

theorem length_firstDistinct_le (size : Nat) (items : List α) :
    (firstDistinct size items).length ≤ size :=
  List.length_take_le _ _

variable {a : α} {f : α → β}

theorem mem_of_mem_firstDistinct {items : List α} (h : a ∈ firstDistinct size items) : a ∈ items :=
  List.mem_eraseDups.mp (List.mem_of_mem_take h)

def collected (size : Nat) (found items : List α) : List α :=
  found ++ firstDistinct (size - found.length) (items.filter (fun a => a ∉ found))

theorem collected_of_mem (ha : a ∈ found) (size : Nat)
    (rest : List α) : collected size found (a :: rest) = collected size found rest := by
  rw [collected, List.filter_cons_of_neg (by simpa using ha)]
  rfl

theorem collected_of_full (hfull : size ≤ found.length)
    (items : List α) : collected size found items = found := by
  rw [collected, Nat.sub_eq_zero_of_le hfull, firstDistinct, List.take_zero, List.append_nil]

theorem collected_of_not_mem (ha : a ∉ found) (hroom : found.length < size) (rest : List α) :
    collected size found (a :: rest) = collected size (found ++ [a]) rest := by
  have hfilter : (rest.filter (fun b => b ∉ found)).filter (fun b => !b == a) =
      rest.filter (fun b => b ∉ found ++ [a]) := by
    rw [List.filter_filter]
    apply List.filter_congr
    simp [Bool.and_comm, beq_eq_decide]
  have hroom' : size - found.length = size - (found.length + 1) + 1 := by omega
  rw [collected, collected, List.filter_cons_of_pos (by simpa using ha), firstDistinct,
    List.eraseDups_cons, hfilter, hroom', List.take_succ_cons, List.length_append,
    List.length_singleton, List.append_assoc]
  rfl

def filled (table found : List α) : List α × Nat :=
  (found ++ table.drop found.length, found.length)

/-- Collecting items puts the first distinct ones at the start of the table. -/
theorem foldl_note {table : List α} (hsize : table.length = size) (items : List α) :
    items.foldl (note size) (table, 0) = filled table (firstDistinct size items) := by
  suffices hgeneral : ∀ found : List α, found.length ≤ size →
      items.foldl (note size) (filled table found) = filled table (collected size found items) by
    have hstart := hgeneral [] (Nat.zero_le size)
    simpa [filled, collected] using hstart
  induction items with
  | nil =>
    simp [collected, firstDistinct]
  | cons a rest ih =>
    intro found hfound
    have hseen : (filled table found).1.take (filled table found).2 = found := by
      simp [filled]
    rw [List.foldl_cons, note, hseen]
    split
    next hmem =>
      rw [ih found hfound, collected_of_mem hmem]
    rename_i hmem
    split
    next hroom =>
      have hroom : found.length < size := hroom
      -- The next slot of the table takes the item.
      have hset : ((filled table found).1.set (filled table found).2 a,
          (filled table found).2 + 1) = filled table (found ++ [a]) := by
        have hslot : table.drop found.length =
            table[found.length] :: table.drop (found.length + 1) :=
          List.drop_eq_getElem_cons (by omega)
        simp only [filled, List.length_append, List.length_singleton]
        rw [List.set_append_right _ _ (Nat.le_refl _), Nat.sub_self, hslot,
          List.set_cons_zero, List.append_assoc]
        rfl
      rw [hset, ih _ (by simpa using hroom), collected_of_not_mem hmem hroom]
    next hfull =>
      have hfull : size ≤ found.length := Nat.le_of_not_lt hfull
      rw [ih found hfound, collected_of_full hfull, collected_of_full hfull]

theorem eraseDups_map (hf : Function.Injective f) (items : List α) :
    (items.map f).eraseDups = items.eraseDups.map f := by
  induction hlength : items.length using Nat.strong_induction_on generalizing items with
  | _ n ih =>
    cases items with
    | nil => rfl
    | cons a rest =>
      have hfilter : (rest.map f).filter (fun b => !b == f a) =
          (rest.filter (fun b => !b == a)).map f := by
        rw [List.filter_map]
        congr 1
        apply List.filter_congr
        simp [hf.eq_iff]
      rw [List.map_cons, List.eraseDups_cons, hfilter, List.eraseDups_cons, List.map_cons]
      rw [ih _ _ _ rfl]
      have hle := List.length_filter_le (fun b => !b == a) rest
      rw [← hlength, List.length_cons]
      omega

theorem firstDistinct_map (hf : Function.Injective f) (size : Nat)
    (items : List α) : firstDistinct size (items.map f) = (firstDistinct size items).map f := by
  rw [firstDistinct, eraseDups_map hf, firstDistinct, List.map_take]

end EchoLife.Distinct
