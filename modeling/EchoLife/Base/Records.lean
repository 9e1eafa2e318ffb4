import Mathlib.Tactic

/-!
Sequences made of records of one size, and sequences cut into pieces of one size.
Nothing asks the two sizes to agree.
-/

namespace EchoLife.Records

open List

variable {α β : Type*}

/-- The complete pieces of a sequence, as repeated reads of `size` items get them. -/
def pieces (size : Nat) (l : List α) : List (List α) :=
  (List.range (l.length / size)).map (fun c => (l.drop (size * c)).take size)

theorem length_pieces (size : Nat) (l : List α) : (pieces size l).length = l.length / size := by
  simp [pieces]

/-- A table that holds the values of a sequence, and something else from its end on. -/
theorem map_range_getElem?_elim {l : List α} {n : Nat} (h : l.length ≤ n) (d : β) (f : α → β) :
    (List.range n).map (fun j => (l[j]?).elim d f) =
      l.map f ++ replicate (n - l.length) d := by
  refine ext_getElem? fun j => ?_
  rcases lt_or_ge j n with hj | hj
  · rw [getElem?_map, getElem?_range hj]
    rcases lt_or_ge j l.length with hin | hout
    · rw [getElem?_append_left (by simpa using hin)]
      simp [getElem?_eq_getElem hin]
    · rw [getElem?_append_right (by simpa using hout), getElem?_replicate, length_map,
        if_pos (by omega)]
      simp [getElem?_eq_none hout]
  · rw [getElem?_eq_none (by simpa using hj), getElem?_eq_none (by simp; omega)]

/-- Item `p` of a sequence of records: the item at the remainder in the record at
the quotient. -/
def itemAt (size : Nat) (f : α → List β) (default : β) (l : List α) (p : Nat) : β :=
  (l[p / size]?).elim default (fun a => (f a).getD (p % size) default)

section
variable {size : Nat} {f : α → List β} (hlength : ∀ a, (f a).length = size)
include hlength

theorem length_flatMap (l : List α) : (l.flatMap f).length = size * l.length := by
  induction l with
  | nil => rfl
  | cons a rest ih =>
    rw [flatMap_cons, length_append, hlength, ih, length_cons]
    ring

theorem getElem?_flatMap (hsize : 0 < size) (l : List α) (p : Nat) :
    (l.flatMap f)[p]? = (l[p / size]?).bind (fun a => (f a)[p % size]?) := by
  induction l generalizing p with
  | nil => simp
  | cons a rest ih =>
    rw [flatMap_cons, getElem?_append, hlength]
    split
    next hfirst =>
      rw [Nat.div_eq_of_lt hfirst, Nat.mod_eq_of_lt hfirst]
      rfl
    have hdiv : p / size = (p - size) / size + 1 :=
      Nat.div_eq_sub_div hsize (by omega)
    have hmod : p % size = (p - size) % size :=
      Nat.mod_eq_sub_mod (by omega)
    rw [ih, hdiv, hmod, getElem?_cons_succ]

theorem take_drop_flatMap (hsize : 0 < size) (default : β) (l : List α)
    {start count : Nat} (hend : start + count ≤ size * l.length) :
    ((l.flatMap f).drop start).take count =
      (List.range count).map (fun d => itemAt size f default l (start + d)) := by
  apply ext_getElem?
  intro d
  by_cases hd : d < count
  · have hrecord : (start + d) / size < l.length := by
      rw [Nat.div_lt_iff_lt_mul hsize, mul_comm]
      omega
    have hitem : (start + d) % size < (f l[(start + d) / size]).length := by
      rw [hlength]
      exact Nat.mod_lt _ hsize
    rw [getElem?_take_of_lt hd, getElem?_drop,
      getElem?_flatMap hlength hsize, getElem?_map, getElem?_range hd]
    simp [itemAt, getElem?_eq_getElem hrecord, getElem?_eq_getElem hitem]
  · rw [getElem?_eq_none (by simp; omega), getElem?_eq_none (by simp; omega)]

end

end EchoLife.Records
