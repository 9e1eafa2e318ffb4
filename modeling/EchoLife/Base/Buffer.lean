import Mathlib.Tactic

/-!
Buffers as total functions from offsets to cells. A block of memory has no length of its own:
whoever allocates it says how many cells it owns, and the cells past that are whatever memory
follows, so that reads past the end are visible in a model.
-/

namespace EchoLife.Buffer

open List

variable {α : Type*} {left right : Nat → α}

/-- Overwrite `n` cells of `dst` from `start` on with the first cells of `src`. -/
def blit (dst : Nat → α) (start n : Nat) (src : Nat → α) : Nat → α :=
  fun i => if start ≤ i ∧ i < start + n then src (i - start) else dst i

def fill (dst : Nat → α) (start n : Nat) (value : α) : Nat → α :=
  blit dst start n (fun _ => value)

variable (buffer : Nat → α)

/-- Pointer arithmetic: the buffer as seen from `start`. -/
def view (start : Nat) : Nat → α :=
  fun i => buffer (start + i)

def slice (start n : Nat) : List α :=
  (range n).map (fun i => buffer (start + i))

/-- A block together with the memory in front of it. -/
def around (front : Int → α) (block : Nat → α) : Int → α :=
  fun i => if i < 0 then front i else block i.toNat

/-- Overwrite `n` cells from a start that may lie in front of the block. -/
def poke (dst : Int → α) (start : Int) (n : Nat) (src : Nat → α) : Int → α :=
  fun i => if start ≤ i ∧ i < start + n then src (i - start).toNat else dst i

def peek (buffer : Int → α) (start : Int) (n : Nat) : List α :=
  (range n).map (fun i : Nat => buffer (start + i))

def AgreeOn (left right : Nat → α) (lo hi : Nat) : Prop :=
  ∀ i, lo ≤ i → i < hi → left i = right i

section

variable (dst src : Nat → α) {start n i : Nat}

theorem blit_inside (hlo : start ≤ i) (hhi : i < start + n) :
    blit dst start n src i = src (i - start) := by
  simp only [blit]
  rw [if_pos ⟨hlo, hhi⟩]

theorem blit_outside (h : i < start ∨ start + n ≤ i) : blit dst start n src i = dst i := by
  simp only [blit]
  rw [if_neg (by omega)]

theorem blit_at (h : i < n) : blit dst start n src (start + i) = src i := by
  rw [blit_inside dst src (by omega) (by omega)]
  congr 1
  omega

end

variable (dst src : Nat → α) (start : Nat)

theorem fill_inside (value : α) {start n i : Nat} (hlo : start ≤ i) (hhi : i < start + n) :
    fill dst start n value i = value :=
  blit_inside dst _ hlo hhi

theorem fill_outside (value : α) {start n i : Nat} (h : i < start ∨ start + n ≤ i) :
    fill dst start n value i = dst i :=
  blit_outside dst _ h

theorem blit_blit_same (first second : Nat → α) (start n : Nat) :
    blit (blit dst start n first) start n second = blit dst start n second := by
  funext i
  by_cases h : start ≤ i ∧ i < start + n
  · rw [blit_inside _ _ h.1 h.2, blit_inside _ _ h.1 h.2]
  · rw [blit_outside _ _ (by omega), blit_outside _ _ (by omega), blit_outside _ _ (by omega)]

theorem blit_blit_append (n m : Nat) :
    blit (blit dst start n src) (start + n) m (view src n) = blit dst start (n + m) src := by
  funext i
  by_cases hfirst : start ≤ i ∧ i < start + n
  · rw [blit_outside _ _ (by omega), blit_inside _ _ hfirst.1 hfirst.2,
      blit_inside _ _ (by omega) (by omega)]
  by_cases hsecond : start + n ≤ i ∧ i < start + n + m
  · rw [blit_inside _ _ hsecond.1 hsecond.2, blit_inside _ _ (by omega) (by omega)]
    simp only [view]
    congr 1
    omega
  · rw [blit_outside _ _ (by omega), blit_outside _ _ (by omega), blit_outside _ _ (by omega)]

@[simp] theorem blit_zero : blit dst start 0 src = dst := by
  funext i
  exact blit_outside dst src (by omega)

theorem view_view (m n : Nat) : view (view buffer m) n = view buffer (m + n) := by
  funext i
  simp only [view, add_assoc]

@[simp] theorem view_zero : view buffer 0 = buffer := by
  funext i
  simp only [view, zero_add]

theorem slice_length (n : Nat) : (slice buffer start n).length = n := by
  simp [slice]

theorem slice_congr {start start' n : Nat}
    (h : ∀ i, i < n → left (start + i) = right (start' + i)) :
    slice left start n = slice right start' n := by
  apply map_congr_left
  intro i hi
  exact h i (mem_range.mp hi)

theorem slice_inj {start start' n i : Nat} (h : slice left start n = slice right start' n)
    (hi : i < n) : left (start + i) = right (start' + i) := by
  have hcell := congrArg (fun cells => cells[i]?) h
  simpa [slice, hi] using hcell

theorem poke_around (front : Int → α) (block src : Nat → α) (start n : Nat) :
    (fun i : Nat => poke (around front block) start n src i) = blit block start n src := by
  funext i
  simp only [poke, around, blit]
  by_cases h : start ≤ i ∧ i < start + n
  · rw [if_pos (by omega), if_pos h]
    congr 1
    omega
  · rw [if_neg (by omega), if_neg h, if_neg (by omega), Int.toNat_natCast]

theorem peek_around (front : Int → α) (block : Nat → α) (start n : Nat) :
    peek (around front block) start n = slice block start n := by
  simp only [peek, slice, around]
  apply map_congr_left
  intro i _
  congr 1

theorem AgreeOn.symm {lo hi : Nat} (h : AgreeOn left right lo hi) : AgreeOn right left lo hi :=
  fun i hlo hhi => (h i hlo hhi).symm

theorem AgreeOn.mono {lo hi lo' hi' : Nat} (h : AgreeOn left right lo hi) (hlo : lo ≤ lo')
    (hhi : hi' ≤ hi) : AgreeOn left right lo' hi' := by
  intro i hilo hihi
  exact h i (by omega) (by omega)

end EchoLife.Buffer
