import EchoLife.Flash.Device

/-!
`cfi_flash_write_buf` programs a range of a sector and compares it with the buffer; if they differ
it erases the whole sector and tries again. What the chip does is an oracle for each round: what
programming leaves in the range, the count that comes back, and whether an erase takes effect. The
semaphore is in `Flash.Locking`.
-/

namespace EchoLife.Flash

open Buffer

structure Attempt where
  cells : Nat → UInt8
  count : Int
  erases : Bool

structure RetriedWrite where
  size : Nat
  offset : Nat
  numbytes : Nat
  buffer : Nat → UInt8

namespace RetriedWrite

variable (w : RetriedWrite)

/-- `cfi_flash_write`, which refuses an odd count or offset before it programs
anything. -/
def cfiFlashWrite (a : Attempt) (sector : Nat → UInt8) : (Nat → UInt8) × Int :=
  if w.numbytes % 2 = 1 ∨ w.offset % 2 = 1 then (sector, -1)
  else (blit sector w.offset w.numbytes a.cells, a.count)

/-- `cfi_memcmp_sched` finds the buffer in the range. -/
def Verified (sector : Nat → UInt8) : Prop :=
  slice sector w.offset w.numbytes = slice w.buffer 0 w.numbytes

instance (sector : Nat → UInt8) : Decidable (w.Verified sector) :=
  inferInstanceAs (Decidable (_ = _))

/-- `cfi_flash_sector_erase_int`, whose result nobody reads. -/
def cfiFlashSectorEraseInt (a : Attempt) (sector : Nat → UInt8) : Nat → UInt8 :=
  if a.erases then fill sector 0 w.size 0xFF else sector

/-- The sector and the returned count, with one entry of the list for each of the three rounds. -/
def cfiFlashWriteBuf : List Attempt → (Nat → UInt8) → (Nat → UInt8) × Int
  | [], sector => (sector, -1)
  | a :: rest, sector =>
    let written := w.cfiFlashWrite a sector
    if w.Verified written.1 then written
    else cfiFlashWriteBuf rest (w.cfiFlashSectorEraseInt a written.1)

def Erased : List Attempt → (Nat → UInt8) → Prop
  | [], _ => False
  | a :: rest, sector =>
    let written := (w.cfiFlashWrite a sector).1
    ¬ w.Verified written ∧ (a.erases = true ∨ Erased rest (w.cfiFlashSectorEraseInt a written))

def Neighbour (i : Nat) : Prop :=
  i < w.size ∧ (i < w.offset ∨ w.offset + w.numbytes ≤ i)

variable {w} {i : Nat}

theorem Neighbour.cfiFlashWrite (h : w.Neighbour i) (a : Attempt) (sector : Nat → UInt8) :
    (w.cfiFlashWrite a sector).1 i = sector i := by
  simp only [RetriedWrite.cfiFlashWrite]
  split
  · rfl
  · exact blit_outside _ _ h.2

/-- Outside the range the loop leaves the byte of before, or the erased value from the first
effective erase on. -/
theorem Neighbour.cfiFlashWriteBuf (h : w.Neighbour i) (attempts : List Attempt)
    (sector : Nat → UInt8) :
    (w.cfiFlashWriteBuf attempts sector).1 i = sector i ∧ ¬ w.Erased attempts sector ∨
      (w.cfiFlashWriteBuf attempts sector).1 i = 0xFF ∧ w.Erased attempts sector := by
  induction attempts generalizing sector with
  | nil => exact .inl ⟨rfl, id⟩
  | cons a rest ih =>
    have hwrite := h.cfiFlashWrite a sector
    simp only [RetriedWrite.cfiFlashWriteBuf, Erased]
    by_cases hverified : w.Verified (w.cfiFlashWrite a sector).1
    · rw [if_pos hverified]
      exact .inl ⟨hwrite, fun herased => herased.1 hverified⟩
    rw [if_neg hverified]
    have hrest := ih (w.cfiFlashSectorEraseInt a (w.cfiFlashWrite a sector).1)
    cases herases : a.erases with
    | true =>
      have hvalue : w.cfiFlashSectorEraseInt a (w.cfiFlashWrite a sector).1 i = 0xFF := by
        simp only [cfiFlashSectorEraseInt, herases, if_true]
        exact fill_inside _ _ (Nat.zero_le i) (by have := h.1; omega)
      refine .inr ⟨?_, hverified, .inl rfl⟩
      rcases hrest with hkept | hlost
      · exact hkept.1.trans hvalue
      · exact hlost.1
    | false =>
      have hsame : w.cfiFlashSectorEraseInt a (w.cfiFlashWrite a sector).1 =
          (w.cfiFlashWrite a sector).1 := by
        simp [cfiFlashSectorEraseInt, herases]
      rw [hsame] at hrest ⊢
      simpa [hverified, hwrite] using hrest

/-- Whatever the rounds do and return, the bytes outside the range are kept exactly if no erase
took effect or all of them had the erased value already. -/
theorem retried_write_keeps_iff (w : RetriedWrite) (attempts : List Attempt)
    (sector : Nat → UInt8) :
    (∀ i, w.Neighbour i → (w.cfiFlashWriteBuf attempts sector).1 i = sector i) ↔
      ¬ w.Erased attempts sector ∨ ∀ i, w.Neighbour i → sector i = 0xFF := by
  by_cases herased : w.Erased attempts sector
  · have hvalue : ∀ i, w.Neighbour i → (w.cfiFlashWriteBuf attempts sector).1 i = 0xFF := by
      intro i h
      rcases h.cfiFlashWriteBuf attempts sector with hkept | hlost
      · exact absurd herased hkept.2
      · exact hlost.1
    constructor
    · intro hsame
      exact .inr fun i h => (hsame i h).symm.trans (hvalue i h)
    · rintro (hnot | hblank) i h
      · exact absurd herased hnot
      · rw [hvalue i h, hblank i h]
  · refine iff_of_true (fun i h => ?_) (.inl herased)
    rcases h.cfiFlashWriteBuf attempts sector with hkept | hlost
    · exact hkept.1
    · exact absurd hlost.2 herased

/-- The first attempt leaves zeros, the second stores its data: both bytes count as written, and
the one behind is gone. -/
theorem retry_erases_neighbour :
    let w : RetriedWrite := ⟨4, 0, 2, fun _ => 7⟩
    let after := w.cfiFlashWriteBuf
      [⟨fun _ => 0, 2, true⟩, ⟨fun _ => 7, 2, true⟩, ⟨fun _ => 7, 2, true⟩] (fun _ => 5)
    after.2 = w.numbytes ∧ w.Neighbour 2 ∧ after.1 2 = 0xFF := by
  refine ⟨by decide, ⟨by decide, .inr (by decide)⟩, by decide⟩

end RetriedWrite

end EchoLife.Flash
