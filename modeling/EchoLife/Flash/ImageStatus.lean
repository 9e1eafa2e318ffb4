import EchoLife.Flash.ImageFrame

/-!
What `kerSysBcmImageSet` reports. The status is derived from the remaining size and the number of
the sector the loop stopped at, so it is wrong when that number is 0, and there is none when the
loop runs off the sector table. The exact condition is stated on the arguments.
-/

namespace EchoLife.Flash

open Buffer Word

/-- The arguments of the loop: `size` bytes of `image` for the chip from `origin` on, which holds
`prior`. -/
structure ImageRun where
  env : Env
  chip : CfiPart
  info : FlashAddrInfo
  whole : Bool
  image : Nat → UInt8
  origin : Nat
  size : Nat
  prior : Nat → UInt8

namespace ImageRun

section
variable (r : ImageRun)

def remaining (s : Nat) : Int :=
  (r.size : Int) - ((r.chip.base s : Int) - r.origin)

/-- The sector is the one the image may share with the VA partition. -/
def IsShared (s : Nat) : Prop :=
  r.whole = false ∧ (s : Int) = r.info.flashVariable.startBlk

def chunkAt (s : Nat) : Nat :=
  (chunkSize (r.chip.sectorSize s) (r.remaining s)).toNat

def SectorFails (s : Nat) : Prop :=
  ∃ cells, r.env.cells s = some cells ∧
    slice cells 0 (r.chunkAt s) ≠ slice (view r.image (r.chip.base s - r.origin)) 0 (r.chunkAt s)

def sharedBuffer (s : Nat) : Nat → UInt8 :=
  blit (view r.prior (r.chip.base s)) 0 (r.remaining s).toNat
    (view r.image (r.chip.base s - r.origin))

def sharedWrite (s : Nat) (dev : Dev) : Dev × Int :=
  writeShared r.env r.chip r.info.flashVariable.length r.image s
    (r.chip.base s - r.origin) (r.remaining s) dev

def sectorWrite (s : Nat) (dev : Dev) : Dev × Int :=
  writeSector r.env r.chip r.image s (r.chip.base s - r.origin)
    (chunkSize (r.chip.sectorSize s) (r.remaining s)) dev

def SharedAttempted (s : Nat) : Prop :=
  r.remaining s ≤ r.chip.sectorSize s - r.info.flashVariable.length ∧ r.env.copyFromUserOk = true

def SharedFails (s : Nat) : Prop :=
  ∃ cells, r.env.cells s = some cells ∧
    slice cells 0 (r.chip.sectorSize s) ≠ slice (r.sharedBuffer s) 0 (r.chip.sectorSize s)

instance (r : ImageRun) (s : Nat) : Decidable (r.IsShared s) :=
  inferInstanceAs (Decidable (_ ∧ _))

instance (r : ImageRun) (s : Nat) : Decidable (r.SharedAttempted s) :=
  inferInstanceAs (Decidable (_ ∧ _))

/-- A run that arrives at sector `s` ends there without success. -/
def StopsAt (s : Nat) : Prop :=
  (r.IsShared s ∧ (¬r.SharedAttempted s ∨ r.SharedFails s)) ∨ (¬r.IsShared s ∧ r.SectorFails s)

structure FirstStop (r : ImageRun) (blk s : Nat) : Prop where
  start_le : blk ≤ s
  in_table : s < r.chip.numSectors
  needed : r.chip.base s < r.origin + r.size
  stops : r.StopsAt s
  first : ∀ t, blk ≤ t → t < s → ¬r.StopsAt t

/-- No sector from `blk` on that the image needs stops the run. -/
def Clear (blk : Nat) : Prop :=
  ∀ s, blk ≤ s → s < r.chip.numSectors → r.chip.base s < r.origin + r.size → ¬r.StopsAt s

def stopMem (s : Nat) : Nat → UInt8 :=
  match r.env.cells s with
  | none => r.prior
  | some cells =>
    if r.IsShared s ∧ ¬r.SharedAttempted s then r.prior
    else blit r.prior (r.chip.base s) (r.chip.sectorSize s) cells

inductive Outcome (r : ImageRun) (blk : Nat) : Dev × Option (Nat × Int) → Prop
  | done {dev : Dev} {b : Nat} (hblk : blk ≤ b)
      (hend : r.whole = true → r.origin + r.size ≤ r.chip.base b)
      (hfits : r.origin + r.size ≤ r.chip.totalSize) (hclear : r.Clear blk)
      (hmem : ∀ a, r.chip.base blk ≤ a → a < r.origin + r.size →
        dev.mem a = r.image (a - r.origin)) :
      Outcome r blk (dev, some (b, 0))
  | stopped {dev : Dev} {s : Nat} {rest : Int} (hrest : rest ≠ 0)
      (hstop : r.FirstStop blk s)
      (hbefore : ∀ a, r.chip.base blk ≤ a → a < r.chip.base s → dev.mem a = r.image (a - r.origin))
      (hafter : ∀ a, r.chip.base s ≤ a → dev.mem a = r.stopMem s a) :
      Outcome r blk (dev, some (s, rest))
  | runaway {dev : Dev} (hoff : r.chip.totalSize < r.origin + r.size)
      (hclear : r.Clear blk) : Outcome r blk (dev, none)

def loop (n blk : Nat) (dev : Dev) : Dev × Option (Nat × Int) :=
  imageLoop r.env r.chip r.info r.whole r.image n blk
    (r.chip.base blk - r.origin) (r.remaining blk) dev

/-- The run arrives at sector `blk` with image bytes left, and the chip from there on is the prior
one. -/
structure Arrives (r : ImageRun) (blk : Nat) (dev : Dev) : Prop where
  origin_le : r.origin ≤ r.chip.base blk
  needed : r.chip.base blk < r.origin + r.size
  agree : ∀ a, r.chip.base blk ≤ a → dev.mem a = r.prior a

theorem remaining_eq (s : Nat) : r.remaining s = (r.origin + r.size : Int) - r.chip.base s := by
  simp only [remaining]
  ring

private theorem remaining_next (blk : Nat) :
    r.remaining (blk + 1) = r.remaining blk - r.chip.sectorSize blk := by
  have hsucc := r.chip.base_succ blk
  simp only [remaining]
  omega

end

variable {r : ImageRun} {s blk a : Nat} {dev dev' : Dev} {rest : Int}
  {result : Dev × Option (Nat × Int)}

theorem FirstStop.unique {t : Nat} (hs : r.FirstStop blk s) (ht : r.FirstStop blk t) : s = t := by
  rcases lt_trichotomy s t with hlt | heq | hgt
  · exact absurd hs.stops (ht.first s hs.start_le hlt)
  · exact heq
  · exact absurd ht.stops (hs.first t ht.start_le hgt)

theorem Clear.not_firstStop (h : r.Clear blk) : ¬r.FirstStop blk s := by
  intro hstop
  exact h s hstop.start_le hstop.in_table hstop.needed hstop.stops

theorem Clear.of_last (hlast : r.origin + r.size ≤ r.chip.base (blk + 1)) (hpass : ¬r.StopsAt blk) :
    r.Clear blk := by
  intro s hs _ hneeds
  rcases eq_or_lt_of_le hs with rfl | hlt
  · exact hpass
  · have hmono : r.chip.base (blk + 1) ≤ r.chip.base s := r.chip.base_mono hlt
    omega

section

variable (h : r.Arrives blk dev)
include h

theorem Arrives.stopped (htable : blk < r.chip.numSectors) (hstop : r.StopsAt blk)
    (hrest : rest ≠ 0) (hafter : ∀ a, r.chip.base blk ≤ a → dev'.mem a = r.stopMem blk a) :
    r.Outcome blk (dev', some (blk, rest)) := by
  refine Outcome.stopped hrest ⟨le_rfl, htable, h.needed, hstop, ?_⟩ ?_ hafter
  · omega
  · omega

theorem Arrives.stopMem_of_cells {cells : Nat → UInt8} (hcells : r.env.cells blk = some cells)
    (hwritten : r.IsShared blk → r.SharedAttempted blk) (ha : r.chip.base blk ≤ a) :
    blit dev.mem (r.chip.base blk) (r.chip.sectorSize blk) cells a = r.stopMem blk a := by
  simp only [stopMem, hcells]
  rw [if_neg (by rintro ⟨hshared, hnot⟩; exact hnot (hwritten hshared))]
  simp only [blit]
  split
  · rfl
  · exact h.agree a ha

theorem Arrives.sharedBuffer_eq :
    blit (view dev.mem (r.chip.base blk)) 0 (r.remaining blk).toNat
      (view r.image (r.chip.base blk - r.origin)) = r.sharedBuffer blk := by
  have hview : view dev.mem (r.chip.base blk) = view r.prior (r.chip.base blk) := by
    funext i
    exact h.agree _ (Nat.le_add_right _ _)
  simp only [sharedBuffer, hview]

theorem Arrives.sharedBuffer_image (hlo : r.chip.base blk ≤ a) (hhi : a < r.origin + r.size) :
    r.sharedBuffer blk (a - r.chip.base blk) = r.image (a - r.origin) := by
  have horigin := h.origin_le
  have hrem := r.remaining_eq blk
  simp only [sharedBuffer]
  rw [blit_inside _ _ (Nat.zero_le _) (by omega)]
  simp only [view]
  congr 1
  omega

theorem Arrives.shared_done (hlength : 0 ≤ r.info.flashVariable.length) (hshared : r.IsShared blk)
    (hattempted : r.SharedAttempted blk) (hok : ¬r.SharedFails blk)
    (hmem : ∀ i, i < r.chip.sectorSize blk →
      dev'.mem (r.chip.base blk + i) = r.sharedBuffer blk i) :
    r.Outcome blk (dev', some (blk, 0)) := by
  have hsucc := r.chip.base_succ blk
  have htotal := r.chip.base_le_total (blk + 1)
  have hrem := r.remaining_eq blk
  have hfit := hattempted.1
  refine Outcome.done le_rfl (by simp [hshared.1]) (by omega) (Clear.of_last (by omega) ?_) ?_
  · rintro (⟨_, hnot | hfails⟩ | ⟨hnot, _⟩)
    · exact hnot hattempted
    · exact hok hfails
    · exact hnot hshared
  · intro a hlo hhi
    rw [← h.sharedBuffer_image hlo hhi, ← hmem _ (by omega), Nat.add_sub_cancel' hlo]

theorem Arrives.writeShared_unattempted (hattempted : ¬r.SharedAttempted blk) :
    (r.sharedWrite blk dev).1.mem = dev.mem ∧ (r.sharedWrite blk dev).2 = r.remaining blk := by
  have hneeded := h.needed
  have hrem := r.remaining_eq blk
  simp only [sharedWrite, writeShared]
  split
  · exact ⟨rfl, rfl⟩
  rw [if_neg (by omega)]
  have hcopy : r.env.copyFromUserOk = false := by
    by_contra hcopy
    exact hattempted ⟨by omega, by simpa using hcopy⟩
  simp [hcopy, FlashOp.apply]

theorem Arrives.shared_unattempted (htable : blk < r.chip.numSectors) (hshared : r.IsShared blk)
    (hattempted : ¬r.SharedAttempted blk) :
    r.Outcome blk ((r.sharedWrite blk dev).1, some (blk, (r.sharedWrite blk dev).2)) := by
  have hneeded := h.needed
  have hrem := r.remaining_eq blk
  obtain ⟨hmem, hrest⟩ := h.writeShared_unattempted hattempted
  apply h.stopped htable (.inl ⟨hshared, .inl hattempted⟩) (by omega)
  intro a ha
  have hstopMem : r.stopMem blk = r.prior := by
    simp only [stopMem]
    split
    · rfl
    · exact if_pos ⟨hshared, hattempted⟩
  rw [hmem, hstopMem]
  exact h.agree a ha

theorem Arrives.shared_outcome (htable : blk < r.chip.numSectors)
    (hlength : 0 ≤ r.info.flashVariable.length) (hshared : r.IsShared blk) :
    r.Outcome blk ((r.sharedWrite blk dev).1, some (blk, (r.sharedWrite blk dev).2)) := by
  by_cases hattempted : r.SharedAttempted blk
  · have hneeded := h.needed
    have hrem := r.remaining_eq blk
    have hsect := r.chip.sectorSize_pos htable
    obtain ⟨hfit, hcopy⟩ := hattempted
    simp only [sharedWrite, writeShared, h.sharedBuffer_eq, hcopy, if_true]
    rw [if_neg (by omega), if_neg (by omega)]
    cases hcells : r.env.cells blk with
    | none =>
      rw [flashWriteBuf_working r.chip hcells _ (r.chip.sectorSize_even blk), if_neg (by omega)]
      simp only [if_true]
      apply h.shared_done hlength hshared ⟨hfit, hcopy⟩
      · rintro ⟨cells, hsome, _⟩
        simp [hcells] at hsome
      · intro i hi
        exact blit_at _ _ hi
    | some cells =>
      rw [flashWriteBuf_settled r.chip hcells _ (r.chip.sectorSize_even blk) hsect]
      by_cases hsame : slice cells 0 (r.chip.sectorSize blk) =
          slice (r.sharedBuffer blk) 0 (r.chip.sectorSize blk)
      · rw [if_pos hsame, if_pos rfl]
        apply h.shared_done hlength hshared ⟨hfit, hcopy⟩
        · rintro ⟨cells', hsome, hdiff⟩
          rw [hcells] at hsome
          cases hsome
          exact hdiff hsame
        · intro i hi
          simp only [Dev.emit_mem, FlashOp.apply]
          rw [blit_at _ _ hi]
          simpa using slice_inj hsame hi
      · rw [if_neg (by omega)]
        apply h.stopped htable (.inl ⟨hshared, .inr ⟨cells, hcells, hsame⟩⟩) (by omega)
        intro a ha
        rw [← h.stopMem_of_cells hcells (fun _ => ⟨hfit, hcopy⟩) ha]
        simp only [Dev.emit_mem, FlashOp.apply, flashSectorEraseInt, fill, blit]
        split <;> rfl
  · exact h.shared_unattempted htable hshared hattempted

theorem Arrives.stored_of_full
    (hfull : (r.sectorWrite blk dev).2 = chunkSize (r.chip.sectorSize blk) (r.remaining blk))
    (hlo : r.chip.base blk ≤ a)
    (hhi : (a : Int) < r.chip.base blk + chunkSize (r.chip.sectorSize blk) (r.remaining blk)) :
    (r.sectorWrite blk dev).1.mem a = r.image (a - r.origin) := by
  have horigin := h.origin_le
  have hcell := writeSector_verified hfull
    (show ((a - r.chip.base blk : Nat) : Int) <
      chunkSize (r.chip.sectorSize blk) (r.remaining blk) by omega)
  rw [Nat.add_sub_cancel' hlo, show r.chip.base blk - r.origin +
    (a - r.chip.base blk) = a - r.origin by omega] at hcell
  exact hcell

theorem Arrives.sector_stopped (htable : blk < r.chip.numSectors) (hshared : ¬r.IsShared blk)
    (hfails : r.SectorFails blk) :
    r.Outcome blk ((r.sectorWrite blk dev).1,
      some (blk, roundedSize (r.chip.sectorSize blk) (r.remaining blk))) := by
  have hneeded := h.needed
  have hrem := r.remaining_eq blk
  have hstop : r.StopsAt blk := Or.inr ⟨hshared, hfails⟩
  obtain ⟨cells, hcells, _⟩ := hfails
  apply h.stopped htable hstop
  · have hcases := chunkSize_cases (r.chip.sectorSize blk) (r.remaining blk)
    omega
  · intro a ha
    rw [sectorWrite, writeSector_settled r.chip hcells r.image _ dev htable (by omega)]
    exact h.stopMem_of_cells hcells (fun hnot => absurd hnot hshared) ha

theorem Arrives.next (hless : (r.chip.sectorSize blk : Int) < r.remaining blk) :
    r.Arrives (blk + 1) (r.sectorWrite blk dev).1 := by
  have hsucc := r.chip.base_succ blk
  have horigin := h.origin_le
  have hrem := r.remaining_eq blk
  refine ⟨by omega, by omega, ?_⟩
  intro a ha
  rw [sectorWrite, writeSector_outside r.env r.chip r.image blk _ _ dev (.inr ha)]
  exact h.agree a (by omega)

end

theorem Outcome.extend (h : r.Outcome (blk + 1) result)
    (hpass : ¬r.StopsAt blk) (hsector : ∀ a, r.chip.base blk ≤ a → a < r.chip.base (blk + 1) →
      result.1.mem a = r.image (a - r.origin)) : r.Outcome blk result := by
  have hclear (hnext : r.Clear (blk + 1)) : r.Clear blk := by
    intro s hs htable hneeds
    rcases eq_or_lt_of_le hs with rfl | hlt
    · exact hpass
    · exact hnext s hlt htable hneeds
  cases h with
  | done hblk hend hfits hnext hmem =>
    refine Outcome.done (by omega) hend hfits (hclear hnext) ?_
    intro a hlo hhi
    rcases lt_or_ge a (r.chip.base (blk + 1)) with hin | hout
    · exact hsector a hlo hin
    · exact hmem a hout hhi
  | stopped hrest hstop hbefore hafter =>
    refine Outcome.stopped hrest ⟨Nat.le_of_succ_le hstop.start_le,
      hstop.in_table, hstop.needed, hstop.stops, ?_⟩ ?_ hafter
    · intro t ht hts
      rcases eq_or_lt_of_le ht with rfl | hlt
      · exact hpass
      · exact hstop.first t hlt hts
    · intro a hlo hhi
      rcases lt_or_ge a (r.chip.base (blk + 1)) with hin | hout
      · exact hsector a hlo hin
      · exact hbefore a hout hhi
  | runaway hoff hnext => exact Outcome.runaway hoff (hclear hnext)

/-- The loop ends in one of the three ways, by induction on the sectors left in
the table. -/
theorem loop_outcome (r : ImageRun) (hlength : 0 ≤ r.info.flashVariable.length)
    (n blk : Nat) (dev : Dev) (hn : blk + n = r.chip.numSectors)
    (harrives : r.Arrives blk dev) : r.Outcome blk (r.loop n blk dev) := by
  induction n generalizing blk dev with
  | zero =>
    have hend : blk = r.chip.numSectors := by omega
    apply Outcome.runaway
    · rw [← r.chip.base_numSectors, ← hend]
      exact harrives.needed
    · intro s hs htable
      omega
  | succ n ih =>
    have htable : blk < r.chip.numSectors := by omega
    have hsucc := r.chip.base_succ blk
    have hneeded := harrives.needed
    have hrem := r.remaining_eq blk
    simp only [loop, imageLoop]
    by_cases hshared : r.IsShared blk
    · rw [if_pos (show r.whole = false ∧ (blk : Int) = r.info.flashVariable.startBlk from hshared)]
      exact harrives.shared_outcome htable hlength hshared
    rw [if_neg (show ¬(r.whole = false ∧ (blk : Int) = r.info.flashVariable.startBlk) from hshared)]
    have hshort := writeSector_short_iff r.env r.chip r.image
      (r.chip.base blk - r.origin) dev htable
      (show 0 < r.remaining blk by omega)
    by_cases hfails : r.SectorFails blk
    · rw [if_pos (hshort.mpr hfails)]
      exact harrives.sector_stopped htable hshared hfails
    have hfull := not_not.mp (mt hshort.mp hfails)
    have hpass : ¬r.StopsAt blk := by
      rintro (⟨hnot, _⟩ | ⟨_, hnot⟩)
      · exact hshared hnot
      · exact hfails hnot
    rw [if_neg (not_not.mpr hfull)]
    split
    next hmore =>
      obtain ⟨hless, hchunk, hrest⟩ := chunkSize_of_continue hmore
      have hpos : r.chip.base blk - r.origin +
          (r.chip.sectorSize blk : Int).toNat = r.chip.base (blk + 1) - r.origin := by
        have horigin := harrives.origin_le
        omega
      have hnext := ih (blk + 1) _ (by omega) (harrives.next hless)
      have hstored {a : Nat} := harrives.stored_of_full hfull (a := a)
      simp only [loop, r.remaining_next, sectorWrite] at hnext hstored
      rw [hchunk] at hnext hstored ⊢
      rw [hrest, hpos]
      refine hnext.extend hpass ?_
      intro a hlo hhi
      rw [imageLoop_below _ _ _ _ _ _ _ _ _ _ hhi]
      exact hstored hlo (by omega)
    next hlast =>
      obtain ⟨hzero, hsmall, hcovered⟩ := chunkSize_of_last hlast
      have htotal := r.chip.base_le_total (blk + 1)
      rw [hzero]
      refine Outcome.done (Nat.le_succ blk) (by intro _; omega) (by omega)
        (Clear.of_last (by omega) hpass) ?_
      intro a hlo hhi
      exact harrives.stored_of_full hfull hlo (by omega)

/-- The chip from sector `s` on after a stop there. A whole image erases the rest even then. -/
def leftover (r : ImageRun) (s : Nat) : Nat → UInt8 :=
  if r.whole then fun _ => 0xFF else r.stopMem s

/-- The call stopped at `s`, and the chip holds the rest of the image anyway. -/
def HoldsAnyway (r : ImageRun) (s : Nat) : Prop :=
  r.origin + r.size ≤ r.chip.totalSize ∧
    ∀ a, r.chip.base s ≤ a → a < r.origin + r.size → r.leftover s a = r.image (a - r.origin)

/-- Every sector the image needs verifies and exists, or the first that does not has number 0 just
when the chip holds the image all the same. -/
def HonestWhen (r : ImageRun) (blk : Nat) : Prop :=
  (r.Clear blk ∧ r.origin + r.size ≤ r.chip.totalSize) ∨
    ∃ s, r.FirstStop blk s ∧ ((s = 0 ∧ r.whole = false) ↔ r.HoldsAnyway s)

end ImageRun

def Stored (part : FlashPart) (image : Nat → UInt8) (origin size : Nat)
    (mem : Nat → UInt8) : Prop :=
  origin + size ≤ part.totalSize ∧ ∀ i, i < size → mem (origin + i) = image i

/-- The call returns, and it returns 0 exactly when the image is stored. -/
def ReportsHonestly (env : Env) (part : FlashPart) (info : FlashAddrInfo) (flashStartAddr : Int)
    (image : Nat → UInt8) (origin size : Nat) (dev : Dev) : Prop :=
  ∃ sts, (kerSysBcmImageSet env part info flashStartAddr image 0 size dev).2 = some sts ∧
    (sts = 0 ↔ Stored part image origin size
      (kerSysBcmImageSet env part info flashStartAddr image 0 size dev).1.mem)

theorem eraseToEnd_mem (part : FlashPart) (n blk : Nat) (dev : Dev) (a : Nat) :
    (eraseToEnd part n blk dev).mem a =
      if part.base blk ≤ a ∧ a < part.base (blk + n) then 0xFF else dev.mem a := by
  induction n generalizing blk dev with
  | zero =>
    rw [if_neg (by simp only [add_zero]; omega)]
    rfl
  | succ n ih =>
    have hsucc := part.base_succ blk
    have hmono := part.base_mono (show blk + 1 ≤ blk + 1 + n by omega)
    simp only [eraseToEnd]
    rw [ih, show blk + (n + 1) = blk + 1 + n by omega]
    by_cases hfirst : part.base blk ≤ a ∧ a < part.base (blk + 1)
    · rw [if_neg (by omega), if_pos (by omega)]
      exact fill_inside _ _ hfirst.1 (by omega)
    by_cases hrest : part.base (blk + 1) ≤ a ∧ a < part.base (blk + 1 + n)
    · rw [if_pos hrest, if_pos (by omega)]
    · rw [if_neg hrest, if_neg (by omega)]
      exact fill_outside _ _ (by omega)

namespace ImageRun

def report (r : ImageRun) : Dev × Option (Nat × Int) → Dev × Option Int
  | (dev, none) => (dev, none)
  | (dev, some (blk, rest)) =>
    if r.whole then
      (eraseToEnd r.chip (r.chip.numSectors - blk) blk dev,
        some (if rest = 0 then 0 else (max blk r.chip.numSectors : Nat)))
    else (dev, some (if rest = 0 then 0 else blk))

theorem kerSysBcmImageSet_eq_report (r : ImageRun) {addr : Int} {blk : Nat}
    (hfound : cfiFlashGetBlk r.chip addr = blk) {size : Int}
    (hwhole : wholeImage r.chip addr size = r.whole) (pos : Nat) (dev : Dev) :
    kerSysBcmImageSet r.env r.chip r.info addr r.image pos size dev =
      r.report (imageLoop r.env r.chip r.info r.whole r.image
        (r.chip.numSectors - blk) blk pos size dev) := by
  simp only [kerSysBcmImageSet, hfound, hwhole, Int.toNat_natCast]
  rcases imageLoop r.env r.chip r.info r.whole r.image
    (r.chip.numSectors - blk) blk pos size dev with ⟨dev', _ | ⟨last, rest⟩⟩
  · rfl
  · rfl

def Honest (r : ImageRun) (answer : Dev × Option Int) : Prop :=
  ∃ sts, answer.2 = some sts ∧ (sts = 0 ↔ Stored r.chip r.image r.origin r.size answer.1.mem)

section report

variable {r : ImageRun} {s blk : Nat} {dev : Dev} {rest : Int} {result : Dev × Option (Nat × Int)}
  (horigin : r.origin = r.chip.base blk)

include horigin

theorem honest_done {last : Nat} (hend : r.whole = true → r.origin + r.size ≤ r.chip.base last)
    (hfits : r.origin + r.size ≤ r.chip.totalSize)
    (hmem : ∀ a, r.chip.base blk ≤ a → a < r.origin + r.size → dev.mem a = r.image (a - r.origin)) :
    r.Honest (r.report (dev, some (last, 0))) := by
  have hcell {i : Nat} (hi : i < r.size) : dev.mem (r.origin + i) = r.image i := by
    rw [hmem _ (by omega) (by omega), Nat.add_sub_cancel_left]
  cases hwhole : r.whole with
  | true =>
    have hbeyond := hend hwhole
    simp only [report, hwhole, if_true]
    refine ⟨0, rfl, iff_of_true rfl ⟨hfits, ?_⟩⟩
    intro i hi
    rw [eraseToEnd_mem, if_neg (by omega)]
    exact hcell hi
  | false =>
    simp only [report, hwhole, Bool.false_eq_true, if_false, if_true]
    exact ⟨0, rfl, iff_of_true rfl ⟨hfits, fun i hi => hcell hi⟩⟩

/-- The image is stored exactly when the leftover happens to hold its rest. -/
theorem stored_iff_holdsAnyway (hstart : blk ≤ s) (mem : Nat → UInt8)
    (hlow : ∀ a, r.chip.base blk ≤ a → a < r.chip.base s → mem a = r.image (a - r.origin))
    (hhigh : ∀ a, r.chip.base s ≤ a → a < r.chip.totalSize → mem a = r.leftover s a) :
    Stored r.chip r.image r.origin r.size mem ↔ r.HoldsAnyway s := by
  have hmono := r.chip.base_mono hstart
  constructor
  · rintro ⟨hfits, hmem⟩
    refine ⟨hfits, ?_⟩
    intro a hlo hhi
    rw [← hhigh a hlo (lt_of_lt_of_le hhi hfits), ← hmem _ (by omega),
      Nat.add_sub_cancel' (by omega)]
  · rintro ⟨hfits, hmem⟩
    refine ⟨hfits, ?_⟩
    intro i hi
    have hindex : r.origin + i - r.origin = i := Nat.add_sub_cancel_left _ _
    rcases lt_or_ge (r.origin + i) (r.chip.base s) with hin | hout
    · rw [hlow _ (by omega) hin, hindex]
    · rw [hhigh _ hout (lt_of_lt_of_le (by omega) hfits), hmem _ hout (by omega), hindex]

/-- After a stop the answer is 0 for sector 0 of a partial image only. -/
theorem honest_stopped_iff (hrest : rest ≠ 0) (hstop : r.FirstStop blk s)
    (hbefore : ∀ a, r.chip.base blk ≤ a → a < r.chip.base s → dev.mem a = r.image (a - r.origin))
    (hafter : ∀ a, r.chip.base s ≤ a → dev.mem a = r.stopMem s a) :
    r.Honest (r.report (dev, some (s, rest))) ↔ ((s = 0 ∧ r.whole = false) ↔ r.HoldsAnyway s) := by
  have htable := hstop.in_table
  cases hwhole : r.whole with
  | true =>
    have hstatus : ¬((max s r.chip.numSectors : Nat) : Int) = 0 := by omega
    have hmem := stored_iff_holdsAnyway horigin hstop.start_le
      (eraseToEnd r.chip (r.chip.numSectors - s) s dev).mem
      (by
        intro a hlo hhi
        rw [eraseToEnd_mem, if_neg (by omega)]
        exact hbefore a hlo hhi)
      (by
        intro a hlo hhi
        rw [eraseToEnd_mem, Nat.add_sub_cancel' htable.le,
          r.chip.base_numSectors, if_pos ⟨hlo, hhi⟩]
        simp only [leftover, hwhole, if_true])
    simp only [Honest, report, hwhole, if_true, hrest, if_false, Option.some.injEq,
      exists_eq_left', hmem, Bool.true_eq_false, and_false]
    exact iff_congr (iff_of_false hstatus id) Iff.rfl
  | false =>
    have hleft : r.leftover s = r.stopMem s := if_neg (by simp [hwhole])
    have hmem := stored_iff_holdsAnyway horigin hstop.start_le dev.mem hbefore (by
        intro a hlo _
        rw [hleft]
        exact hafter a hlo)
    simp only [Honest, report, hwhole, Bool.false_eq_true, if_false, hrest,
      Option.some.injEq, exists_eq_left', hmem, and_true]
    exact iff_congr Int.natCast_eq_zero Iff.rfl

theorem Outcome.honest_iff
    (h : r.Outcome blk result) : r.Honest (r.report result) ↔ r.HonestWhen blk := by
  cases h with
  | done hblk hend hfits hclear hmem =>
    exact iff_of_true (honest_done horigin hend hfits hmem) (.inl ⟨hclear, hfits⟩)
  | @stopped dev s rest hrest hstop hbefore hafter =>
    rw [honest_stopped_iff horigin hrest hstop hbefore hafter]
    constructor
    · intro hiff
      exact .inr ⟨s, hstop, hiff⟩
    · rintro (⟨hclear, _⟩ | ⟨t, ht, hiff⟩)
      · exact absurd hstop hclear.not_firstStop
      · rwa [hstop.unique ht]
  | runaway hoff hclear =>
    refine iff_of_false ?_ ?_
    · rintro ⟨sts, hsts, _⟩
      cases hsts
    · rintro (⟨_, hfits⟩ | ⟨s, hstop, _⟩)
      · exact absurd hfits (not_le.mpr hoff)
      · exact hclear.not_firstStop hstop

end report

end ImageRun

/-- For every start address on a sector boundary, every image, size and pattern of write failures,
the report is honest exactly in the stated cases. -/
theorem image_set_honest_iff (env : Env) (chip : CfiPart) (prior : Nat → UInt8)
    (bpGetPsiSize : Option Nat) (info : FlashAddrInfo)
    (hinit : kerSysFlashInit chip prior bpGetPsiSize = some info)
    (blk : Nat) (hblk : blk < chip.numSectors) (addr : Int)
    (haddr : s32 (addr - chip.flashBase) = chip.base blk)
    (image : Nat → UInt8) (size : Nat) (hsize : 0 < size) (dev : Dev) :
    ReportsHonestly env chip info addr image (chip.base blk) size dev ↔
      ImageRun.HonestWhen ⟨env, chip, info, wholeImage chip addr size, image, chip.base blk, size,
        dev.mem⟩ blk := by
  obtain ⟨b, hstacked⟩ :=
    kerSysFlashInit_stacked chip prior bpGetPsiSize info hinit
  have hlength : 0 ≤ info.flashVariable.length := by
    rw [hstacked.va_length]
    exact Int.natCast_nonneg _
  have hsect := chip.sectorSize_pos hblk
  have hsucc := chip.base_succ blk
  have hfound : cfiFlashGetBlk chip addr = blk :=
    cfiFlashGetBlk_within chip haddr ⟨le_rfl, show chip.base blk < chip.base (blk + 1) by omega⟩
  set r : ImageRun := ⟨env, chip, info, wholeImage chip addr size,
    image, chip.base blk, size, dev.mem⟩ with hr
  have hloop : r.loop (chip.numSectors - blk) blk dev =
      imageLoop env chip info (wholeImage chip addr size)
        image (chip.numSectors - blk) blk 0 size dev := by
    simp [ImageRun.loop, ImageRun.remaining, hr]
  have hcall := r.kerSysBcmImageSet_eq_report hfound
    (rfl : wholeImage chip addr size = r.whole) 0 dev
  have houtcome := r.loop_outcome hlength (chip.numSectors - blk) blk dev
    (Nat.add_sub_cancel' hblk.le)
    ⟨le_rfl, show chip.base blk < chip.base blk + size by omega, fun _ _ => rfl⟩
  rw [hloop] at houtcome
  rw [← houtcome.honest_iff rfl, ← hcall]
  rfl

theorem topBoot_image_set_honest_iff :
    kerSysFlashInit topBootPart (fun _ => 0xFF) none = some topBootInfo ∧
    s32 (0xBF010000 - (topBootPart.flashBase : Int)) = topBootPart.base 1 ∧
    (ReportsHonestly Env.working topBootPart topBootInfo 0xBF010000 (fun _ => 1)
      (topBootPart.base 1) 2 ⟨fun _ => 0, []⟩ ↔
        ImageRun.HonestWhen ⟨Env.working, topBootChip, topBootInfo,
          wholeImage topBootPart 0xBF010000 2, fun _ => 1, topBootPart.base 1, 2, fun _ => 0⟩ 1) :=
  ⟨kerSysFlashInit_topBoot (fun _ => 0xFF), by decide +kernel,
    image_set_honest_iff Env.working topBootChip (fun _ => 0xFF) none topBootInfo
      (kerSysFlashInit_topBoot (fun _ => 0xFF)) 1 (by decide +kernel) 0xBF010000
      (by decide +kernel) (fun _ => 1) 2 (by decide) ⟨fun _ => 0, []⟩⟩

/-- Two bytes for sector 0 of a chip that cannot be programmed there: the call
returns 0. -/
theorem failed_write_of_sector_zero_reports_success :
    kerSysFlashInit topBootPart (fun _ => 0xFF) none = some topBootInfo ∧
    s32 (0xBF000000 - (topBootPart.flashBase : Int)) = topBootPart.base 0 ∧
    (kerSysBcmImageSet ⟨fun _ => some (fun _ => 0xFF), true, true⟩ topBootPart
      topBootInfo 0xBF000000 (fun _ => 1) 0 2 ⟨fun _ => 0, []⟩).2 = some 0 ∧
    ¬Stored topBootPart (fun _ => 1) (topBootPart.base 0) 2
      (kerSysBcmImageSet ⟨fun _ => some (fun _ => 0xFF), true, true⟩ topBootPart
        topBootInfo 0xBF000000 (fun _ => 1) 0 2 ⟨fun _ => 0, []⟩).1.mem := by
  refine ⟨kerSysFlashInit_topBoot _, by decide +kernel, by decide +kernel, ?_⟩
  rintro ⟨_, hmem⟩
  have hfirst := hmem 0 (by decide)
  revert hfirst
  decide +kernel

end EchoLife.Flash
