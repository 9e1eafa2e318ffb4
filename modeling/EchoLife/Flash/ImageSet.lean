import EchoLife.Flash.Layout
import EchoLife.Flash.Device

/-!
`kerSysBcmImageSet`: the loop that writes an image sector by sector. It starts at the beginning of
the sector the start address lies in, erases a sector before it looks at the remaining size, and
treats the first sector of the VA partition specially because an image may share it. The sector
number is not compared with the size of the table; a run that reaches its end has no answer here.
-/

namespace EchoLife.Flash

open Buffer Int Word

def flashLengthBootRom : Nat := 128 * oneK

def wholeImage (part : FlashPart) (flashStartAddr size : Int) : Bool :=
  s32 (flashStartAddr - part.flashBase) = 0 ∧ size > flashLengthBootRom

/-- The VA sector: the image is copied over the start of the present contents. Returns the chip
and the remaining size, zero after a good write. -/
def writeShared (env : Env) (part : FlashPart) (variableLength : Int)
    (image : Nat → UInt8) (blk pos : Nat) (size : Int) (dev : Dev) : Dev × Int :=
  let sectSize := part.sectorSize blk
  if size > sectSize - variableLength then (dev, size)
  else if size < 0 then (dev, size)
  else
    let pTempBuf := blit (view dev.mem (part.base blk)) 0 size.toNat (view image pos)
    let dev := dev.emit part (.fetch pos size.toNat)
    if env.copyFromUserOk then
      let dev := flashSectorEraseInt part blk dev
      let (dev, written) := flashWriteBuf env part blk 0 pTempBuf sectSize dev
      (dev, if written = sectSize then 0 else size)
    else (dev, size)

/-- `size` after `if (size & 1) size++`, which only the last sector sees. -/
def roundedSize (sectSize size : Int) : Int :=
  if sectSize > size ∧ size % 2 = 1 then size + 1 else size

def chunkSize (sectSize size : Int) : Int :=
  if sectSize > size then roundedSize sectSize size else sectSize

def writeSector (env : Env) (part : FlashPart) (image : Nat → UInt8)
    (blk pos : Nat) (chunk : Int) (dev : Dev) : Dev × Int :=
  let dev := flashSectorEraseInt part blk dev
  let dev := dev.emit part (.fetch pos chunk.toNat)
  flashWriteBuf env part blk 0 (view image pos) chunk dev

/-- The loop of `kerSysBcmImageSet` with `n` sectors left. Ends with the sector it stopped at and
the remaining size. -/
def imageLoop (env : Env) (part : FlashPart) (info : FlashAddrInfo)
    (whole : Bool) (image : Nat → UInt8) :
    Nat → Nat → Nat → Int → Dev → Dev × Option (Nat × Int)
  | 0, _, _, _, dev => (dev, none)
  | n + 1, blk, pos, size, dev =>
    if whole = false ∧ (blk : Int) = info.flashVariable.startBlk then
      let (dev, size) :=
        writeShared env part info.flashVariable.length image blk pos size dev
      (dev, some (blk, size))
    else
      let sectSize : Int := part.sectorSize blk
      let rest := roundedSize sectSize size
      let chunk := chunkSize sectSize size
      let (dev, written) := writeSector env part image blk pos chunk dev
      if written ≠ chunk then (dev, some (blk, rest))
      else if rest - chunk > 0 then
        imageLoop env part info whole image n (blk + 1) (pos + chunk.toNat) (rest - chunk) dev
      else (dev, some (blk + 1, rest - chunk))

def eraseToEnd (part : FlashPart) : Nat → Nat → Dev → Dev
  | 0, _, dev => dev
  | n + 1, blk, dev => eraseToEnd part n (blk + 1) (flashSectorEraseInt part blk dev)

/-- `kerSysBcmImageSet`, with the image starting at index `pos` of a larger
buffer. -/
def kerSysBcmImageSet (env : Env) (part : FlashPart) (info : FlashAddrInfo) (flashStartAddr : Int)
    (image : Nat → UInt8) (pos : Nat) (size : Int) (dev : Dev) : Dev × Option Int :=
  let blkStart := cfiFlashGetBlk part flashStartAddr
  if blkStart < 0 then (dev, some (-1))
  else
    let whole := wholeImage part flashStartAddr size
    match imageLoop env part info whole image (part.numSectors - blkStart.toNat)
        blkStart.toNat pos size dev with
    | (dev, none) => (dev, none)
    | (dev, some (blk, rest)) =>
      if whole then
        (eraseToEnd part (part.numSectors - blk) blk dev,
          some (if rest = 0 then 0 else (max blk part.numSectors : Nat)))
      else (dev, some (if rest = 0 then 0 else blk))

/-- The last sector takes the rest, rounded to words, and the others are filled. -/
theorem chunkSize_cases (sectSize size : Int) :
    size < sectSize ∧ chunkSize sectSize size = size + size % 2 ∧
      roundedSize sectSize size = size + size % 2 ∨
    sectSize ≤ size ∧ chunkSize sectSize size = sectSize ∧ roundedSize sectSize size = size := by
  simp only [chunkSize, roundedSize]
  split <;> split <;> omega

variable {sectSize size : Int}

theorem chunkSize_of_continue (h : roundedSize sectSize size - chunkSize sectSize size > 0) :
    sectSize < size ∧ chunkSize sectSize size = sectSize ∧ roundedSize sectSize size = size := by
  have hcases := chunkSize_cases sectSize size
  omega

theorem chunkSize_of_last (h : ¬roundedSize sectSize size - chunkSize sectSize size > 0) :
    roundedSize sectSize size - chunkSize sectSize size = 0 ∧ size ≤ sectSize ∧
      size ≤ chunkSize sectSize size := by
  have hcases := chunkSize_cases sectSize size
  omega

theorem CfiPart.chunk_even (chip : CfiPart) (blk : Nat) (size : Int) :
    2 ∣ chunkSize (chip.sectorSize blk) size := by
  have heven := chip.sectorSize_even blk
  have hcases := chunkSize_cases (chip.sectorSize blk) size
  omega

theorem CfiPart.chunk_le (chip : CfiPart) (blk : Nat) (size : Int) :
    chunkSize (chip.sectorSize blk) size ≤ chip.sectorSize blk := by
  have heven := chip.sectorSize_even blk
  have hcases := chunkSize_cases (chip.sectorSize blk) size
  omega

theorem writeSector_footprint (env : Env) (chip : CfiPart) (image : Nat → UInt8)
    (blk pos : Nat) (size : Int) (dev : Dev) :
    Dev.Footprint chip (· = blk)
      (fun limit => (FlashOp.fetch pos
        (chunkSize (chip.sectorSize blk) size).toNat).ReadsBelow limit) dev
      (writeSector env chip image blk pos (chunkSize (chip.sectorSize blk) size) dev).1 := by
  have hle := chip.chunk_le blk size
  have hstart := Dev.Footprint.refl chip (· = blk)
    (fun limit => (FlashOp.fetch pos
      (chunkSize (chip.sectorSize blk) size).toNat).ReadsBelow limit) dev
  have hfetched := (hstart.emit (.erase blk) rfl (fun _ _ => trivial)).emit
    (.fetch pos (chunkSize (chip.sectorSize blk) size).toNat) trivial
    (fun _ hlimit => hlimit)
  exact hfetched.trans (flashWriteBuf_footprint env chip blk 0
    (view image pos) (chunkSize (chip.sectorSize blk) size) _
    (by intro _; simpa using hle) _)

theorem writeSector_empty (env : Env) (part : FlashPart) (image : Nat → UInt8)
    (blk pos : Nat) {chunk : Int} (heven : 2 ∣ chunk) (hempty : chunk ≤ 0)
    (dev : Dev) : (writeSector env part image blk pos chunk dev).2 = 0 := by
  simp only [writeSector, flashWriteBuf]
  rw [if_neg (by omega), if_pos hempty]

variable {env : Env} {i : Nat}

section

variable (chip : CfiPart) {blk : Nat} (hcells : env.cells blk = none)
  (image : Nat → UInt8) (pos : Nat) (size : Int) (dev : Dev)
include hcells

theorem writeSector_working (hsize : 0 ≤ size) :
    (writeSector env chip image blk pos
      (chunkSize (chip.sectorSize blk) size) dev).2 = chunkSize (chip.sectorSize blk) size := by
  have hchunk := chip.chunk_even blk size
  have hcases := chunkSize_cases (chip.sectorSize blk) size
  obtain ⟨c, hc⟩ := eq_ofNat_of_zero_le (by omega : 0 ≤ chunkSize (chip.sectorSize blk) size)
  rw [hc] at hchunk ⊢
  simp only [writeSector]
  rw [flashWriteBuf_working chip hcells _ (by omega)]

theorem writeSector_mem (hlo : chip.base blk ≤ i) (hhi : i < chip.base (blk + 1)) :
    (writeSector env chip image blk pos
      (chunkSize (chip.sectorSize blk) size) dev).1.mem i =
        if i < chip.base blk + (chunkSize (chip.sectorSize blk) size).toNat
        then image (pos + (i - chip.base blk)) else 0xFF := by
  have hsucc := chip.base_succ blk
  have hchunk := chip.chunk_even blk size
  have herased : (flashSectorEraseInt chip blk dev).mem i = 0xFF :=
    fill_inside _ _ hlo (by omega)
  simp only [writeSector, flashWriteBuf, hcells]
  rw [if_neg (by omega)]
  split
  · rw [if_neg (by omega)]
    exact herased
  simp only [Dev.emit_mem, FlashOp.apply, add_zero]
  split
  · rw [blit_inside _ _ hlo (by omega)]
    rfl
  · rw [blit_outside _ _ (by omega)]
    exact herased

end

theorem chunkSize_pos (hsect : 0 < sectSize) (hsize : 0 < size) : 0 < chunkSize sectSize size := by
  have hcases := chunkSize_cases sectSize size
  omega

variable {blk : Nat}

/-- The answer is short exactly when the sector does not hold the image's bytes. -/
theorem writeSector_short_iff (env : Env) (chip : CfiPart) (image : Nat → UInt8)
    (pos : Nat) (dev : Dev) (hblk : blk < chip.numSectors) (hsize : 0 < size) :
    (writeSector env chip image blk pos
      (chunkSize (chip.sectorSize blk) size) dev).2 ≠ chunkSize (chip.sectorSize blk) size ↔
    ∃ cells, env.cells blk = some cells ∧
      slice cells 0 (chunkSize (chip.sectorSize blk) size).toNat ≠
        slice (view image pos) 0 (chunkSize (chip.sectorSize blk) size).toNat := by
  have hsect := chip.sectorSize_pos hblk
  have hpos := chunkSize_pos (show (0 : Int) < chip.sectorSize blk by omega) hsize
  have hchunk := chip.chunk_even blk size
  cases hcells : env.cells blk with
  | none =>
    have hfull := writeSector_working chip hcells image pos size dev (by omega)
    simp [hfull]
  | some cells =>
    obtain ⟨c, hc⟩ := eq_ofNat_of_zero_le hpos.le
    rw [hc] at hchunk hpos ⊢
    simp only [writeSector]
    rw [flashWriteBuf_settled chip hcells _ (by omega) (by omega)]
    simp only [toNat_natCast, Option.some.injEq, exists_eq_left', ne_eq]
    split
    next hsame =>
      simp [hsame]
    next hdiff =>
      simp only [hdiff, not_false_eq_true, iff_true]
      omega

theorem writeSector_settled (chip : CfiPart) {cells : Nat → UInt8}
    (hcells : env.cells blk = some cells) (image : Nat → UInt8) (pos : Nat) (dev : Dev)
    (hblk : blk < chip.numSectors) (hsize : 0 < size) :
    (writeSector env chip image blk pos
      (chunkSize (chip.sectorSize blk) size) dev).1.mem =
        blit dev.mem (chip.base blk) (chip.sectorSize blk) cells := by
  have hsect := chip.sectorSize_pos hblk
  have hpos := chunkSize_pos (show (0 : Int) < chip.sectorSize blk by omega) hsize
  have hchunk := chip.chunk_even blk size
  obtain ⟨c, hc⟩ := eq_ofNat_of_zero_le hpos.le
  rw [hc] at hchunk hpos ⊢
  simp only [writeSector]
  rw [flashWriteBuf_settled chip hcells _ (by omega) (by omega)]
  simp only [Dev.emit_mem, FlashOp.apply, flashSectorEraseInt, fill, blit_blit_same]

theorem writeSector_verified {chip : CfiPart} {image : Nat → UInt8} {pos : Nat}
    {dev : Dev} (h : (writeSector env chip image blk pos
      (chunkSize (chip.sectorSize blk) size) dev).2 = chunkSize (chip.sectorSize blk) size)
    (hi : (i : Int) < chunkSize (chip.sectorSize blk) size) :
    (writeSector env chip image blk pos
      (chunkSize (chip.sectorSize blk) size) dev).1.mem (chip.base blk + i) = image (pos + i) := by
  have hle := chip.chunk_le blk size
  obtain ⟨c, hc⟩ := eq_ofNat_of_zero_le (show 0 ≤ chunkSize (chip.sectorSize blk) size by omega)
  rw [hc] at h hi hle ⊢
  exact flashWriteBuf_verified (by omega) h (by omega)

theorem writeSector_outside (env : Env) (chip : CfiPart) (image : Nat → UInt8) (blk pos : Nat)
    (size : Int) (dev : Dev) {a : Nat} (ha : a < chip.base blk ∨ chip.base (blk + 1) ≤ a) :
    (writeSector env chip image blk pos
      (chunkSize (chip.sectorSize blk) size) dev).1.mem a = dev.mem a := by
  apply (writeSector_footprint env chip image blk pos size dev).frame
  intro s hs
  rw [hs]
  exact ha

private theorem writeShared_footprint (env : Env) (part : FlashPart) (variableLength : Int)
    (image : Nat → UInt8) (blk pos : Nat) (size : Int) (dev : Dev) :
    Dev.Footprint part (· = blk)
      (fun limit => (FlashOp.fetch pos size.toNat).ReadsBelow limit) dev
      (writeShared env part variableLength image blk pos size dev).1 := by
  have hnone := Dev.Footprint.refl part (· = blk)
    (fun limit => (FlashOp.fetch pos size.toNat).ReadsBelow limit) dev
  have hfetched := hnone.emit (.fetch pos size.toNat) trivial (fun _ hlimit => hlimit)
  simp only [writeShared]
  split
  · exact hnone
  split
  · exact hnone
  split
  · have herased := hfetched.emit (.erase blk) rfl (fun _ _ => trivial)
    exact herased.trans (flashWriteBuf_footprint env part blk 0
      (blit (view dev.mem (part.base blk)) 0 size.toNat (view image pos))
      (part.sectorSize blk) _ (by simp) _)
  · exact hfetched

/-- Sectors a run from `blk` with `size` bytes left may touch. -/
def Reached (part : FlashPart) (blk : Nat) (size : Int) (s : Nat) : Prop :=
  s = blk ∨ (blk ≤ s ∧ (part.base s : Int) < part.base blk + size)

theorem Reached.of_next {part : FlashPart} {s : Nat} (hsize : (part.sectorSize blk : Int) < size)
    (h : Reached part (blk + 1) (size - part.sectorSize blk) s) : Reached part blk size s := by
  have hsucc := part.base_succ blk
  rcases h with rfl | ⟨hle, hlt⟩
  · exact .inr ⟨Nat.le_succ blk, by omega⟩
  · exact .inr ⟨by omega, by omega⟩

section

variable (env : Env) (chip : CfiPart) (info : FlashAddrInfo) (whole : Bool) (image : Nat → UInt8)
  (n blk pos : Nat) (size : Int) (dev : Dev)

/-- The sectors the image reaches, and its bytes up to its size rounded to words. -/
theorem imageLoop_footprint :
    Dev.Footprint chip (Reached chip blk size)
      (fun limit => (FlashOp.fetch pos (size + size % 2).toNat).ReadsBelow limit) dev
      (imageLoop env chip info whole image n blk pos size dev).1 := by
  induction n generalizing blk pos size dev with
  | zero => exact Dev.Footprint.refl _ _ _ dev
  | succ n ih =>
    simp only [imageLoop]
    split
    · apply (writeShared_footprint env chip info.flashVariable.length
        image blk pos size dev).mono (fun s hs => .inl hs)
      intro limit hlimit hread
      have := hlimit (by omega)
      omega
    · have hcases := chunkSize_cases (chip.sectorSize blk) size
      have hfirst : Dev.Footprint chip (Reached chip blk size) (fun limit =>
            (FlashOp.fetch pos (size + size % 2).toNat).ReadsBelow limit) dev
          (writeSector env chip image blk pos (chunkSize (chip.sectorSize blk) size) dev).1 := by
        apply (writeSector_footprint env chip image blk pos size dev).mono (fun s hs => .inl hs)
        intro limit hlimit hread
        have := hlimit (by omega)
        omega
      split
      · exact hfirst
      split
      next _ hmore =>
        obtain ⟨hless, hfull, hrest⟩ := chunkSize_of_continue hmore
        apply hfirst.trans
        apply (ih (blk + 1) (pos + (chunkSize (chip.sectorSize blk) size).toNat)
          (roundedSize (chip.sectorSize blk) size - chunkSize (chip.sectorSize blk) size) _).mono
        · intro s hs
          rw [hfull, hrest] at hs
          exact hs.of_next hless
        have heven := chip.sectorSize_even blk
        intro limit hlimit hread
        have := hlimit (by omega)
        omega
      · exact hfirst

theorem imageLoop_below (hi : i < chip.base blk) :
    (imageLoop env chip info whole image n blk pos size dev).1.mem i = dev.mem i := by
  apply (imageLoop_footprint env chip info whole image n blk pos size dev).frame
  intro s hs
  have habove : blk ≤ s := by
    rcases hs with rfl | ⟨hle, _⟩
    · exact le_rfl
    · exact hle
  have hbase := chip.base_mono habove
  exact .inl (by omega)

end

end EchoLife.Flash
