import EchoLife.Firmware.Image

/-!
What an upgrade touches and what it reads. The sectors are always those of the system being
updated. The image is another matter: the lengths come from the tag and the length of the buffer
is never looked at, so the reads stay inside exactly if the numbers in the tag do.
-/

namespace EchoLife.Firmware

open Buffer Decimal Flash Int List Word

def InRegion (board : Board) (image : Nat → UInt8) (s : Nat) : Prop :=
  ∃ system, selectSystem board.chip image = some system ∧
    system.start ≤ board.chip.base s ∧
    board.chip.base (s + 1) ≤ system.start + system.capacity

/-- Byte `i` is behind `p=` in a boot line that has to be reset, or one of the NVRAM checksum. -/
def InBootLine (board : Board) (mem : Nat → UInt8) (i : Nat) : Prop :=
  ∃ p, findBootImage (readNvram board.chip board.info mem) nvramDataSize
      nvramBootlineOffset = some p ∧
    (i = nvramDataOffset + (p + 2) ∨ nvramDataOffset + nvramCheckSumOffset ≤ i ∧
      i < nvramDataOffset + nvramCheckSumOffset + 4)

/-- Whatever fails, an upgrade erases and writes sectors of its system only, apart from the boot
sector, where a working chip keeps every byte but that of the boot line; and it reads the image
below `imageLen`. -/
structure Contained (board : Board) (image : Nat → UInt8) (imageLen : Nat) : Prop where
  sectors : ∀ (env : Env) (heap mem : Nat → UInt8),
    ∀ op ∈ (flashFsKernelImage env board.chip board.info heap image
      ⟨mem, []⟩).1.log, op.Inside board.chip (fun s => s = 0 ∨ InRegion board image s)
  bootSector : ∀ (heap mem : Nat → UInt8) (i : Nat), i < board.chip.base 1 →
    ¬InBootLine board mem i →
      (flashFsKernelImage Env.working board.chip board.info heap image ⟨mem, []⟩).1.mem i = mem i
  reads : ∀ (env : Env) (heap mem : Nat → UInt8),
    ∀ op ∈ (flashFsKernelImage env board.chip board.info heap image
      ⟨mem, []⟩).1.log, op.ReadsBelow imageLen

/-- The six numbers of the tag end inside the image. If it is accepted, so do the checksummed part
of the tag and the size it claims, rounded to words, unless that does not fill the sector of the
tag. -/
structure ReadsFit (board : Board) (image : Nat → UInt8) (imageLen : Nat) : Prop where
  numbers : ∀ field ∈ headerFields, Ends image field imageLen
  tag : ∀ system, selectSystem board.chip image = some system → tagLen - tokenLen ≤ imageLen
  body : ∀ system, selectSystem board.chip image = some system →
    board.chip.sectorSize (board.first system) ≤ taggedSize image + taggedSize image % 2 →
    taggedSize image + taggedSize image % 2 ≤ imageLen

private theorem mem_log_writeSector (env : Env) (chip : CfiPart) (image : Nat → UInt8)
    (blk pos : Nat) (size : Int) (dev : Dev) :
    FlashOp.fetch pos (chunkSize (chip.sectorSize blk) size).toNat ∈
      (writeSector env chip image blk pos (chunkSize (chip.sectorSize blk) size) dev).1.log := by
  have hle := chip.chunk_le blk size
  apply (flashWriteBuf_footprint env chip blk 0 (view image pos)
    (chunkSize (chip.sectorSize blk) size) _ (by intro _; simpa using hle)
    (fun _ => True)).log_subset
  simp

private theorem imageLoop_reads_all (chip : CfiPart) (info : FlashAddrInfo) (image : Nat → UInt8)
    (n blk pos : Nat) (size : Int) (dev : Dev) (hn : blk + n = chip.numSectors) (hsize : 0 < size)
    (hfits : (chip.base blk : Int) + size ≤ chip.totalSize)
    (hva : ∀ s, blk ≤ s → (chip.base s : Int) < chip.base blk + size →
      (s : Int) ≠ info.flashVariable.startBlk) :
    ∃ index count, FlashOp.fetch index count ∈
        (imageLoop Env.working chip info false image n blk pos size dev).1.log ∧
      0 < count ∧ index + count = pos + (size + size % 2).toNat := by
  induction n generalizing blk pos size dev with
  | zero =>
    have hend : blk = chip.numSectors := hn
    rw [hend, chip.base_numSectors] at hfits
    omega
  | succ n ih =>
    have hsucc := chip.base_succ blk
    have heven := chip.sectorSize_even blk
    have hnotva := hva blk le_rfl (by omega)
    have hwritten := writeSector_working chip (rfl : Env.working.cells blk = none)
      image pos size dev (by omega)
    simp only [imageLoop]
    rw [if_neg (by simp [hnotva]), if_neg (by simp [hwritten])]
    split
    next hmore =>
      obtain ⟨hless, hfull, hrest⟩ := chunkSize_of_continue hmore
      rw [hfull, hrest, toNat_natCast]
      obtain ⟨index, count, hmem, hpos, hsum⟩ := ih (blk + 1)
        (pos + chip.sectorSize blk) (size - chip.sectorSize blk) _ (by omega)
        (by omega) (by omega) (fun s hs hlt => hva s (by omega) (by omega))
      exact ⟨index, count, hmem, hpos, by omega⟩
    next hlast =>
      have hcases := chunkSize_cases (chip.sectorSize blk) size
      have hchunk : chunkSize (chip.sectorSize blk) size = size + size % 2 := by omega
      refine ⟨pos, (chunkSize (chip.sectorSize blk) size).toNat,
        mem_log_writeSector Env.working chip image blk pos size dev, ?_, ?_⟩
      · omega
      · rw [hchunk]

namespace Board

variable (board : Board) {system : System} {size : Nat}

section

variable {env : Env} {heap tagFs : Nat → UInt8} {dev : Dev} {op : FlashOp}

private theorem mem_log_of_dataWrite (h : op ∈ (board.dataWrite env tagFs system size dev).1.log) :
    op ∈ (writeSystem env board.chip board.info heap tagFs system size dev).1.log := by
  have htag := (board.tagWrite_footprint env tagFs system
    (board.dataWrite env tagFs system size dev).1).log_subset
  rcases board.writeSystem_cases env heap tagFs system size dev with
    ⟨_, heq⟩ | ⟨_, _, heq⟩ | ⟨_, _, heq⟩
  · rw [heq]
    exact h
  · rw [heq]
    exact htag h
  · rw [heq]
    exact (board.resetBootLine_footprint env heap _ (fun _ => True) _).log_subset (htag h)

theorem mem_log_of_tagWrite (hstatus : (board.dataWrite env tagFs system size dev).2 = some 0)
    (h : op ∈ (board.tagWrite env tagFs system
      (board.dataWrite env tagFs system size dev).1).1.log) :
    op ∈ (writeSystem env board.chip board.info heap tagFs system size dev).1.log := by
  rcases board.writeSystem_cases env heap tagFs system size dev with
    ⟨hfailed, _⟩ | ⟨_, _, heq⟩ | ⟨_, _, heq⟩
  · exact absurd hstatus hfailed
  · rw [heq]
    exact h
  · rw [heq]
    exact (board.resetBootLine_footprint env heap _ (fun _ => True) _).log_subset h

end

private theorem writeSystem_reads_all (heap tagFs : Nat → UInt8) (hfit : size ≤ system.capacity)
    (hsector : board.chip.sectorSize (board.first system) ≤ size + size % 2) (dev : Dev) :
    ∃ index count, FlashOp.fetch index count ∈ (writeSystem Env.working
        board.chip board.info heap tagFs system size dev).1.log ∧
      0 < count ∧ index + count = size + size % 2 := by
  have hfirst := board.first_lt_last system
  have hend := board.last_le_smallEnd system
  have htable := board.smallEnd_lt_variable.2
  have hsucc := board.chip.base_succ (board.first system)
  have heven := board.chip.sectorSize_even (board.first system)
  have hsect := board.chip.sectorSize_pos (by omega : board.first system < board.chip.numSectors)
  rcases lt_or_ge (board.chip.sectorSize (board.first system)) size with
    hmore | hless
  · have hbase := board.first_base system
    have hlast := board.last_base system
    have hmono := board.chip.base_mono hend
    have htotal := board.chip.base_le_total board.smallEnd
    obtain ⟨index, count, hmem, hpos, hsum⟩ := imageLoop_reads_all board.chip
      board.info tagFs (board.chip.numSectors - (board.first system + 1))
      (board.first system + 1) (board.chip.sectorSize (board.first system))
      ((size : Int) - board.chip.sectorSize (board.first system)) dev (by omega)
      (by omega) (by omega)
      (fun s _ hs => board.not_variable ((board.chip.base_lt_iff
        htable.le).mp (by omega)))
    refine ⟨index, count, board.mem_log_of_dataWrite ?_, hpos, by omega⟩
    rw [dataWrite, board.dataSize_eq hfit, kerSysBcmImageSet_loop _ _ _ _ _ _
      (board.cfiFlashGetBlk_base (by omega) rfl)
      (board.wholeImage_eq_false (by omega) (by omega) _)]
    exact hmem
  · have hstatus : (board.dataWrite Env.working tagFs system size dev).2 = some 0 := by
      rw [dataWrite, board.dataSize_eq hfit]
      exact (board.kerSysBcmImageSet_nonpos_iff (by omega) (by omega) Env.working
        tagFs _ (by omega) dev).mpr (by omega)
    refine ⟨0, board.chip.sectorSize (board.first system),
      board.mem_log_of_tagWrite hstatus ?_, hsect, by omega⟩
    rw [tagWrite, board.kerSysBcmImageSet_sector (board.first_pos system) (by omega)]
    simp

/-- On a working chip an accepted image is read up to the claimed size, rounded to words, if that
fills the sector of the tag. -/
theorem flashFsKernelImage_reads_all (heap : Nat → UInt8) {image : Nat → UInt8}
    (h : selectSystem board.chip image = some system)
    (hsector : board.chip.sectorSize (board.first system) ≤ taggedSize image + taggedSize image % 2)
    (dev : Dev) :
    ∃ index count, FlashOp.fetch index count ∈ (flashFsKernelImage Env.working
        board.chip board.info heap image dev).1.log ∧
      0 < count ∧ index + count = taggedSize image + taggedSize image % 2 := by
  rw [flashFsKernelImage_accepted h]
  exact board.writeSystem_reads_all heap _ (board.selectSystem_fits h) hsector _

private theorem resetBootLine_kept (heap : Nat → UInt8) {mem : Nat → UInt8} (dev : Dev)
    (hsame : AgreeOn dev.mem mem 0 (board.chip.base 1)) {i : Nat}
    (hboot : i < board.chip.base 1) (hi : ¬InBootLine board mem i) :
    (resetBootLine Env.working board.chip board.info heap
      (readNvram board.chip board.info mem) dev).mem i = mem i := by
  have hnvram := kerSysFlashInit_nvram board.init
  simp only [resetBootLine]
  split
  · exact hsame i (Nat.zero_le i) hboot
  rename_i p hp
  have hbyte : i ≠ nvramDataOffset + (p + 2) := fun h => hi ⟨p, hp, Or.inl h⟩
  have hcheck : ¬(nvramDataOffset + nvramCheckSumOffset ≤ i ∧
      i < nvramDataOffset + nvramCheckSumOffset + 4) :=
    fun h => hi ⟨p, hp, .inr h⟩
  simp only [kerSysNvRamSet_record, hnvram, toNat_zero, zero_add, toNat_one]
  rw [getSharedBlks_eq board.chip heap dev rfl (Nat.zero_le 1)]
  rw [(setSharedBlks_working board.chip (fun _ _ _ => rfl) (Nat.zero_le 1) _ dev).2]
  simp only [SectorTable.base_zero, Nat.sub_zero, view_zero]
  rw [blit_inside _ _ (Nat.zero_le i) (by omega), Nat.sub_zero]
  rcases lt_or_ge i nvramDataOffset with hbelow | habove
  · rw [blit_outside _ _ (by omega), blit_inside _ _ (Nat.zero_le i) (by omega), Nat.sub_zero]
    exact hsame i (Nat.zero_le i) hboot
  rcases lt_or_ge i (nvramDataOffset + nvramDataSize) with hinside | hpast
  · rw [blit_inside _ _ habove hinside, blit_outside _ _ (by omega), fill_outside _ _ (by omega),
      blit_outside _ _ (by omega), readNvram, blit_inside _ _ (Nat.zero_le _) (by omega), hnvram]
    simp only [view, toNat_zero, SectorTable.base_zero, zero_add, Nat.sub_zero]
    rw [Nat.add_sub_cancel' habove]
  · rw [blit_outside _ _ (by omega), blit_inside _ _ (Nat.zero_le i) (by omega), Nat.sub_zero]
    exact hsame i (Nat.zero_le i) hboot

/-- On a working chip an upgrade keeps the boot sector but for the boot line. -/
theorem flashFsKernelImage_bootSector (heap image mem : Nat → UInt8) {i : Nat}
    (hboot : i < board.chip.base 1) (hi : ¬InBootLine board mem i) :
    (flashFsKernelImage Env.working board.chip board.info heap image
      ⟨mem, []⟩).1.mem i = mem i := by
  cases hselect : selectSystem board.chip image with
  | none => rw [flashFsKernelImage_refused hselect, readHeader_mem]
  | some system =>
    rw [flashFsKernelImage_accepted hselect]
    generalize relocateTag board.chip mem system image = tagFs
    have hstart : ((readHeader board.chip image ⟨mem, []⟩).emit
        board.chip (.fetch 0 (tagLen - tokenLen))).mem = mem := by
      rw [Dev.emit_mem, FlashOp.apply_fetch, readHeader_mem]
    generalize (readHeader board.chip image ⟨mem, []⟩).emit
      board.chip (.fetch 0 (tagLen - tokenLen)) = dev at hstart ⊢
    have hpos := board.first_pos system
    have hdata : AgreeOn (board.dataWrite Env.working tagFs system
        (taggedSize image) dev).1.mem mem 0 (board.chip.base 1) := by
      intro j _ hj
      rw [← hstart]
      apply (board.dataWrite_footprint Env.working tagFs system
        (board.selectSystem_fits hselect) dev).frame
      rintro s ⟨hs, _⟩
      have hmono := board.chip.base_mono (by omega : 1 ≤ s)
      exact .inl (by omega)
    have htag : AgreeOn (board.tagWrite Env.working tagFs system (board.dataWrite
        Env.working tagFs system (taggedSize image) dev).1).1.mem mem 0
        (board.chip.base 1) := by
      intro j hlo hj
      rw [← hdata j hlo hj]
      apply (board.tagWrite_footprint Env.working tagFs system _).frame
      rintro s rfl
      have hmono := board.chip.base_mono (by omega : 1 ≤ board.first system)
      exact .inl (by omega)
    rcases board.writeSystem_cases Env.working heap tagFs system (taggedSize image)
      dev with ⟨_, heq⟩ | ⟨_, _, heq⟩ | ⟨_, _, heq⟩
    · rw [heq]
      exact hdata i (Nat.zero_le i) hboot
    · rw [heq]
      exact htag i (Nat.zero_le i) hboot
    · rw [heq, hstart]
      exact board.resetBootLine_kept heap _ htag hboot hi

end Board

/-- For every board with the documented map and every byte string, an upgrade is contained exactly
if the numbers of the tag keep the reads inside the string. -/
theorem upgrade_contained_iff (board : Board) (image : Nat → UInt8) (imageLen : Nat)
    (hlength : imageLen < 2 ^ 31) :
    Contained board image imageLen ↔ ReadsFit board image imageLen := by
  constructor
  · intro h
    have hread (op : FlashOp)
        (hop : op ∈ (flashFsKernelImage Env.working board.chip board.info
          (fun _ => 0) image ⟨fun _ => 0, []⟩).1.log) : op.ReadsBelow imageLen :=
      h.reads Env.working _ _ op hop
    refine ⟨?_, ?_, ?_⟩
    · intro field hfield
      have hbound := hread _ (board.mem_log_of_headerField Env.working _ image _ hfield)
      have hle := le_numberEnd image field
      have hlt := hbound (by omega)
      exact (numberEnd_lt_iff image (by simp only [addressSpace]; omega)).mp (by omega)
    · intro system hselect
      have hbound := hread (.fetch 0 (tagLen - tokenLen))
        (board.mem_log_of_accepted Env.working _ hselect _
          (mem_append_right _ (mem_singleton_self _)))
      exact hbound (by decide)
    · intro system hselect hsector
      obtain ⟨index, count, hmem, hpos, hsum⟩ :=
        board.flashFsKernelImage_reads_all (fun _ => 0) hselect hsector ⟨fun _ => 0, []⟩
      rw [← hsum]
      exact hread (.fetch index count) hmem hpos
  · intro h
    have hfootprint (env : Env) (heap mem : Nat → UInt8) :=
      board.flashFsKernelImage_footprint env heap image ⟨mem, []⟩
    refine ⟨?_, ?_, ?_⟩
    · intro env heap mem op hop
      obtain ⟨ops, hvia, hinside, _⟩ := hfootprint env heap mem
      rw [hvia.log_eq, nil_append] at hop
      apply (hinside op hop).mono
      rintro s ⟨system, hselect, rfl | ⟨hlo, hhi⟩⟩
      · exact .inl rfl
      refine .inr ⟨system, hselect, ?_, ?_⟩
      · rw [← board.first_base system]
        exact board.chip.base_mono hlo
      · rw [← board.last_base system]
        exact board.chip.base_mono hhi
    · intro heap mem i hboot hi
      exact board.flashFsKernelImage_bootSector heap image mem hboot hi
    · intro env heap mem op hop
      obtain ⟨ops, hvia, _, hreads⟩ := hfootprint env heap mem
      rw [hvia.log_eq, nil_append] at hop
      apply hreads imageLen _ op hop
      refine ⟨?_, ?_⟩
      · intro field hfield
        exact (numberEnd_lt_iff image (by simp only [addressSpace]; omega)).mpr
          (h.numbers field hfield)
      · intro system hselect
        exact ⟨h.tag system hselect, h.body system hselect⟩

def overstatedImage : Nat → UInt8 :=
  tagText 1 65536 65537

theorem tagged_overstatedImage : Tagged 1 65536 65537 overstatedImage :=
  tagged_tagText (by decide) (by decide) (by decide)

theorem taggedSize_overstatedImage : taggedSize overstatedImage = 131329 :=
  tagged_overstatedImage.taggedSize_eq

/-- The tag is honest if all of it, and a byte to round to words, was uploaded. -/
theorem topBoard_upgrade_contained :
    131330 < 2 ^ 31 ∧ ReadsFit topBoard overstatedImage 131330 ∧
      Contained topBoard overstatedImage 131330 :=
  have hfit : ReadsFit topBoard overstatedImage 131330 := {
    numbers := fun field hfield =>
      (tagged_overstatedImage.ends field hfield).mono (by decide)
    tag := fun _ _ => by decide
    body := fun _ _ _ => by rw [taggedSize_overstatedImage] }
  ⟨by decide, hfit, (upgrade_contained_iff topBoard overstatedImage 131330 (by decide)).mpr hfit⟩

/-- A tag alone, without the systems it announces, is accepted and read on. -/
theorem tag_alone_is_read_past_its_end :
    selectSystem topBoard.chip overstatedImage = some .normal ∧
      ¬Contained topBoard overstatedImage tagLen := by
  have hselect := tagged_overstatedImage.selectSystem_eq (Or.inl rfl) (by decide) topBoard.chip
  refine ⟨hselect, ?_⟩
  intro h
  have hsector : topBoard.chip.sectorSize (topBoard.first .normal) ≤
      taggedSize overstatedImage + taggedSize overstatedImage % 2 := by
    decide +kernel
  obtain ⟨index, count, hmem, hpos, hsum⟩ := topBoard.flashFsKernelImage_reads_all
    (fun _ => 0) hselect hsector ⟨fun _ => 0, []⟩
  have hbound := h.reads Env.working _ _ _ hmem hpos
  rw [hsum, taggedSize_overstatedImage] at hbound
  exact absurd hbound (by decide)

end EchoLife.Firmware
