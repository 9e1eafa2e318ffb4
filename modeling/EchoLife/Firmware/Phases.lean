import EchoLife.Firmware.Upgrade
import EchoLife.Flash.ImageStatus

/-!
The two writes of an upgrade on a board with the documented map. Everything
behind the sector of the tag goes first, the sector of the tag second; both stay
inside the system they are meant for.
-/

namespace EchoLife.Firmware

open Buffer Decimal Flash Int List Word

def System.capacity : System → Nat
  | normal => flashLengthNormalSystem
  | small => flashLengthSmallSystem

namespace Board

variable (board : Board)

def first : System → Nat
  | .normal => board.normal
  | .small => board.small

def last : System → Nat
  | .normal => board.small
  | .small => board.smallEnd

section

variable (system : System)

theorem first_base : board.chip.base (board.first system) = system.start := by
  cases system with
  | normal => exact board.normal_base
  | small => exact board.small_base

theorem last_base : board.chip.base (board.last system) = system.start + system.capacity := by
  cases system with
  | normal => exact board.small_base
  | small => exact board.smallEnd_base

theorem first_pos : 0 < board.first system := by
  have hpos := board.normal_pos
  have hlt := board.normal_lt
  cases system with
  | normal => exact hpos
  | small => exact (by omega : 0 < board.small)

theorem first_lt_last : board.first system + 1 < board.last system := by
  cases system with
  | normal => exact board.normal_lt
  | small => exact board.small_lt

theorem last_le_smallEnd : board.last system ≤ board.smallEnd := by
  have hlt := board.small_lt
  cases system with
  | normal => exact (by omega : board.small ≤ board.smallEnd)
  | small => exact le_rfl

theorem last_lt_numSectors : board.last system < board.chip.numSectors :=
  lt_of_le_of_lt (board.last_le_smallEnd system) board.smallEnd_lt_variable.2

theorem second_lt_numSectors : board.first system + 1 < board.chip.numSectors :=
  lt_trans (board.first_lt_last system) (board.last_lt_numSectors system)

end

variable {system : System} {size : Nat}

theorem selectSystem_fits {image : Nat → UInt8} (h : selectSystem board.chip image = some system) :
    taggedSize image ≤ system.capacity := by
  have hspare : u32 ((board.chip.totalSize : Int) / 2 - flashReservedAtEnd) ≤
      flashLengthNormalSystem := by
    rw [board.total_eq]
    decide
  simp only [selectSystem] at h
  split at h
  · split at h
    · cases h
    · cases h
      exact (by omega : taggedSize image ≤ flashLengthNormalSystem)
  split at h
  · split at h
    · cases h
    · cases h
      exact (by omega : taggedSize image ≤ flashLengthNormalSystem)
  split at h
  · split at h
    · cases h
    · cases h
      exact (by omega : taggedSize image ≤ flashLengthSmallSystem)
  · cases h

theorem not_variable {s : Nat} (hs : s < board.smallEnd) :
    (s : Int) ≠ board.info.flashVariable.startBlk := by
  have hlt := board.smallEnd_lt_variable.1
  omega

variable {k pos : Nat} {env : Env} {dev : Dev}

theorem wholeImage_eq_false (hpos : 0 < k) (hk : k < board.chip.numSectors) (size : Int) :
    wholeImage board.chip (board.chip.flashBase + board.chip.base k) size = false := by
  have hbase : board.chip.base 0 < board.chip.base k :=
    (board.chip.base_lt_iff hk.le).mpr hpos
  have hle := board.chip.base_le_total k
  have htotal := board.chip.total_lt
  simp only [SectorTable.totalSize] at hle
  simp only [wholeImage, add_sub_cancel_left, decide_eq_false_iff_not]
  rw [s32_of_range (by omega) (by omega)]
  omega

theorem kerSysBcmImageSet_footprint (env : Env) (hpos : 0 < k) (hk : k < board.chip.numSectors)
    (image : Nat → UInt8) (pos : Nat) (size : Int) (dev : Dev) :
    Dev.Footprint board.chip (Reached board.chip k size)
      (fun limit => (FlashOp.fetch pos (size + size % 2).toNat).ReadsBelow limit) dev
      (kerSysBcmImageSet env board.chip board.info
        (board.chip.flashBase + board.chip.base k) image pos size dev).1 := by
  rw [kerSysBcmImageSet_loop env board.chip board.info image pos dev
    (board.cfiFlashGetBlk_base hk rfl) (board.wholeImage_eq_false hpos hk size)]
  exact imageLoop_footprint env board.chip board.info false image _ k pos size dev

/-- The write of `size` bytes from index `pos` of the image to the sectors from `k` on. -/
def writeRun (env : Env) (image : Nat → UInt8) (k pos size : Nat) (dev : Dev) : ImageRun where
  env := env
  chip := board.chip
  info := board.info
  whole := false
  image := image
  origin := board.chip.base k - pos
  size := pos + size
  prior := dev.mem

theorem kerSysBcmImageSet_outcome (env : Env) (hpos : 0 < k) (hk : k < board.chip.numSectors)
    (image : Nat → UInt8) (hplace : pos ≤ board.chip.base k) (hsize : 0 < size) (dev : Dev) :
    ∃ result, (board.writeRun env image k pos size dev).Outcome k result ∧
      kerSysBcmImageSet env board.chip board.info
        (board.chip.flashBase + board.chip.base k) image pos size dev =
          (board.writeRun env image k pos size dev).report result := by
  obtain ⟨b, hstacked⟩ := kerSysFlashInit_stacked _ _ _ _ board.init
  have hlength : 0 ≤ board.info.flashVariable.length := by
    rw [hstacked.va_length]
    exact natCast_nonneg _
  have houtcome := (board.writeRun env image k pos size dev).loop_outcome hlength
    (board.chip.numSectors - k) k dev (Nat.add_sub_cancel' hk.le)
    ⟨Nat.sub_le _ _, by simp only [writeRun]; omega, fun _ _ => rfl⟩
  have hindex : board.chip.base k - (board.chip.base k - pos) = pos := by omega
  have hremaining : (board.writeRun env image k pos size dev).remaining k = size := by
    simp only [ImageRun.remaining, writeRun]
    omega
  simp only [ImageRun.loop, hremaining] at houtcome
  simp only [writeRun, hindex] at houtcome
  exact ⟨_, houtcome, (board.writeRun env image k pos size dev).kerSysBcmImageSet_eq_report
      (board.cfiFlashGetBlk_base hk rfl) (board.wholeImage_eq_false hpos hk size) pos dev⟩

/-- A write from a sector other than 0 answers 0 only if the bytes are there. -/
theorem kerSysBcmImageSet_stored (hpos : 0 < k) (hk : k < board.chip.numSectors)
    {image : Nat → UInt8} (hplace : pos ≤ board.chip.base k) (hsize : 0 < size)
    (h : (kerSysBcmImageSet env board.chip board.info
      (board.chip.flashBase + board.chip.base k) image pos size dev).2 = some 0) {i : Nat}
    (hi : i < size) :
    (kerSysBcmImageSet env board.chip board.info
      (board.chip.flashBase + board.chip.base k) image pos size dev).1.mem
        (board.chip.base k + i) = image (pos + i) := by
  obtain ⟨result, houtcome, heq⟩ :=
    board.kerSysBcmImageSet_outcome env hpos hk image hplace hsize dev
  rw [heq] at h ⊢
  cases houtcome with
  | done hblk hend hfits hclear hmem =>
    have hcell := hmem (board.chip.base k + i) (Nat.le_add_right _ _)
      (by simp only [writeRun]; omega)
    simp only [writeRun] at hcell
    rw [(by omega : board.chip.base k + i - (board.chip.base k - pos) = pos + i)] at hcell
    exact hcell
  | stopped hrest hstop hbefore hafter =>
    have hle := hstop.start_le
    simp only [ImageRun.report, writeRun, hrest, if_false, Bool.false_eq_true,
      Option.some.injEq] at h
    omega
  | runaway hoff hclear => cases h

section

variable (hpos : 0 < k) (hk : k < board.smallEnd)
include hpos hk

/-- On a chip without failures a write that ends below the parameters answers
0. -/
theorem kerSysBcmImageSet_working (image : Nat → UInt8)
    (hplace : pos ≤ board.chip.base k) (hsize : 0 < size)
    (hend : board.chip.base k + size ≤ board.chip.base board.smallEnd) (dev : Dev) :
    (kerSysBcmImageSet Env.working board.chip board.info
      (board.chip.flashBase + board.chip.base k) image pos size dev).2 = some 0 := by
  have htable : k < board.chip.numSectors :=
    lt_trans hk board.smallEnd_lt_variable.2
  obtain ⟨result, houtcome, heq⟩ :=
    board.kerSysBcmImageSet_outcome Env.working hpos htable image hplace hsize dev
  rw [heq]
  cases houtcome with
  | done hblk hend hfits hclear hmem => rfl
  | @stopped dev s rest hrest hstop hbefore hafter =>
    have hneeded := hstop.needed
    simp only [writeRun] at hneeded
    have hs : s < board.smallEnd :=
      (board.chip.base_lt_iff board.smallEnd_lt_variable.2.le).mp (by omega)
    rcases hstop.stops with ⟨hshared, _⟩ | ⟨_, cells, hcells, _⟩
    · exact absurd hshared.2 (board.not_variable hs)
    · cases hcells
  | runaway hoff hclear =>
    have hle := board.chip.base_le_total board.smallEnd
    simp only [writeRun] at hoff
    omega

/-- A write that ends in its first sector. -/
theorem kerSysBcmImageSet_once (env : Env) (image : Nat → UInt8) (pos : Nat) {size chunk : Int}
    (dev : Dev) (hchunk : chunkSize (board.chip.sectorSize k) size = chunk)
    (hrest : roundedSize (board.chip.sectorSize k) size = chunk) :
    kerSysBcmImageSet env board.chip board.info
        (board.chip.flashBase + board.chip.base k) image pos size dev =
      ((writeSector env board.chip image k pos chunk dev).1,
        some (if (writeSector env board.chip image k pos chunk dev).2 = chunk ∨ chunk = 0 then 0
          else (k : Int))) := by
  have htable : k < board.chip.numSectors :=
    lt_trans hk board.smallEnd_lt_variable.2
  have hblk := board.cfiFlashGetBlk_base htable rfl
  have hwhole := board.wholeImage_eq_false hpos htable size
  have hva := board.not_variable hk
  obtain ⟨n, hn⟩ : ∃ n, board.chip.numSectors - k = n + 1 :=
    ⟨board.chip.numSectors - k - 1, by omega⟩
  simp only [kerSysBcmImageSet, hblk, hwhole, toNat_natCast, hn, imageLoop, hva,
    and_false, if_false, hchunk, hrest, sub_self, gt_iff_lt, lt_self_iff_false]
  by_cases hfull : (writeSector env board.chip image k pos chunk dev).2 = chunk
  · simp [hfull]
  · simp [hfull]

/-- A size that rounds up to 0 erases a sector and succeeds; a smaller one erases it and fails. -/
theorem kerSysBcmImageSet_nonpos_iff (env : Env) (image : Nat → UInt8) (pos : Nat) {size : Int}
    (hsize : size ≤ 0) (dev : Dev) :
    (kerSysBcmImageSet env board.chip board.info
      (board.chip.flashBase + board.chip.base k) image pos size dev).2 = some 0 ↔ -1 ≤ size := by
  have hsect := board.chip.sectorSize_pos (lt_trans hk board.smallEnd_lt_variable.2)
  obtain ⟨-, hchunk, hrest⟩ | hlong := chunkSize_cases (board.chip.sectorSize k) size
  swap
  · omega
  have hwritten := writeSector_empty env board.chip image k pos
    (by omega : 2 ∣ size + size % 2) (by omega) dev
  rw [board.kerSysBcmImageSet_once hpos hk env image pos dev hchunk hrest, Option.some.injEq]
  split
  · omega
  · omega

theorem kerSysBcmImageSet_sector (image : Nat → UInt8) (dev : Dev) :
    kerSysBcmImageSet Env.working board.chip board.info
        (board.chip.flashBase + board.chip.base k) image 0 (board.chip.sectorSize k)
        dev =
      (((dev.emit board.chip (.erase k)).emit board.chip
        (.fetch 0 (board.chip.sectorSize k))).emit board.chip
          (.program k 0 (board.chip.sectorSize k) image), some 0) := by
  have hsect := board.chip.sectorSize_pos (lt_trans hk board.smallEnd_lt_variable.2)
  obtain ⟨hshort, -⟩ | ⟨-, hchunk, hrest⟩ :=
    chunkSize_cases (board.chip.sectorSize k) (board.chip.sectorSize k)
  · omega
  have hwrite := flashWriteBuf_working board.chip
    (rfl : Env.working.cells k = none) image (board.chip.sectorSize_even k)
  simp only [if_neg (by omega : ¬board.chip.sectorSize k = 0)] at hwrite
  rw [board.kerSysBcmImageSet_once hpos hk _ image 0 dev hchunk hrest]
  simp only [writeSector, toNat_natCast, hwrite, view_zero, flashSectorEraseInt, true_or, if_true]

end

def dataWrite (env : Env) (tagFs : Nat → UInt8) (system : System) (size : Nat)
    (dev : Dev) : Dev × Option Int :=
  kerSysBcmImageSet env board.chip board.info
    (board.chip.flashBase + board.chip.base (board.first system + 1)) tagFs
    (board.chip.sectorSize (board.first system))
    (s32 (size - board.chip.sectorSize (board.first system))) dev

def tagWrite (env : Env) (tagFs : Nat → UInt8) (system : System) (dev : Dev) : Dev × Option Int :=
  kerSysBcmImageSet env board.chip board.info
    (board.chip.flashBase + board.chip.base (board.first system)) tagFs 0
    (board.chip.sectorSize (board.first system)) dev

/-- The second write follows only a first one that answers 0, and the boot line only a second one
that does. -/
theorem writeSystem_cases (env : Env) (heap tagFs : Nat → UInt8) (system : System)
    (size : Nat) (dev : Dev) :
    ((board.dataWrite env tagFs system size dev).2 ≠ some 0 ∧
      writeSystem env board.chip board.info heap tagFs system size dev =
        board.dataWrite env tagFs system size dev) ∨
    ((board.dataWrite env tagFs system size dev).2 = some 0 ∧
      (board.tagWrite env tagFs system (board.dataWrite env tagFs system size dev).1).2 ≠ some 0 ∧
      writeSystem env board.chip board.info heap tagFs system size dev =
        board.tagWrite env tagFs system (board.dataWrite env tagFs system size dev).1) ∨
    ((board.dataWrite env tagFs system size dev).2 = some 0 ∧
      (board.tagWrite env tagFs system (board.dataWrite env tagFs system size dev).1).2 = some 0 ∧
      writeSystem env board.chip board.info heap tagFs system size dev =
        (resetBootLine env board.chip board.info heap
          (readNvram board.chip board.info dev.mem)
          (board.tagWrite env tagFs system
            (board.dataWrite env tagFs system size dev).1).1, some 0)) := by
  have htable := board.second_lt_numSectors system
  have hbase := board.first_base system
  have hsucc := board.chip.base_succ (board.first system)
  have hstart : (board.chip.flashBase : Int) + system.offset - tagLen =
      board.chip.flashBase + board.chip.base (board.first system) := by
    rw [hbase, System.offset]
    push_cast
    ring
  have hnext : (board.chip.flashBase : Int) + board.chip.base (board.first system) +
      board.chip.sectorSize (board.first system) =
      board.chip.flashBase + board.chip.base (board.first system + 1) := by
    rw [hsucc]
    push_cast
    ring
  have hblk := board.cfiFlashGetBlk_base (by omega : board.first system < board.chip.numSectors) rfl
  have hdata : kerSysBcmImageSet env board.chip board.info
      (board.chip.flashBase + board.chip.base (board.first system + 1)) tagFs
      (board.chip.sectorSize (board.first system))
      (s32 (size - board.chip.sectorSize (board.first system))) dev =
        board.dataWrite env tagFs system size dev := rfl
  simp only [writeSystem, hstart, hblk, toNat_natCast, hnext, hdata]
  rw [if_neg (by omega)]
  rcases board.dataWrite env tagFs system size dev with ⟨dev1, status1⟩
  by_cases hstatus1 : status1 = some 0
  · subst hstatus1
    have htag : kerSysBcmImageSet env board.chip board.info
        (board.chip.flashBase + board.chip.base (board.first system)) tagFs 0
        (board.chip.sectorSize (board.first system)) dev1 =
          board.tagWrite env tagFs system dev1 := rfl
    simp only [htag, true_and, ne_eq, not_true_eq_false, false_and, false_or]
    rcases board.tagWrite env tagFs system dev1 with ⟨dev2, status2⟩
    by_cases hstatus2 : status2 = some 0
    · subst hstatus2
      exact .inr ⟨rfl, rfl⟩
    refine .inl ⟨hstatus2, ?_⟩
    split
    next heq =>
      exact absurd (Prod.mk.inj heq).2 hstatus2
    · rfl
  · refine .inl ⟨hstatus1, ?_⟩
    split
    next heq =>
      exact absurd (Prod.mk.inj heq).2 hstatus1
    · rfl

private theorem capacity_lt (system : System) : system.capacity < 2 ^ 31 := by
  cases system with
  | normal => decide
  | small => decide

private theorem sectorSize_lt (k : Nat) : board.chip.sectorSize k < 2 ^ 31 := by
  have hsucc := board.chip.base_succ k
  have hle := board.chip.base_le_total (k + 1)
  have htotal := board.chip.total_lt
  simp only [SectorTable.totalSize] at hle
  omega

theorem dataSize_eq (hfit : size ≤ system.capacity) :
    s32 (size - board.chip.sectorSize (board.first system)) =
      (size : Int) - board.chip.sectorSize (board.first system) := by
  have hcapacity := capacity_lt system
  have hsector := board.sectorSize_lt (board.first system)
  exact s32_of_range (by omega) (by omega)

theorem dataSize_of_le (hfit : size ≤ system.capacity)
    (hle : board.chip.sectorSize (board.first system) ≤ size) :
    s32 (size - board.chip.sectorSize (board.first system)) =
      (size - board.chip.sectorSize (board.first system) : Nat) := by
  rw [board.dataSize_eq hfit]
  omega

section

variable (env : Env) (tagFs : Nat → UInt8) (system : System)

/-- The first write leaves the sector of the tag alone. It reads the image up to
its size rounded to words, or not at all. -/
theorem dataWrite_footprint (hfit : size ≤ system.capacity) (dev : Dev) :
    Dev.Footprint board.chip
      (fun s => board.first system < s ∧ s < board.last system)
      (fun limit => board.chip.sectorSize (board.first system) ≤ size + size % 2 →
        size + size % 2 ≤ limit) dev
      (board.dataWrite env tagFs system size dev).1 := by
  have htable := board.last_lt_numSectors system
  have hfirst := board.first_lt_last system
  have hsucc := board.chip.base_succ (board.first system)
  have heven := board.chip.sectorSize_even (board.first system)
  simp only [dataWrite, board.dataSize_eq hfit]
  apply (board.kerSysBcmImageSet_footprint env (by omega : 0 < board.first system + 1)
    (board.second_lt_numSectors system) tagFs _ _ dev).mono
  · intro s hs
    rcases hs with rfl | ⟨hle, hlt⟩
    · exact ⟨Nat.lt_succ_self _, hfirst⟩
    refine ⟨hle, (board.chip.base_lt_iff htable.le).mp ?_⟩
    rw [board.last_base system]
    have hbase := board.first_base system
    omega
  · intro limit hlimit hread
    omega

theorem tagWrite_footprint (dev : Dev) :
    Dev.Footprint board.chip (· = board.first system)
      (fun limit => board.chip.sectorSize (board.first system) ≤ limit) dev
      (board.tagWrite env tagFs system dev).1 := by
  have htable := board.second_lt_numSectors system
  have hsucc := board.chip.base_succ (board.first system)
  have heven := board.chip.sectorSize_even (board.first system)
  apply (board.kerSysBcmImageSet_footprint env (board.first_pos system)
    (by omega : board.first system < board.chip.numSectors) tagFs _ _ dev).mono
  · intro s hs
    rcases hs with rfl | ⟨hle, hlt⟩
    · rfl
    have hbelow : s < board.first system + 1 :=
      (board.chip.base_lt_iff (by omega)).mp (by omega)
    exact (by omega : s = board.first system)
  · intro limit hlimit hread
    omega

end

theorem resetBootLine_footprint (env : Env) (heap nvramData : Nat → UInt8)
    (limits : Nat → Prop) (dev : Dev) :
    Dev.Footprint board.chip (· = 0) limits dev
      (resetBootLine env board.chip board.info heap nvramData dev) := by
  have hnone := Dev.Footprint.refl board.chip (· = 0) limits dev
  simp only [resetBootLine]
  split
  · exact hnone
  simp only [kerSysNvRamSet_record, kerSysFlashInit_nvram board.init]
  split
  · exact hnone
  apply (setSharedBlksLoop_footprint env board.chip _ limits 1 0 0 dev).mono
  · rintro s ⟨_, hhi⟩
    exact (by omega : s = 0)
  · intro limit hlimit
    exact hlimit

private theorem sector_le_of_dataWrite {tagFs : Nat → UInt8} (hfit : size ≤ system.capacity)
    (h : (board.dataWrite env tagFs system size dev).2 = some 0) :
    board.chip.sectorSize (board.first system) ≤ size + size % 2 := by
  have hfirst := board.first_lt_last system
  have hend := board.last_le_smallEnd system
  have heven := board.chip.sectorSize_even (board.first system)
  by_contra hshort
  simp only [dataWrite, board.dataSize_eq hfit] at h
  rw [board.kerSysBcmImageSet_nonpos_iff (by omega) (by omega) env tagFs _ (by omega)] at h
  omega

def Touches (system : System) (s : Nat) : Prop :=
  s = 0 ∨ board.first system ≤ s ∧ s < board.last system

/-- An image of the size, rounded to words, ends at `limit`, or is smaller than the sector of the
tag. -/
def EndsWithin (system : System) (size limit : Nat) : Prop :=
  board.chip.sectorSize (board.first system) ≤ size + size % 2 → size + size % 2 ≤ limit

theorem writeSystem_footprint (env : Env) (heap tagFs : Nat → UInt8) (system : System)
    (hfit : size ≤ system.capacity) (dev : Dev) :
    Dev.Footprint board.chip (board.Touches system)
      (board.EndsWithin system size) dev
      (writeSystem env board.chip board.info heap tagFs system size dev).1 := by
  have hfirst := board.first_lt_last system
  have hdata : Dev.Footprint board.chip (board.Touches system)
      (board.EndsWithin system size) dev
      (board.dataWrite env tagFs system size dev).1 := by
    apply (board.dataWrite_footprint env tagFs system hfit dev).mono
    · rintro s ⟨hlo, hhi⟩
      exact .inr ⟨by omega, hhi⟩
    · intro limit hlimit
      exact hlimit
  have htag (hstatus : (board.dataWrite env tagFs system size dev).2 = some 0) :
      Dev.Footprint board.chip (board.Touches system)
        (board.EndsWithin system size) dev
        (board.tagWrite env tagFs system (board.dataWrite env tagFs system size dev).1).1 := by
    have hsector := board.sector_le_of_dataWrite hfit hstatus
    apply hdata.trans
    apply (board.tagWrite_footprint env tagFs system _).mono
    · rintro s rfl
      exact .inr ⟨le_rfl, by omega⟩
    · intro limit hlimit
      have := hlimit hsector
      omega
  rcases board.writeSystem_cases env heap tagFs system size dev with
    ⟨_, heq⟩ | ⟨hstatus, _, heq⟩ | ⟨hstatus, _, heq⟩
  · rw [heq]
    exact hdata
  · rw [heq]
    exact htag hstatus
  rw [heq]
  apply (htag hstatus).trans
  apply (board.resetBootLine_footprint env heap _ _ _).mono
  · intro s hs
    exact .inl hs
  · intro limit hlimit
    exact hlimit

theorem writeSystem_stored {heap tagFs : Nat → UInt8} (hfit : size ≤ system.capacity)
    (h : (writeSystem env board.chip board.info heap tagFs system size dev).2 = some 0)
    {i : Nat} (hi : i < size) :
    (writeSystem env board.chip board.info heap tagFs system size
      dev).1.mem (system.start + i) = tagFs i := by
  have htable := board.second_lt_numSectors system
  have hpos := board.first_pos system
  have hbase := board.first_base system
  have hsucc := board.chip.base_succ (board.first system)
  have hsector := board.chip.sectorSize_pos (by omega : board.first system < board.chip.numSectors)
  rcases board.writeSystem_cases env heap tagFs system size dev with
    ⟨hfailed, heq⟩ | ⟨_, hfailed, heq⟩ | ⟨hdata, htag, heq⟩
  · rw [heq] at h
    exact absurd h hfailed
  · rw [heq] at h
    exact absurd h hfailed
  rw [heq]
  have hbelow : board.chip.base 1 ≤ board.chip.base (board.first system) :=
    board.chip.base_mono hpos
  have hnvram := (board.resetBootLine_footprint env heap
    (readNvram board.chip board.info dev.mem) (fun _ => True)
    (board.tagWrite env tagFs system (board.dataWrite env tagFs system size dev).1).1).frame
    (i := system.start + i) (by
      rintro s rfl
      exact .inr (by simp only [zero_add]; omega))
  rw [hnvram]
  rcases lt_or_ge i (board.chip.sectorSize (board.first system)) with hin | hout
  · have hstored := board.kerSysBcmImageSet_stored hpos
      (by omega : board.first system < board.chip.numSectors) (Nat.zero_le _)
      hsector htag hin
    rw [zero_add] at hstored
    rw [← hbase]
    exact hstored
  · -- behind the sector of the tag the first write is still in place
    rw [(board.tagWrite_footprint env tagFs system _).frame (by
      rintro s rfl
      exact .inr (by omega))]
    simp only [dataWrite, board.dataSize_of_le hfit (by omega)] at hdata ⊢
    have hstored := board.kerSysBcmImageSet_stored
      (by omega : 0 < board.first system + 1) htable (by omega)
      (by omega) hdata
      (by omega : i - board.chip.sectorSize (board.first system) <
        size - board.chip.sectorSize (board.first system))
    rw [(by omega : board.chip.base (board.first system + 1) +
        (i - board.chip.sectorSize (board.first system)) = system.start + i),
      (by omega : board.chip.sectorSize (board.first system) +
        (i - board.chip.sectorSize (board.first system)) = i)] at hstored
    exact hstored

private theorem writeSystem_working (heap tagFs : Nat → UInt8) (hfit : size ≤ system.capacity)
    (hsector : board.chip.sectorSize (board.first system) < size) (dev : Dev) :
    (writeSystem Env.working board.chip board.info heap tagFs system size dev).2 = some 0 := by
  have hfirst := board.first_lt_last system
  have hend := board.last_le_smallEnd system
  have hbase := board.first_base system
  have hsucc := board.chip.base_succ (board.first system)
  have hlast := board.last_base system
  have hmono := board.chip.base_mono hend
  have hdata : (board.dataWrite Env.working tagFs system size dev).2 = some 0 := by
    rw [dataWrite, board.dataSize_of_le hfit hsector.le]
    exact board.kerSysBcmImageSet_working (by omega) (by omega) tagFs (by omega)
      (by omega) (by omega) dev
  have htag : (board.tagWrite Env.working tagFs system
      (board.dataWrite Env.working tagFs system size dev).1).2 = some 0 := by
    simp only [tagWrite]
    rw [board.kerSysBcmImageSet_sector (board.first_pos system) (by omega)]
  rcases board.writeSystem_cases Env.working heap tagFs system size dev with
    ⟨hfailed, _⟩ | ⟨_, hfailed, _⟩ | ⟨_, _, heq⟩
  · exact absurd hdata hfailed
  · exact absurd htag hfailed
  · rw [heq]

end Board

section

variable (part : FlashPart) (image : Nat → UInt8)

/-- Reading the header reads each field up to the character that ends it. -/
theorem readHeader_footprint (p : Nat → Prop) (dev : Dev) :
    Dev.Footprint part p
      (fun limit => ∀ field ∈ headerFields, numberEnd image field < limit) dev
      (readHeader part image dev) := by
  have hfield (field : Nat) (hfield : field ∈ headerFields) (limit : Nat)
      (hlimit : ∀ field ∈ headerFields, numberEnd image field < limit) :
      (FlashOp.fetch field (numberEnd image field + 1 - field)).ReadsBelow limit := by
    intro _
    have := hlimit field hfield
    omega
  suffices ∀ (fields : List Nat) (dev' : Dev), fields ⊆ headerFields →
      Dev.Footprint part p
        (fun limit => ∀ field ∈ headerFields, numberEnd image field < limit) dev dev' →
      Dev.Footprint part p
        (fun limit => ∀ field ∈ headerFields, numberEnd image field < limit) dev
        (fields.foldl (fun dev field => dev.emit part
          (.fetch field (numberEnd image field + 1 - field))) dev') from
    this headerFields dev (List.Subset.refl _) (Dev.Footprint.refl _ _ _ dev)
  intro fields
  induction fields with
  | nil =>
    intro dev' _ h
    exact h
  | cons field rest ih =>
    intro dev' hsubset h
    apply ih _ (cons_subset.mp hsubset).2
    exact h.emit _ trivial (hfield field (cons_subset.mp hsubset).1)

theorem readHeader_mem (dev : Dev) : (readHeader part image dev).mem = dev.mem := by
  funext i
  exact (readHeader_footprint part image (fun _ => False) dev).frame (fun _ h => h.elim)

private theorem readHeader_log (dev : Dev) :
    (readHeader part image dev).log = dev.log ++ headerFields.map
      (fun field => .fetch field (numberEnd image field + 1 - field)) := by
  simp only [readHeader, headerFields, foldl_cons, foldl_nil, Dev.emit_log,
    map_cons, map_nil, append_assoc, cons_append, nil_append]

end

variable {image : Nat → UInt8}

theorem flashFsKernelImage_refused {part : FlashPart} (h : selectSystem part image = none)
    (env : Env) (info : FlashAddrInfo) (heap : Nat → UInt8) (dev : Dev) :
    flashFsKernelImage env part info heap image dev = (readHeader part image dev, some (-1)) := by
  rw [flashFsKernelImage, h, flashSelected]

variable {system : System}

theorem flashFsKernelImage_accepted {part : FlashPart} (h : selectSystem part image = some system)
    (env : Env) (info : FlashAddrInfo) (heap : Nat → UInt8) (dev : Dev) :
    flashFsKernelImage env part info heap image dev =
      writeSystem env part info heap (relocateTag part dev.mem system image) system
        (taggedSize image)
        ((readHeader part image dev).emit part (.fetch 0 (tagLen - tokenLen))) := by
  rw [flashFsKernelImage, h, flashSelected, readHeader_mem]

section

variable (board : Board) (env : Env)

/-- A refused image touches nothing, an accepted one its system and the boot sector. -/
theorem Board.flashFsKernelImage_footprint (heap image : Nat → UInt8) (dev : Dev) :
    Dev.Footprint board.chip
      (fun s => ∃ system, selectSystem board.chip image = some system ∧ board.Touches system s)
      (fun limit => (∀ field ∈ headerFields, numberEnd image field < limit) ∧
        ∀ system, selectSystem board.chip image = some system →
          tagLen - tokenLen ≤ limit ∧ board.EndsWithin system (taggedSize image) limit) dev
      (flashFsKernelImage env board.chip board.info heap image dev).1 := by
  cases hselect : selectSystem board.chip image with
  | none =>
    rw [flashFsKernelImage_refused hselect]
    exact (readHeader_footprint board.chip image _ dev).mono
      (fun _ hs => hs) (fun _ hlimit => hlimit.1)
  | some system =>
    rw [flashFsKernelImage_accepted hselect]
    have hwritten := board.writeSystem_footprint env heap
      (relocateTag board.chip dev.mem system image) system
      (board.selectSystem_fits hselect)
      ((readHeader board.chip image dev).emit board.chip (.fetch 0 (tagLen - tokenLen)))
    refine Dev.Footprint.trans (Dev.Footprint.emit
      ((readHeader_footprint board.chip image _ dev).mono
        (fun _ hs => hs) ?_) (.fetch 0 (tagLen - tokenLen)) trivial ?_)
      (hwritten.mono ?_ ?_)
    · intro limit hlimit
      exact hlimit.1
    · intro limit hlimit _
      exact (hlimit.2 system rfl).1
    · intro s hs
      exact ⟨system, rfl, hs⟩
    · intro limit hlimit
      exact (hlimit.2 system rfl).2

theorem Board.mem_log_of_accepted (heap : Nat → UInt8)
    (h : selectSystem board.chip image = some system) (dev : Dev) {op : FlashOp}
    (hop : op ∈ (readHeader board.chip image dev).log ++ [.fetch 0 (tagLen - tokenLen)]) :
    op ∈ (flashFsKernelImage env board.chip board.info heap image dev).1.log := by
  rw [flashFsKernelImage_accepted h]
  exact (board.writeSystem_footprint env heap _ system (board.selectSystem_fits h) _).log_subset hop

theorem Board.mem_log_of_headerField
    (heap image : Nat → UInt8) (dev : Dev) {field : Nat} (h : field ∈ headerFields) :
    FlashOp.fetch field (numberEnd image field + 1 - field) ∈
      (flashFsKernelImage env board.chip board.info heap image dev).1.log := by
  have hheader : FlashOp.fetch field (numberEnd image field + 1 - field) ∈
      (readHeader board.chip image dev).log := by
    rw [readHeader_log]
    exact mem_append_right _ (mem_map_of_mem h)
  cases hselect : selectSystem board.chip image with
  | none =>
    rw [flashFsKernelImage_refused hselect]
    exact hheader
  | some system =>
    exact board.mem_log_of_accepted env heap hselect dev (mem_append_left _ hheader)

end

theorem Board.flashFsKernelImage_working (board : Board)
    (h : selectSystem board.chip image = some system)
    (hsector : board.chip.sectorSize (board.first system) < taggedSize image)
    (heap : Nat → UInt8) (dev : Dev) :
    (flashFsKernelImage Env.working board.chip board.info heap image dev).2 = some 0 := by
  rw [flashFsKernelImage_accepted h]
  exact board.writeSystem_working heap _ (board.selectSystem_fits h) hsector _

end EchoLife.Firmware
