import EchoLife.Base.Decimal
import EchoLife.Flash.ImageSet

/-!
The tag in front of a firmware image and the choice of the image to boot. A tag
is clear text except for its checksums: lengths and addresses are decimal, and
addresses are given for a chip at the standard boot address `IMAGE_BASE`. The
normal system starts behind the boot ROM, the small system behind the normal
one.
-/

namespace EchoLife.Firmware

open Buffer Decimal Flash Word

/-! Offsets of the members of `FILE_TAG` that the driver uses. -/

namespace FileTag

def tagVersion : Nat := 0

def rootfsAddress : Nat := 94

def rootfsLen : Nat := 106

def kernelAddress : Nat := 116

def kernelLen : Nat := 128

def imageSequence : Nat := 138

def reserved : Nat := 198

def imageValidationToken : Nat := 216

def tagValidationToken : Nat := 236

end FileTag

def tagLen : Nat := 256

def tokenLen : Nat := 20

def crcLen : Nat := 4

def flashLengthNormalSystem : Nat := 80 * 128 * oneK

def flashLengthSmallSystem : Nat := 37 * 128 * oneK

def imageBase : Nat := 0xBFC00000

section
variable (part : FlashPart) (mem : Nat → UInt8)

def bootOffset : Int :=
  part.flashBase - imageBase

def boardXtoi (dest : Nat → UInt8) (i : Nat) : Nat :=
  let i := if dest i = 48 ∧ dest (i + 1) = 120 then i + 2 else i
  (readNumber 16 hexDigit dest addressSpace i 0).1

/-- `board_atoi` modulo `2^32`. Its decimal loop is the one of `simple_strtoul`. -/
def boardAtoi (dest : Nat → UInt8) (i : Nat) : Nat :=
  if dest i = 48 ∧ dest (i + 1) = 120 then boardXtoi dest (i + 2)
  else simpleStrtoul dest i

/-- The `FILE_TAG` read into a static buffer. What follows it in memory is taken to be zero. -/
def readTag (start : Nat) : Nat → UInt8 :=
  blit (fun _ => 0) 0 tagLen (view mem start)

def tagCrc (tag : Nat → UInt8) : Nat :=
  getCrc32 tag 0 (tagLen - tokenLen) crc32InitValue

def checkedTag (start : Nat) : Option (Nat → UInt8) :=
  let pTag := readTag mem start
  if tagCrc pTag ≠ be32 pTag FileTag.tagValidationToken then none else some pTag

/-- A failed lookup, where the source goes on with an index outside of the sector table, has no
tag here. -/
def getTagFromPartition (imageNumber : Nat) : Option (Nat → UInt8) :=
  let blk :=
    if imageNumber = 1 then
      cfiFlashGetBlk part (part.flashBase + flashLengthBootRom)
    else if imageNumber = 2 then
      cfiFlashGetBlk part (part.flashBase + flashLengthBootRom + flashLengthNormalSystem)
    else 0
  if blk ≤ 0 then none else checkedTag mem (part.base blk.toNat)

/-- The bytes of the address space, with the chip at `FLASH_BASE`. -/
def atAddress : Nat → UInt8 :=
  fun addr => mem (u32 (addr - part.flashBase))

variable (pTag : Nat → UInt8) (address : Nat)

def flashAddress : Nat :=
  u32 (boardAtoi pTag address + bootOffset part)

def systemCrc (len : Nat) : Nat :=
  getCrc32 (atAddress part mem) (flashAddress part pTag address)
    (simpleStrtoul pTag len) crc32InitValue

def rootfsCrc : Nat :=
  be32 pTag (FileTag.imageValidationToken + crcLen)

def kernelCrc : Nat :=
  be32 pTag (FileTag.imageValidationToken + crcLen * 2)

/-- `CheckSystemCrc`. A checksum field of zero is not compared. -/
def checkSystemCrc : Option (Nat → UInt8) → Int
  | none => -1
  | some pTag =>
    if rootfsCrc pTag ≠ 0 ∧ systemCrc part mem pTag FileTag.rootfsAddress
        FileTag.rootfsLen ≠ rootfsCrc pTag then -1
    else if kernelCrc pTag ≠ 0 ∧ systemCrc part mem pTag FileTag.kernelAddress
        FileTag.kernelLen ≠ kernelCrc pTag then -1
    else 0

def getBootImageTag : Option (Nat → UInt8) :=
  match getTagFromPartition part mem 1, getTagFromPartition part mem 2 with
  | some pTag1, some pTag2 =>
    if checkSystemCrc part mem (some pTag1) ≠ 0 then some pTag2 else some pTag1
  | pTag1, none => pTag1
  | none, some pTag2 => some pTag2

end

structure CrcMatches (part : FlashPart) (mem pTag : Nat → UInt8) : Prop where
  rootfs : systemCrc part mem pTag FileTag.rootfsAddress FileTag.rootfsLen = rootfsCrc pTag
  kernel : systemCrc part mem pTag FileTag.kernelAddress FileTag.kernelLen = kernelCrc pTag

structure CrcPresent (pTag : Nat → UInt8) : Prop where
  rootfs : rootfsCrc pTag ≠ 0
  kernel : kernelCrc pTag ≠ 0

variable {mem pTag : Nat → UInt8} {part : FlashPart}

theorem CrcMatches.checkSystemCrc_eq (h : CrcMatches part mem pTag) :
    checkSystemCrc part mem (some pTag) = 0 := by
  simp only [checkSystemCrc, h.rootfs, h.kernel, ne_eq, not_true_eq_false, and_false, if_false]

/-- The check means something only for a tag with both checksums. -/
theorem CrcPresent.checkSystemCrc_iff (h : CrcPresent pTag) :
    checkSystemCrc part mem (some pTag) = 0 ↔ CrcMatches part mem pTag := by
  constructor
  · intro hcheck
    simp only [checkSystemCrc, h.rootfs, h.kernel, ne_eq, not_false_eq_true, true_and] at hcheck
    split at hcheck
    · cases hcheck
    rename_i hrootfs
    split at hcheck
    · cases hcheck
    next hkernel =>
      exact ⟨not_not.mp hrootfs, not_not.mp hkernel⟩
  · intro hmatches
    exact hmatches.checkSystemCrc_eq

theorem getBootImageTag_cases {pTag2 : Nat → UInt8}
    (h2 : getTagFromPartition part mem 2 = some pTag2) :
    getBootImageTag part mem = some pTag2 ∨
      ∃ pTag1, getTagFromPartition part mem 1 = some pTag1 ∧
        checkSystemCrc part mem (some pTag1) = 0 ∧
        getBootImageTag part mem = some pTag1 := by
  simp only [getBootImageTag, h2]
  cases h1 : getTagFromPartition part mem 1 with
  | none => exact .inl rfl
  | some pTag1 =>
    by_cases hcheck : checkSystemCrc part mem (some pTag1) = 0
    · exact .inr ⟨pTag1, rfl, hcheck, if_neg (by simp [hcheck])⟩
    · exact .inl (if_pos hcheck)

theorem getBootImageTag_normal {pTag1 : Nat → UInt8}
    (h1 : getTagFromPartition part mem 1 = some pTag1)
    (hcheck : checkSystemCrc part mem (some pTag1) = 0) :
    getBootImageTag part mem = some pTag1 := by
  simp only [getBootImageTag, h1]
  cases getTagFromPartition part mem 2 with
  | none => rfl
  | some pTag2 => exact if_neg (by simp [hcheck])

theorem readTag_of_lt (mem : Nat → UInt8) (start : Nat) {i : Nat} (h : i < tagLen) :
    readTag mem start i = mem (start + i) :=
  blit_inside _ _ (Nat.zero_le i) (by omega)

variable {mem' : Nat → UInt8} {start : Nat}

private theorem readTag_congr (h : ∀ i, i < tagLen → mem (start + i) = mem' (start + i)) :
    readTag mem start = readTag mem' start := by
  funext i
  by_cases hi : i < tagLen
  · rw [readTag_of_lt mem start hi, readTag_of_lt mem' start hi, h i hi]
  · simp only [readTag]
    rw [blit_outside _ _ (by omega), blit_outside _ _ (by omega)]

theorem be32_readTag (mem : Nat → UInt8) (start : Nat) {field : Nat} (h : field + 4 ≤ tagLen) :
    be32 (readTag mem start) field = be32 mem (start + field) := by
  apply be32_congr
  intro d hd
  rw [readTag_of_lt mem start (by omega), add_assoc]

theorem checkedTag_eq_some (h : checkedTag mem start = some pTag) : pTag = readTag mem start := by
  simp only [checkedTag] at h
  split at h
  · cases h
  · exact (Option.some.inj h).symm

theorem checkedTag_congr (h : ∀ i, i < tagLen → mem (start + i) = mem' (start + i)) :
    checkedTag mem start = checkedTag mem' start := by
  simp only [checkedTag, readTag_congr h]

theorem boardAtoi_of_holds {tag : Nat → UInt8} {n : Nat} (h : Holds tag start (decimal n))
    (hword : n < 2 ^ 32) : boardAtoi tag start = n := by
  have hletter := h.ne_of_not_digit (decimal_length_pos n)
    (by decide : (120 : UInt8) ≠ 0) (by decide)
  simp only [boardAtoi]
  rw [if_neg (fun hx => hletter hx.2)]
  exact h.simpleStrtoul_eq hword

theorem systemCrc_eq {address len a n : Nat}
    (haddress : flashAddress part pTag address = part.flashBase + a)
    (hlen : simpleStrtoul pTag len = n) (hfits : a + n ≤ part.totalSize) (mem : Nat → UInt8) :
    systemCrc part mem pTag address len = getCrc32 mem a n crc32InitValue := by
  have htotal := part.total_lt
  simp only [SectorTable.totalSize] at hfits
  simp only [systemCrc, haddress, hlen]
  apply getCrc32_congr
  intro i hi
  have hindex : u32 ((part.flashBase + a + i : Nat) - part.flashBase) = a + i := by
    simp only [u32]
    omega
  simp only [atAddress, hindex]

/-- A board with the documented 16 MB map: the parameters lie behind the small system, and both
systems start and end with a sector and take more than one. -/
structure Board where
  chip : CfiPart
  info : FlashAddrInfo
  prior : Nat → UInt8
  bpGetPsiSize : Option Nat
  init : kerSysFlashInit chip prior bpGetPsiSize = some info
  normal : Nat
  small : Nat
  smallEnd : Nat
  total_eq : chip.totalSize = 16 * oneK * oneK
  normal_base : chip.base normal = flashLengthBootRom
  small_base : chip.base small = flashLengthBootRom + flashLengthNormalSystem
  smallEnd_base : chip.base smallEnd =
    flashLengthBootRom + flashLengthNormalSystem + flashLengthSmallSystem
  normal_lt : normal + 1 < small
  small_lt : small + 1 < smallEnd
  below_parameters : (smallEnd : Int) ≤ info.flashScratchPad.startBlk

namespace Board

variable (board : Board)

theorem smallEnd_lt_variable :
    (board.smallEnd : Int) < board.info.flashVariable.startBlk ∧
      board.smallEnd < board.chip.numSectors := by
  obtain ⟨b, hstacked⟩ := kerSysFlashInit_stacked _ _ _ _ board.init
  have hbelow := board.below_parameters
  rw [hstacked.sp.startBlk_eq] at hbelow
  rw [hstacked.va.startBlk_eq]
  have hordered := hstacked.ordered
  exact ⟨by omega, by omega⟩

theorem normal_pos : 0 < board.normal := by
  by_contra hzero
  have hbase := board.normal_base
  rw [Nat.le_zero.mp (not_lt.mp hzero), SectorTable.base_zero] at hbase
  exact absurd hbase (by decide)

theorem cfiFlashGetBlk_base {k : Nat} (hk : k < board.chip.numSectors) {addr : Int}
    (haddr : addr = board.chip.flashBase + board.chip.base k) :
    cfiFlashGetBlk board.chip addr = k := by
  have hsucc := board.chip.base_succ k
  have hsize := board.chip.sectorSize_pos hk
  have hle := board.chip.base_le_total k
  have htotal := board.chip.total_lt
  simp only [SectorTable.totalSize] at hle
  apply cfiFlashGetBlk_within board.chip
  · rw [haddr, add_sub_cancel_left]
    exact s32_of_range (by omega) (by omega)
  · refine ⟨le_rfl, ?_⟩
    change board.chip.base k < board.chip.base (k + 1)
    omega

theorem getTagFromPartition_one (mem : Nat → UInt8) :
    getTagFromPartition board.chip mem 1 = checkedTag mem flashLengthBootRom := by
  have hpos := board.normal_pos
  have hlt := board.normal_lt
  have hsmall := board.small_lt
  have hend := board.smallEnd_lt_variable.2
  have hblk := board.cfiFlashGetBlk_base (by omega : board.normal < board.chip.numSectors)
    (by rw [board.normal_base] : (board.chip.flashBase : Int) + flashLengthBootRom =
      board.chip.flashBase + board.chip.base board.normal)
  simp only [getTagFromPartition, if_true, hblk, Int.toNat_natCast, board.normal_base]
  rw [if_neg (by omega)]

theorem getTagFromPartition_two (mem : Nat → UInt8) :
    getTagFromPartition board.chip mem 2 =
      checkedTag mem (flashLengthBootRom + flashLengthNormalSystem) := by
  have hlt := board.normal_lt
  have hsmall := board.small_lt
  have hend := board.smallEnd_lt_variable.2
  have hblk := board.cfiFlashGetBlk_base (by omega : board.small < board.chip.numSectors)
    (by rw [board.small_base]; push_cast; ring : (board.chip.flashBase : Int) +
      flashLengthBootRom + flashLengthNormalSystem =
      board.chip.flashBase + board.chip.base board.small)
  simp only [getTagFromPartition, OfNat.ofNat_ne_one, if_false, if_true, hblk,
    Int.toNat_natCast, board.small_base]
  rw [if_neg (by omega)]

end Board

def topBoard : Board where
  chip := topBootChip
  info := topBootInfo
  prior := fun _ => 0xFF
  bpGetPsiSize := none
  init := kerSysFlashInit_topBoot (fun _ => 0xFF)
  normal := 2
  small := 162
  smallEnd := 236
  total_eq := by decide +kernel
  normal_base := by decide +kernel
  small_base := by decide +kernel
  smallEnd_base := by decide +kernel
  normal_lt := by decide
  small_lt := by decide
  below_parameters := by decide

end EchoLife.Firmware
