import EchoLife.Firmware.Tag
import EchoLife.Flash.Partitions

/-!
`flashFsKernelImage`: an uploaded image gets its tag rewritten for the place it
goes to and is written in two calls, the sector of the tag last. Reads of the
image are kept in the device's log. The function is given the length of the
image and never looks at it.
-/

namespace EchoLife.Firmware

open Buffer Decimal Flash Word

def flashReservedAtEnd : Nat := 7 * 128 * oneK

inductive System
  | normal
  | small
  deriving DecidableEq, Repr

variable (env : Env) (part : FlashPart) (info : FlashAddrInfo) (heap image : Nat → UInt8)

def newImgSize : Nat :=
  u32 (simpleStrtoul image FileTag.rootfsLen + simpleStrtoul image FileTag.kernelLen)

/-- `TAG_LEN + newImgSize`, an unsigned sum. -/
def taggedSize : Nat :=
  u32 (tagLen + newImgSize image)

/-- The branches on `tagVer` and `typeFlag`. A temporary firmware (version 7, type 4) replaces the
normal system; for version 8 types 1 and 3 are the normal and packaged firmware, 2 the small one.
-/
def selectSystem : Option System :=
  let tagVer := s32 (simpleStrtoul image FileTag.tagVersion)
  let typeFlag := s32 (simpleStrtoul image FileTag.reserved)
  let availableTempFwSize := u32 (part.totalSize / 2 - flashReservedAtEnd)
  if tagVer = 7 ∧ typeFlag = 4 then
    if taggedSize image > availableTempFwSize then none else some .normal
  else if tagVer = 8 ∧ (typeFlag = 1 ∨ typeFlag = 3) then
    if taggedSize image > flashLengthNormalSystem then none else some .normal
  else if tagVer = 8 ∧ typeFlag = 2 then
    if taggedSize image > flashLengthSmallSystem then none else some .small
  else none

def System.start : System → Nat
  | normal => flashLengthBootRom
  | small => flashLengthBootRom + flashLengthNormalSystem

variable (mem : Nat → UInt8) (system : System)

def System.offset : Nat :=
  system.start + tagLen

/-- The number `UpdateImageSequenceNumber` prints: one more than the greater of the two, compared
unsigned. -/
def newImageSequence : Int :=
  let number := match getTagFromPartition part mem 1 with
    | some pTag => s32 (simpleStrtoul pTag FileTag.imageSequence)
    | none => 0
  let number := match getTagFromPartition part mem 2 with
    | some pTag =>
      if simpleStrtoul pTag FileTag.imageSequence > u32 number then
        s32 (simpleStrtoul pTag FileTag.imageSequence)
      else number
    | none => number
  s32 (number + 1)

def sequenceText : System → List UInt8
  | .normal => decimalInt (newImageSequence part mem)
  | .small => decimalInt 0

def kernelDistance : Int :=
  s32 (simpleStrtoul image FileTag.kernelAddress + bootOffset part) -
    s32 (simpleStrtoul image FileTag.rootfsAddress + bootOffset part)

def addressTag (image : Nat → UInt8) : Nat → UInt8 :=
  let tagFs := sprintf image FileTag.imageSequence (sequenceText part mem system)
  let tagFs := sprintf tagFs FileTag.kernelAddress
    (decimal (u32 (imageBase + system.offset + kernelDistance part image)))
  sprintf tagFs FileTag.rootfsAddress (decimal (u32 (imageBase + system.offset)))

/-- `tagFs` as it is written to the chip: new texts, then the new checksum. -/
def relocateTag (image : Nat → UInt8) : Nat → UInt8 :=
  let tagFs := addressTag part mem system image
  blit tagFs FileTag.tagValidationToken crcLen (be32Bytes (tagCrc tagFs))

def nvramBootlineOffset : Nat := 4

def bootLatestImage : UInt8 := 48

/-- The search for `p=` with another image than the latest behind it. -/
def findBootImage (nvramData : Nat → UInt8) : Nat → Nat → Option Nat
  | 0, _ => none
  | fuel + 1, p =>
    if nvramData (p + 2) = 0 then none
    else if nvramData p = 112 ∧ nvramData (p + 1) = 61 ∧
        nvramData (p + 2) ≠ bootLatestImage then some p
    else findBootImage nvramData fuel (p + 1)

/-- The local copy of the NVRAM record. What follows it on the stack is zero, which ends the
search. -/
def readNvram : Nat → UInt8 :=
  blit (fun _ => 0) 0 nvramDataSize
    (view mem (part.base info.flashNvram.startBlk.toNat + info.flashNvram.blkOffset))

def resetBootLine (nvramData : Nat → UInt8) (dev : Dev) : Dev :=
  match findBootImage nvramData nvramDataSize nvramBootlineOffset with
  | none => dev
  | some p =>
    let nvramData := blit nvramData (p + 2) 1 (fun _ => bootLatestImage)
    let nvramData := fill nvramData nvramCheckSumOffset 4 0
    let crc := getCrc32 nvramData 0 nvramDataSize crc32InitValue
    let nvramData := blit nvramData nvramCheckSumOffset 4 (be32Bytes crc)
    match kerSysNvRamSet env part info (fun i => heap i.toNat) nvramData nvramDataSize 0 dev with
    | some (written, _) => written
    | none => dev

/-- The record is shorter than the NVRAM, so that the call is neither refused nor the end of the
kernel. -/
theorem kerSysNvRamSet_record (nvramData : Nat → UInt8) (dev : Dev) :
    kerSysNvRamSet env part info (fun i => heap i.toNat) nvramData nvramDataSize 0 dev =
      some (match getSharedBlks env part info.flashNvram.startBlk.toNat
          (info.flashNvram.startBlk + info.flashNvram.numberBlk).toNat heap dev with
        | none => (dev, -1)
        | some pBuf =>
          let (dev, written) := setSharedBlks env part info.flashNvram.startBlk.toNat
            (info.flashNvram.startBlk + info.flashNvram.numberBlk).toNat
            (blit pBuf info.flashNvram.blkOffset nvramDataSize nvramData) dev
          (dev, if written ≠ 0 then -1 else 0)) := by
  simp only [kerSysNvRamSet, partitionSet, Int.toNat_natCast, add_zero, poke_around]
  rw [if_neg (by decide)]
  cases getSharedBlks env part info.flashNvram.startBlk.toNat
      (info.flashNvram.startBlk + info.flashNvram.numberBlk).toNat heap dev with
  | none => rfl
  | some pBuf =>
    simp only
    rw [if_neg (by decide)]

def writeSystem (tagFs : Nat → UInt8) (system : System) (size : Nat) (dev : Dev) :
    Dev × Option Int :=
  let nvramData := readNvram part info dev.mem
  let start : Int := part.flashBase + system.offset - tagLen
  let fsBlk := cfiFlashGetBlk part start
  if fsBlk < 0 then (dev, none)
  else
    let ulSectorSize := part.sectorSize fsBlk.toNat
    match kerSysBcmImageSet env part info (start + ulSectorSize) tagFs ulSectorSize
        (s32 (size - ulSectorSize)) dev with
    | (dev, some 0) =>
      match kerSysBcmImageSet env part info start tagFs 0 ulSectorSize dev with
      | (dev, some 0) => (resetBootLine env part info heap nvramData dev, some 0)
      | failed => failed
    | failed => failed

def headerFields : List Nat :=
  [FileTag.rootfsAddress, FileTag.kernelAddress, FileTag.rootfsLen,
    FileTag.kernelLen, FileTag.tagVersion, FileTag.reserved]

def readHeader (dev : Dev) : Dev :=
  headerFields.foldl
    (fun dev field => dev.emit part (.fetch field (numberEnd image field + 1 - field)))
    dev

def flashSelected (dev : Dev) : Option System → Dev × Option Int
  | none => (dev, some (-1))
  | some system =>
    let tagFs := relocateTag part dev.mem system image
    let dev := dev.emit part (.fetch 0 (tagLen - tokenLen))
    writeSystem env part info heap tagFs system (taggedSize image) dev

/-- `flashFsKernelImage`. No answer if a lookup leaves the sector table. -/
def flashFsKernelImage (dev : Dev) : Dev × Option Int :=
  flashSelected env part info heap image (readHeader part image dev) (selectSystem part image)

/-! ### The tag that is written -/

section relocated

variable (part : FlashPart) (mem : Nat → UInt8) (system : System)
  (image : Nat → UInt8)

/-- The new texts leave every other byte alone, but the sequence number may run into the product
name. -/
theorem addressTag_outside {i : Nat}
    (h : i < 94 ∨ 104 < i ∧ i < 116 ∨ 126 < i ∧ i < 138 ∨ 149 < i) :
    addressTag part mem system image i = image i := by
  have hsequence : (sequenceText part mem system).length ≤ 11 := by
    cases system with
    | normal => exact decimalInt_length_le _
    | small => exact decimalInt_length_le _
  have hkernel := decimal_length_le (u32 (imageBase + system.offset + kernelDistance part image))
  have hrootfs := decimal_length_le (u32 (imageBase + system.offset))
  simp only [addressTag, FileTag.imageSequence, FileTag.kernelAddress, FileTag.rootfsAddress]
  rw [sprintf_outside _ (by omega), sprintf_outside _ (by omega), sprintf_outside _ (by omega)]

theorem relocateTag_eq_addressTag {i : Nat} (h : i < 236 ∨ 240 ≤ i) :
    relocateTag part mem system image i = addressTag part mem system image i := by
  simp only [relocateTag, FileTag.tagValidationToken, crcLen]
  exact blit_outside _ _ (by omega)

theorem relocateTag_outside {i : Nat}
    (h : i < 94 ∨ 104 < i ∧ i < 116 ∨ 126 < i ∧ i < 138 ∨ 149 < i ∧ i < 236 ∨ 240 ≤ i) :
    relocateTag part mem system image i = image i := by
  rw [relocateTag_eq_addressTag part mem system image (by omega),
    addressTag_outside part mem system image (by omega)]

theorem tagCrc_relocateTag :
    tagCrc (relocateTag part mem system image) =
      be32 (relocateTag part mem system image) FileTag.tagValidationToken := by
  have hsame : tagCrc (relocateTag part mem system image) =
      tagCrc (addressTag part mem system image) := by
    apply getCrc32_congr
    intro i hi
    exact relocateTag_eq_addressTag part mem system image
      (by simp only [tagLen, tokenLen] at hi; omega)
  have hstored : be32 (relocateTag part mem system image)
      FileTag.tagValidationToken =
      be32 (be32Bytes (tagCrc (addressTag part mem system image))) 0 := by
    apply be32_congr
    intro d hd
    rw [zero_add]
    exact blit_at _ _ hd
  rw [hsame, hstored]
  exact (be32_bytes (getCrc32_lt _ _ _ (by decide))).symm

theorem holds_rootfsAddress :
    Holds (relocateTag part mem system image) FileTag.rootfsAddress
      (decimal (u32 (imageBase + system.offset))) := by
  have hlength := decimal_length_le (u32 (imageBase + system.offset))
  apply (holds_sprintf _ _ _).congr 236
  · intro i _ hhi
    exact (relocateTag_eq_addressTag part mem system image (.inl hhi)).symm
  · simp only [FileTag.rootfsAddress]
    omega

theorem holds_kernelAddress :
    Holds (relocateTag part mem system image) FileTag.kernelAddress
      (decimal (u32 (imageBase + system.offset + kernelDistance part image))) := by
  have hlength := decimal_length_le (u32 (imageBase + system.offset + kernelDistance part image))
  have hrootfs := decimal_length_le (u32 (imageBase + system.offset))
  apply (holds_sprintf (sprintf image FileTag.imageSequence
    (sequenceText part mem system)) FileTag.kernelAddress _).congr 236
  · intro i hlo hhi
    rw [relocateTag_eq_addressTag part mem system image (.inl hhi)]
    apply Eq.symm
    apply sprintf_outside
    simp only [FileTag.kernelAddress] at hlo
    simp only [FileTag.rootfsAddress]
    omega
  · simp only [FileTag.kernelAddress]
    omega

end relocated

end EchoLife.Firmware
