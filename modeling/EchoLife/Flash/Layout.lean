import EchoLife.Base.Buffer
import EchoLife.Flash.Crc32
import EchoLife.Flash.Geometry
import Mathlib.Tactic

/-!
The partition table that `kerSysFlashInit` computes. Six partitions are stacked from the end of
the chip downwards, each rounded down to the sector its first byte falls into. A failed sector
lookup is used at once as an index into the sector table; the model stops there instead.
-/

namespace EchoLife.Flash

open List Option Word

/-- The four fields `FLASH_ADDR_INFO` keeps for a partition. -/
structure Partition where
  startBlk : Int
  numberBlk : Int
  length : Int
  blkOffset : Nat
  deriving DecidableEq, Repr

structure FlashAddrInfo where
  flashPersistent : Partition
  flashPsiBackup : Partition
  flashFix : Partition
  flashAvail : Partition
  flashVariable : Partition
  flashScratchPad : Partition
  flashNvram : Partition
  deriving DecidableEq, Repr

def oneK : Nat := 1024

def nvramLength : Nat := oneK

def nvramDataOffset : Nat := 0x0580

def nvramPsiDefault : Nat := 64

def fixMaxLen : Nat := 8 * oneK

def availMaxLen : Nat := 16 * oneK

def vaMaxLen : Nat := 8 * oneK

def spMaxLen : Nat := 8 * oneK

/-- Size of `NVRAM_DATA` and the place of its `ulCheckSum`. -/
def nvramDataSize : Nat := 332

def nvramCheckSumOffset : Nat := 328

section
variable (mem : Nat → UInt8) (bpGetPsiSize : Option Nat)

/-- The check `savedCrc == crc` on the NVRAM record, over a copy whose checksum field is cleared.
-/
def nvramCrcOk : Bool :=
  let nvramData := Buffer.view mem nvramDataOffset
  let savedCrc := be32 nvramData nvramCheckSumOffset
  let cleared := Buffer.fill nvramData nvramCheckSumOffset 4 0
  savedCrc == getCrc32 cleared 0 nvramDataSize crc32InitValue

/-- In bytes: the board's PSI size if the NVRAM record is good and names a known board, else the
default. -/
def flashPersistentLength : Int :=
  let kilobytes := if nvramCrcOk mem then bpGetPsiSize.getD nvramPsiDefault
    else nvramPsiDefault
  s32 (s32 kilobytes * oneK)

private theorem flashPersistentLength_range :
    -2 ^ 31 ≤ flashPersistentLength mem bpGetPsiSize ∧
      flashPersistentLength mem bpGetPsiSize < 2 ^ 31 := by
  exact s32_range _

/-- A board that is not in the table gets the default size, whatever its NVRAM
record holds. -/
theorem flashPersistentLength_unknown_board : flashPersistentLength mem none = 65536 := by
  simp only [flashPersistentLength, getD_none, ite_self]
  rfl

end

def sectorsSize (part : SectorTable) (startBlk numberBlk : Int) : Int :=
  part.sectorsTotal startBlk.toNat numberBlk.toNat

/-- One placement of `kerSysFlashInit`: `length` bytes below sector `endBlk`, where `usedBlkSize`
bytes are taken. Returns the partition and the bytes its sectors take. -/
def placePartition (part : SectorTable) (length endBlk usedBlkSize : Int) :
    Option (Partition × Int) :=
  let startAddr := part.totalSize - usedBlkSize - length
  let startBlk := cfiFlashGetBlk part (startAddr + part.flashBase)
  if startBlk = -1 then none
  else
    let numberBlk := endBlk - startBlk
    let used := sectorsSize part startBlk numberBlk
    some (⟨startBlk, numberBlk, length, u32 (used - length)⟩, used)

/-- `kerSysFlashInit`, `none` when a lookup fails. -/
def kerSysFlashInit (part : SectorTable) (mem : Nat → UInt8)
    (bpGetPsiSize : Option Nat) : Option FlashAddrInfo := do
  let psiLength := flashPersistentLength mem bpGetPsiSize
  let (psi, used) ← placePartition part psiLength part.numSectors 0
  let (psiBackup, usedBak) ← placePartition part psiLength psi.startBlk used
  let used := used + usedBak
  let (fix, usedFix) ← placePartition part fixMaxLen psiBackup.startBlk used
  let used := used + usedFix
  let (avail, usedAvail) ← placePartition part availMaxLen fix.startBlk used
  let used := used + usedAvail
  let (va, usedVa) ← placePartition part vaMaxLen avail.startBlk used
  let used := used + usedVa
  let (sp, _) ← placePartition part spMaxLen va.startBlk used
  some {
    flashPersistent := psi
    flashPsiBackup := psiBackup
    flashFix := fix
    flashAvail := avail
    flashVariable := va
    flashScratchPad := sp
    flashNvram := ⟨0, 1, nvramLength, nvramDataOffset⟩ }

/-- Partition `p` takes the sectors `k..e-1`, starting inside the first and ending with the last.
-/
structure Occupies (part : FlashPart) (p : Partition) (k e : Nat) : Prop where
  startBlk_eq : p.startBlk = k
  numberBlk_eq : p.numberBlk = (e : Int) - k
  start_lt : k < e
  offset_lt : p.blkOffset < part.sectorSize k
  fills : (part.base k : Int) + p.blkOffset + p.length = part.base e

variable {length : Int} {p : Partition} {part : FlashPart} {info : FlashAddrInfo}

section

variable (part : FlashPart)

theorem sectorsSize_eq {k e : Nat} (h : k ≤ e) :
    sectorsSize part k ((e : Int) - k) = (part.base e : Int) - part.base k := by
  have hcount : ((e : Int) - k).toNat = e - k := by omega
  have hmono := part.base_mono h
  simp only [sectorsSize, hcount, Int.toNat_natCast, part.sectorsTotal_eq]
  rw [Nat.add_sub_cancel' h]
  omega

theorem placePartition_occupies {used : Int} {e : Nat}
    (hend : e ≤ part.numSectors) (hpos : 0 < length) (hint : length < 2 ^ 31)
    (h : placePartition part length e (part.totalSize - part.base e) = some (p, used)) :
    ∃ k, Occupies part p k e ∧ p.length = length ∧ used = (part.base e : Int) - part.base k := by
  simp only [placePartition] at h
  split at h
  · cases h
  rename_i hfound
  obtain ⟨a, k, ha, hwithin, hblk⟩ := cfiFlashGetBlk_ne_neg_one part hfound
  have htotal := part.total_lt
  have hbase := part.base_le_total e
  simp only [SectorTable.totalSize] at hbase
  have hstart : (a : Int) = part.base e - length := by
    rw [← ha, s32_of_range] <;> omega
  have hlo : part.base k ≤ a := hwithin.1
  have hhi : a < part.base (k + 1) := hwithin.2
  rw [part.base_succ] at hhi
  have hke : k < e := (part.base_lt_iff hend).mp (by omega)
  rw [hblk, sectorsSize_eq part hke.le] at h
  obtain ⟨rfl, rfl⟩ := h
  have hoffset : u32 ((part.base e : Int) - part.base k - length) = a - part.base k := by
    simp only [u32]
    omega
  refine ⟨k, ⟨rfl, rfl, hke, ?_, ?_⟩, rfl, rfl⟩
  · simp only [hoffset]
    omega
  · simp only [hoffset]
    omega

/-- The first placement needs a positive length: the end of the chip is not an address of it. -/
theorem placePartition_last_pos {r : Partition × Int} (hint : -2 ^ 31 ≤ length)
    (h : placePartition part length part.numSectors 0 = some r) : 0 < length := by
  simp only [placePartition] at h
  split at h
  · cases h
  rename_i hfound
  obtain ⟨a, k, ha, hwithin, _⟩ := cfiFlashGetBlk_ne_neg_one part hfound
  have hlt : a < part.base (k + 1) := hwithin.2
  have hle := part.base_le_total (k + 1)
  have htotal := part.total_lt
  simp only [SectorTable.totalSize] at hle ha
  simp only [s32] at ha
  split at ha <;> omega

/-- The bytes used so far are those from the previous partition's first sector to the end of the
chip. -/
theorem placePartition_below {prev : Partition} {used size : Int} {k e : Nat}
    (hprev : Occupies part prev k e) (hend : e ≤ part.numSectors) (hpos : 0 < length)
    (hint : length < 2 ^ 31) (hused : used = (part.totalSize : Int) - part.base k)
    (h : placePartition part length prev.startBlk used = some (p, size)) :
    ∃ j, Occupies part p j k ∧ p.length = length ∧
      used + size = (part.totalSize : Int) - part.base j := by
  have hk : k ≤ part.numSectors := le_trans hprev.start_lt.le hend
  rw [hprev.startBlk_eq, hused] at h
  obtain ⟨j, hoccupies, hlength, hsize⟩ :=
    placePartition_occupies part hk hpos hint h
  refine ⟨j, hoccupies, hlength, ?_⟩
  rw [hused, hsize]
  ring

end

structure Boundaries where
  psi : Nat
  psiBackup : Nat
  fix : Nat
  avail : Nat
  va : Nat
  sp : Nat

/-- The partitions are stacked below the end of the chip, each ending where the one before starts.
-/
structure Stacked (part : FlashPart) (info : FlashAddrInfo)
    (b : Boundaries) : Prop where
  psi : Occupies part info.flashPersistent b.psi part.numSectors
  psiBackup : Occupies part info.flashPsiBackup b.psiBackup b.psi
  fix : Occupies part info.flashFix b.fix b.psiBackup
  avail : Occupies part info.flashAvail b.avail b.fix
  va : Occupies part info.flashVariable b.va b.avail
  sp : Occupies part info.flashScratchPad b.sp b.va
  psi_length_pos : 0 < info.flashPersistent.length
  psiBackup_length : info.flashPsiBackup.length = info.flashPersistent.length
  fix_length : info.flashFix.length = fixMaxLen
  avail_length : info.flashAvail.length = availMaxLen
  va_length : info.flashVariable.length = vaMaxLen
  sp_length : info.flashScratchPad.length = spMaxLen

theorem Stacked.ordered {b : Boundaries} (h : Stacked part info b) :
    b.sp < b.va ∧ b.va < b.avail ∧ b.avail < b.fix ∧ b.fix < b.psiBackup ∧
      b.psiBackup < b.psi ∧ b.psi < part.numSectors :=
  ⟨h.sp.start_lt, h.va.start_lt, h.avail.start_lt, h.fix.start_lt,
    h.psiBackup.start_lt, h.psi.start_lt⟩

theorem kerSysFlashInit_stacked (part : FlashPart) (mem : Nat → UInt8) (bpGetPsiSize : Option Nat)
    (info : FlashAddrInfo) (h : kerSysFlashInit part mem bpGetPsiSize = some info) :
    ∃ b, Stacked part info b := by
  simp only [kerSysFlashInit, bind_eq_bind, bind_eq_some_iff] at h
  obtain ⟨⟨psi, u1⟩, h1, ⟨psiBackup, u2⟩, h2, ⟨fix, u3⟩, h3, ⟨avail, u4⟩, h4,
    ⟨va, u5⟩, h5, ⟨sp, u6⟩, h6, h⟩ := h
  obtain ⟨hlow, hhigh⟩ := flashPersistentLength_range mem bpGetPsiSize
  have hpos := placePartition_last_pos part hlow h1
  have h1' : placePartition part (flashPersistentLength mem bpGetPsiSize)
      part.numSectors (part.totalSize - part.base part.numSectors) = some (psi, u1) := by
    rw [part.base_numSectors, sub_self]
    exact h1
  obtain ⟨k1, o1, l1, e1⟩ := placePartition_occupies part le_rfl hpos hhigh h1'
  rw [part.base_numSectors] at e1
  have n1 : k1 ≤ part.numSectors := o1.start_lt.le
  obtain ⟨k2, o2, l2, e2⟩ :=
    placePartition_below part o1 le_rfl hpos hhigh e1 h2
  have n2 : k2 ≤ part.numSectors := le_trans o2.start_lt.le n1
  obtain ⟨k3, o3, l3, e3⟩ :=
    placePartition_below part o2 n1 (by decide) (by decide) e2 h3
  have n3 : k3 ≤ part.numSectors := le_trans o3.start_lt.le n2
  obtain ⟨k4, o4, l4, e4⟩ :=
    placePartition_below part o3 n2 (by decide) (by decide) e3 h4
  obtain ⟨k5, o5, l5, e5⟩ :=
    placePartition_below part o4 n3 (by decide) (by decide) e4 h5
  have n4 : k4 ≤ part.numSectors := le_trans o4.start_lt.le n3
  obtain ⟨k6, o6, l6, _⟩ :=
    placePartition_below part o5 n4 (by decide) (by decide) e5 h6
  cases h
  exact ⟨⟨k1, k2, k3, k4, k5, k6⟩, o1, o2, o3, o4, o5, o6, l1 ▸ hpos,
    l2.trans l1.symm, l3, l4, l5, l6⟩

theorem kerSysFlashInit_nvram {mem : Nat → UInt8} {bpGetPsiSize : Option Nat}
    (h : kerSysFlashInit part mem bpGetPsiSize = some info) :
    info.flashNvram = ⟨0, 1, nvramLength, nvramDataOffset⟩ := by
  simp only [kerSysFlashInit, bind_eq_bind, bind_eq_some_iff] at h
  obtain ⟨_, _, _, _, _, _, _, _, _, _, _, _, h⟩ := h
  rw [← some.inj h]

def topBootPart : FlashPart where
  sizes := replicate 255 65536 ++ replicate 8 8192
  flashBase := 0xBF000000
  sizes_pos := by decide +kernel
  nsect_le := by decide +kernel
  total_lt := by decide +kernel
  window_le := by decide +kernel

def topBootChip : CfiPart where
  toFlashPart := topBootPart
  sizes_units := by decide +kernel

def topBootInfo : FlashAddrInfo where
  flashPersistent := ⟨255, 8, 65536, 0⟩
  flashPsiBackup := ⟨254, 1, 65536, 0⟩
  flashFix := ⟨253, 1, 8192, 57344⟩
  flashAvail := ⟨252, 1, 16384, 49152⟩
  flashVariable := ⟨251, 1, 8192, 57344⟩
  flashScratchPad := ⟨250, 1, 8192, 57344⟩
  flashNvram := ⟨0, 1, 1024, 0x0580⟩

theorem kerSysFlashInit_topBoot (mem : Nat → UInt8) :
    kerSysFlashInit topBootPart mem none = some topBootInfo := by
  simp only [kerSysFlashInit, flashPersistentLength_unknown_board]
  decide +kernel

def FlashAddrInfo.partitions (info : FlashAddrInfo) : List Partition :=
  [info.flashPersistent, info.flashPsiBackup, info.flashFix, info.flashAvail,
    info.flashVariable, info.flashScratchPad]

def Partition.Owns (p : Partition) (blk : Int) : Prop :=
  p.startBlk ≤ blk ∧ blk < p.startBlk + p.numberBlk

/-- At least one sector of the chip, and an offset that starts the data inside the first sector
and ends it with the last one. -/
structure Partition.WellPlaced (part : SectorTable) (p : Partition) : Prop where
  start_nonneg : 0 ≤ p.startBlk
  number_pos : 1 ≤ p.numberBlk
  end_le : p.startBlk + p.numberBlk ≤ part.numSectors
  length_le : p.length ≤ sectorsSize part p.startBlk p.numberBlk
  offset_lt : p.blkOffset < part.sectorSize p.startBlk.toNat
  offset_add_length : p.blkOffset + p.length = sectorsSize part p.startBlk p.numberBlk

section

variable {k e : Nat} (h : Occupies part p k e)
include h

theorem Occupies.wellPlaced (hend : e ≤ part.numSectors) : p.WellPlaced part := by
  have hsize := sectorsSize_eq part h.start_lt.le
  have hstart := h.startBlk_eq
  have hnumber := h.numberBlk_eq
  have hlt := h.start_lt
  have hfills := h.fills
  refine ⟨by omega, by omega, by omega, ?_, ?_, ?_⟩
  · rw [hstart, hnumber, hsize]
    omega
  · rw [hstart]
    exact h.offset_lt
  · rw [hstart, hnumber, hsize]
    omega

theorem Occupies.owns_iff (blk : Int) : p.Owns blk ↔ (k : Int) ≤ blk ∧ blk < e := by
  simp only [Partition.Owns, h.startBlk_eq, h.numberBlk_eq]
  constructor
  · rintro ⟨hlo, hhi⟩
    exact ⟨hlo, by omega⟩
  · rintro ⟨hlo, hhi⟩
    exact ⟨hlo, by omega⟩

theorem Occupies.end_eq : p.startBlk + p.numberBlk = e := by
  rw [h.startBlk_eq, h.numberBlk_eq]
  ring

end

/-- In every layout the six partitions are well placed, no two share a sector, each starts where
the next one placed ends, and the first one ends with the chip. -/
theorem flash_partitions_tile_end (part : FlashPart) (mem : Nat → UInt8) (bpGetPsiSize : Option Nat)
    (info : FlashAddrInfo) (hinit : kerSysFlashInit part mem bpGetPsiSize = some info) :
    (∀ p ∈ info.partitions, p.WellPlaced part) ∧
    info.partitions.Pairwise (fun p q => ∀ blk, ¬(p.Owns blk ∧ q.Owns blk)) ∧
    info.partitions.IsChain (fun p q => q.startBlk + q.numberBlk = p.startBlk) ∧
    info.flashPersistent.startBlk + info.flashPersistent.numberBlk = part.numSectors := by
  obtain ⟨b, hstacked⟩ := kerSysFlashInit_stacked part mem bpGetPsiSize info hinit
  have hordered := hstacked.ordered
  refine ⟨?_, ?_, ?_, hstacked.psi.end_eq⟩
  · intro p hp
    simp only [FlashAddrInfo.partitions, mem_cons, not_mem_nil, or_false] at hp
    rcases hp with rfl | rfl | rfl | rfl | rfl | rfl
    · exact hstacked.psi.wellPlaced le_rfl
    · exact hstacked.psiBackup.wellPlaced (by omega)
    · exact hstacked.fix.wellPlaced (by omega)
    · exact hstacked.avail.wellPlaced (by omega)
    · exact hstacked.va.wellPlaced (by omega)
    · exact hstacked.sp.wellPlaced (by omega)
  · simp only [FlashAddrInfo.partitions, pairwise_cons, mem_cons, not_mem_nil, or_false,
      forall_eq_or_imp, forall_eq, hstacked.psi.owns_iff, hstacked.psiBackup.owns_iff,
      hstacked.fix.owns_iff, hstacked.avail.owns_iff, hstacked.va.owns_iff, hstacked.sp.owns_iff]
    refine ⟨⟨?_, ?_, ?_, ?_, ?_⟩, ⟨?_, ?_, ?_, ?_⟩, ⟨?_, ?_, ?_⟩, ⟨?_, ?_⟩,
      ?_, by simp⟩ <;> intro blk <;> omega
  · simp only [FlashAddrInfo.partitions, isChain_cons_cons, isChain_singleton, and_true]
    exact ⟨hstacked.psiBackup.end_eq.trans hstacked.psi.startBlk_eq.symm,
      hstacked.fix.end_eq.trans hstacked.psiBackup.startBlk_eq.symm,
      hstacked.avail.end_eq.trans hstacked.fix.startBlk_eq.symm,
      hstacked.va.end_eq.trans hstacked.avail.startBlk_eq.symm,
      hstacked.sp.end_eq.trans hstacked.va.startBlk_eq.symm⟩

theorem topBoot_partitions_tile_end :
    kerSysFlashInit topBootPart (fun _ => 0xFF) none = some topBootInfo ∧
    (∀ p ∈ topBootInfo.partitions, p.WellPlaced topBootPart) ∧
    topBootInfo.partitions.Pairwise (fun p q => ∀ blk, ¬(p.Owns blk ∧ q.Owns blk)) ∧
    topBootInfo.partitions.IsChain (fun p q => q.startBlk + q.numberBlk = p.startBlk) ∧
    topBootInfo.flashPersistent.startBlk +
      topBootInfo.flashPersistent.numberBlk = topBootPart.numSectors :=
  ⟨kerSysFlashInit_topBoot (fun _ => 0xFF),
    flash_partitions_tile_end topBootPart (fun _ => 0xFF) none topBootInfo
      (kerSysFlashInit_topBoot (fun _ => 0xFF))⟩

/-- The part of the example with an empty sector between the large sectors and the small ones. -/
def gapTable : SectorTable where
  sizes := replicate 255 65536 ++ 0 :: replicate 8 8192
  flashBase := 0xBF000000
  nsect_le := by decide +kernel
  total_lt := by decide +kernel
  window_le := by decide +kernel

/-- The search stops at the empty sector: the first partition starts there, at an offset that is
not inside it. -/
theorem empty_sector_misplaced :
    kerSysFlashInit gapTable (fun _ => 0xFF) none =
      some { topBootInfo with flashPersistent := ⟨255, 9, 65536, 0⟩ } ∧
    ¬Partition.WellPlaced gapTable ⟨255, 9, 65536, 0⟩ := by
  constructor
  · simp only [kerSysFlashInit, flashPersistentLength_unknown_board]
    decide +kernel
  · intro h
    exact absurd h.offset_lt (by decide +kernel)

end EchoLife.Flash
