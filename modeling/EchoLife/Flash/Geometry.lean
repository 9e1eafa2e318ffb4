import EchoLife.Base.Segment
import EchoLife.Base.Word

/-!
The sector table of the CFI driver and its address-to-sector search. A table has at most
`MAXSECTORS` entries, sizes are summed in an `int`, and the chip lies inside the 32-bit address
space. A part is a table without empty sectors.
-/

namespace EchoLife.Flash

open List Word

/-- A contiguous sector table and the address of its first byte. -/
structure SectorTable where
  sizes : List Nat
  flashBase : Nat
  nsect_le : sizes.length ≤ 1024
  total_lt : sizes.sum < 2 ^ 31
  window_le : flashBase + sizes.sum ≤ 2 ^ 32

/-- `meminfo` after `cfi_flash_init`, with `FLASH_BASE`, on a chip without empty sectors. -/
structure FlashPart extends SectorTable where
  sizes_pos : ∀ n ∈ sizes, 0 < n

instance : CoeOut FlashPart SectorTable :=
  ⟨FlashPart.toSectorTable⟩

namespace SectorTable

variable (part : SectorTable) (startBlk n : Nat)

def numSectors : Nat :=
  part.sizes.length

def sectorSize (blk : Nat) : Nat :=
  Segment.size part.sizes blk

def base (blk : Nat) : Nat :=
  Segment.base part.sizes blk

def totalSize : Nat :=
  part.sizes.sum

section

variable (part : SectorTable)

@[simp] theorem base_zero : part.base 0 = 0 :=
  Segment.base_zero part.sizes

@[simp] theorem base_numSectors : part.base part.numSectors = part.totalSize :=
  Segment.base_length part.sizes

theorem base_succ (blk : Nat) : part.base (blk + 1) = part.base blk + part.sectorSize blk :=
  Segment.base_succ part.sizes blk

theorem base_mono {j k : Nat} (h : j ≤ k) : part.base j ≤ part.base k :=
  Segment.base_mono part.sizes h

theorem base_le_total (blk : Nat) : part.base blk ≤ part.totalSize :=
  Segment.base_le_sum part.sizes blk

end

def sectorsTotal (n : Nat) : Nat :=
  ((range n).map (fun i => part.sectorSize (startBlk + i))).sum

theorem sectorsTotal_eq :
    part.sectorsTotal startBlk n = part.base (startBlk + n) - part.base startBlk := by
  have hsum := Segment.base_add_sum part.sizes startBlk n
  simp only [sectorsTotal, sectorSize, base]
  omega

def Within (blk a : Nat) : Prop :=
  Segment.Within part.sizes blk a

end SectorTable

namespace FlashPart

variable (part : FlashPart)

theorem sectorSize_pos {blk : Nat} (h : blk < part.numSectors) : 0 < part.sectorSize blk :=
  Segment.size_pos part.sizes_pos h

theorem base_lt_iff {j k : Nat} (hk : k ≤ part.numSectors) : part.base j < part.base k ↔ j < k :=
  Segment.base_lt_iff part.sizes_pos hk

end FlashPart

/-- A part as `cfi_flash_get_cfi` reports it: sector sizes are given in units of
256 bytes. -/
structure CfiPart extends FlashPart where
  sizes_units : ∀ n ∈ sizes, 256 ∣ n

instance : CoeOut CfiPart FlashPart :=
  ⟨CfiPart.toFlashPart⟩

section

variable (chip : CfiPart) (blk : Nat)

theorem CfiPart.unit_dvd_sectorSize : 256 ∣ chip.sectorSize blk := by
  simp only [SectorTable.sectorSize, Segment.size]
  by_cases h : blk < chip.sizes.length
  · rw [getD_eq_getElem _ _ h]
    exact chip.sizes_units _ (getElem_mem h)
  · rw [getD_eq_default _ _ (by omega)]
    exact Nat.dvd_zero 256

theorem CfiPart.unit_dvd_base : 256 ∣ chip.base blk := by
  induction blk with
  | zero => simp
  | succ blk ih =>
    rw [chip.base_succ]
    exact Nat.dvd_add ih (chip.unit_dvd_sectorSize blk)

theorem CfiPart.sectorSize_even : 2 ∣ chip.sectorSize blk :=
  Dvd.dvd.trans (by decide) (chip.unit_dvd_sectorSize blk)

end

theorem CfiPart.unit_le_sectorSize (chip : CfiPart) {blk : Nat}
    (h : blk < chip.numSectors) : 256 ≤ chip.sectorSize blk :=
  Nat.le_of_dvd (chip.sectorSize_pos h) (chip.unit_dvd_sectorSize blk)

/-- The loop of `cfi_flash_get_blk`: add sizes until the sum reaches the address or the table
ends. -/
def getBlkLoop (relativeAddr : Int) : List Nat → Int → Nat → Int × Nat
  | [], i, blkStart => (i, blkStart)
  | size :: rest, i, blkStart =>
    if i < relativeAddr then getBlkLoop relativeAddr rest (i + size) (blkStart + 1)
    else (i, blkStart)

/-- What the searches of the two drivers share: the sector of a mapped address, `-1` off the chip.
-/
def getBlk (exceeds : Int → Int → Bool) (t : SectorTable) (addr : Int) : Int :=
  let relativeAddr := s32 (addr - t.flashBase)
  let (i, blkStart) := getBlkLoop relativeAddr t.sizes 0 0
  if exceeds i relativeAddr then (blkStart : Int) - 1
  else if blkStart = t.numSectors then -1
  else blkStart

/-- `cfi_flash_get_blk`: `i > relative_addr`. -/
def cfiFlashGetBlk : SectorTable → Int → Int :=
  getBlk (fun i relativeAddr => relativeAddr < i)

/-- From sector `k` with the sum of those before it, the search stops at the first sector start at
or past the address, or the table end. -/
theorem getBlkLoop_stops (sizes : List Nat) (rel : Int) (k : Nat) (hk : k ≤ sizes.length)
    (hbelow : ∀ j, j < k → (Segment.base sizes j : Int) < rel) :
    ∃ blk, getBlkLoop rel (sizes.drop k) (Segment.base sizes k) k =
        ((Segment.base sizes blk : Int), blk) ∧
      k ≤ blk ∧ blk ≤ sizes.length ∧
      (∀ j, j < blk → (Segment.base sizes j : Int) < rel) ∧
      (rel ≤ Segment.base sizes blk ∨ blk = sizes.length) := by
  generalize hn : sizes.length - k = n
  induction n generalizing k with
  | zero =>
    have hend : k = sizes.length := by omega
    refine ⟨k, ?_, le_rfl, hk, hbelow, .inr hend⟩
    rw [drop_of_length_le (by omega)]
    rfl
  | succ n ih =>
    have hlt : k < sizes.length := by omega
    have hsize : Segment.size sizes k = sizes[k] :=
      getD_eq_getElem _ _ hlt
    rw [drop_eq_getElem_cons hlt]
    simp only [getBlkLoop]
    by_cases hless : (Segment.base sizes k : Int) < rel
    · rw [if_pos hless]
      have hnext : (Segment.base sizes k : Int) + (sizes[k] : Nat) =
          (Segment.base sizes (k + 1) : Nat) := by
        rw [Segment.base_succ, hsize]
        push_cast
        ring
      rw [hnext]
      obtain ⟨blk, hrun, hle, hblk, hlow, hstop⟩ := ih (k + 1) (by omega) (by
          intro j hj
          rcases Nat.lt_succ_iff_lt_or_eq.mp hj with h | h
          · exact hbelow j h
          · rw [h]
            exact hless)
        (by omega)
      exact ⟨blk, hrun, by omega, hblk, hlow, hstop⟩
    · rw [if_neg hless]
      exact ⟨k, rfl, le_rfl, hk, hbelow, .inl (by omega)⟩

theorem getBlkLoop_spec (part : FlashPart) (rel : Int) :
    ∃ blk, getBlkLoop rel part.sizes 0 0 = ((part.base blk : Int), blk) ∧
      blk ≤ part.numSectors ∧
      (∀ j, j < blk → (part.base j : Int) < rel) ∧
      (rel ≤ part.base blk ∨ blk = part.numSectors) := by
  obtain ⟨blk, hrun, _, hblk, hlow, hstop⟩ :=
    getBlkLoop_stops part.sizes rel 0 (Nat.zero_le _) (fun j hj => by omega)
  exact ⟨blk, hrun, hblk, hlow, hstop⟩

section

variable (part : FlashPart) {addr : Int}

theorem cfiFlashGetBlk_within {a k : Nat} (haddr : s32 (addr - part.flashBase) = a)
    (h : part.Within k a) : cfiFlashGetBlk part addr = k := by
  obtain ⟨blk, hrun, hblk, hlow, hstop⟩ := getBlkLoop_spec part a
  have hkn : k < part.numSectors := h.lt_length
  have hlo : part.base k ≤ a := h.1
  have hhi : a < part.base (k + 1) := h.2
  have hge : k ≤ blk := by
    by_contra hlt
    rcases hstop with hstop | hstop
    · have := (part.base_lt_iff (j := blk) (k := k) (by omega)).mpr (by omega)
      omega
    · omega
  have hle : blk ≤ k + 1 := by
    by_contra hgt
    have := hlow (k + 1) (by omega)
    omega
  simp only [cfiFlashGetBlk, getBlk, haddr, hrun, decide_eq_true_eq]
  rcases lt_or_ge k blk with hgt | hle'
  · have heq : blk = k + 1 := by omega
    subst heq
    rw [if_pos (by omega)]
    push_cast
    ring
  · have heq : blk = k := by omega
    subst heq
    rw [if_neg (by omega), if_neg (by omega)]

private theorem cfiFlashGetBlk_off_chip
    (h : s32 (addr - part.flashBase) < 0 ∨ (part.totalSize : Int) ≤ s32 (addr - part.flashBase)) :
    cfiFlashGetBlk part addr = -1 := by
  obtain ⟨blk, hrun, hblk, hlow, hstop⟩ :=
    getBlkLoop_spec part (s32 (addr - part.flashBase))
  simp only [cfiFlashGetBlk, getBlk, hrun, decide_eq_true_eq]
  rcases h with hneg | hbig
  · have hzero : blk = 0 := by
      by_contra hne
      have := hlow 0 (by omega)
      omega
    subst hzero
    rw [if_pos (by simp; omega)]
    rfl
  · have hall : blk = part.numSectors := by
      rcases hstop with hstop | hstop
      · by_contra hne
        have := (part.base_lt_iff (j := blk) (k := part.numSectors) le_rfl).mpr (by omega)
        rw [part.base_numSectors] at this
        omega
      · exact hstop
    subst hall
    rw [if_neg (by rw [part.base_numSectors]; omega), if_pos rfl]

theorem cfiFlashGetBlk_ne_neg_one (h : cfiFlashGetBlk part addr ≠ -1) :
    ∃ a k : Nat, s32 (addr - part.flashBase) = a ∧ part.Within k a ∧
      cfiFlashGetBlk part addr = k := by
  have hon : 0 ≤ s32 (addr - part.flashBase) ∧ s32 (addr - part.flashBase) < part.totalSize := by
    by_contra hoff
    exact h (cfiFlashGetBlk_off_chip part (by omega))
  obtain ⟨a, ha⟩ := Int.eq_ofNat_of_zero_le hon.1
  have hlt : a < part.sizes.sum := by
    have htotal := hon.2
    simp only [SectorTable.totalSize] at htotal
    omega
  obtain ⟨k, hk⟩ := Segment.exists_within hlt
  exact ⟨a, k, ha, hk, cfiFlashGetBlk_within part ha hk⟩

end

end EchoLife.Flash
