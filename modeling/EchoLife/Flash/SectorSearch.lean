import EchoLife.Flash.Geometry

/-!
The address-to-sector search of the two flash drivers on an arbitrary contiguous sector table.
Both run the same loop; the CFI driver then compares the running sum with the relative address as
`int`, the SPI driver as `unsigned int`. The loop cannot step over empty sectors.
-/

namespace EchoLife.Flash

open Word

/-- `spi_flash_get_blk`: `(unsigned int)i > (unsigned int)relative_addr`. -/
def spiFlashGetBlk : SectorTable → Int → Int :=
  getBlk (fun i relativeAddr => u32 relativeAddr < u32 i)

namespace SectorTable

def Contains (t : SectorTable) (k addr : Nat) : Prop :=
  t.flashBase + Segment.base t.sizes k ≤ addr ∧ addr < t.flashBase + Segment.base t.sizes (k + 1)

/-- The sector of the address, `-1` below the flash base and from its end on. -/
def Locates (t : SectorTable) (addr : Nat) (blk : Int) : Prop :=
  (∃ k : Nat, blk = k ∧ t.Contains k addr) ∨
    (blk = -1 ∧ (addr < t.flashBase ∨ t.flashBase + t.sizes.sum ≤ addr))

def relative (t : SectorTable) (addr : Nat) : Int :=
  s32 ((addr : Int) - t.flashBase)

def EmptyAt (t : SectorTable) (addr : Nat) : Prop :=
  ∃ k, k < t.sizes.length ∧ Segment.size t.sizes k = 0 ∧ t.relative addr = Segment.base t.sizes k

private theorem contains_unique {t : SectorTable} {addr j k : Nat} (hj : t.Contains j addr)
    (hk : t.Contains k addr) : j = k := by
  obtain ⟨hjlo, hjhi⟩ := hj
  obtain ⟨hklo, hkhi⟩ := hk
  rcases lt_trichotomy j k with hlt | heq | hgt
  · have := Segment.base_mono t.sizes (show j + 1 ≤ k from hlt)
    omega
  · exact heq
  · have := Segment.base_mono t.sizes (show k + 1 ≤ j from hgt)
    omega

section

variable (t : SectorTable) {addr : Nat} (haddr : addr < 2 ^ 32)
include haddr

theorem relative_cases :
    (0 ≤ t.relative addr ∧ t.relative addr < t.sizes.sum ∧ t.relative addr = addr - t.flashBase) ∨
    ((t.relative addr < 0 ∨ t.sizes.sum ≤ t.relative addr) ∧
      (addr < t.flashBase ∨ t.flashBase + t.sizes.sum ≤ addr)) := by
  have htotal := t.total_lt
  have hwindow := t.window_le
  simp only [relative, s32]
  split <;> omega

private theorem contains_iff (k : Nat) :
    t.Contains k addr ↔
      (Segment.base t.sizes k : Int) ≤ t.relative addr ∧
        t.relative addr < Segment.base t.sizes (k + 1) := by
  have hhigh := Segment.base_le_sum t.sizes (k + 1)
  simp only [Contains]
  rcases t.relative_cases haddr with ⟨_, _, heq⟩ | ⟨hoff, haway⟩
  · omega
  · omega

private theorem off_chip_iff :
    (addr < t.flashBase ∨ t.flashBase + t.sizes.sum ≤ addr) ↔
      t.relative addr < 0 ∨ t.sizes.sum ≤ t.relative addr := by
  rcases t.relative_cases haddr with ⟨_, _, heq⟩ | ⟨hoff, haway⟩
  · omega
  · exact ⟨fun _ => hoff, fun _ => haway⟩

theorem locates_iff (blk : Int) :
    t.Locates addr blk ↔
      (∃ k : Nat, blk = k ∧ (Segment.base t.sizes k : Int) ≤ t.relative addr ∧
        t.relative addr < Segment.base t.sizes (k + 1)) ∨
      (blk = -1 ∧ (t.relative addr < 0 ∨ t.sizes.sum ≤ t.relative addr)) := by
  simp only [Locates, t.contains_iff haddr, t.off_chip_iff haddr]

end

end SectorTable

variable (t : SectorTable) (addr : Nat)

/-- The loop stops behind the sector of the address, at the table end, or at a sector that starts
at the address. -/
theorem cfiFlashGetBlk_cases :
    (t.relative addr < 0 ∧ cfiFlashGetBlk t addr = -1) ∨
    (∃ k : Nat, k < t.sizes.length ∧ cfiFlashGetBlk t addr = k ∧
      (Segment.base t.sizes k : Int) < t.relative addr ∧
      t.relative addr < Segment.base t.sizes (k + 1)) ∨
    ((∀ k, k < t.sizes.length → (Segment.base t.sizes k : Int) < t.relative addr) ∧
      t.sizes.sum ≤ t.relative addr ∧ cfiFlashGetBlk t addr = -1) ∨
    (∃ k : Nat, k < t.sizes.length ∧ cfiFlashGetBlk t addr = k ∧
      t.relative addr = Segment.base t.sizes k ∧
      ∀ j, j < k → (Segment.base t.sizes j : Int) < t.relative addr) := by
  obtain ⟨blk, hrun, _, hblk, hlow, hstop⟩ :=
    getBlkLoop_stops t.sizes (t.relative addr) 0 (Nat.zero_le _) (fun j hj => by omega)
  simp only [List.drop_zero, Segment.base_zero, Nat.cast_zero] at hrun
  have hresult : cfiFlashGetBlk t addr =
      if t.relative addr < Segment.base t.sizes blk then (blk : Int) - 1
      else if blk = t.sizes.length then -1 else blk := by
    simp only [SectorTable.relative] at hrun ⊢
    simp only [cfiFlashGetBlk, getBlk, hrun]
    exact ite_congr decide_eq_true_eq (fun _ => rfl) (fun _ => rfl)
  rw [hresult]
  split
  next hover =>
    cases blk with
    | zero => exact .inl ⟨by simpa using hover, rfl⟩
    | succ k =>
      refine .inr (.inl ⟨k, hblk, ?_, hlow k (Nat.lt_succ_self k), hover⟩)
      push_cast
      ring
  next hunder =>
    split
    next hend =>
      subst hend
      rw [Segment.base_length] at hunder
      exact .inr (.inr (.inl ⟨hlow, by omega, rfl⟩))
    next hend =>
      refine .inr (.inr (.inr ⟨blk, by omega, rfl, ?_, hlow⟩))
      rcases hstop with hstop | hstop
      · omega
      · exact absurd hstop hend

/-- The SPI driver answers like the CFI driver for every relative address that is not negative as
an `int`; the others it takes for the first sector. -/
theorem spiFlashGetBlk_cases :
    (0 ≤ t.relative addr ∧ spiFlashGetBlk t addr = cfiFlashGetBlk t addr) ∨
    (t.relative addr < 0 ∧ spiFlashGetBlk t addr = if t.sizes = [] then -1 else 0) := by
  rcases lt_or_ge (t.relative addr) 0 with hneg | hnonneg
  · refine .inr ⟨hneg, ?_⟩
    have hloop : getBlkLoop (t.relative addr) t.sizes 0 0 = (0, 0) := by
      cases t.sizes with
      | nil => rfl
      | cons size rest => exact if_neg (by omega)
    simp only [SectorTable.relative] at hloop
    simp only [spiFlashGetBlk, getBlk, hloop]
    rw [if_neg (by simp [u32])]
    simp [SectorTable.numSectors, eq_comm]
  · refine .inl ⟨hnonneg, ?_⟩
    obtain ⟨blk, hrun, _, hblk, hlow, hstop⟩ :=
      getBlkLoop_stops t.sizes (t.relative addr) 0 (Nat.zero_le _) (fun j hj => by omega)
    have hsum := Segment.base_le_sum t.sizes blk
    have htotal := t.total_lt
    have hrange := s32_range ((addr : Int) - t.flashBase)
    simp only [SectorTable.relative] at hrun hnonneg
    simp only [List.drop_zero, Segment.base_zero, Nat.cast_zero] at hrun
    simp only [spiFlashGetBlk, cfiFlashGetBlk, getBlk, hrun]
    refine ite_congr ?_ (fun _ => rfl) (fun _ => rfl)
    rw [eq_iff_iff, decide_eq_true_iff, decide_eq_true_iff]
    simp only [u32]
    omega

/-- The search of the CFI driver is right unless an empty sector starts at the
address. -/
theorem cfiFlashGetBlk_locates_iff {addr : Nat} (haddr : addr < 2 ^ 32) :
    t.Locates addr (cfiFlashGetBlk t addr) ↔ ¬t.EmptyAt addr := by
  rw [t.locates_iff haddr]
  rcases cfiFlashGetBlk_cases t addr with ⟨hneg, hresult⟩ |
    ⟨k, hk, hresult, hlo, hhi⟩ | ⟨hlow, hend, hresult⟩ | ⟨k, hk, hresult, hstart, hlow⟩
  · rw [hresult]
    refine iff_of_true (.inr ⟨rfl, .inl hneg⟩) ?_
    rintro ⟨j, _, _, hj⟩
    omega
  · rw [hresult]
    refine iff_of_true (.inl ⟨k, rfl, by omega, hhi⟩) ?_
    rintro ⟨j, hj, hempty, hstart⟩
    rcases lt_or_ge k j with hlt | hge
    · have := Segment.base_mono t.sizes (show k + 1 ≤ j from hlt)
      omega
    · have := Segment.base_mono t.sizes hge
      omega
  · rw [hresult]
    refine iff_of_true (.inr ⟨rfl, .inr hend⟩) ?_
    rintro ⟨j, hj, _, hstart⟩
    have := hlow j hj
    omega
  · have hsucc := Segment.base_succ t.sizes k
    rw [hresult]
    constructor
    · rintro (⟨j, hj, _, hhi⟩ | ⟨hneg, _⟩)
      · obtain rfl : j = k := by omega
        rintro ⟨i, hi, hempty, histart⟩
        rcases lt_trichotomy i j with hlt | rfl | hgt
        · have := hlow i hlt
          omega
        · omega
        · have := Segment.base_mono t.sizes (show j + 1 ≤ i from hgt)
          omega
      · omega
    · intro hnone
      have hpos : 0 < Segment.size t.sizes k := by
        rcases Nat.eq_zero_or_pos (Segment.size t.sizes k) with hzero | hpos
        · exact absurd ⟨k, hk, hzero, hstart⟩ hnone
        · exact hpos
      exact .inl ⟨k, rfl, by omega, by omega⟩

/-- On every contiguous table an address lies in at most one sector. The CFI search finds it, or
reports `-1` off the chip, exactly if no empty sector starts at the address; the SPI search
exactly if, besides, the relative address is not negative as an `int` (or there is no sector), and
exactly then the two agree. -/
theorem sector_search_iff (t : SectorTable) (addr : Nat) (haddr : addr < 2 ^ 32) :
    (∀ j k, t.Contains j addr → t.Contains k addr → j = k) ∧
    (t.Locates addr (cfiFlashGetBlk t addr) ↔ ¬t.EmptyAt addr) ∧
    (t.Locates addr (spiFlashGetBlk t addr) ↔
      ¬t.EmptyAt addr ∧ (0 ≤ t.relative addr ∨ t.sizes = [])) ∧
    (spiFlashGetBlk t addr = cfiFlashGetBlk t addr ↔ 0 ≤ t.relative addr ∨ t.sizes = []) := by
  have hcfi := cfiFlashGetBlk_locates_iff t haddr
  refine ⟨fun j k => SectorTable.contains_unique, hcfi, ?_⟩
  rcases spiFlashGetBlk_cases t addr with ⟨hnonneg, hsame⟩ | ⟨hneg, hresult⟩
  · rw [hsame, hcfi]
    simp [hnonneg]
  have hbelow : cfiFlashGetBlk t addr = -1 := by
    rcases cfiFlashGetBlk_cases t addr with ⟨_, hresult⟩ | ⟨k, _, _, hlo, _⟩ |
      ⟨_, hend, _⟩ | ⟨k, _, _, hstart, _⟩
    · exact hresult
    · omega
    · omega
    · omega
  have hfull : ¬t.EmptyAt addr := by
    rintro ⟨k, _, _, hstart⟩
    omega
  rw [hresult, hbelow, t.locates_iff haddr]
  by_cases hempty : t.sizes = []
  · simp [hempty, hfull, hneg]
  have hnot : ¬0 ≤ t.relative addr := by omega
  simp only [hempty, hfull, hnot, or_self, and_false, iff_false, not_or]
  refine ⟨⟨?_, ?_⟩, by decide⟩
  · omega
  · rintro ⟨hzero, _⟩
    cases hzero

def twoSectors : SectorTable where
  sizes := [4096, 4096]
  flashBase := 0xBFC00000
  nsect_le := by decide
  total_lt := by decide
  window_le := by decide

theorem twoSectors_sector_search_iff :
    0xBFC01000 < 2 ^ 32 ∧
    (twoSectors.Locates 0xBFC01000 (cfiFlashGetBlk twoSectors (0xBFC01000 : Nat)) ↔
      ¬twoSectors.EmptyAt 0xBFC01000) :=
  ⟨by decide, (sector_search_iff twoSectors 0xBFC01000 (by decide)).2.1⟩

/-- One byte below the flash the SPI driver reports the first sector. -/
theorem spi_search_below_the_flash :
    0xBFBFFFFF < twoSectors.flashBase ∧
    cfiFlashGetBlk twoSectors 0xBFBFFFFF = -1 ∧
    spiFlashGetBlk twoSectors 0xBFBFFFFF = 0 ∧
    ¬twoSectors.Locates 0xBFBFFFFF (spiFlashGetBlk twoSectors (0xBFBFFFFF : Nat)) := by
  refine ⟨by decide, by decide, by decide, ?_⟩
  rintro (⟨k, _, hlo, _⟩ | ⟨hresult, _⟩)
  · simp only [twoSectors] at hlo
    omega
  · exact absurd hresult (by decide)

end EchoLife.Flash
