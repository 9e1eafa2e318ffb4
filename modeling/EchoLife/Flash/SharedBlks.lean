import EchoLife.Flash.Device

/-!
`getSharedBlks` and `setSharedBlks`: every partition of the flash is read and
rewritten through a heap copy of all the sectors it lies in. The copy is a
block of its own size followed by foreign heap bytes.
-/

namespace EchoLife.Flash

open Buffer Run

def readSectors (part : FlashPart) (mem : Nat → UInt8) :
    Nat → Nat → Nat → (Nat → UInt8) → Nat → UInt8
  | 0, _, _, pBuf => pBuf
  | n + 1, i, pos, pBuf =>
    let sectSize := part.sectorSize i
    readSectors part mem n (i + 1) (pos + sectSize)
      (blit pBuf pos sectSize (view mem (part.base i)))

section
variable (env : Env) (part : FlashPart) (startBlk endBlk : Nat)

/-- A cleared block for the sectors `startBlk..endBlk-1`, filled from the chip. `heap` is what
follows it in memory. -/
def getSharedBlks (heap : Nat → UInt8) (dev : Dev) : Option (Nat → UInt8) :=
  if env.kmallocOk then
    let usedBlkSize := part.sectorsTotal startBlk (endBlk - startBlk)
    some (readSectors part dev.mem (endBlk - startBlk) startBlk 0 (fill heap 0 usedBlkSize 0))
  else none

/-- `setSharedBlks` over `n` sectors from `i` on, with `pBuf` advanced to
`pos`. -/
def setSharedBlksLoop (env : Env) (part : FlashPart) (pBuf : Nat → UInt8) :
    Nat → Nat → Nat → Dev → Dev × Int
  | 0, _, _, dev => (dev, 0)
  | n + 1, i, pos, dev =>
    let sectSize := part.sectorSize i
    let dev := flashSectorEraseInt part i dev
    let (dev, written) := flashWriteBuf env part i 0 (view pBuf pos) sectSize dev
    if written ≠ sectSize then (dev, -1)
    else setSharedBlksLoop env part pBuf n (i + 1) (pos + sectSize) dev

def setSharedBlks (pTempBuf : Nat → UInt8) (dev : Dev) : Dev × Int :=
  setSharedBlksLoop env part pTempBuf (endBlk - startBlk) startBlk 0 dev

private theorem readSectors_eq (mem : Nat → UInt8) (n i pos : Nat) (pBuf : Nat → UInt8) :
    readSectors part mem n i pos pBuf =
      blit pBuf pos (part.base (i + n) - part.base i) (view mem (part.base i)) := by
  induction n generalizing i pos pBuf with
  | zero => simp [readSectors]
  | succ n ih =>
    have hsucc := part.base_succ i
    have hmono := part.base_mono (show i + 1 ≤ i + 1 + n by omega)
    simp only [readSectors]
    rw [ih, hsucc, ← view_view, blit_blit_append]
    congr 1
    rw [show i + (n + 1) = i + 1 + n by omega]
    omega

end

variable {env : Env} {startBlk endBlk : Nat}

theorem getSharedBlks_eq (part : FlashPart) (heap : Nat → UInt8) (dev : Dev)
    (halloc : env.kmallocOk = true) (hle : startBlk ≤ endBlk) :
    getSharedBlks env part startBlk endBlk heap dev =
      some (blit heap 0 (part.base endBlk - part.base startBlk)
        (view dev.mem (part.base startBlk))) := by
  simp only [getSharedBlks, halloc, if_true, readSectors_eq, part.sectorsTotal_eq]
  rw [Nat.add_sub_cancel' hle]
  simp only [fill, blit_blit_same]

theorem getSharedBlks_eq_none (halloc : env.kmallocOk = false)
    (part : FlashPart) (startBlk endBlk : Nat) (heap : Nat → UInt8) (dev : Dev) :
    getSharedBlks env part startBlk endBlk heap dev = none := by
  simp [getSharedBlks, halloc]

variable {part : FlashPart} {dev : Dev}

private theorem rewriteSector_verified {sector : Nat} {buffer : Nat → UInt8}
    (h : (flashWriteBuf env part sector 0 buffer (part.sectorSize sector)
      (flashSectorEraseInt part sector dev)).2 = part.sectorSize sector) :
    (flashWriteBuf env part sector 0 buffer (part.sectorSize sector)
      (flashSectorEraseInt part sector dev)).1.mem =
        blit dev.mem (part.base sector) (part.sectorSize sector) buffer := by
  have hsucc := part.base_succ sector
  have htouched := ((Dev.Footprint.refl part (· = sector) (fun _ => False) dev).emit
    (.erase sector) rfl (fun _ hlimit => hlimit.elim)).trans
      (flashWriteBuf_footprint env part sector 0 buffer (part.sectorSize sector) _ (by simp) _)
  funext j
  by_cases hin : part.base sector ≤ j ∧ j < part.base sector + part.sectorSize sector
  · obtain ⟨d, rfl⟩ := Nat.exists_eq_add_of_le hin.1
    rw [blit_at _ _ (by omega)]
    exact flashWriteBuf_verified le_rfl h (by omega)
  · rw [blit_outside _ _ (by omega)]
    apply htouched.frame
    rintro s rfl
    omega

private theorem setSharedBlksLoop_verified (env : Env) (part : FlashPart) (pBuf : Nat → UInt8)
    (n i pos : Nat) (dev : Dev) (h : (setSharedBlksLoop env part pBuf n i pos dev).2 = 0) :
    (setSharedBlksLoop env part pBuf n i pos dev).1.mem =
      blit dev.mem (part.base i) (part.base (i + n) - part.base i) (view pBuf pos) := by
  induction n generalizing i pos dev with
  | zero => simp [setSharedBlksLoop]
  | succ n ih =>
    have hsucc := part.base_succ i
    have hmono := part.base_mono (show i + 1 ≤ i + 1 + n by omega)
    simp only [setSharedBlksLoop] at h ⊢
    split at h
    · cases h
    rename_i hwritten
    rw [if_neg hwritten, ih _ _ _ h, rewriteSector_verified (not_not.mp hwritten),
      hsucc, ← view_view, blit_blit_append]
    congr 1
    rw [show i + (n + 1) = i + 1 + n by omega]
    omega

theorem setSharedBlks_verified (hle : startBlk ≤ endBlk) {pBuf : Nat → UInt8}
    (h : (setSharedBlks env part startBlk endBlk pBuf dev).2 = 0) :
    (setSharedBlks env part startBlk endBlk pBuf dev).1.mem =
      blit dev.mem (part.base startBlk) (part.base endBlk - part.base startBlk)
        pBuf := by
  have hloop := setSharedBlksLoop_verified env part pBuf (endBlk - startBlk) startBlk 0 dev h
  rw [Nat.add_sub_cancel' hle, view_zero] at hloop
  exact hloop

private theorem setSharedBlksLoop_working (chip : CfiPart) (pBuf : Nat → UInt8) (n i pos : Nat)
    (hcells : ∀ s, i ≤ s → s < i + n → env.cells s = none) (dev : Dev) :
    (setSharedBlksLoop env chip pBuf n i pos dev).2 = 0 := by
  induction n generalizing i pos dev with
  | zero => rfl
  | succ n ih =>
    have hwrite := flashWriteBuf_working chip
      (hcells i le_rfl (by omega)) (view pBuf pos) (chip.sectorSize_even i)
    simp only [setSharedBlksLoop, hwrite]
    rw [if_neg (by simp)]
    exact ih (i + 1) (pos + chip.sectorSize i) (fun s hlo hhi => hcells s (by omega) (by omega)) _

theorem setSharedBlks_working (chip : CfiPart)
    (hcells : ∀ s, startBlk ≤ s → s < endBlk → env.cells s = none)
    (hle : startBlk ≤ endBlk) (pBuf : Nat → UInt8) (dev : Dev) :
    (setSharedBlks env chip startBlk endBlk pBuf dev).2 = 0 ∧
    (setSharedBlks env chip startBlk endBlk pBuf dev).1.mem =
      blit dev.mem (chip.base startBlk) (chip.base endBlk - chip.base startBlk) pBuf := by
  have hstatus := setSharedBlksLoop_working chip pBuf (endBlk - startBlk) startBlk 0
    (fun s hlo hhi => hcells s hlo (by omega)) dev
  exact ⟨hstatus, setSharedBlks_verified hle hstatus⟩

theorem setSharedBlksLoop_footprint (env : Env) (part : FlashPart)
    (pBuf : Nat → UInt8) (limits : Nat → Prop) (n i pos : Nat) (dev : Dev) :
    Dev.Footprint part (fun s => i ≤ s ∧ s < i + n) limits dev
      (setSharedBlksLoop env part pBuf n i pos dev).1 := by
  induction n generalizing i pos dev with
  | zero => exact Dev.Footprint.refl _ _ _ dev
  | succ n ih =>
    have herased := (Dev.Footprint.refl part (· = i) limits dev).emit (.erase i) rfl
      (fun _ _ => trivial)
    have hwritten := herased.trans (flashWriteBuf_footprint env part i 0
      (view pBuf pos) (part.sectorSize i) _ (by simp) limits)
    have hfirst := hwritten.mono (q := fun s => i ≤ s ∧ s < i + (n + 1))
      (by rintro s rfl; exact ⟨le_rfl, by omega⟩) (fun _ hlimit => hlimit)
    simp only [setSharedBlksLoop]
    split
    · exact hfirst
    apply hfirst.trans
    apply (ih (i + 1) (pos + part.sectorSize i) _).mono
    · rintro s ⟨hlo, hhi⟩
      exact ⟨by omega, by omega⟩
    · intro limit hlimit
      exact hlimit

end EchoLife.Flash
