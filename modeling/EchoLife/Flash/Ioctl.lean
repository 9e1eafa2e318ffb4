import EchoLife.Base.Interleave
import EchoLife.Flash.Partitions
import EchoLife.Flash.ScratchPad

/-!
The flash requests of `board_ioctl` as they run side by side. Every access to a sector holds
`write_sem_lock`, so it is one step; before each a request may sleep, in `retriedKmalloc` or on
the semaphore, and another one runs. A `BOARD_IOCTL_FLASH_WRITE` first takes `s_iFlashWriteFlg`, a
`BOARD_IOCTL_FLASH_READ` does not. A process that makes several calls is several requests.
-/

namespace EchoLife.Flash

open Buffer Interleave Run

/-- One call of `flash_read_buf`, `flash_sector_erase_int` or `flash_write_buf`
on a whole sector. -/
inductive Access
  | read (sector : Nat)
  | erase (sector : Nat)
  | write (env : Env) (sector : Nat) (buffer : Nat → UInt8) (numbytes : Nat)

structure Answer where
  bytes : Nat → UInt8
  count : Int

namespace Access

def perform (part : FlashPart) : Access → Dev → Dev × Answer
  | read sector, dev =>
    (dev, ⟨view dev.mem (part.base sector), part.sectorSize sector⟩)
  | erase sector, dev => (flashSectorEraseInt part sector dev, ⟨fun _ => 0, 0⟩)
  | write env sector buffer numbytes, dev =>
    let (dev, written) := flashWriteBuf env part sector 0 buffer numbytes dev
    (dev, ⟨fun _ => 0, written⟩)

def Reads : Access → Nat → Prop
  | read sector, x => sector = x
  | erase _, _ => False
  | write _ _ _ _, _ => False

def Writes : Access → Nat → Prop
  | read _, _ => False
  | erase sector, x => sector = x
  | write _ sector _ _, x => sector = x

theorem perform_of_not_writes (part : FlashPart) (op : Access) (dev : Dev)
    (h : ∀ x, ¬op.Writes x) : (op.perform part dev).1 = dev := by
  cases op with
  | read sector => rfl
  | erase sector => exact absurd rfl (h sector)
  | write env sector buffer numbytes => exact absurd rfl (h sector)

end Access

/-- The accesses of a request; its answer is the status with the bytes that are
copied out. -/
abbrev FlashProg := Prog Access Answer (Int × List UInt8)

namespace Program

variable (env : Env) (part : FlashPart) (info : FlashAddrInfo)

def readSectors (next : (Nat → UInt8) → FlashProg) : Nat → Nat → Nat → (Nat → UInt8) → FlashProg
  | 0, _, _, pBuf => next pBuf
  | n + 1, i, pos, pBuf =>
    .access (.read i) fun ans =>
      readSectors next n (i + 1) (pos + part.sectorSize i)
        (blit pBuf pos (part.sectorSize i) ans.bytes)

/-- `getSharedBlks`, followed by `fail` without memory and by `next` else. -/
def getSharedBlks (startBlk endBlk : Nat) (heap : Nat → UInt8) (fail : FlashProg)
    (next : (Nat → UInt8) → FlashProg) : FlashProg :=
  if env.kmallocOk then
    readSectors part next (endBlk - startBlk) startBlk 0
      (fill heap 0 (part.sectorsTotal startBlk (endBlk - startBlk)) 0)
  else fail

/-- The loop of `setSharedBlks`, followed by `next` with its status. -/
def writeSectors (pBuf : Nat → UInt8) (next : Int → FlashProg) : Nat → Nat → Nat → FlashProg
  | 0, _, _ => next 0
  | n + 1, i, pos =>
    .access (.erase i) fun _ =>
      .access (.write env i (view pBuf pos) (part.sectorSize i)) fun ans =>
        if ans.count ≠ part.sectorSize i then next (-1)
        else writeSectors pBuf next n (i + 1) (pos + part.sectorSize i)

def setSharedBlks (startBlk endBlk : Nat) (pTempBuf : Nat → UInt8)
    (next : Int → FlashProg) : FlashProg :=
  writeSectors env part pTempBuf next (endBlk - startBlk) startBlk 0

variable (heap : Nat → UInt8) (tokenId : List UInt8)

/-- `kerSysScratchPadClearAll`, followed by `next` with its status. -/
def scratchPadClearAll (next : Int → FlashProg) : FlashProg :=
  if info.flashScratchPad.length = 0 then next (-1)
  else
    getSharedBlks env part info.spStart info.spEnd heap (next (-1)) fun pShareBuf =>
      let pBuf := view pShareBuf info.flashScratchPad.blkOffset
      let pBuf := fill pBuf 0 info.flashScratchPad.length.toNat 0
      setSharedBlks env part info.spStart info.spEnd
        (rejoin pShareBuf info.flashScratchPad.blkOffset pBuf) next

def scratchPadSet
    (tokBuf : Option (Nat → UInt8)) (bufLen : Int) : FlashProg :=
  if info.flashScratchPad.length = 0 then .done (-1, [])
  else if exceedsPad info bufLen then .done (-1, [])
  else
    getSharedBlks env part info.spStart info.spEnd heap (.done (-1, [])) fun pShareBuf =>
        let pBuf := view pShareBuf info.flashScratchPad.blkOffset
        let store (pBuf : Nat → UInt8) : FlashProg :=
          setSharedBlks env part info.spStart info.spEnd
            (rejoin pShareBuf info.flashScratchPad.blkOffset pBuf)
            fun sts => .done (sts, [])
        if hasMagic pBuf then
          match updatePad info.flashScratchPad.length pBuf tokenId tokBuf bufLen with
          | none => .done (-1, [])
          | some pBuf => store pBuf
        else
          scratchPadClearAll env part info heap fun _ =>
            store (initPad pBuf tokenId tokBuf bufLen)

def scratchPadGet (bufLen : Int) : FlashProg :=
  if info.flashScratchPad.length = 0 then .done (-1, [])
  else if exceedsPad info bufLen then .done (-1, [])
  else
    getSharedBlks env part info.spStart info.spEnd heap (.done (-1, [])) fun pShareBuf =>
        let pBuf := view pShareBuf info.flashScratchPad.blkOffset
        if hasMagic pBuf then
          .done (readPad info.flashScratchPad.length pBuf tokenId)
        else scratchPadClearAll env part info heap fun _ => .done (-1, [])

def partitionSet (maxLen : Int) (p : Partition) (heap : Int → UInt8)
    (string : Nat → UInt8) (strLen offset : Int) : FlashProg :=
  if strLen > maxLen then .done (-1, [])
  else
    getSharedBlks env part p.startBlk.toNat (p.startBlk + p.numberBlk).toNat
      (fun i => heap i) (.done (-1, [])) fun pBuf =>
        if strLen < 0 then .stop
        else
          let pBuf := poke (around heap pBuf) (p.blkOffset + offset) strLen.toNat string
          setSharedBlks env part p.startBlk.toNat (p.startBlk + p.numberBlk).toNat
            (fun i => pBuf i) fun sts => .done (if sts ≠ 0 then -1 else 0, [])

/-- The `Get` functions of the byte stores and of PSI and its backup. -/
def partitionGet (maxLen : Int) (p : Partition) (heap : Int → UInt8)
    (strLen offset : Int) : FlashProg :=
  if strLen > maxLen then .done (-1, [])
  else
    getSharedBlks env part p.startBlk.toNat (p.startBlk + p.numberBlk).toNat
      (fun i => heap i) (.done (-1, [])) fun pBuf =>
        if strLen < 0 then .stop
        else .done (0, peek (around heap pBuf) (p.blkOffset + offset) strLen.toNat)

end Program

section Alone

variable (env : Env) (part : FlashPart) (info : FlashAddrInfo)

private theorem exec_readSectors (next : (Nat → UInt8) → FlashProg) (n i pos : Nat)
    (pBuf : Nat → UInt8) (dev : Dev) :
    (Program.readSectors part next n i pos pBuf).exec (Access.perform part) dev =
      (next (readSectors part dev.mem n i pos pBuf)).exec (Access.perform part) dev := by
  induction n generalizing i pos pBuf with
  | zero => rfl
  | succ n ih =>
    exact ih _ _ _

/-- Run alone, the program for reading blocks is the function of the flash model. -/
theorem exec_getSharedBlks (startBlk endBlk : Nat) (heap : Nat → UInt8)
    (fail : FlashProg) (next : (Nat → UInt8) → FlashProg) (dev : Dev) :
    (Program.getSharedBlks env part startBlk endBlk heap fail next).exec (Access.perform part) dev =
      match getSharedBlks env part startBlk endBlk heap dev with
      | none => fail.exec (Access.perform part) dev
      | some pBuf => (next pBuf).exec (Access.perform part) dev := by
  simp only [Program.getSharedBlks, getSharedBlks]
  split
  · exact exec_readSectors part next _ _ _ _ dev
  · rfl

private theorem exec_writeSectors (pBuf : Nat → UInt8) (next : Int → FlashProg)
    (n i pos : Nat) (dev : Dev) :
    (Program.writeSectors env part pBuf next n i pos).exec (Access.perform part) dev =
      (next (setSharedBlksLoop env part pBuf n i pos dev).2).exec
        (Access.perform part) (setSharedBlksLoop env part pBuf n i pos dev).1 := by
  induction n generalizing i pos dev with
  | zero => rfl
  | succ n ih =>
    have hexec : (Program.writeSectors env part pBuf next (n + 1) i pos).exec
          (Access.perform part) dev =
        (if (flashWriteBuf env part i 0 (view pBuf pos) (part.sectorSize i)
            (flashSectorEraseInt part i dev)).2 ≠ part.sectorSize i then next (-1)
          else Program.writeSectors env part pBuf next n (i + 1)
            (pos + part.sectorSize i)).exec (Access.perform part)
          (flashWriteBuf env part i 0 (view pBuf pos) (part.sectorSize i)
            (flashSectorEraseInt part i dev)).1 := rfl
    rw [hexec]
    simp only [setSharedBlksLoop]
    split
    · rfl
    · exact ih _ _ _

/-- Run alone, the program for writing blocks is the function of the flash model. -/
theorem exec_setSharedBlks (startBlk endBlk : Nat) (pTempBuf : Nat → UInt8)
    (next : Int → FlashProg) (dev : Dev) :
    (Program.setSharedBlks env part startBlk endBlk pTempBuf next).exec (Access.perform part) dev =
      (next (setSharedBlks env part startBlk endBlk pTempBuf dev).2).exec
        (Access.perform part) (setSharedBlks env part startBlk endBlk pTempBuf dev).1 :=
  exec_writeSectors env part pTempBuf next _ _ _ dev

variable (heap : Nat → UInt8) (tokenId : List UInt8)

theorem exec_scratchPadClearAll (next : Int → FlashProg) (dev : Dev) :
    (Program.scratchPadClearAll env part info heap next).exec (Access.perform part) dev =
      (next (kerSysScratchPadClearAll env part info heap dev).2).exec
        (Access.perform part) (kerSysScratchPadClearAll env part info heap dev).1 := by
  simp only [Program.scratchPadClearAll, kerSysScratchPadClearAll]
  split
  · rfl
  rw [exec_getSharedBlks]
  cases getSharedBlks env part info.spStart info.spEnd heap dev with
  | none => rfl
  | some pShareBuf => exact exec_setSharedBlks env part _ _ _ next dev

/-- A call that sets a token, run alone. -/
theorem exec_scratchPadSet (tokBuf : Option (Nat → UInt8)) (bufLen : Int) (dev : Dev) :
    (Program.scratchPadSet env part info heap tokenId tokBuf bufLen).exec
        (Access.perform part) dev =
      ((kerSysScratchPadSet env part info heap tokenId tokBuf bufLen dev).1,
        some ((kerSysScratchPadSet env part info heap tokenId tokBuf bufLen dev).2, [])) := by
  simp only [Program.scratchPadSet, kerSysScratchPadSet]
  split
  · rfl
  split
  · rfl
  rw [exec_getSharedBlks]
  cases getSharedBlks env part info.spStart info.spEnd heap dev with
  | none => rfl
  | some pShareBuf =>
    simp only
    split
    · cases updatePad info.flashScratchPad.length
          (view pShareBuf info.flashScratchPad.blkOffset) tokenId tokBuf bufLen with
      | none => rfl
      | some pBuf =>
        rw [exec_setSharedBlks]
        rfl
    · rw [exec_scratchPadClearAll, exec_setSharedBlks]
      rfl

/-- A call that reads a token, run alone. -/
theorem exec_scratchPadGet (bufLen : Int) (dev : Dev) :
    (Program.scratchPadGet env part info heap tokenId bufLen).exec (Access.perform part) dev =
      ((kerSysScratchPadGet env part info heap tokenId bufLen dev).1,
        some (kerSysScratchPadGet env part info heap tokenId bufLen dev).2) := by
  simp only [Program.scratchPadGet, kerSysScratchPadGet]
  split
  · rfl
  split
  · rfl
  rw [exec_getSharedBlks]
  cases getSharedBlks env part info.spStart info.spEnd heap dev with
  | none => rfl
  | some pShareBuf =>
    simp only
    split
    · rfl
    · rw [exec_scratchPadClearAll]
      rfl

/-- A call that writes a partition, run alone; one that the driver does not survive has no
result. -/
theorem exec_partitionSet (maxLen : Int) (p : Partition) (heap : Int → UInt8)
    (string : Nat → UInt8) (strLen offset : Int) (dev : Dev) :
    (Program.partitionSet env part maxLen p heap string strLen offset).exec
        (Access.perform part) dev =
      match partitionSet maxLen p env part heap string strLen offset dev with
      | some (dev', sts) => (dev', some (sts, []))
      | none => (dev, none) := by
  simp only [Program.partitionSet, partitionSet]
  split
  · rfl
  rw [exec_getSharedBlks]
  cases getSharedBlks env part p.startBlk.toNat (p.startBlk + p.numberBlk).toNat
      (fun i => heap i) dev with
  | none => rfl
  | some pBuf =>
    simp only
    split
    · rfl
    · rw [exec_setSharedBlks]
      rfl

theorem exec_partitionGet (maxLen : Int) (p : Partition) (heap : Int → UInt8)
    (strLen offset : Int) (dev : Dev) :
    (Program.partitionGet env part maxLen p heap strLen offset).exec (Access.perform part) dev =
      (dev, partitionGet maxLen p env part heap strLen offset dev) := by
  simp only [Program.partitionGet, partitionGet]
  split
  · rfl
  rw [exec_getSharedBlks]
  cases getSharedBlks env part p.startBlk.toNat (p.startBlk + p.numberBlk).toNat
      (fun i => heap i) dev with
  | none => rfl
  | some pBuf =>
    simp only
    split <;> rfl

end Alone

end EchoLife.Flash
