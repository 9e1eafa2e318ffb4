import EchoLife.Base.CString
import EchoLife.Flash.Layout
import EchoLife.Flash.SharedBlks

/-!
The scratch pad: named tokens packed one after the other behind a header, in the bytes of the SP
partition. `pBuf` is the pad inside the heap copy of its sectors; it ends where the copy ends, so
indices from the pad length on are foreign heap bytes. The overlapping `memcpy` that closes a gap
is a forward copy.
-/

namespace EchoLife.Flash

open Buffer CString Word

def magicNumber : List UInt8 :=
  [0x67, 0x4F, 0x47, 0x6F, 0x42, 0x44, 0x32, 0x30]

def magicNumLen : Nat := 8

def tokenNameLen : Nat := 16

def spVersion : Nat := 1

/-- `sizeof(SP_HEADER)` and `sizeof(SP_TOKEN)`. -/
def spHeaderSize : Nat := 32

def spTokenSize : Nat := 20

def spHead : Nat → UInt8 :=
  blit (blit (fun _ => 0) 0 magicNumLen (CString.buffer magicNumber))
    magicNumLen 4 (be32Bytes spVersion)

variable (padLen : Int) (pBuf : Nat → UInt8) (tokenId : List UInt8)

section
variable (tokBuf : Option (Nat → UInt8)) (bufLen : Int)

/-- The record that `kerSysScratchPadSet` forms: at most 15 characters of the name, and the
length. -/
def spToken : Nat → UInt8 :=
  blit (blit (fun _ => 0) 0 (tokenNameLen - 1) (CString.buffer tokenId))
    tokenNameLen 4 (be32Bytes (u32 bufLen))

/-- `pToken->tokenLen` of a record at `p`. -/
def tokenLenAt (p : Nat) : Int :=
  s32 (be32 pBuf (p + tokenNameLen))

/-- `(tokenLen + 0x03) & ~0x03`. -/
def skipLen (tokenLen : Int) : Nat :=
  (tokenLen + 3 - (tokenLen + 3) % 4).toNat

/-- `memcmp(pBuf, MAGIC_NUMBER, MAGIC_NUM_LEN) == 0`. -/
def hasMagic : Bool :=
  slice pBuf 0 magicNumLen == magicNumber

/-- The loop condition of the first walk of `kerSysScratchPadSet`. -/
def setGuard (usedLen : Nat) : Bool :=
  65 ≤ pBuf usedLen && pBuf usedLen ≤ 122 &&
    strlenLt (view pBuf usedLen) tokenNameLen &&
    0 < tokenLenAt pBuf usedLen && tokenLenAt pBuf usedLen < padLen &&
    usedLen < padLen

/-- The first walk of `kerSysScratchPadSet`. A round adds more than one byte, so `padLen` rounds
are enough. -/
def usedLenLoop (padLen : Int) (pBuf : Nat → UInt8) : Nat → Nat → Nat
  | 0, usedLen => usedLen
  | rounds + 1, usedLen =>
    if setGuard padLen pBuf usedLen then
      usedLenLoop padLen pBuf rounds (usedLen + (spTokenSize + skipLen (tokenLenAt pBuf usedLen)))
    else usedLen

def padUsedLen : Nat :=
  usedLenLoop padLen pBuf padLen.toNat spHeaderSize

/-- The search loop of `kerSysScratchPadSet`: where the token stands. -/
def findLoop (pBuf : Nat → UInt8) (tokenId : List UInt8) (usedLen : Nat) : Nat → Nat → Option Nat
  | 0, _ => none
  | rounds + 1, curLen =>
    if curLen < usedLen then
      if strncmpEq tokenNameLen (view pBuf curLen) (CString.buffer tokenId)
      then some curLen
      else findLoop pBuf tokenId usedLen rounds
        (curLen + (spTokenSize + skipLen (tokenLenAt pBuf curLen)))
    else none

def padFind : Option Nat :=
  findLoop pBuf tokenId (padUsedLen padLen pBuf) padLen.toNat spHeaderSize

/-- The `putAtEnd` part: the token goes to `usedLen`, the header is renewed. -/
def putAtEnd (usedLen : Nat) : Nat → UInt8 :=
  let pBuf := match tokBuf with
    | none => pBuf
    | some data =>
      blit (blit pBuf usedLen spTokenSize (spToken tokenId bufLen))
        (usedLen + spTokenSize) bufLen.toNat data
  blit pBuf 0 spHeaderSize spHead

def removeToken (usedLen curLen : Nat) : Nat → UInt8 :=
  let size := spTokenSize + skipLen (tokenLenAt pBuf curLen)
  let copyLen := usedLen - (curLen + size)
  fill (blit pBuf curLen copyLen (view pBuf (curLen + size))) (curLen + copyLen)
    (padLen.toNat - (curLen + copyLen)) 0

def initPad : Nat → UInt8 :=
  let pBuf := blit (blit pBuf 0 spHeaderSize spHead) spHeaderSize spTokenSize
    (spToken tokenId bufLen)
  match tokBuf with
  | none => pBuf
  | some data => blit pBuf (spHeaderSize + spTokenSize) bufLen.toNat data

/-- What `kerSysScratchPadSet` does to the pad, `none` when it overflows. -/
def updatePad : Option (Nat → UInt8) :=
  let usedLen := padUsedLen padLen pBuf
  if padLen < usedLen + bufLen + spTokenSize then none
  else
    match padFind padLen pBuf tokenId, tokBuf with
    | none, tokBuf => some (putAtEnd pBuf tokenId tokBuf bufLen usedLen)
    | some curLen, none =>
      let size := spTokenSize + skipLen (tokenLenAt pBuf curLen)
      some (putAtEnd (removeToken padLen pBuf usedLen curLen) tokenId none bufLen (usedLen - size))
    | some curLen, some data =>
      if tokenLenAt pBuf curLen = bufLen then
        some (blit pBuf (curLen + spTokenSize) bufLen.toNat data)
      else
        let size := spTokenSize + skipLen (tokenLenAt pBuf curLen)
        some (putAtEnd (removeToken padLen pBuf usedLen curLen) tokenId
          (some data) bufLen (usedLen - size))

end

/-- The loop of `kerSysScratchPadGet`, which counts the data only, not the token records. -/
def getLoop (padLen : Int) (pBuf : Nat → UInt8) (tokenId : List UInt8) :
    Nat → Nat → Nat → Option Nat
  | 0, _, _ => none
  | rounds + 1, usedLen, p =>
    if pBuf p ≠ 0 ∧ 0 < tokenLenAt pBuf p ∧ tokenLenAt pBuf p < padLen ∧ usedLen < padLen then
      if strncmpEq tokenNameLen (view pBuf p) (CString.buffer tokenId)
      then some p
      else getLoop padLen pBuf tokenId rounds
        (usedLen + skipLen (tokenLenAt pBuf p))
        (p + (spTokenSize + skipLen (tokenLenAt pBuf p)))
    else none

/-- Result and copied bytes of `kerSysScratchPadGet` on an initialised pad. -/
def readPad : Int × List UInt8 :=
  match getLoop padLen pBuf tokenId padLen.toNat spHeaderSize spHeaderSize with
  | none => (-1, [])
  | some p =>
    (tokenLenAt pBuf p, slice pBuf (p + spTokenSize) (tokenLenAt pBuf p).toNat)

def rejoin (pShareBuf : Nat → UInt8) (offset : Nat) (pBuf : Nat → UInt8) : Nat → UInt8 :=
  fun i => if i < offset then pShareBuf i else pBuf (i - offset)

variable (env : Env) (part : FlashPart) (info : FlashAddrInfo) (heap : Nat → UInt8)

def FlashAddrInfo.spStart : Nat :=
  info.flashScratchPad.startBlk.toNat

def FlashAddrInfo.spEnd : Nat :=
  (info.flashScratchPad.startBlk + info.flashScratchPad.numberBlk).toNat

def kerSysScratchPadClearAll (dev : Dev) : Dev × Int :=
  if info.flashScratchPad.length = 0 then (dev, -1)
  else
    match getSharedBlks env part info.spStart info.spEnd heap dev with
    | none => (dev, -1)
    | some pShareBuf =>
      let pBuf := view pShareBuf info.flashScratchPad.blkOffset
      let pBuf := fill pBuf 0 info.flashScratchPad.length.toNat 0
      setSharedBlks env part info.spStart info.spEnd
        (rejoin pShareBuf info.flashScratchPad.blkOffset pBuf) dev

/-- The unsigned comparison of `bufLen` with the room behind the header. -/
def exceedsPad (bufLen : Int) : Bool :=
  u32 (info.flashScratchPad.length - spHeaderSize - spTokenSize) ≤ u32 bufLen

/-- `kerSysScratchPadSet`. A null `tokBuf` deletes the token. -/
def kerSysScratchPadSet
    (tokenId : List UInt8) (tokBuf : Option (Nat → UInt8)) (bufLen : Int) (dev : Dev) : Dev × Int :=
  if info.flashScratchPad.length = 0 then (dev, -1)
  else if exceedsPad info bufLen then (dev, -1)
  else
    match getSharedBlks env part info.spStart info.spEnd heap dev with
    | none => (dev, -1)
    | some pShareBuf =>
      let pBuf := view pShareBuf info.flashScratchPad.blkOffset
      if hasMagic pBuf then
        match updatePad info.flashScratchPad.length pBuf tokenId tokBuf bufLen with
        | none => (dev, -1)
        | some pBuf =>
          setSharedBlks env part info.spStart info.spEnd
            (rejoin pShareBuf info.flashScratchPad.blkOffset pBuf) dev
      else
        let dev := (kerSysScratchPadClearAll env part info heap dev).1
        setSharedBlks env part info.spStart info.spEnd
          (rejoin pShareBuf info.flashScratchPad.blkOffset (initPad pBuf tokenId tokBuf bufLen)) dev

def kerSysScratchPadGet (tokenId : List UInt8) (bufLen : Int) (dev : Dev) :
    Dev × Int × List UInt8 :=
  if info.flashScratchPad.length = 0 then (dev, -1, [])
  else if exceedsPad info bufLen then (dev, -1, [])
  else
    match getSharedBlks env part info.spStart info.spEnd heap dev with
    | none => (dev, -1, [])
    | some pShareBuf =>
      let pBuf := view pShareBuf info.flashScratchPad.blkOffset
      if hasMagic pBuf then
        (dev, readPad info.flashScratchPad.length pBuf tokenId)
      else ((kerSysScratchPadClearAll env part info heap dev).1, -1, [])

def padOn (mem : Nat → UInt8) : Nat → UInt8 :=
  view mem (part.base info.spStart + info.flashScratchPad.blkOffset)

section Chip

variable {chip : CfiPart} {info : FlashAddrInfo} {b : Boundaries}
  (hstacked : Stacked chip info b)

include hstacked

theorem Stacked.spStart_eq : info.spStart = b.sp := by
  simp only [FlashAddrInfo.spStart, hstacked.sp.startBlk_eq, Int.toNat_natCast]

theorem Stacked.spEnd_eq : info.spEnd = b.va := by
  unfold FlashAddrInfo.spEnd
  rw [hstacked.sp.end_eq, Int.toNat_natCast]

theorem Stacked.sp_fills :
    chip.base b.sp + info.flashScratchPad.blkOffset + 8192 = chip.base b.va := by
  have hfills := hstacked.sp.fills
  rw [hstacked.sp_length] at hfills
  simp only [spMaxLen, oneK] at hfills
  omega

theorem view_sharedBlks (heap : Nat → UInt8) (mem : Nat → UInt8) :
    AgreeOn (view (blit heap 0 (chip.base b.va - chip.base b.sp)
        (view mem (chip.base b.sp))) info.flashScratchPad.blkOffset)
      (padOn chip info mem) 0 8192 := by
  intro i _ hi
  have hfills := hstacked.sp_fills
  simp only [padOn, hstacked.spStart_eq]
  unfold view
  rw [blit_inside _ _ (Nat.zero_le _) (by omega)]
  have hplace : chip.base b.sp + (info.flashScratchPad.blkOffset + i - 0) =
      chip.base b.sp + info.flashScratchPad.blkOffset + i := by omega
  rw [hplace]

end Chip

end EchoLife.Flash
