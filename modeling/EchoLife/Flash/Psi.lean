import EchoLife.Flash.Layout
import EchoLife.Flash.SharedBlks

/-!
Writing the persistent storage partition. On chips that end in eight 8K sectors
`kerSysPersistentSet` takes a shorter path that is meant to rewrite only the sectors the string
lies in; on all others it rewrites the partition. The two paths are compared on the same chip.
-/

namespace EchoLife.Flash

open Buffer

variable (env : Env) (part : FlashPart) (info : FlashAddrInfo) (heap string : Nat → UInt8)
  (strLen : Nat)

/-- `cfi_flash_init` clears the flag if one of the last eight sectors is not 8K. -/
def judgeFlashIsTopDevice8K : Bool :=
  8 ≤ part.numSectors && (List.range 8).all (fun i =>
      part.sectorSize (part.numSectors - 8 + i) == 8 * oneK)

/-- The path of `kerSysPersistentSet` that rewrites all PSI sectors. -/
def kerSysPersistentSetAll (offset : Nat) (dev : Dev) : Dev × Int :=
  let startBlk := info.flashPersistent.startBlk.toNat
  let endBlk := (info.flashPersistent.startBlk + info.flashPersistent.numberBlk).toNat
  match getSharedBlks env part startBlk endBlk heap dev with
  | none => (dev, -1)
  | some pBuf =>
    let pBuf := blit pBuf (info.flashPersistent.blkOffset + offset) strLen string
    let (dev, written) := setSharedBlks env part startBlk endBlk pBuf dev
    if written ≠ 0 then (dev, -1) else (dev, 0)

/-- The 8K path. The first sector is advanced by the remainder of the byte offset, and the result
of `setSharedBlks` is compared with `NULL`. `none` when it runs past the sector table. -/
def kerSysPersistentSet8K (offset : Nat) (dev : Dev) : Option (Dev × Int) :=
  let iStartBlock := info.flashPersistent.startBlk.toNat +
    (offset + info.flashPersistent.blkOffset) % (8 * oneK)
  let iEndBlock := iStartBlock + (strLen + 8 * oneK - 1) / (8 * oneK)
  if iStartBlock < iEndBlock ∧ part.numSectors < iEndBlock then none
  else
    match getSharedBlks env part iStartBlock iEndBlock heap dev with
    | none => some (dev, -1)
    | some pBuf =>
      let pBuf := blit pBuf (info.flashPersistent.blkOffset + offset) strLen string
      let (dev, written) := setSharedBlks env part iStartBlock iEndBlock pBuf dev
      if written = 0 then some (dev, -1) else some (dev, 0)

def kerSysPersistentSet (offset : Nat) (dev : Dev) : Option (Dev × Int) :=
  if info.flashPersistent.length < strLen then some (dev, -1)
  else if judgeFlashIsTopDevice8K part then
    kerSysPersistentSet8K env part info heap string strLen offset dev
  else some (kerSysPersistentSetAll env part info heap string strLen offset dev)

theorem kerSysPersistentSetAll_status (chip : CfiPart) {info : FlashAddrInfo} {b : Boundaries}
    (hstacked : Stacked chip info b) (heap string : Nat → UInt8) (strLen offset : Nat) (dev : Dev) :
    (kerSysPersistentSetAll Env.working chip info heap string strLen offset dev).2 = 0 := by
  have hstart : info.flashPersistent.startBlk.toNat = b.psi := by
    rw [hstacked.psi.startBlk_eq]
    rfl
  have hend : (info.flashPersistent.startBlk +
      info.flashPersistent.numberBlk).toNat = chip.numSectors := by
    rw [hstacked.psi.end_eq]
    rfl
  have hle : b.psi ≤ chip.numSectors := hstacked.psi.start_lt.le
  simp only [kerSysPersistentSetAll, hstart, hend]
  rw [getSharedBlks_eq chip heap dev rfl hle]
  simp only
  rw [if_neg]
  intro hfail
  exact hfail (setSharedBlks_working chip (fun _ _ _ => rfl) hle _ dev).1

section

variable (chip : CfiPart) (info : FlashAddrInfo) (heap string : Nat → UInt8) (strLen offset : Nat)
  (dev : Dev)

theorem kerSysPersistentSet8K_status {result : Dev × Int}
    (h : kerSysPersistentSet8K Env.working chip info heap string strLen offset dev = some result) :
    result.2 = -1 := by
  simp only [kerSysPersistentSet8K] at h
  split at h
  · cases h
  rw [getSharedBlks_eq chip heap dev rfl (Nat.le_add_right _ _)] at h
  simp only at h
  rw [if_pos (setSharedBlks_working chip (fun _ _ _ => rfl) (Nat.le_add_right _ _) _ dev).1] at h
  cases h
  rfl

private theorem kerSysPersistentSet8K_answers (hinside : info.flashPersistent.startBlk.toNat +
      (offset + info.flashPersistent.blkOffset) % (8 * oneK) +
        (strLen + 8 * oneK - 1) / (8 * oneK) ≤ chip.numSectors) :
    ∃ result, kerSysPersistentSet8K Env.working chip info heap string
      strLen offset dev = some result := by
  simp only [kerSysPersistentSet8K]
  rw [if_neg (by omega), getSharedBlks_eq chip heap dev rfl (Nat.le_add_right _ _)]
  simp only
  rw [if_pos (setSharedBlks_working chip (fun _ _ _ => rfl) (Nat.le_add_right _ _) _ dev).1]
  exact ⟨_, rfl⟩

end

/-- The 8K path answers, with the status and the bytes on the chip of rewriting the whole
partition. -/
def FastWriteMatches (offset : Nat) (dev : Dev) : Prop :=
  ∃ fast, kerSysPersistentSet Env.working part info heap string strLen offset dev = some fast ∧
    fast.2 = (kerSysPersistentSetAll Env.working part info heap string strLen offset dev).2 ∧
    fast.1.mem = (kerSysPersistentSetAll Env.working part info heap string strLen offset dev).1.mem

/-- On a chip that ends in eight 8K sectors no write that fits matches the plain path: its status
is inverted. -/
theorem fast_psi_write_never_matches (chip : CfiPart) (prior : Nat → UInt8)
    (bpGetPsiSize : Option Nat) (info : FlashAddrInfo)
    (hinit : kerSysFlashInit chip prior bpGetPsiSize = some info)
    (htop : judgeFlashIsTopDevice8K chip = true) (heap string : Nat → UInt8) (strLen offset : Nat)
    (hfit : (offset + strLen : Int) ≤ info.flashPersistent.length) (dev : Dev) :
    ¬FastWriteMatches chip info heap string strLen offset dev := by
  rintro ⟨fast, hfast, hstatus, _⟩
  obtain ⟨b, hstacked⟩ :=
    kerSysFlashInit_stacked chip prior bpGetPsiSize info hinit
  simp only [kerSysPersistentSet] at hfast
  rw [if_neg (by omega), if_pos htop] at hfast
  have hminus := kerSysPersistentSet8K_status chip info heap string strLen offset dev hfast
  rw [hminus, kerSysPersistentSetAll_status chip hstacked] at hstatus
  omega

theorem topBoot_never_matches :
    kerSysFlashInit topBootPart (fun _ => 0xFF) none = some topBootInfo ∧
    judgeFlashIsTopDevice8K topBootPart = true ∧
    ¬FastWriteMatches topBootPart topBootInfo (fun _ => 0) (fun _ => 65) 1 0 ⟨fun _ => 0xFF, []⟩ :=
  ⟨kerSysFlashInit_topBoot (fun _ => 0xFF), by decide +kernel,
    fast_psi_write_never_matches topBootChip (fun _ => 0xFF) none topBootInfo
      (kerSysFlashInit_topBoot (fun _ => 0xFF)) (by decide +kernel) (fun _ => 0)
      (fun _ => 65) 1 0 (by decide) ⟨fun _ => 0xFF, []⟩⟩

/-- One byte at offset 0 of an erased chip: the 8K path reports `-1`, the plain path 0. -/
theorem one_byte_psi_write_status_differs :
    kerSysFlashInit topBootPart (fun _ => 0xFF) none = some topBootInfo ∧
    judgeFlashIsTopDevice8K topBootPart = true ∧
    (∃ fast, kerSysPersistentSet Env.working topBootPart topBootInfo (fun _ => 0)
      (fun _ => 65) 1 0 ⟨fun _ => 0xFF, []⟩ = some fast ∧ fast.2 = -1) ∧
    (kerSysPersistentSetAll Env.working topBootPart topBootInfo (fun _ => 0)
      (fun _ => 65) 1 0 ⟨fun _ => 0xFF, []⟩).2 = 0 := by
  have hinit := kerSysFlashInit_topBoot (fun _ => 0xFF)
  have htop : judgeFlashIsTopDevice8K topBootPart = true := by
    decide +kernel
  obtain ⟨b, hstacked⟩ := kerSysFlashInit_stacked topBootPart _ none topBootInfo hinit
  obtain ⟨fast, hfast⟩ := kerSysPersistentSet8K_answers topBootChip topBootInfo
    (fun _ => 0) (fun _ => 65) 1 0 ⟨fun _ => 0xFF, []⟩ (by decide +kernel)
  refine ⟨hinit, htop, ⟨fast, ?_, ?_⟩, ?_⟩
  · simp only [kerSysPersistentSet]
    rw [if_neg (by decide), if_pos htop]
    exact hfast
  · exact kerSysPersistentSet8K_status topBootChip topBootInfo _ _ 1 0 _ hfast
  · exact kerSysPersistentSetAll_status topBootChip hstacked _ _ 1 0 _

end EchoLife.Flash
