import EchoLife.Firmware.SequenceNumbers

/-!
`kerSysGetBootFs`, which is to boot from the other partition when the root file system
of the chosen image is damaged. The number of that partition is passed by its address,
so that no tag is found.
-/

namespace EchoLife.Firmware

open Buffer Decimal Flash Option Word

/-- What the function meets: which sizes can be allocated, and where its local variable
`seq` is. -/
structure BootEnv where
  kmallocOk : Nat → Bool
  seqAddress : Nat
  seqAddress_gt : 2 < seqAddress

/-- The character behind the first `p=` of the boot line. -/
def bootPartition (nvramData : Nat → UInt8) : Nat → Nat → UInt8
  | 0, _ => bootLatestImage
  | fuel + 1, p =>
    if nvramData (p + 2) = 0 then bootLatestImage
    else if nvramData p = 112 ∧ nvramData (p + 1) = 61 then nvramData (p + 2)
    else bootPartition nvramData fuel (p + 1)

def selectedPartition (nvramData pTag1 pTag2 : Nat → UInt8) : Nat :=
  if bootPartition nvramData nvramDataSize nvramBootlineOffset = bootLatestImage then
    if sequenceOf pTag2 > sequenceOf pTag1 then 2 else 1
  else if sequenceOf pTag2 < sequenceOf pTag1 then 2
  else 1

section
variable (part : FlashPart) (info : FlashAddrInfo) (mem : Nat → UInt8)

def getBootImageTagAndSeq : Option (Nat × (Nat → UInt8)) :=
  match getTagFromPartition part mem 1, getTagFromPartition part mem 2 with
  | some pTag1, some pTag2 =>
    if selectedPartition (readNvram part info mem) pTag1 pTag2 = 2 then some (2, pTag2)
    else some (1, pTag1)
  | none, some pTag2 => some (2, pTag2)
  | some pTag1, none => some (1, pTag1)
  | none, none => none

def rootLen (pTag : Nat → UInt8) : Nat :=
  boardAtoi pTag FileTag.rootfsLen

/-- The checksum of the root file system is that of the bytes the tag points at. -/
def FsIntact (pTag : Nat → UInt8) : Prop :=
  getCrc32 (atAddress part mem) (flashAddress part pTag FileTag.rootfsAddress)
    (rootLen pTag) crc32InitValue = rootfsCrc pTag

instance (pTag : Nat → UInt8) : Decidable (FsIntact part mem pTag) :=
  inferInstanceAs (Decidable (_ = _))

def kerSysGetBootFs (env : BootEnv) : Option Nat :=
  match getBootImageTagAndSeq part info mem with
  | some (seq, pTag) =>
    if 0 < rootLen pTag then
      if env.kmallocOk (rootLen pTag) then
        if FsIntact part mem pTag then some seq
        -- `getTagFromPartition(&seq)`
        else (getTagFromPartition part mem env.seqAddress).map (fun _ => env.seqAddress)
      else none
    else some seq
  | none => (getTagFromPartition part mem 2).map (fun _ => 2)

end

def otherPartition (seq : Nat) : Nat :=
  if seq = 1 then 2 else 1

/-- What a caller may expect of the tag returned: with two valid tags it is that of the chosen
partition, or of the other one if the file system of the chosen one is damaged; and there is no tag
only if neither partition has a valid one. -/
structure BootFsRight (env : BootEnv) (part : FlashPart) (info : FlashAddrInfo)
    (mem : Nat → UInt8) : Prop where
  chosen : (getTagFromPartition part mem 1).isSome → (getTagFromPartition part mem 2).isSome →
    ∃ seq pTag, getBootImageTagAndSeq part info mem = some (seq, pTag) ∧
      kerSysGetBootFs part info mem env =
        some (if FsIntact part mem pTag then seq else otherPartition seq)
  null : kerSysGetBootFs part info mem env = none →
    getTagFromPartition part mem 1 = none ∧ getTagFromPartition part mem 2 = none

theorem getTagFromPartition_address (part : FlashPart) (mem : Nat → UInt8) {address : Nat}
    (h : 2 < address) : getTagFromPartition part mem address = none := by
  simp only [getTagFromPartition, if_neg (by omega : ¬address = 1),
    if_neg (by omega : ¬address = 2), le_refl, if_true]

section
variable (env : BootEnv) (part : FlashPart) (info : FlashAddrInfo) (mem : Nat → UInt8)

/-- A tag is chosen exactly if one of the partitions has a valid one. -/
theorem getBootImageTagAndSeq_eq_none_iff : getBootImageTagAndSeq part info mem = none ↔
    getTagFromPartition part mem 1 = none ∧ getTagFromPartition part mem 2 = none := by
  unfold getBootImageTagAndSeq
  cases getTagFromPartition part mem 1 <;> cases getTagFromPartition part mem 2 <;>
    grind

/-- Null is returned exactly if no tag is chosen, or the file system of the chosen one is not empty
and either cannot be copied or is damaged. -/
theorem kerSysGetBootFs_eq_none_iff : kerSysGetBootFs part info mem env = none ↔
    ∀ chosen ∈ getBootImageTagAndSeq part info mem, 0 < rootLen chosen.2 ∧
      (env.kmallocOk (rootLen chosen.2) = false ∨ ¬FsIntact part mem chosen.2) := by
  have haddress := getTagFromPartition_address part mem env.seqAddress_gt
  cases hchosen : getBootImageTagAndSeq part info mem with
  | none =>
    have hnone := ((getBootImageTagAndSeq_eq_none_iff part info mem).mp hchosen).2
    simp [kerSysGetBootFs, hchosen, hnone]
  | some chosen =>
    simp only [kerSysGetBootFs, hchosen, haddress, map_none, mem_some_iff, forall_eq']
    cases env.kmallocOk (rootLen chosen.2) <;> split <;> simp_all

/-- A tag that is returned is the chosen one. -/
theorem kerSysGetBootFs_chosen {chosen : Nat × (Nat → UInt8)} {seq : Nat}
    (hchosen : getBootImageTagAndSeq part info mem = some chosen)
    (h : kerSysGetBootFs part info mem env = some seq) : seq = chosen.1 := by
  have haddress := getTagFromPartition_address part mem env.seqAddress_gt
  simp only [kerSysGetBootFs, hchosen, haddress, map_none] at h
  grind

end

/-- The choice is one of the two partitions. -/
theorem getBootImageTagAndSeq_seq {part : FlashPart} {info : FlashAddrInfo} {mem : Nat → UInt8}
    {chosen : Nat × (Nat → UInt8)} (h : getBootImageTagAndSeq part info mem = some chosen) :
    chosen.1 ≠ otherPartition chosen.1 := by
  have hseq : chosen.1 = 1 ∨ chosen.1 = 2 := by
    unfold getBootImageTagAndSeq at h
    grind
  rcases hseq with hseq | hseq <;> simp [hseq, otherPartition]

/-- For every flash content the tag returned is the right one exactly if the file system of the
chosen tag is intact and there is memory to check it, or is empty and the other partition has no
valid tag. Null is returned if the chosen file system is not empty and fails the check. -/
theorem boot_fs_fallback_iff (env : BootEnv) (part : FlashPart) (info : FlashAddrInfo)
    (mem : Nat → UInt8) :
    (BootFsRight env part info mem ↔
      ∀ chosen ∈ getBootImageTagAndSeq part info mem,
        (FsIntact part mem chosen.2 ∧
          (rootLen chosen.2 = 0 ∨ env.kmallocOk (rootLen chosen.2) = true)) ∨
        (rootLen chosen.2 = 0 ∧
          (getTagFromPartition part mem 1 = none ∨ getTagFromPartition part mem 2 = none))) ∧
    (kerSysGetBootFs part info mem env = none ↔
      ∀ chosen ∈ getBootImageTagAndSeq part info mem, 0 < rootLen chosen.2 ∧
        (env.kmallocOk (rootLen chosen.2) = false ∨ ¬FsIntact part mem chosen.2)) := by
  refine ⟨?_, kerSysGetBootFs_eq_none_iff env part info mem⟩
  have hnull := kerSysGetBootFs_eq_none_iff env part info mem
  have hvalid := getBootImageTagAndSeq_eq_none_iff part info mem
  cases hchosen : getBootImageTagAndSeq part info mem with
  | none =>
    have hnone := hvalid.mp hchosen
    exact ⟨fun _ _ h => (by cases h), fun _ =>
      ⟨fun h1 => by simp [hnone.1] at h1, fun _ => hnone⟩⟩
  | some chosen =>
    rw [hchosen] at hnull
    simp only [mem_some_iff, forall_eq'] at hnull ⊢
    have hsome : ¬(getTagFromPartition part mem 1 = none ∧ getTagFromPartition part mem 2 = none) :=
      fun h => by simp [hvalid.mpr h] at hchosen
    constructor
    · intro hright
      have hne : kerSysGetBootFs part info mem env ≠ none := fun h => hsome (hright.null h)
      by_cases hboth : getTagFromPartition part mem 1 = none ∨ getTagFromPartition part mem 2 = none
      · grind
      · have hbothSome : (getTagFromPartition part mem 1).isSome ∧
            (getTagFromPartition part mem 2).isSome := by
          simpa [not_or, isSome_iff_ne_none] using hboth
        obtain ⟨seq, pTag, heq, hboots⟩ := hright.chosen hbothSome.1 hbothSome.2
        obtain rfl : chosen = (seq, pTag) := by simpa [hchosen] using heq
        have hseq := kerSysGetBootFs_chosen env part info mem hchosen hboots
        have hother := getBootImageTagAndSeq_seq hchosen
        grind
    · intro hok
      have hne : kerSysGetBootFs part info mem env ≠ none := by grind
      obtain ⟨seq, hboots⟩ := ne_none_iff_exists'.mp hne
      have hseq := kerSysGetBootFs_chosen env part info mem hchosen hboots
      refine ⟨fun h1 h2 => ⟨chosen.1, chosen.2, hchosen, ?_⟩, fun h => absurd h hne⟩
      have hintact : FsIntact part mem chosen.2 := by
        rcases hok with hok | ⟨-, hok | hok⟩
        · exact hok.1
        · simp [hok] at h1
        · simp [hok] at h2
      rw [hboots, hseq, if_pos hintact]

def oneByteTag (crc : Nat) : Nat → UInt8 :=
  let tag := blit (sprintf (sprintf (fun _ => 0) FileTag.rootfsAddress (decimal 0xBFC20100))
    FileTag.rootfsLen (decimal 1)) (FileTag.imageValidationToken + crcLen) crcLen
    (be32Bytes crc)
  blit tag FileTag.tagValidationToken crcLen (be32Bytes (tagCrc tag))

def twoTags (crc : Nat) : Nat → UInt8 :=
  blit (blit (fun _ => 0) flashLengthBootRom tagLen (oneByteTag crc))
    (flashLengthBootRom + flashLengthNormalSystem) tagLen (oneByteTag crc)

def ampleEnv : BootEnv := ⟨fun _ => true, 0x80001000, by decide⟩

def intactTags : Nat → UInt8 :=
  twoTags (getCrc32 (fun _ => 0) 0 1 crc32InitValue)

/-- Two intact file systems: a tag is returned, and it is the right one. -/
theorem intact_fs_boots :
    BootFsRight ampleEnv topBoard.chip topBoard.info intactTags ∧
    kerSysGetBootFs topBoard.chip topBoard.info intactTags ampleEnv ≠ none := by
  have h := boot_fs_fallback_iff ampleEnv topBoard.chip topBoard.info intactTags
  exact ⟨h.1.mpr (by decide +kernel), by rw [ne_eq, h.2]; decide +kernel⟩

/-- A wrong checksum in the first partition: the second one is not tried. -/
theorem damaged_fs_boots_nothing :
    ¬BootFsRight ampleEnv topBoard.chip topBoard.info (twoTags 0) ∧
    (getTagFromPartition topBoard.chip (twoTags 0) 1).isSome ∧
    (getTagFromPartition topBoard.chip (twoTags 0) 2).isSome ∧
    kerSysGetBootFs topBoard.chip topBoard.info (twoTags 0) ampleEnv = none := by
  have hvalid : (getTagFromPartition topBoard.chip (twoTags 0) 1).isSome := by decide +kernel
  have hnull : kerSysGetBootFs topBoard.chip topBoard.info (twoTags 0) ampleEnv = none := by
    decide +kernel
  refine ⟨fun h => ?_, hvalid, by decide +kernel, hnull⟩
  rw [(h.null hnull).1] at hvalid
  cases hvalid

end EchoLife.Firmware
