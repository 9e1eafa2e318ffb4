import EchoLife.Flash.ImageSet

/-!
Which part of the chip `kerSysBcmImageSet` can change. The parameter area, the bytes of the six
partitions, is kept exactly when the run ends below the first of them, the scratch pad, or stops
at the first sector of the VA partition, which the loop compares with.
-/

namespace EchoLife.Flash

open Buffer Word

section
variable (part : FlashPart) (info : FlashAddrInfo) (flashStartAddr : Int)

def Partition.Holds (p : Partition) (i : Nat) : Prop :=
  part.base p.startBlk.toNat + p.blkOffset ≤ i ∧ i < part.base (p.startBlk + p.numberBlk).toNat

/-- No call with these arguments changes a parameter byte, whatever the image, the failures and
the prior content. -/
def ParameterAreaKept (size : Int) : Prop :=
  ∀ (env : Env) (image : Nat → UInt8) (dev : Dev), ∀ p ∈ info.partitions, ∀ i,
    p.Holds part i →
      (kerSysBcmImageSet env part info flashStartAddr image 0 size dev).1.mem i = dev.mem i

/-- The run starts off the chip, ends below the scratch pad, or starts in the first VA sector with
a refused size. -/
def SafeTarget (size : Int) : Prop :=
  let blk := cfiFlashGetBlk part flashStartAddr
  blk < 0 ∨
  (blk < info.flashScratchPad.startBlk ∧ (part.base blk.toNat : Int) + size ≤
    part.base info.flashScratchPad.startBlk.toNat) ∨
  (blk = info.flashVariable.startBlk ∧
    (size > part.sectorSize blk.toNat - info.flashVariable.length ∨ size < 0))

theorem kerSysBcmImageSet_loop (env : Env) (part : FlashPart) (info : FlashAddrInfo) {addr : Int}
    (image : Nat → UInt8) (pos : Nat) {size : Int} (dev : Dev) {k : Nat}
    (hblk : cfiFlashGetBlk part addr = k) (hwhole : wholeImage part addr size = false) :
    (kerSysBcmImageSet env part info addr image pos size dev).1 =
      (imageLoop env part info false image (part.numSectors - k) k pos size dev).1 := by
  simp only [kerSysBcmImageSet, hblk, hwhole, Int.toNat_natCast]
  rw [if_neg (by omega)]
  generalize imageLoop env part info false image (part.numSectors - k) k pos size dev = result
  rcases result with ⟨dev', _ | ⟨blk, rest⟩⟩ <;> rfl

theorem cfiFlashGetBlk_off_or_sector (addr : Int) :
    cfiFlashGetBlk part addr = -1 ∨
      ∃ k, k < part.numSectors ∧ cfiFlashGetBlk part addr = (k : Nat) := by
  by_cases h : cfiFlashGetBlk part addr = -1
  · exact .inl h
  · obtain ⟨a, k, _, hwithin, hblk⟩ := cfiFlashGetBlk_ne_neg_one part h
    exact .inr ⟨k, hwithin.lt_length, hblk⟩

end

variable {part : FlashPart} {info : FlashAddrInfo} {p : Partition}

theorem Occupies.holds_iff {k e : Nat} (h : Occupies part p k e) (i : Nat) :
    p.Holds part i ↔ part.base k + p.blkOffset ≤ i ∧ i < part.base e := by
  unfold Partition.Holds
  rw [h.end_eq, h.startBlk_eq]
  rfl

variable {b : Boundaries}

theorem Stacked.sp_lt_numSectors (h : Stacked part info b) : b.sp < part.numSectors :=
  calc
    b.sp < b.va := h.sp.start_lt
    _ < b.avail := h.va.start_lt
    _ < b.fix := h.avail.start_lt
    _ < b.psiBackup := h.fix.start_lt
    _ < b.psi := h.psiBackup.start_lt
    _ < part.numSectors := h.psi.start_lt

theorem Stacked.holds_above (h : Stacked part info b) (hp : p ∈ info.partitions) {i : Nat}
    (hi : p.Holds part i) : part.base b.sp ≤ i := by
  have hordered := h.ordered
  have habove {q : Partition} {k e : Nat} (hq : Occupies part q k e)
      (hk : b.sp ≤ k) (hqi : q.Holds part i) : part.base b.sp ≤ i := by
    have hbase := part.base_mono hk
    have hlow := ((hq.holds_iff i).mp hqi).1
    omega
  simp only [FlashAddrInfo.partitions, List.mem_cons, List.not_mem_nil, or_false] at hp
  rcases hp with rfl | rfl | rfl | rfl | rfl | rfl
  · exact habove h.psi (by omega) hi
  · exact habove h.psiBackup (by omega) hi
  · exact habove h.fix (by omega) hi
  · exact habove h.avail (by omega) hi
  · exact habove h.va (by omega) hi
  · exact habove h.sp le_rfl hi

theorem Occupies.holds_last {k e s : Nat} (h : Occupies part p k e) (hend : e ≤ part.numSectors)
    (hlo : k ≤ s) (hhi : s < e) : p.Holds part (part.base (s + 1) - 1) := by
  have hsize := part.sectorSize_pos (show s < part.numSectors by omega)
  have hsucc := part.base_succ s
  have hupper := part.base_mono (show s + 1 ≤ e from hhi)
  have hlower := part.base_mono (show k + 1 ≤ s + 1 by omega)
  have hfirst := part.base_succ k
  have hoffset := h.offset_lt
  exact (h.holds_iff _).mpr ⟨by omega, by omega⟩

theorem Stacked.covers (h : Stacked part info b) {s : Nat} (hlo : b.sp ≤ s)
    (hhi : s < part.numSectors) : ∃ p ∈ info.partitions, p.Holds part (part.base (s + 1) - 1) := by
  have hordered := h.ordered
  have hcases : b.psi ≤ s ∨ (b.psiBackup ≤ s ∧ s < b.psi) ∨
      (b.fix ≤ s ∧ s < b.psiBackup) ∨ (b.avail ≤ s ∧ s < b.fix) ∨
      (b.va ≤ s ∧ s < b.avail) ∨ s < b.va := by omega
  rcases hcases with hs | hs | hs | hs | hs | hs
  · exact ⟨_, by simp [FlashAddrInfo.partitions], h.psi.holds_last le_rfl hs hhi⟩
  · exact ⟨info.flashPsiBackup, by simp [FlashAddrInfo.partitions],
      h.psiBackup.holds_last (by omega) hs.1 hs.2⟩
  · exact ⟨info.flashFix, by simp [FlashAddrInfo.partitions], h.fix.holds_last (by omega) hs.1 hs.2⟩
  · exact ⟨info.flashAvail, by simp [FlashAddrInfo.partitions],
      h.avail.holds_last (by omega) hs.1 hs.2⟩
  · exact ⟨info.flashVariable, by simp [FlashAddrInfo.partitions],
      h.va.holds_last (by omega) hs.1 hs.2⟩
  · exact ⟨info.flashScratchPad, by simp [FlashAddrInfo.partitions],
      h.sp.holds_last (by omega) hlo hs⟩

/-- With a chip of zeros and an image of ones, no reached sector up to VA keeps a byte. -/
theorem imageLoop_damages (chip : CfiPart) (info : FlashAddrInfo) {t i : Nat}
    (htable : t < chip.numSectors) (hlo : chip.base t ≤ i) (hhi : i < chip.base (t + 1))
    (n blk pos : Nat) (size : Int) (dev : Dev) (hn : blk + n = chip.numSectors) (hblk : blk ≤ t)
    (hreach : t = blk ∨ (chip.base t : Int) < chip.base blk + size)
    (hva : ∀ s, blk ≤ s → s ≤ t → (s : Int) ≠ info.flashVariable.startBlk) :
    (imageLoop Env.working chip info false (fun _ => 1) n blk pos size dev).1.mem i ≠ 0 := by
  have hcells (s : Nat) : Env.working.cells s = none := rfl
  induction n generalizing blk pos size dev with
  | zero => omega
  | succ n ih =>
    have hnotva := hva blk le_rfl hblk
    simp only [imageLoop]
    rw [if_neg (by simp [hnotva])]
    rcases lt_or_ge blk t with hlt | hge
    · -- the image fills this sector and the run goes on to the next
      have hsucc := chip.base_succ blk
      have hmono := chip.base_mono (show blk + 1 ≤ t from hlt)
      have hless : (chip.sectorSize blk : Int) < size := by omega
      have hcases := chunkSize_cases (chip.sectorSize blk) size
      have hwritten := writeSector_working chip (hcells blk) (fun _ => 1) pos size dev (by omega)
      rw [if_neg (by simp [hwritten]), if_pos (by omega)]
      apply ih (blk + 1) _ _ _ (by omega) hlt
      · omega
      · intro s hs hst
        exact hva s (by omega) hst
    · have hsame : t = blk := by omega
      subst hsame
      have hchanged := writeSector_mem chip (hcells t) (fun _ => 1) pos size dev hlo hhi
      have hne : (writeSector Env.working chip (fun _ => 1) t pos
          (chunkSize (chip.sectorSize t) size) dev).1.mem i ≠ 0 := by
        rw [hchanged]
        split <;> decide
      split
      · exact hne
      split
      · rw [imageLoop_below _ _ _ _ _ _ _ _ _ _ hhi]
        exact hne
      · exact hne

private theorem writeShared_settles (chip : CfiPart) {env : Env} {blk : Nat} {cells : Nat → UInt8}
    (hcells : env.cells blk = some cells) (hcopy : env.copyFromUserOk = true)
    {variableLength size : Int} (image : Nat → UInt8) (pos : Nat) (dev : Dev)
    (hfit : size ≤ chip.sectorSize blk - variableLength) (hnonneg : 0 ≤ size) {i : Nat}
    (hlo : chip.base blk ≤ i) (hhi : i < chip.base (blk + 1)) :
    (writeShared env chip variableLength image blk pos size dev).1.mem i =
      cells (i - chip.base blk) := by
  have hsucc := chip.base_succ blk
  have heven := chip.sectorSize_even blk
  simp only [writeShared, flashWriteBuf, hcells, hcopy, if_true]
  rw [if_neg (by omega), if_neg (by omega), if_neg (by omega), if_neg (by omega)]
  simp only [Dev.emit_mem, FlashOp.apply]
  exact blit_inside _ _ hlo (by omega)

private theorem parameterAreaKept_of_safe (chip : CfiPart) (hstacked : Stacked chip info b)
    {addr size : Int} (hwhole : wholeImage chip addr size = false)
    (hsafe : SafeTarget chip info addr size) : ParameterAreaKept chip info addr size := by
  intro env image dev p hp i hi
  rcases cfiFlashGetBlk_off_or_sector chip addr with hoff | ⟨k, hk, hblk⟩
  · simp only [kerSysBcmImageSet, hoff]
    rfl
  rw [kerSysBcmImageSet_loop env chip info image 0 dev hblk hwhole]
  have habove := hstacked.holds_above hp hi
  simp only [SafeTarget, hblk, hstacked.sp.startBlk_eq, hstacked.va.startBlk_eq,
    Int.toNat_natCast] at hsafe
  rcases hsafe with hneg | ⟨hbelow, hend⟩ | ⟨hva, hrefused⟩
  · omega
  · apply (imageLoop_footprint env chip info false image (chip.numSectors - k) k 0 size dev).frame
    intro s hs
    have hsp : s < b.sp := by
      rcases hs with rfl | ⟨_, hlt⟩
      · omega
      · exact (chip.base_lt_iff hstacked.sp_lt_numSectors.le).mp (by omega)
    have hbase := chip.base_mono (show s + 1 ≤ b.sp from hsp)
    exact .inr (by omega)
  · obtain ⟨n, hn⟩ : ∃ n, chip.numSectors - k = n + 1 :=
      ⟨chip.numSectors - k - 1, by omega⟩
    have hsame : k = b.va := by exact_mod_cast hva
    rw [hn]
    simp only [imageLoop, hstacked.va.startBlk_eq, hsame, and_self, if_true, writeShared]
    rw [hsame] at hrefused
    split
    · rfl
    · rw [if_pos (by omega)]

/-- A call keeps the parameter area, whatever it writes, if and only if its target is safe. -/
theorem parameter_area_kept_iff (chip : CfiPart) (prior : Nat → UInt8) (bpGetPsiSize : Option Nat)
    (info : FlashAddrInfo) (hinit : kerSysFlashInit chip prior bpGetPsiSize = some info)
    (addr size : Int) (hwhole : wholeImage chip addr size = false) :
    ParameterAreaKept chip info addr size ↔ SafeTarget chip info addr size := by
  obtain ⟨b, hstacked⟩ :=
    kerSysFlashInit_stacked chip prior bpGetPsiSize info hinit
  refine ⟨?_, parameterAreaKept_of_safe chip hstacked hwhole⟩
  intro hkept
  have hsp := hstacked.sp.start_lt
  have htop := hstacked.sp_lt_numSectors
  rcases cfiFlashGetBlk_off_or_sector chip addr with hoff | ⟨k, hk, hblk⟩
  · exact .inl (by omega)
  simp only [SafeTarget, hblk, hstacked.sp.startBlk_eq, hstacked.va.startBlk_eq, Int.toNat_natCast]
  by_contra hunsafe
  -- a reached sector of the parameter area other than the VA one is erased
  have hdamage (t : Nat) (hkt : k ≤ t) (hspt : b.sp ≤ t)
      (htable : t < chip.numSectors)
      (hreach : t = k ∨ (chip.base t : Int) < chip.base k + size)
      (hva : ∀ s, k ≤ s → s ≤ t → s ≠ b.va) : False := by
    have hsize := chip.sectorSize_pos htable
    have hsucc := chip.base_succ t
    obtain ⟨p, hp, hholds⟩ := hstacked.covers hspt htable
    have hsame := hkept Env.working (fun _ => 1) ⟨fun _ => 0, []⟩ p hp _ hholds
    rw [kerSysBcmImageSet_loop _ chip info _ 0 _ hblk hwhole] at hsame
    refine imageLoop_damages chip info htable (by omega) (by omega)
      (chip.numSectors - k) k 0 size ⟨fun _ => 0, []⟩ (by omega) hkt hreach ?_ hsame
    intro s hks hst
    rw [hstacked.va.startBlk_eq]
    exact_mod_cast hva s hks hst
  rcases lt_or_ge k b.sp with hbelow | habove
  · exact hdamage b.sp (by omega) le_rfl htop (.inr (by omega)) (by intro s _ hs; omega)
  rcases lt_trichotomy k b.va with hlt | heq | hgt
  · exact hdamage k le_rfl habove hk (.inl rfl) (by intro s _ hs; omega)
  · -- the shared sector is lost when its write does not verify
    subst heq
    have hsize := chip.sectorSize_pos hk
    have hsucc := chip.base_succ b.va
    obtain ⟨p, hp, hholds⟩ := hstacked.covers habove hk
    obtain ⟨n, hn⟩ : ∃ n, chip.numSectors - b.va = n + 1 :=
      ⟨chip.numSectors - b.va - 1, by omega⟩
    have hsame := hkept ⟨fun _ => some (fun _ => 1), true, true⟩ (fun _ => 0)
      ⟨fun _ => 0, []⟩ p hp _ hholds
    rw [kerSysBcmImageSet_loop _ chip info _ 0 _ hblk hwhole, hn] at hsame
    simp only [imageLoop, hstacked.va.startBlk_eq, and_self, if_true] at hsame
    rw [writeShared_settles chip rfl rfl (fun _ => 0) 0 ⟨fun _ => 0, []⟩
      (by omega) (by omega) (by omega) (by omega)] at hsame
    revert hsame
    decide
  · exact hdamage k le_rfl habove hk (.inl rfl) (by intro s hs _; omega)

theorem topBoot_parameter_area_kept_iff :
    kerSysFlashInit topBootPart (fun _ => 0xFF) none = some topBootInfo ∧
    wholeImage topBootPart (0xBF000000 + 249 * 65536) 65536 = false ∧
    (ParameterAreaKept topBootPart topBootInfo (0xBF000000 + 249 * 65536) 65536 ↔
      SafeTarget topBootPart topBootInfo (0xBF000000 + 249 * 65536) 65536) :=
  ⟨kerSysFlashInit_topBoot (fun _ => 0xFF), by decide +kernel,
    parameter_area_kept_iff topBootChip (fun _ => 0xFF) none topBootInfo
      (kerSysFlashInit_topBoot (fun _ => 0xFF)) (0xBF000000 + 249 * 65536) 65536
      (by decide +kernel)⟩

/-- An image of one sector and two bytes, one sector below the scratch pad: its last byte does not
survive. -/
theorem oversized_image_erases_scratch_pad :
    kerSysFlashInit topBootPart (fun _ => 0xFF) none = some topBootInfo ∧
    wholeImage topBootPart (0xBF000000 + 249 * 65536) 65538 = false ∧
    topBootInfo.flashScratchPad ∈ topBootInfo.partitions ∧
    topBootInfo.flashScratchPad.Holds topBootPart (251 * 65536 - 1) ∧
    (kerSysBcmImageSet Env.working topBootPart topBootInfo
      (0xBF000000 + 249 * 65536) (fun _ => 1) 0 65538
      ⟨fun _ => 0, []⟩).1.mem (251 * 65536 - 1) ≠ 0 := by
  have hblk : cfiFlashGetBlk topBootPart (0xBF000000 + 249 * 65536) = (249 : Nat) := by
    decide +kernel
  have hwhole : wholeImage topBootPart (0xBF000000 + 249 * 65536) 65538 = false := by
    decide +kernel
  refine ⟨kerSysFlashInit_topBoot _, hwhole, by decide, ?_, ?_⟩
  · unfold Partition.Holds
    decide +kernel
  have hva : topBootInfo.flashVariable.startBlk = 251 := rfl
  have hlo : topBootChip.base 250 ≤ 251 * 65536 - 1 := by
    decide +kernel
  have hhi : 251 * 65536 - 1 < topBootChip.base (250 + 1) := by
    decide +kernel
  rw [kerSysBcmImageSet_loop _ topBootPart topBootInfo _ 0 _ hblk hwhole]
  apply imageLoop_damages topBootChip topBootInfo (by decide +kernel) hlo hhi
  · decide +kernel
  · decide
  · exact .inr (by decide +kernel)
  · intro s _ hs
    omega

end EchoLife.Flash
